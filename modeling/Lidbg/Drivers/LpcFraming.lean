import Lidbg.Drivers.Lpc

/-!
# What the LPC receiver knows about the stream

`Framing h hw` relates the receiver's registers to everything it has consumed:
in status 1 the stream ends in `0xFF`, in status 2 in a header, in status 3 in
a header, a length byte and the part of the body stored so far. One step lemma
(`framing_step`) keeps it, as long as the byte taken as a length lies in
`1..129` (`LengthOk`), and says of every delivery that the stream now ends in
the frame the sender builds for it. The claims about runs follow from it.
-/

namespace Lidbg.Lpc

open Machine

/-! ## One step of the receiver -/

/-- The receiver inside a body: length byte `m`, bytes `got` stored so far. -/
structure Receiving (m : UInt8) (got : List UInt8) (hw : FlyHardwareInfo) : Prop where
  status : hw.buffFromMCUProcessorStatus = 3
  max : hw.buffFromMCUFrameLengthMax = m.toUInt32
  length : hw.buffFromMCUFrameLength.toNat = got.length
  crc : hw.buffFromMCUCRC = checksum m got
  buff : hw.buffFromMCU.toList.take got.length = got

theorem toNat_lengthMax_sub_one {m : UInt8} (hm : 1 ≤ m) :
    (m.toUInt32 - 1).toNat = m.toNat - 1 := by
  have h1 : 1 ≤ m.toNat := UInt8.le_iff_toNat_le.mp hm
  have hlt := m.toNat_lt
  rw [UInt32.toNat_sub]
  simp only [UInt8.toNat_toUInt32, UInt32.reduceToNat]
  omega

/-- The byte after the header opens a body, whatever it is. -/
theorem readByte_length {hw : FlyHardwareInfo} (h : hw.buffFromMCUProcessorStatus = 2)
    (b : UInt8) :
    ∃ hw', readByte hw b = some (hw', []) ∧ Receiving b [] hw' :=
  ⟨_, readByte_header h b, ⟨rfl, rfl, rfl, rfl, rfl⟩⟩

/-- A byte before the last of the body is stored, and the store is inside the
array. -/
theorem readByte_store {m : UInt8} {got : List UInt8} {hw : FlyHardwareInfo}
    (h : Receiving m got hw) (hm : 1 ≤ m) (hle : m ≤ 129)
    (hlt : got.length + 1 < m.toNat) (b : UInt8) :
    ∃ hw', readByte hw b = some (hw', []) ∧ Receiving m (got ++ [b]) hw' := by
  have hmax : m.toNat ≤ 129 := UInt8.le_iff_toNat_le.mp hle
  have hroom : hw.buffFromMCUFrameLength < hw.buffFromMCUFrameLengthMax - 1 := by
    rw [UInt32.lt_iff_toNat_lt, h.max, toNat_lengthMax_sub_one hm, h.length]
    omega
  have hidx : hw.buffFromMCUFrameLength.toNat < dataBuffLengthFromMCU := by
    rw [h.length]
    show got.length < 128
    omega
  have hstep := readByte_body h.status hroom b
  rw [dif_pos hidx] at hstep
  refine ⟨_, hstep, h.status, h.max, ?_, ?_, ?_⟩
  · show (hw.buffFromMCUFrameLength + 1).toNat = _
    rw [UInt32.toNat_add, h.length, List.length_append]
    simp only [UInt32.reduceToNat, List.length_singleton]
    omega
  · show hw.buffFromMCUCRC + b = _
    rw [h.crc, checksum_snoc]
  · show (hw.buffFromMCU.set _ b hidx).toList.take (got ++ [b]).length = got ++ [b]
    have hlen : got.length < hw.buffFromMCU.toList.length := by
      rw [Vector.length_toList]
      exact h.length ▸ hidx
    rw [Vector.toList_set, h.length, List.length_append, List.length_singleton,
      List.take_set, List.take_add_one, h.buff, List.getElem?_eq_getElem hlen]
    simp

/-- The byte after the body closes the frame; it is delivered exactly when the
checksum agrees. -/
theorem readByte_close {m : UInt8} {got : List UInt8} {hw : FlyHardwareInfo}
    (h : Receiving m got hw) (hm : 1 ≤ m) (hlast : got.length + 1 = m.toNat) (b : UInt8) :
    readByte hw b =
      some ({ hw with buffFromMCUProcessorStatus := 0 },
        if checksum m got = b then [⟨hw.buffFromMCU, m.toUInt32 - 1⟩] else []) := by
  have hfull : ¬ hw.buffFromMCUFrameLength < hw.buffFromMCUFrameLengthMax - 1 := by
    rw [UInt32.lt_iff_toNat_lt, h.max, toNat_lengthMax_sub_one hm, h.length]
    omega
  rw [readByte_last h.status hfull, h.crc, h.max]

/-! ## Frames and noise -/

/-- The rest of a body, stored byte by byte. -/
theorem run_body {m : UInt8} (hm : 1 ≤ m) (hle : m ≤ 129) (rest : List UInt8) :
    ∀ {got : List UInt8} {hw : FlyHardwareInfo}, Receiving m got hw →
      got.length + rest.length < m.toNat →
      ∃ hw', run readByte hw rest = some (hw', []) ∧ Receiving m (got ++ rest) hw' := by
  induction rest with
  | nil =>
    intro got hw h _
    exact ⟨hw, rfl, by rwa [List.append_nil]⟩
  | cons b rest ih =>
    intro got hw h hlt
    rw [List.length_cons] at hlt
    obtain ⟨hw₁, hs, h₁⟩ := readByte_store h hm hle (by omega) b
    have hroom : (got ++ [b]).length + rest.length < m.toNat := by
      rw [List.length_append, List.length_singleton]
      omega
    obtain ⟨hw₂, hr, h₂⟩ := ih h₁ hroom
    refine ⟨hw₂, ?_, ?_⟩
    · simpa using run_cons_eq hs hr
    · rwa [List.append_assoc] at h₂

/-- The arguments a delivery is judged by: the bytes looked at and their
number. -/
def DealCall.args (c : DealCall) : List UInt8 × Nat :=
  (c.data, c.length.toNat)

/-- **A header, a length byte and as many bytes as it says**, from status 0 or 1: the
receiver takes them all and is idle again, and delivers them if the last is their
checksum. -/
theorem run_lengthFrame {hw : FlyHardwareInfo} {m : UInt8} {q : List UInt8}
    (hq : q.length ≤ 128) (hm : m.toNat = q.length + 1) (c : UInt8)
    (hidle : hw.buffFromMCUProcessorStatus = 0 ∨ hw.buffFromMCUProcessorStatus = 1) :
    ∃ hw', run readByte hw (0xFF :: 0x55 :: m :: (q ++ [c])) =
        some (hw', if checksum m q = c then [⟨hw'.buffFromMCU, m.toUInt32 - 1⟩] else []) ∧
      hw'.buffFromMCU.toList.take q.length = q ∧ hw'.buffFromMCUProcessorStatus = 0 := by
  obtain ⟨hw₁, h₁, hst₁⟩ : ∃ hw₁, readByte hw 0xFF = some (hw₁, []) ∧
      hw₁.buffFromMCUProcessorStatus = 1 := by
    rcases hidle with h0 | h1
    · exact ⟨_, readByte_idle h0 _, rfl⟩
    · exact ⟨_, readByte_sync h1 _, rfl⟩
  have h₂ := readByte_sync hst₁ 0x55
  have hm1 : 1 ≤ m := UInt8.le_iff_toNat_le.mpr (by rw [hm]; exact Nat.le_add_left 1 _)
  have hle : m ≤ 129 := UInt8.le_iff_toNat_le.mpr (by rw [hm]; exact Nat.succ_le_succ hq)
  have hst₂ : { hw₁ with buffFromMCUProcessorStatus := 2 }.buffFromMCUProcessorStatus = 2 := rfl
  obtain ⟨hw₃, h₃, hrec⟩ := readByte_length hst₂ m
  obtain ⟨hw₄, h₄, hrec'⟩ := run_body hm1 hle q hrec (by simp [hm])
  rw [List.nil_append] at hrec'
  have h₅ := readByte_close hrec' hm1 hm.symm c
  refine ⟨{ hw₄ with buffFromMCUProcessorStatus := 0 }, ?_, hrec'.buff, rfl⟩
  have hrun := run_cons_eq h₁ (run_cons_eq h₂ (run_cons_eq h₃ (run_snoc h₄ h₅)))
  simpa only [List.nil_append] using hrun

/-- The length byte is exact: 128 + 1 fits a `BYTE`. -/
theorem toNat_lengthByte {p : List UInt8} (hp : p.length ≤ 128) :
    (UInt8.ofNat (p.length + 1)).toNat = p.length + 1 := by
  rw [UInt8.toNat_ofNat']
  omega

/-- **One frame, one delivery.** From status 0 or 1 the receiver consumes the
frame of a payload of at most 128 bytes, makes exactly one call, with that
payload, and is idle again. -/
theorem run_frame {hw : FlyHardwareInfo} {p : List UInt8} (hp : p.length ≤ 128)
    (hidle : hw.buffFromMCUProcessorStatus = 0 ∨ hw.buffFromMCUProcessorStatus = 1) :
    ∃ hw' c, run readByte hw (lpcFrame p) = some (hw', [c]) ∧
      c.args = (p, p.length) ∧ hw'.buffFromMCUProcessorStatus = 0 := by
  have hmNat := toNat_lengthByte hp
  unfold lpcFrame
  generalize UInt8.ofNat (p.length + 1) = m at hmNat
  have hm1 : 1 ≤ m := UInt8.le_iff_toNat_le.mpr (by rw [hmNat]; exact Nat.le_add_left 1 _)
  obtain ⟨hw', hrun, hbuff, hst⟩ := run_lengthFrame hp hmNat (checksum m p) hidle
  rw [if_pos rfl] at hrun
  refine ⟨hw', ⟨hw'.buffFromMCU, m.toUInt32 - 1⟩, hrun, ?_, hst⟩
  have hn : (m.toUInt32 - 1).toNat = p.length := by
    rw [toNat_lengthMax_sub_one hm1, hmNat]
    rfl
  show (hw'.buffFromMCU.toList.take (m.toUInt32 - 1).toNat, (m.toUInt32 - 1).toNat) = _
  rw [hn, hbuff]

/-! ## One byte altered -/

theorem checksum_inj {s t : UInt8} (p : List UInt8) : checksum s p = checksum t p ↔ s = t := by
  induction p generalizing s t with
  | nil => exact Iff.rfl
  | cons b p ih =>
    show checksum (s + b) p = checksum (t + b) p ↔ s = t
    rw [ih]
    exact UInt8.add_left_inj b

/-- Another byte of the payload gives another checksum. -/
theorem checksum_set_ne (m : UInt8) {p : List UInt8} {i : Nat} {b : UInt8} (hi : i < p.length)
    (hb : p[i] ≠ b) : checksum m (p.set i b) ≠ checksum m p := by
  induction p generalizing m i with
  | nil => exact absurd hi (Nat.not_lt_zero i)
  | cons a p ih =>
    cases i with
    | zero =>
      intro h
      exact hb ((UInt8.add_right_inj m).mp ((checksum_inj p).mp h)).symm
    | succ i => exact ih (m + a) (Nat.lt_of_succ_lt_succ hi) hb

/-- A frame with one byte behind its length altered is a frame with a wrong checksum. -/
theorem lpcFrame_set {p : List UInt8} {i : Nat} {b : UInt8} (hi : 3 ≤ i)
    (hlt : i < (lpcFrame p).length) (hb : (lpcFrame p)[i] ≠ b) :
    ∃ q c, (lpcFrame p).set i b = 0xFF :: 0x55 :: UInt8.ofNat (p.length + 1) :: (q ++ [c]) ∧
      q.length = p.length ∧ checksum (UInt8.ofNat (p.length + 1)) q ≠ c := by
  obtain ⟨j, rfl⟩ := Nat.exists_eq_add_of_le' hi
  rw [length_lpcFrame] at hlt
  have hset : (lpcFrame p).set (j + 3) b = 0xFF :: 0x55 :: UInt8.ofNat (p.length + 1) ::
      (p ++ [checksum (UInt8.ofNat (p.length + 1)) p]).set j b := rfl
  have hj : j < (p ++ [checksum (UInt8.ofNat (p.length + 1)) p]).length := by
    rw [List.length_append, List.length_singleton]
    omega
  have hget : (p ++ [checksum (UInt8.ofNat (p.length + 1)) p])[j] ≠ b := hb
  rcases Nat.lt_or_ge j p.length with hj | hj
  · rw [List.getElem_append_left hj] at hget
    refine ⟨p.set j b, checksum (UInt8.ofNat (p.length + 1)) p, ?_, List.length_set,
      checksum_set_ne _ hj hget⟩
    rw [hset, List.set_append_left j b hj]
  · obtain rfl : j = p.length := by omega
    rw [List.getElem_append_right (Nat.le_refl _)] at hget
    refine ⟨p, b, ?_, rfl, by simpa using hget⟩
    rw [hset, List.set_append_right _ _ (Nat.le_refl _), Nat.sub_self]
    rfl

/-- **An altered byte is detected**: with one byte of the payload or the checksum byte
replaced, the frame is taken in full, however it is cut into calls, and not delivered. -/
theorem readCalls_altered {hw : FlyHardwareInfo} {p : List UInt8} (hp : p.length ≤ 128)
    {i : Nat} {b : UInt8} (hi : 3 ≤ i) (hlt : i < (lpcFrame p).length) (hb : (lpcFrame p)[i] ≠ b)
    {ps : List (List UInt8)} (hcut : ps.flatten = (lpcFrame p).set i b)
    (hidle : hw.buffFromMCUProcessorStatus = 0) :
    ∃ hw', readCalls hw ps = some (hw', []) ∧ hw'.buffFromMCUProcessorStatus = 0 := by
  obtain ⟨q, c, hset, hlen, hsum⟩ := lpcFrame_set hi hlt hb
  have hm : (UInt8.ofNat (p.length + 1)).toNat = q.length + 1 := by
    rw [toNat_lengthByte hp, hlen]
  obtain ⟨hw', hrun, -, hst⟩ := run_lengthFrame (hlen ▸ hp) hm c (.inl hidle)
  rw [if_neg hsum] at hrun
  exact ⟨hw', by rw [readCalls_eq, hcut, hset, hrun], hst⟩

/-- The ping `7F` with its payload byte altered. -/
theorem readCalls_altered_ping :
    ∃ hw', readCalls globalHardwareInfo [[0xFF, 0x55], [0x02, 0x7E, 0x81]] = some (hw', []) ∧
      hw'.buffFromMCUProcessorStatus = 0 :=
  readCalls_altered (p := [0x7F]) (by decide) (i := 3) (b := 0x7E) (by decide) (by decide)
    (by decide) (by decide) rfl

/-- A byte string in which `0xFF` is never followed by `0x55`. -/
def NoHeader (l : List UInt8) : Prop :=
  ¬ [0xFF, 0x55] <:+: l

instance : DecidablePred NoHeader := fun l =>
  inferInstanceAs (Decidable (¬ [0xFF, 0x55] <:+: l))

/-- Noise keeps the receiver looking for a header: it delivers nothing, and
status 1 means that the last byte was `0xFF`. -/
theorem run_noise {hw : FlyHardwareInfo} (hidle : hw.buffFromMCUProcessorStatus = 0)
    {l : List UInt8} (hl : NoHeader l) :
    ∃ hw', run readByte hw l = some (hw', []) ∧
      (hw'.buffFromMCUProcessorStatus = 0 ∨
        hw'.buffFromMCUProcessorStatus = 1 ∧ l.getLast? = some 0xFF) := by
  induction l using List.reverseRecOn with
  | nil => exact ⟨hw, rfl, .inl hidle⟩
  | append_singleton l b ih =>
    obtain ⟨hw₁, hr, hst⟩ := ih fun hc => hl (hc.trans (List.infix_append' [] l [b]))
    rcases hst with h0 | ⟨h1, hlast⟩
    · refine ⟨_, run_snoc hr (readByte_idle h0 b), ?_⟩
      by_cases hb : b = 0xFF
      · exact .inr ⟨if_pos hb, by rw [hb]; simp⟩
      · exact .inl (if_neg hb)
    · refine ⟨_, run_snoc hr (readByte_sync h1 b), ?_⟩
      by_cases hb : b = 0xFF
      · exact .inr ⟨if_pos hb, by rw [hb]; simp⟩
      · -- the byte after a final `0xFF` is not `0x55`: that would be a header
        have hb' : b ≠ 0x55 := by
          rintro rfl
          obtain ⟨t, ht⟩ := List.getLast?_eq_some_iff.mp hlast
          refine hl ⟨t, [], ?_⟩
          rw [ht]
          simp
        left
        show (if b = 0xFF then 1 else if b = 0x55 then 2 else 0) = (0 : UInt8)
        rw [if_neg hb, if_neg hb']

/-- The stream of noise strings and frames, with noise after the last frame. -/
def stream (segs : List (List UInt8 × List UInt8)) (rest : List UInt8) : List UInt8 :=
  segs.flatMap (fun s => s.1 ++ wire s.2) ++ rest

theorem run_stream (segs : List (List UInt8 × List UInt8)) {rest : List UInt8}
    (hlen : ∀ s ∈ segs, s.2.length ≤ 128) (hnoise : ∀ s ∈ segs, NoHeader s.1)
    (hrest : NoHeader rest) :
    ∀ {hw : FlyHardwareInfo}, hw.buffFromMCUProcessorStatus = 0 →
      ∃ hw' calls, run readByte hw (stream segs rest) = some (hw', calls) ∧
        calls.map DealCall.args = segs.map (fun s => (s.2, s.2.length)) ∧
        (hw'.buffFromMCUProcessorStatus = 0 ∨ hw'.buffFromMCUProcessorStatus = 1) := by
  induction segs with
  | nil =>
    intro hw h
    obtain ⟨hw', hr, hst⟩ := run_noise h hrest
    exact ⟨hw', [], hr, rfl, hst.imp id And.left⟩
  | cons s segs ih =>
    intro hw h
    obtain ⟨hw₁, h₁, hst₁⟩ := run_noise h (hnoise s List.mem_cons_self)
    obtain ⟨hw₂, c, h₂, hargs, hst₂⟩ :=
      run_frame (hlen s List.mem_cons_self) (hst₁.imp id And.left)
    obtain ⟨hw₃, calls, h₃, hmap, hst₃⟩ :=
      ih (fun t ht => hlen t (List.mem_cons_of_mem s ht))
        (fun t ht => hnoise t (List.mem_cons_of_mem s ht)) hst₂
    refine ⟨hw₃, c :: calls, ?_, ?_, hst₃⟩
    · have := run_append h₁ (run_append h₂ h₃)
      simpa [stream] using this
    · rw [List.map_cons, List.map_cons, hargs, hmap]

/-- **Round trip over a whole stream.** Frames among header-free noise, cut
into calls of any sizes, are delivered once each, in order, with exactly their
payload; the receiver ends waiting for a header. -/
theorem readCalls_stream (segs : List (List UInt8 × List UInt8)) (rest : List UInt8)
    (ps : List (List UInt8)) (hw : FlyHardwareInfo)
    (hlen : ∀ s ∈ segs, s.2.length ≤ 128) (hnoise : ∀ s ∈ segs, NoHeader s.1)
    (hrest : NoHeader rest) (hcut : ps.flatten = stream segs rest)
    (hidle : hw.buffFromMCUProcessorStatus = 0) :
    ∃ hw' calls, readCalls hw ps = some (hw', calls) ∧
      calls.map DealCall.args = segs.map (fun s => (s.2, s.2.length)) ∧
      (hw'.buffFromMCUProcessorStatus = 0 ∨ hw'.buffFromMCUProcessorStatus = 1) := by
  rw [readCalls_eq, hcut]
  exact run_stream segs hlen hnoise hrest hidle

/-- A payload that itself contains a header, after noise ending in `0xFF`, cut
inside the header and inside the payload. -/
theorem readCalls_stream_cut :
    ∃ hw' calls, readCalls globalHardwareInfo
        [[0x01, 0xFF, 0xFF], [0x55, 0x04, 0xFF], [0x55, 0x07, 0x5F, 0xFF]] =
          some (hw', calls) ∧
      calls.map DealCall.args = [([0xFF, 0x55, 0x07], 3)] ∧
      (hw'.buffFromMCUProcessorStatus = 0 ∨ hw'.buffFromMCUProcessorStatus = 1) :=
  readCalls_stream [([0x01, 0xFF], [0xFF, 0x55, 0x07])] [0xFF] _ globalHardwareInfo
    (by decide) (by decide) (by decide) (by decide) rfl

/-! ## The registers and the history of the stream -/

/-- The receiver's registers after consuming `h` from the zeroed state. -/
inductive Framing : List UInt8 → FlyHardwareInfo → Prop where
  | idle {h : List UInt8} {hw : FlyHardwareInfo} :
      hw.buffFromMCUProcessorStatus = 0 → Framing h hw
  | sync {t : List UInt8} {hw : FlyHardwareInfo} :
      hw.buffFromMCUProcessorStatus = 1 → Framing (t ++ [0xFF]) hw
  | header {t : List UInt8} {hw : FlyHardwareInfo} :
      hw.buffFromMCUProcessorStatus = 2 → Framing (t ++ [0xFF, 0x55]) hw
  | body {t got : List UInt8} {m : UInt8} {hw : FlyHardwareInfo} :
      1 ≤ m → m ≤ 129 → got.length < m.toNat → Receiving m got hw →
      Framing (t ++ [0xFF, 0x55, m] ++ got) hw

/-- The side condition of a step: a byte taken as a length lies in `1..129`. -/
def LengthOk (_ : List UInt8) (_ : List DealCall) (hw : FlyHardwareInfo) (b : UInt8) :
    Prop :=
  hw.buffFromMCUProcessorStatus = 2 → 1 ≤ b ∧ b ≤ 129

instance (h : List UInt8) (o : List DealCall) (hw : FlyHardwareInfo) (b : UInt8) :
    Decidable (LengthOk h o hw b) :=
  inferInstanceAs (Decidable (_ → _))

/-- A delivery is sound for the bytes consumed so far: they end in the frame
the sender builds for the bytes delivered. -/
def SoundAt (h : List UInt8) (c : DealCall) : Prop :=
  wire c.data <:+ h ∧ (wire c.data).length = c.length.toNat + 4

/-- The checksum byte: the frame is closed, and a delivery is sound. -/
theorem close_sound {t got : List UInt8} {m b : UInt8} {hw : FlyHardwareInfo}
    (h : Receiving m got hw) (hm : 1 ≤ m) (hlast : got.length + 1 = m.toNat)
    (hcrc : checksum m got = b) :
    SoundAt (t ++ [0xFF, 0x55, m] ++ got ++ [b])
      ⟨hw.buffFromMCU, m.toUInt32 - 1⟩ := by
  have hn : (m.toUInt32 - 1).toNat = got.length := by
    rw [toNat_lengthMax_sub_one hm]
    omega
  have hdata : (DealCall.mk hw.buffFromMCU (m.toUInt32 - 1)).data = got := by
    show hw.buffFromMCU.toList.take (m.toUInt32 - 1).toNat = got
    rw [hn, h.buff]
  have hbyte : UInt8.ofNat (got.length + 1) = m := by
    rw [hlast, UInt8.ofNat_toNat]
  constructor
  · refine ⟨t, ?_⟩
    rw [hdata, wire_eq, lpcFrame, hbyte, hcrc]
    simp
  · rw [hdata, wire_eq, length_lpcFrame, hn]

/-- **The step lemma.** A step whose length byte, if it takes one, lies in
`1..129` stays inside the array, keeps `Framing` and delivers soundly. -/
theorem framing_step {h : List UInt8} {hw : FlyHardwareInfo} (hf : Framing h hw)
    {b : UInt8} (hok : hw.buffFromMCUProcessorStatus = 2 → 1 ≤ b ∧ b ≤ 129) :
    ∃ hw' o, readByte hw b = some (hw', o) ∧ Framing (h ++ [b]) hw' ∧
      ∀ c ∈ o, SoundAt (h ++ [b]) c := by
  have hnone : ∀ c ∈ ([] : List DealCall), SoundAt (h ++ [b]) c := fun _ hc => nomatch hc
  cases hf with
  | idle hst =>
    refine ⟨_, _, readByte_idle hst b, ?_, hnone⟩
    by_cases hb : b = 0xFF
    · subst hb
      exact .sync rfl
    · exact .idle (if_neg hb)
  | sync hst =>
    refine ⟨_, _, readByte_sync hst b, ?_, hnone⟩
    by_cases hb : b = 0xFF
    · subst hb
      exact .sync rfl
    by_cases hb' : b = 0x55
    · subst hb'
      rw [List.append_assoc]
      exact .header rfl
    · refine .idle ?_
      show (if b = 0xFF then 1 else if b = 0x55 then 2 else 0) = (0 : UInt8)
      rw [if_neg hb, if_neg hb']
  | @header t _ hst =>
    -- the length is in the range that the buffer and the counter take
    obtain ⟨hm, hle⟩ := hok hst
    obtain ⟨hw', hs, hrec⟩ := readByte_length hst b
    refine ⟨hw', [], hs, ?_, hnone⟩
    have hlen : ([] : List UInt8).length < b.toNat := UInt8.le_iff_toNat_le.mp hm
    have := Framing.body (t := t) hm hle hlen hrec
    simpa using this
  | @body t got m _ hm hle hlt hrec =>
    by_cases hlast : got.length + 1 = m.toNat
    · refine ⟨_, _, readByte_close hrec hm hlast b, .idle rfl, ?_⟩
      intro c hc
      -- the last byte closes the frame, whether the sum is right or not
      by_cases hcrc : checksum m got = b
      · rw [if_pos hcrc, List.mem_singleton] at hc
        rw [hc]
        exact close_sound hrec hm hlast hcrc
      · rw [if_neg hcrc] at hc
        cases hc
    · -- one more byte of the body
      obtain ⟨hw', hs, hrec'⟩ := readByte_store hrec hm hle (by omega) b
      refine ⟨hw', [], hs, ?_, hnone⟩
      rw [List.append_assoc]
      exact .body hm hle (by rw [List.length_append, List.length_singleton]; omega) hrec'

/-- Every run whose length bytes lie in `1..129` keeps `Framing`. -/
theorem run_framing {s : List UInt8}
    (hs : StepsMeet readByte LengthOk globalHardwareInfo s) :
    ∃ hw calls, run readByte globalHardwareInfo s = some (hw, calls) ∧ Framing s hw := by
  refine run_invariant (I := fun h _ hw => Framing h hw) ?_ (.idle rfl) hs
  intro h _ hw b hf hok
  obtain ⟨hw', o', hstep, hf', -⟩ := framing_step hf hok
  exact ⟨hw', o', hstep, hf'⟩

/-- **Soundness.** Over a stream whose length bytes lie in `1..129`, whatever
the step that consumes the last byte of `pre ++ [b]` delivers is the payload of
a frame that the stream has just ended in. -/
theorem delivery_sound (s : List UInt8)
    (hs : StepsMeet readByte LengthOk globalHardwareInfo s)
    (ps : List (List UInt8)) (b : UInt8) (hpre : ps.flatten ++ [b] <+: s)
    (hw hw' : FlyHardwareInfo) (calls o : List DealCall)
    (hrun : readCalls globalHardwareInfo ps = some (hw, calls))
    (hstep : readByte hw b = some (hw', o)) :
    ∀ c ∈ o, wire c.data <:+ ps.flatten ++ [b] ∧
      (wire c.data).length = c.length.toNat + 4 := by
  rw [readCalls_eq] at hrun
  obtain ⟨hw₀, calls₀, hrun₀, hf⟩ :=
    run_framing (hs.of_prefix ((List.prefix_append _ _).trans hpre))
  rw [hrun] at hrun₀
  cases hrun₀
  obtain ⟨hw₁, o₁, hstep₁, -, hsound⟩ :=
    framing_step hf (hs _ b hpre hw calls hrun)
  rw [hstep] at hstep₁
  cases hstep₁
  exact hsound

/-- The ping `7F`, delivered in two calls. -/
def ping : DealCall := ⟨globalHardwareInfo.buffFromMCU.set 0 0x7F, 1⟩

theorem delivery_sound_ping :
    wire ping.data <:+ [0xFF, 0x55, 0x02, 0x7F] ++ [0x81] ∧
      (wire ping.data).length = ping.length.toNat + 4 :=
  delivery_sound [0xFF, 0x55, 0x02, 0x7F, 0x81] (by decide)
    [[0xFF, 0x55], [0x02, 0x7F]] 0x81 List.prefix_rfl _ _ _ [ping] rfl rfl ping
    List.mem_cons_self

/-! ## The representation invariant -/

/-- What the receiver's registers are meant to satisfy between any two bytes. -/
structure WellFramed (hw : FlyHardwareInfo) : Prop where
  status_le : hw.buffFromMCUProcessorStatus ≤ 3
  length_le : hw.buffFromMCUProcessorStatus = 3 →
    hw.buffFromMCUFrameLength ≤ hw.buffFromMCUFrameLengthMax - 1
  max_le : hw.buffFromMCUProcessorStatus = 3 → hw.buffFromMCUFrameLengthMax - 1 ≤ 128
  store_lt : hw.buffFromMCUProcessorStatus = 3 →
    hw.buffFromMCUFrameLength < hw.buffFromMCUFrameLengthMax - 1 →
    hw.buffFromMCUFrameLength.toNat < dataBuffLengthFromMCU

/-- An open body is closed within `n` further bytes, whatever they are. -/
def ClosesWithin (n : Nat) (hw : FlyHardwareInfo) : Prop :=
  hw.buffFromMCUProcessorStatus = 3 → ∀ more : List UInt8, n ≤ more.length →
    ∃ k, 0 < k ∧ k ≤ n ∧
      (∀ j < k, ∃ hw' o, run readByte hw (more.take j) = some (hw', o) ∧
        hw'.buffFromMCUProcessorStatus = 3) ∧
      ∃ hw' o, run readByte hw (more.take k) = some (hw', o) ∧
        hw'.buffFromMCUProcessorStatus = 0

theorem Receiving.wellFramed {m : UInt8} {got : List UInt8} {hw : FlyHardwareInfo}
    (h : Receiving m got hw) (hm : 1 ≤ m) (hle : m ≤ 129) (hlt : got.length < m.toNat) :
    WellFramed hw := by
  have hmax : m.toNat ≤ 129 := UInt8.le_iff_toNat_le.mp hle
  have hn : (hw.buffFromMCUFrameLengthMax - 1).toNat = m.toNat - 1 := by
    rw [h.max, toNat_lengthMax_sub_one hm]
  refine ⟨?_, fun _ => ?_, fun _ => ?_, fun _ hroom => ?_⟩
  · rw [h.status]
    exact UInt8.le_refl 3
  · rw [UInt32.le_iff_toNat_le, hn, h.length]
    omega
  · rw [UInt32.le_iff_toNat_le, hn]
    show m.toNat - 1 ≤ 128
    omega
  · rw [UInt32.lt_iff_toNat_lt, hn] at hroom
    show hw.buffFromMCUFrameLength.toNat < 128
    omega

theorem Framing.wellFramed {h : List UInt8} {hw : FlyHardwareInfo} (hf : Framing h hw) :
    WellFramed hw := by
  -- outside a body three of the clauses are about a status the receiver is not in
  have hout : ∀ s : UInt8, s ≤ 2 → hw.buffFromMCUProcessorStatus = s → WellFramed hw := by
    intro s hs hst
    have hne : hw.buffFromMCUProcessorStatus ≠ 3 := by
      rintro h3
      rw [hst] at h3
      rw [h3] at hs
      exact absurd hs (by decide)
    refine ⟨?_, fun h3 => absurd h3 hne, fun h3 => absurd h3 hne,
      fun h3 => absurd h3 hne⟩
    rw [hst]
    exact UInt8.le_trans hs (by decide)
  cases hf with
  | idle hst => exact hout 0 (by decide) hst
  | sync hst => exact hout 1 (by decide) hst
  | header hst => exact hout 2 (by decide) hst
  | body hm hle hlt hrec => exact hrec.wellFramed hm hle hlt

theorem Receiving.closes {m : UInt8} {got : List UInt8} {hw : FlyHardwareInfo}
    (h : Receiving m got hw) (hm : 1 ≤ m) (hle : m ≤ 129) (hlt : got.length < m.toNat) :
    ClosesWithin 129 hw := by
  intro _ more hmore
  have hmax : m.toNat ≤ 129 := UInt8.le_iff_toNat_le.mp hle
  refine ⟨m.toNat - got.length, by omega, by omega, fun j hj => ?_, ?_⟩
  · obtain ⟨hw', hr, hrec⟩ := run_body hm hle (more.take j) h (by rw [List.length_take]; omega)
    exact ⟨hw', [], hr, hrec.status⟩
  · -- the body takes all but the last of these bytes, the last is the checksum
    obtain ⟨j, hj⟩ : ∃ j, m.toNat - got.length = j + 1 := ⟨m.toNat - got.length - 1, by omega⟩
    have hjlt : j < more.length := by omega
    obtain ⟨hw', hr, hrec⟩ := run_body hm hle (more.take j) h (by rw [List.length_take]; omega)
    have hlast : (got ++ more.take j).length + 1 = m.toNat := by
      rw [List.length_append, List.length_take]
      omega
    have hsplit : more.take (m.toNat - got.length) = more.take j ++ [more[j]] := by
      rw [hj, List.take_add_one, List.getElem?_eq_getElem hjlt]
      rfl
    rw [hsplit]
    exact ⟨_, _, run_snoc hr (readByte_close hrec hm hlast more[j]), rfl⟩

theorem Framing.closes {h : List UInt8} {hw : FlyHardwareInfo} (hf : Framing h hw) :
    ClosesWithin 129 hw := by
  intro h3
  cases hf with
  | idle hst => rw [hst] at h3; exact absurd h3 (by decide)
  | sync hst => rw [hst] at h3; exact absurd h3 (by decide)
  | header hst => rw [hst] at h3; exact absurd h3 (by decide)
  | body hm hle hlt hrec => exact hrec.closes hm hle hlt h3

/-- A length byte that keeps the receiver well framed lies in `1..129`. -/
theorem lengthOk_of_wellFramed {hw : FlyHardwareInfo} {b : UInt8}
    (hst : hw.buffFromMCUProcessorStatus = 2) {hw' : FlyHardwareInfo} {o : List DealCall}
    (hs : readByte hw b = some (hw', o)) (hwf : WellFramed hw') : 1 ≤ b ∧ b ≤ 129 := by
  rw [readByte_header hst b] at hs
  cases hs
  have hmax : b.toUInt32 - 1 ≤ 128 := hwf.max_le rfl
  rw [UInt32.le_iff_toNat_le, UInt32.toNat_sub] at hmax
  have hlt := b.toNat_lt
  simp only [UInt8.toNat_toUInt32, UInt32.reduceToNat] at hmax
  constructor
  · refine UInt8.le_iff_toNat_le.mpr ?_
    show 1 ≤ b.toNat
    omega
  · refine UInt8.le_iff_toNat_le.mpr ?_
    show b.toNat ≤ 129
    omega

/-- The property asked of the receiver for one stream: however any prefix is
cut into calls, no store leaves the array, the registers are well framed and an
open body is closed within 129 bytes. -/
def KeepsFrame (s : List UInt8) : Prop :=
  ∀ ps : List (List UInt8), ps.flatten <+: s →
    ∃ hw calls, readCalls globalHardwareInfo ps = some (hw, calls) ∧
      WellFramed hw ∧ ClosesWithin 129 hw

/-- **The representation invariant holds exactly on the streams whose length
bytes lie in `1..129`.** -/
theorem keepsFrame_iff (s : List UInt8) :
    KeepsFrame s ↔ StepsMeet readByte LengthOk globalHardwareInfo s := by
  constructor
  · -- one byte further the registers are well framed, so the length byte was in range
    intro hk pre b hpre hw o hrun hst
    obtain ⟨hw', calls, hr, hwf, -⟩ := hk [pre ++ [b]] (by simpa using hpre)
    rw [readCalls_eq, List.flatten_cons, List.flatten_nil, List.append_nil] at hr
    obtain ⟨hw₁, o₁, o₂, h₁, h₂, -⟩ := run_append_inv hr
    rw [hrun] at h₁
    cases h₁
    obtain ⟨hw₂, o₃, o₄, h₃, h₄, -⟩ := run_cons_inv h₂
    cases h₄
    exact lengthOk_of_wellFramed hst h₃ hwf
  · intro hs ps hps
    obtain ⟨hw, calls, hr, hf⟩ := run_framing (hs.of_prefix hps)
    exact ⟨hw, calls, by rw [readCalls_eq, hr], hf.wellFramed, hf.closes⟩

/-- The three bytes `0xFF 0x55 0x00` open a body of `2^32 - 1` bytes. -/
theorem keepsFrame_zero_length : ¬ KeepsFrame [0xFF, 0x55, 0x00] := by
  intro hk
  obtain ⟨hw, calls, hr, hwf, -⟩ := hk [[0xFF, 0x55, 0x00]] List.prefix_rfl
  have hw_eq : readCalls globalHardwareInfo [[0xFF, 0x55, 0x00]] =
      some ({ globalHardwareInfo with buffFromMCUProcessorStatus := 3 }, []) := rfl
  rw [hw_eq] at hr
  cases hr
  exact absurd (hwf.max_le rfl) (by decide)

end Lidbg.Lpc
