import Lidbg.Drivers.Gps
import Lidbg.Machine.CStr

/-!
# The buffers of the GPS driver (`drivers/gps/lidbg_gps.c`)

The receiver says by a word of two bytes how many bytes it has. `clean_ublox_buf`
takes them all, `thread_gps_server` at most `GPS_BUF_SIZE` of them, and
`gps_read` hands on up to `HAL_BUF_SIZE` of what is queued. `inBounds_iff` says
for which lengths and counts that is within the buffers: `gps_data` here, the
reader's there. `serverRound_fifo` relates the round to the one of the queue.
-/

namespace Lidbg.Gps

open Machine

/-- What `SOC_I2C_Rec_Simple` returns when it is asked for `size` bytes, and the
bytes it has stored: all of them, unless it fails. -/
structure Reply (size : Nat) where
  ret : Int32
  bytes : List UInt8
  length_le : bytes.length ≤ size
  complete : 0 ≤ ret → bytes.length = size

/-- The receiver: `num_avi_gps_data`, unless its read fails, and its data. -/
structure Receiver where
  numAviGpsData : Option (UInt8 × UInt8)
  recSimple : (size : Nat) → Reply size

/-- `avi_gps_data_hl`; a plain `char` is unsigned here. -/
def aviGpsDataHl (num : UInt8 × UInt8) : Nat :=
  num.1.toNat * 256 + num.2.toNat

/-- `clean_ublox_buf`: what `gps_data` holds afterwards. -/
def cleanUbloxBuf (gpsData : CArray gpsBufSize) (rx : Receiver) : Option (List UInt8) :=
  match rx.numAviGpsData with
  | none => some gpsData.bytes
  | some num =>
    -- no bound, unlike in the server
    if 0 < aviGpsDataHl num then
      storeBytes gpsData.bytes (rx.recSimple (aviGpsDataHl num)).bytes
    else some gpsData.bytes

/-- What a round of the server uses. -/
structure Globals (K : ByteFifo) where
  started : Bool
  workEn : Bool
  gpsDebugEn : Bool
  gpsData : CArray gpsBufSize
  gpsDataFifo : K.State

/-- What a round leaves of `gps_data`, and the queue. -/
structure Round (K : ByteFifo) where
  gpsData : List UInt8
  gpsDataFifo : K.State

/-- What `gps_debug_en` adds to a round. -/
def debugEnd (gpsDebugEn : Bool) (gpsData : List UInt8) (hl : Nat) : Option (List UInt8) :=
  if gpsDebugEn then storeByte gpsData hl 0 else some gpsData

/-- A chunk of `hl` bytes, from its read to the end of the round. -/
def serverChunk (K : ByteFifo) (g : Globals K) {hl : Nat} (reply : Reply hl) :
    Option (Round K) := do
  let gpsData ← storeBytes g.gpsData.bytes reply.bytes
  if reply.ret < 0 then some ⟨gpsData, g.gpsDataFifo⟩
  else
    -- the queue gets the data before the NUL of the debugging output
    let fifo := (serverIn K g.gpsDataFifo (gpsData.take hl)).1
    let gpsData ← debugEnd g.gpsDebugEn gpsData hl
    some ⟨gpsData, fifo⟩

/-- `avi_gps_data_hl` in a round. -/
def roundLen (rx : Receiver) : Nat :=
  (rx.numAviGpsData.map aviGpsDataHl).getD 0

/-- One round of `thread_gps_server`. -/
def serverRound (K : ByteFifo) (g : Globals K) (rx : Receiver) : Option (Round K) :=
  if g.workEn = false ∨ g.started = false then some ⟨g.gpsData.bytes, g.gpsDataFifo⟩
  else if 0 < roundLen rx then
    if roundLen rx ≤ gpsBufSize then serverChunk K g (rx.recSimple (roundLen rx))
    else some ⟨g.gpsData.bytes, g.gpsDataFifo⟩
  else some ⟨g.gpsData.bytes, g.gpsDataFifo⟩

/-- `read_len`. -/
def gpsReadLen (K : ByteFifo) (gpsDataFifo : K.State) : Nat :=
  if halBufSize < K.len gpsDataFifo then halBufSize else K.len gpsDataFifo

/-- `gps_read` of `count` bytes: how many it copies to the caller. `interrupted` is for
a wait for data, `gpsDataFifo` for the queue when `down` returns. -/
def gpsRead (K : ByteFifo) (started interrupted : Bool) (gpsDataFifo : K.State) (_count : Nat) :
    Nat :=
  if started = false then 0
  else if interrupted then 0
  else gpsReadLen K gpsDataFifo

/-! ## The rounds of the queue -/

theorem chunkOf_eq (K : ByteFifo) {ρ : Type} (s : GpsState K ρ) (rx : Receiver)
    (gpsData : Option (Nat → UInt8)) :
    chunkOf K s (rx.numAviGpsData.map fun num => (aviGpsDataHl num : Int)) gpsData =
      if s.workEn = false ∨ s.started = false then none
      else if 0 < roundLen rx ∧ roundLen rx ≤ gpsBufSize then
        gpsData.map fun data => (List.range (roundLen rx)).map data
      else none := by
  have hcast : (rx.numAviGpsData.map fun num => (aviGpsDataHl num : Int)).getD 0 =
      (roundLen rx : Int) := by
    unfold roundLen
    cases rx.numAviGpsData <;> rfl
  simp only [chunkOf, fetched, hcast, Int.natCast_pos, Int.toNat_natCast, Int.ofNat_le]
  by_cases hoff : s.workEn = false ∨ s.started = false
  · rw [if_pos hoff, if_pos hoff]
  · rw [if_neg hoff, if_neg hoff, ite_and]

/-- A round that the server does not read in. -/
theorem serverRound_idle {K : ByteFifo} {g : Globals K} {rx : Receiver}
    (h : (g.workEn = false ∨ g.started = false) ∨
      ¬ (0 < roundLen rx ∧ roundLen rx ≤ gpsBufSize)) :
    serverRound K g rx = some ⟨g.gpsData.bytes, g.gpsDataFifo⟩ := by
  unfold serverRound
  by_cases hoff : g.workEn = false ∨ g.started = false
  · rw [if_pos hoff]
  · have hlen := h.resolve_left hoff
    rw [if_neg hoff, ← ite_and, if_neg hlen]

/-- A round that reads a chunk: what it stores fits, and the debugging end comes
last. -/
theorem serverRound_read {K : ByteFifo} {g : Globals K} {rx : Receiver}
    (hon : ¬ (g.workEn = false ∨ g.started = false)) (hpos : 0 < roundLen rx)
    (hle : roundLen rx ≤ gpsBufSize) :
    ∃ mem, mem.length = gpsBufSize ∧
      mem.take (rx.recSimple (roundLen rx)).bytes.length = (rx.recSimple (roundLen rx)).bytes ∧
      serverRound K g rx =
        if (rx.recSimple (roundLen rx)).ret < 0 then some ⟨mem, g.gpsDataFifo⟩
        else (debugEnd g.gpsDebugEn mem (roundLen rx)).map fun gpsData =>
          ⟨gpsData, (serverIn K g.gpsDataFifo (mem.take (roundLen rx))).1⟩ := by
  have hfits : (rx.recSimple (roundLen rx)).bytes.length ≤ g.gpsData.bytes.length := by
    rw [g.gpsData.length_bytes]
    exact Nat.le_trans (rx.recSimple (roundLen rx)).length_le hle
  have hstore := storeBytes_of_le hfits
  refine ⟨_, ?_, take_storeBytes hstore, ?_⟩
  · exact (length_storeBytes hstore).trans g.gpsData.length_bytes
  · rw [serverRound, if_neg hon, if_pos hpos, if_pos hle, serverChunk, hstore]
    show (if (rx.recSimple (roundLen rx)).ret < 0 then _ else _) = _
    by_cases hret : (rx.recSimple (roundLen rx)).ret < 0
    · rw [if_pos hret, if_pos hret]
    · rw [if_neg hret, if_neg hret]
      cases debugEnd g.gpsDebugEn _ _ <;> rfl

/-- What the receiver sends, as the round of the queue has it. -/
def Receiver.sent (rx : Receiver) : Option (Nat → UInt8) :=
  if (rx.recSimple (roundLen rx)).ret < 0 then none
  else some fun i => (rx.recSimple (roundLen rx)).bytes.getD i 0

/-- **The round of the server** queues what the abstract round does: the chunk that
the receiver sends, if it is one that fits. -/
theorem serverRound_fifo (K : ByteFifo) {ρ : Type} (g : Globals K) (rx : Receiver)
    (s : GpsState K ρ) (hstarted : s.started = g.started) (hwork : s.workEn = g.workEn)
    {r : Round K} (h : serverRound K g rx = some r) :
    r.gpsDataFifo =
      match chunkOf K s (rx.numAviGpsData.map fun num => (aviGpsDataHl num : Int)) rx.sent with
      | none => g.gpsDataFifo
      | some chunk => (serverIn K g.gpsDataFifo chunk).1 := by
  rw [chunkOf_eq, hstarted, hwork]
  by_cases hon : g.workEn = false ∨ g.started = false
  · rw [serverRound_idle (.inl hon)] at h
    cases h
    rw [if_pos hon]
  · rw [if_neg hon]
    by_cases hlen : 0 < roundLen rx ∧ roundLen rx ≤ gpsBufSize
    · obtain ⟨mem, hmem, hfirst, hround⟩ := serverRound_read (K := K) hon hlen.1 hlen.2
      rw [hround] at h
      rw [if_pos hlen, Receiver.sent]
      by_cases hret : (rx.recSimple (roundLen rx)).ret < 0
      · rw [if_pos hret] at h ⊢
        cases h
        rfl
      · rw [if_neg hret] at h ⊢
        obtain ⟨gpsData, -, rfl⟩ := Option.map_eq_some_iff.mp h
        have hall := (rx.recSimple (roundLen rx)).complete (Int32.not_lt.mp hret)
        have hchunk : (List.range (roundLen rx)).map
            (fun i => (rx.recSimple (roundLen rx)).bytes.getD i 0) = mem.take (roundLen rx) := by
          rw [hall] at hfirst
          rw [hfirst]
          apply List.ext_getElem
          · simp [hall]
          · intro i hi hi'
            simp [hi']
        rw [Option.map_some, hchunk]
    · rw [serverRound_idle (.inr hlen)] at h
      cases h
      rw [if_neg hlen]

/-! ## Lengths and counts -/

/-- **`clean_ublox_buf`** stays in `gps_data` as long as what it is sent does. -/
theorem cleanUbloxBuf_isSome_iff (gpsData : CArray gpsBufSize) (rx : Receiver) :
    (cleanUbloxBuf gpsData rx).isSome ↔
      ∀ num, rx.numAviGpsData = some num →
        (rx.recSimple (aviGpsDataHl num)).bytes.length ≤ gpsBufSize := by
  unfold cleanUbloxBuf
  cases rx.numAviGpsData with
  | none => simp
  | some num =>
    simp only [Option.some.injEq, forall_eq']
    split_ifs with hpos
    · unfold storeBytes
      rw [gpsData.length_bytes]
      split_ifs with hle <;> simp [hle]
    · -- nothing is asked for
      have hle := (rx.recSimple (aviGpsDataHl num)).length_le
      refine iff_of_true rfl ?_
      omega

/-- **The server** leaves `gps_data` by the NUL behind a chunk that fills it. -/
theorem serverRound_isSome_iff {K : ByteFifo} (g : Globals K) (rx : Receiver) :
    (serverRound K g rx).isSome ↔
      ¬ (g.workEn = true ∧ g.started = true ∧ roundLen rx = gpsBufSize ∧
        0 ≤ (rx.recSimple (roundLen rx)).ret ∧ g.gpsDebugEn = true) := by
  by_cases hon : g.workEn = false ∨ g.started = false
  · rw [serverRound_idle (.inl hon)]
    refine iff_of_true rfl fun h => ?_
    rcases hon with hoff | hoff
    · exact Bool.false_ne_true (hoff.symm.trans h.1)
    · exact Bool.false_ne_true (hoff.symm.trans h.2.1)
  · by_cases hlen : 0 < roundLen rx ∧ roundLen rx ≤ gpsBufSize
    · obtain ⟨mem, hmem, -, hround⟩ := serverRound_read (K := K) hon hlen.1 hlen.2
      rw [not_or, Bool.not_eq_false, Bool.not_eq_false] at hon
      rw [hround]
      by_cases hret : 0 ≤ (rx.recSimple (roundLen rx)).ret
      · rw [if_neg (Int32.not_lt.mpr hret), Option.isSome_map]
        unfold debugEnd storeByte
        cases g.gpsDebugEn with
        | false => simp
        | true =>
          have hlt : roundLen rx < mem.length ↔ roundLen rx ≠ gpsBufSize := by omega
          rw [if_pos rfl]
          split_ifs with hin
          · simp [hlt.mp hin]
          · have heq : roundLen rx = gpsBufSize := by omega
            refine iff_of_false Bool.false_ne_true fun h => h ?_
            exact ⟨hon.1, hon.2, heq, hret, rfl⟩
      · rw [if_pos (Int32.not_le.mp hret)]
        exact iff_of_true rfl fun h => hret h.2.2.2.1
    · rw [serverRound_idle (.inr hlen)]
      refine iff_of_true rfl fun h => hlen ?_
      rw [h.2.2.1]
      decide

inductive GpsCall (K : ByteFifo) where
  | clean (gpsData : CArray gpsBufSize) (rx : Receiver)
  | server (g : Globals K) (rx : Receiver)
  | read (started interrupted : Bool) (gpsDataFifo : K.State) (count : Nat)

variable {K : ByteFifo}

/-- The stores are in `gps_data`, and the copy is in the caller's buffer. -/
def InBounds : GpsCall K → Prop
  | .clean gpsData rx => (cleanUbloxBuf gpsData rx).isSome
  | .server g rx => (serverRound K g rx).isSome
  | .read started interrupted gpsDataFifo count =>
    gpsRead K started interrupted gpsDataFifo count ≤ count

/-- The lengths and counts for which it is. -/
def LenFits : GpsCall K → Prop
  | .clean _ rx =>
    ∀ num, rx.numAviGpsData = some num →
      (rx.recSimple (aviGpsDataHl num)).bytes.length ≤ gpsBufSize
  | .server g rx =>
    ¬ (g.workEn = true ∧ g.started = true ∧ roundLen rx = gpsBufSize ∧
      0 ≤ (rx.recSimple (roundLen rx)).ret ∧ g.gpsDebugEn = true)
  | .read started interrupted gpsDataFifo count =>
    started = true → interrupted = false → min (K.len gpsDataFifo) halBufSize ≤ count

/-- **The buffers are kept** exactly for these lengths and counts. -/
theorem inBounds_iff (c : GpsCall K) : InBounds c ↔ LenFits c := by
  cases c with
  | clean gpsData rx => exact cleanUbloxBuf_isSome_iff gpsData rx
  | server g rx => exact serverRound_isSome_iff g rx
  | read started interrupted gpsDataFifo count =>
    have hlen : gpsReadLen K gpsDataFifo = min (K.len gpsDataFifo) halBufSize := by
      unfold gpsReadLen
      split_ifs <;> omega
    cases started <;> cases interrupted <;> simp [InBounds, LenFits, gpsRead, hlen]

/-- A receiver that has so many bytes and sends them. -/
def fullReceiver (high low : UInt8) : Receiver where
  numAviGpsData := some (high, low)
  recSimple size := ⟨0, List.replicate size 36, by simp, by simp⟩

def zeroData : CArray gpsBufSize := ⟨List.replicate gpsBufSize 0, List.length_replicate⟩

/-- The longest word for `clean_ublox_buf`, a full buffer while debugging, and a
reader that asks for one byte of two. -/
theorem out_of_bounds :
    ¬ InBounds (.clean zeroData (fullReceiver 0xff 0xff) : GpsCall ringFifo) ∧
    ¬ InBounds (.server ⟨true, true, true, zeroData, ringFifo.init fifoSize⟩
      (fullReceiver 0x10 0x00) : GpsCall ringFifo) ∧
    ¬ InBounds (.read true false (ringFifo.put (ringFifo.init fifoSize) [36, 71]).1 1 :
      GpsCall ringFifo) := by
  refine ⟨?_, ?_, ?_⟩
  · rw [InBounds, cleanUbloxBuf_isSome_iff]
    intro h
    have hle := h (0xff, 0xff) rfl
    simp only [fullReceiver, List.length_replicate] at hle
    revert hle
    decide
  · rw [InBounds, serverRound_isSome_iff, not_not]
    refine ⟨rfl, rfl, rfl, ?_, rfl⟩
    exact Int32.le_refl 0
  · unfold InBounds gpsRead gpsReadLen
    decide

end Lidbg.Gps
