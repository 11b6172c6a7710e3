import Lidbg.Machine.TwoWire
import Lidbg.Drivers.I2cIo

/-!
# A write on the wire (`drivers/videoin/i2c_io.c`)

What the slave sees of `i2c_write_byte`, from the levels of the two pins after
each operation. `Sends` follows a program and the receiver together; a bit loop
leaves its last bit pending, which the clock of the acknowledge completes.
`transmits_cons` is the step of one byte, with its exit when it is not
acknowledged; `i2cWriteByte_onTheWire` is the transaction.
-/

namespace Lidbg.I2cIo

open Machine

/-- The two lines. -/
def level (slave : Nat → Bool) (b : Bus) : Level := ⟨b.scl, b.sdaLevel slave⟩

/-- The most significant bit first. -/
def msbFirst (data : UInt8) : List Bool := (List.range 8).map data.toBitVec.getMsbD

/-- A byte and its acknowledge. -/
def frame (data : UInt8) (nack : Bool) : List Symbol :=
  (msbFirst data).map .bit ++ [.bit nack]

/-- The bytes of a write with the level the slave answers each with, up to the
first that is not acknowledged. -/
def upToNack (slave : Nat → Bool) : Nat → List UInt8 → List (UInt8 × Bool)
  | _, [] => []
  | n, data :: rest => (data, slave n) :: if slave n then [] else upToNack slave (n + 1) rest

/-- The result for the bytes sent: every one was acknowledged, or not. -/
def result (sent : List (UInt8 × Bool)) : Ack :=
  if sent.all fun p => !p.2 then .ack else .nack

theorem upToNack_of_nack {slave : Nat → Bool} {n : Nat} (h : slave n = true) (data : UInt8)
    (rest : List UInt8) : upToNack slave n (data :: rest) = [(data, true)] := by
  rw [upToNack, h, if_pos rfl]

theorem upToNack_of_ack {slave : Nat → Bool} {n : Nat} (h : slave n = false) (data : UInt8)
    (rest : List UInt8) :
    upToNack slave n (data :: rest) = (data, false) :: upToNack slave (n + 1) rest := by
  rw [upToNack, h, if_neg Bool.false_ne_true]

theorem result_cons_ack (data : UInt8) (sent : List (UInt8 × Bool)) :
    result ((data, false) :: sent) = result sent := rfl

/-! ## Programs and the receiver -/

section Sends

variable {α β : Type} {slave : Nat → Bool}

/-- The program runs from one bus to another, and takes the receiver from one
pending bit to another, past these symbols. -/
def Sends (slave : Nat → Bool) (p : I2c α) (b : Bus) (r : Option Bool) (a : α) (b' : Bus)
    (r' : Option Bool) (syms : List Symbol) : Prop :=
  ∃ trace, p.exec (handle slave) b = some (a, b', trace) ∧
    run receive ⟨level slave b, r⟩ (trace.map (level slave)) = some (⟨level slave b', r'⟩, syms)

theorem sends_pure (a : α) (b : Bus) (r : Option Bool) :
    Sends slave (pure a) b r a b r [] :=
  ⟨[], rfl, rfl⟩

theorem Sends.bind {p : I2c α} {k : α → I2c β} {b b₁ b₂ : Bus} {r r₁ r₂ : Option Bool} {a : α}
    {c : β} {s₁ s₂ : List Symbol} (h : Sends slave p b r a b₁ r₁ s₁)
    (h' : Sends slave (k a) b₁ r₁ c b₂ r₂ s₂) :
    Sends slave (p >>= k) b r c b₂ r₂ (s₁ ++ s₂) := by
  obtain ⟨t, hexec, hrun⟩ := h
  obtain ⟨t', hexec', hrun'⟩ := h'
  exact ⟨t ++ t', Prog.exec_bind hexec hexec', by rw [List.map_append]; exact run_append hrun hrun'⟩

/-- The master drives both lines. -/
abbrev drive (sda scl : Bool) (n : Nat) : Bus := ⟨false, true, sda, scl, n⟩

/-- Nobody is talking. -/
abbrev idle (n : Nat) : Bus := drive true true n

/-! ## The pieces of a transaction -/

theorem sends_init (n : Nat) :
    Sends slave i2cInit ⟨true, true, true, true, n⟩ none () (idle n) none [] :=
  ⟨_, rfl, rfl⟩

theorem sends_begin (n : Nat) :
    Sends slave i2cBegin (idle n) none () (drive false true n) none [.start] :=
  ⟨_, rfl, rfl⟩

/-- The bit the loop tests. -/
theorem decide_and_0x80 (data : UInt8) :
    decide (data &&& 0x80 ≠ 0) = data.toBitVec.getMsbD 0 := by
  have h : ∀ d : BitVec 8, decide (d &&& 0x80 ≠ 0) = d.getMsbD 0 := by decide
  rw [← h data.toBitVec, decide_eq_decide, Ne, UInt8.eq_iff_toBitVec_eq]
  rfl

/-- One pass of the bit loop completes the bit before it. -/
theorem sends_bit (bit sda : Bool) {scl : Bool} (n : Nat) {r : Option Bool}
    (hr : scl = false → r = none) :
    Sends slave (i2cWriteBit bit) (drive sda scl n) r () (drive bit true n) (some bit)
      (r.toList.map .bit) := by
  cases scl with
  | true => cases bit <;> exact ⟨_, rfl, by cases r <;> rfl⟩
  | false =>
    obtain rfl := hr rfl
    cases bit <;> exact ⟨_, rfl, rfl⟩

/-- The bit loop leaves its last bit pending. -/
theorem sends_writeLoop (i : Nat) (data : UInt8) (sda : Bool) {scl : Bool} (n : Nat)
    {r : Option Bool} (hr : scl = false → r = none) :
    Sends slave (i2cWriteLoop (i + 1) data) (drive sda scl n) r ()
      (drive (data.toBitVec.getMsbD i) true n) (some (data.toBitVec.getMsbD i))
      (r.toList.map .bit ++ ((List.range i).map data.toBitVec.getMsbD).map .bit) := by
  induction i generalizing data sda scl r with
  | zero =>
    rw [i2cWriteLoop, decide_and_0x80]
    exact (sends_bit _ sda n hr).bind (sends_pure () _ _)
  | succ i ih =>
    have hshift : ∀ j, (data <<< 1).toBitVec.getMsbD j = data.toBitVec.getMsbD (j + 1) := by
      simp
    have hbits : (List.range (i + 1)).map data.toBitVec.getMsbD =
        data.toBitVec.getMsbD 0 :: (List.range i).map (data <<< 1).toBitVec.getMsbD := by
      simp [List.range_succ_eq_map, Function.comp_def]
    rw [i2cWriteLoop, decide_and_0x80, hbits, ← hshift i]
    exact (sends_bit _ sda n hr).bind (ih _ _ (fun h => nomatch h))

/-- The acknowledge completes the last bit, and leaves the clock low. -/
theorem sends_readAck (sda bit : Bool) (n : Nat) :
    Sends slave i2cReadAck (drive sda true n) (some bit) (if slave n then .nack else .ack)
      (drive true false (n + 1)) none [.bit bit, .bit (slave n)] := by
  refine ⟨_, rfl, ?_⟩
  simp [run, receive, level, Bus.sdaLevel, Bus.setScl]

theorem sends_finish (a : Ack) (sda scl : Bool) (n : Nat) :
    Sends slave (finish a []) (drive sda scl n) none ⟨a, []⟩ (idle n) none [.stop] := by
  cases scl <;> exact ⟨_, rfl, rfl⟩

/-- A byte, its acknowledge and what follows, or the exit. -/
theorem sends_byte (next : I2c Reply) (data : UInt8) (sda scl : Bool) (n : Nat) {a : Reply}
    {b : Bus} {r : Option Bool} {syms : List Symbol}
    (hnack : slave n = true →
      Sends slave (finish .nack []) (drive true false (n + 1)) none a b r syms)
    (hack : slave n = false → Sends slave next (drive true false (n + 1)) none a b r syms) :
    Sends slave (do i2cWrite data; checkAck next) (drive sda scl n) none a b r
      (frame data (slave n) ++ syms) := by
  have hbits : Sends slave (i2cWrite data) (drive sda scl n) none ()
      (drive (data.toBitVec.getMsbD 7) true n) (some (data.toBitVec.getMsbD 7))
      (((List.range 7).map data.toBitVec.getMsbD).map .bit) :=
    sends_writeLoop 7 data sda n (fun _ => rfl)
  have hcheck : Sends slave (checkAck next) (drive (data.toBitVec.getMsbD 7) true n)
      (some (data.toBitVec.getMsbD 7)) a b r
      ([.bit (data.toBitVec.getMsbD 7), .bit (slave n)] ++ syms) := by
    refine (sends_readAck _ _ n).bind ?_
    cases hn : slave n with
    | true => exact hnack hn
    | false => exact hack hn
  have h := Sends.bind (k := fun _ => checkAck next) hbits hcheck
  rw [frame, msbFirst, List.range_succ, List.map_append, List.map_append]
  simpa using h

/-! ## The bytes of a write -/

/-- The program sends these bytes, as far as they are acknowledged, and stops. -/
def Transmits (slave : Nat → Bool) (p : I2c Reply) (b : Bus) (n : Nat) (bytes : List UInt8) :
    Prop :=
  Sends slave p b none ⟨result (upToNack slave n bytes), []⟩
    (idle (n + (upToNack slave n bytes).length)) none
    ((upToNack slave n bytes).flatMap (fun p => frame p.1 p.2) ++ [.stop])

theorem transmits_nil (sda scl : Bool) (n : Nat) :
    Transmits slave (finish .ack []) (drive sda scl n) n [] :=
  sends_finish .ack sda scl n

/-- **A byte is on the wire** bit by bit, and the rest follows if it is acknowledged. -/
theorem transmits_cons (data : UInt8) (sda scl : Bool) (n : Nat) {next : I2c Reply}
    {rest : List UInt8}
    (h : slave n = false → Transmits slave next (drive true false (n + 1)) (n + 1) rest) :
    Transmits slave (do i2cWrite data; checkAck next) (drive sda scl n) n (data :: rest) := by
  unfold Transmits
  cases hn : slave n with
  | true =>
    have hfinish : Sends slave (finish .nack []) (drive true false (n + 1)) none ⟨.nack, []⟩
        (idle (n + 1)) none [.stop] := sends_finish .nack true false (n + 1)
    have h := sends_byte next data sda scl n (fun _ => hfinish)
      (fun hn' => by rw [hn] at hn'; cases hn')
    rw [hn] at h
    rw [upToNack_of_nack hn]
    simpa [result] using h
  | false =>
    have h := sends_byte next data sda scl n (fun hn' => by rw [hn] at hn'; cases hn') h
    rw [hn] at h
    rw [upToNack_of_ack hn, result_cons_ack]
    simpa [Nat.add_assoc, Nat.add_comm 1] using h

theorem transmits_writeBuf {buf : List UInt8} {i : Nat} {data : UInt8} (hi : buf[i]? = some data)
    (sda scl : Bool) (n : Nat) {next : I2c Reply} {rest : List UInt8}
    (h : slave n = false → Transmits slave next (drive true false (n + 1)) (n + 1) rest) :
    Transmits slave (writeBuf buf i next) (drive sda scl n) n (data :: rest) := by
  rw [writeBuf, hi]
  exact transmits_cons data sda scl n h

/-- The loop sends the rest of the bytes asked for. The `u8` counter reaches any
size below 256. -/
theorem transmits_writeLoop {buf : List UInt8} {size : UInt32} (hsize : size.toNat ≤ 255)
    (hbuf : size.toNat ≤ buf.length) (fuel : Nat) (i : UInt8) (hi : i.toNat ≤ size.toNat)
    (hfuel : size.toNat < fuel + i.toNat) (sda scl : Bool) (n : Nat) :
    Transmits slave (writeLoop buf size fuel i) (drive sda scl n) n
      ((buf.take size.toNat).drop i.toNat) := by
  induction fuel generalizing i sda scl n with
  | zero => omega
  | succ fuel ih =>
    rw [writeLoop]
    split
    · next hlt =>
      have hnext : (i + 1).toNat = i.toNat + 1 := by
        rw [UInt8.toNat_add]
        show (i.toNat + 1) % 256 = _
        omega
      have hlen : i.toNat < (buf.take size.toNat).length := by
        rw [List.length_take]
        omega
      rw [List.drop_eq_getElem_cons hlen, List.getElem_take]
      refine transmits_writeBuf (List.getElem?_eq_getElem _) sda scl n fun _ => ?_
      have := ih (i + 1) (by omega) (by omega) true false (n + 1)
      rwa [hnext] at this
    · next hge =>
      rw [List.drop_eq_nil_of_le (by rw [List.length_take]; omega)]
      exact transmits_nil sda scl n

end Sends

/-! ## The transaction -/

section Transaction

variable {slave : Nat → Bool}

theorem result_upToNack_iff (n : Nat) (bytes : List UInt8) :
    result (upToNack slave n bytes) = .ack ↔ ∀ k < bytes.length, slave (n + k) = false := by
  induction bytes generalizing n with
  | nil => exact iff_of_true rfl (fun k hk => nomatch hk)
  | cons data rest ih =>
    cases hn : slave n with
    | true =>
      rw [upToNack_of_nack hn]
      refine iff_of_false (fun h => nomatch h) fun h => ?_
      rw [← Nat.add_zero n, h 0 (Nat.zero_lt_succ _)] at hn
      cases hn
    | false =>
      rw [upToNack_of_ack hn, result_cons_ack, ih]
      constructor
      · intro h k hk
        cases k with
        | zero => exact hn
        | succ k =>
          rw [← Nat.add_assoc, Nat.add_right_comm]
          exact h k (Nat.lt_of_succ_lt_succ hk)
      · intro h k hk
        rw [Nat.add_right_comm, Nat.add_assoc]
        exact h (k + 1) (Nat.succ_lt_succ hk)

/-- The chip address takes the upper seven bits. -/
theorem shiftLeft_one (chipAddr : UInt8) :
    chipAddr <<< 1 = UInt8.ofNat (2 * chipAddr.toNat) := by
  apply UInt8.toNat.inj
  simp
  omega

/-- What a frame is made of is bits. -/
theorem countP_frames (sent : List (UInt8 × Bool)) :
    (sent.flatMap fun p => frame p.1 p.2).countP Symbol.isCondition = 0 := by
  refine List.countP_eq_zero.mpr fun s hs => ?_
  obtain ⟨p, -, hs⟩ := List.mem_flatMap.mp hs
  rcases List.mem_append.mp hs with hs | hs
  · obtain ⟨b, -, rfl⟩ := List.mem_map.mp hs
    exact Bool.false_ne_true
  · rw [List.mem_singleton.mp hs]
    exact Bool.false_ne_true

/-- **`i2c_write_byte` on the wire.** From an idle bus, whatever the slave
answers: a START, the chip address and the bytes of `buf`, each with its
acknowledge and up to the first that gets none, and a STOP. SDA changes twice
under a high clock, the result is `ACK` exactly when every byte was acknowledged,
and the bus is idle again. -/
theorem i2cWriteByte_onTheWire (slave : Nat → Bool) {fuel : Nat} (chipAddr : UInt8)
    {buf : List UInt8} {size : UInt32} (hsize : 1 ≤ size.toNat ∧ size.toNat ≤ 255)
    (hbuf : size.toNat ≤ buf.length) (hfuel : size.toNat ≤ fuel) :
    ∃ reply n trace,
      (i2cWriteByte fuel chipAddr buf size).exec (handle slave) (idle 0) =
        some (reply, idle n, trace) ∧
      symbols (trace.map (level slave)) =
        some (.start ::
          (upToNack slave 0 (UInt8.ofNat (2 * chipAddr.toNat) :: buf.take size.toNat)).flatMap
            (fun p => frame p.1 p.2) ++ [.stop]) ∧
      changesHigh ⟨true, true⟩ (trace.map (level slave)) = 2 ∧
      (reply.ack = .ack ↔ ∀ k ≤ size.toNat, slave k = false) := by
  have hlock : Sends slave (perform .mutexLock) (idle 0) none () ⟨true, true, true, true, 0⟩ none
      [] := ⟨_, rfl, rfl⟩
  have hbytes : Transmits slave (do
      i2cWriteChipAddr chipAddr false
      checkAck (writeBuf buf 0 (writeLoop buf size fuel 1))) (drive false true 0) 0
      (UInt8.ofNat (2 * chipAddr.toNat) :: buf.take size.toNat) := by
    have hlen : 0 < (buf.take size.toNat).length := by
      rw [List.length_take]
      omega
    rw [← shiftLeft_one, ← List.drop_zero (l := buf.take size.toNat),
      List.drop_eq_getElem_cons hlen, List.getElem_take]
    refine transmits_cons (chipAddr <<< 1) false true 0 fun _ => ?_
    refine transmits_writeBuf (List.getElem?_eq_getElem _) true false 1 fun _ => ?_
    exact transmits_writeLoop hsize.2 hbuf fuel 1 hsize.1 (Nat.lt_succ_of_le hfuel) true false 2
  have hall : Sends slave (i2cWriteByte fuel chipAddr buf size) (idle 0) none _ _ _ _ :=
    hlock.bind ((sends_init 0).bind ((sends_begin 0).bind hbytes))
  obtain ⟨trace, hexec, hrun⟩ := hall
  refine ⟨_, _, trace, hexec, ?_, ?_, ?_⟩
  · exact congrArg (Option.map Prod.snd) hrun
  · rw [show (⟨true, true⟩ : Level) = level slave (idle 0) from rfl, changesHigh_eq hrun,
      List.nil_append, List.nil_append, List.countP_append, List.countP_append, countP_frames]
    rfl
  · rw [result_upToNack_iff]
    simp only [List.length_cons, List.length_take, Nat.min_eq_left hbuf, Nat.zero_add,
      Nat.lt_succ_iff]

example : upToNack (· == 2) 0 [0x88, 0x03, 0x80, 0x7f] =
    [(0x88, false), (0x03, false), (0x80, true)] := by decide

/-- The slave acknowledges its address and one byte, and not the next. -/
theorem i2cWriteByte_onTheWire_nack :
    ∃ reply n trace,
      (i2cWriteByte 3 0x44 [0x03, 0x80, 0x7f] 3).exec (handle (· == 2)) (idle 0) =
        some (reply, idle n, trace) ∧
      symbols (trace.map (level (· == 2))) =
        some (.start ::
          (upToNack (· == 2) 0 (UInt8.ofNat (2 * UInt8.toNat 0x44) ::
            [0x03, 0x80, 0x7f].take (UInt32.toNat 3))).flatMap
              (fun p => frame p.1 p.2) ++ [.stop]) ∧
      changesHigh ⟨true, true⟩ (trace.map (level (· == 2))) = 2 ∧
      (reply.ack = .ack ↔ ∀ k ≤ UInt32.toNat 3, (k == 2) = false) :=
  i2cWriteByte_onTheWire (· == 2) 0x44 (by decide) (by decide) (by decide)

end Transaction

end Lidbg.I2cIo
