import Lidbg.Drivers.I2cIoLock
import Lidbg.Drivers.I2cIoWire

/-!
# Every transaction on the wire (`drivers/videoin/i2c_io.c`)

A read sends the chip address and the address inside the chip, stops, starts again
with the chip address for reading, and clocks the bytes out of the slave, each
acknowledged but the last. Any calls of the four transactions, one after the other,
are on the wire as the transfers they ask for, as far as the slave acknowledges
them, and return what it drove (`calls_onTheWire`).
-/

namespace Lidbg.I2cIo

open Machine

/-! ## What is on the wire -/

/-- What is between a START and a STOP: bytes, each with whether it was not
acknowledged. -/
abbrev Transfer : Type := List (UInt8 × Bool)

def Transfer.encode (t : Transfer) : List Symbol :=
  .start :: t.flatMap (fun p => frame p.1 p.2) ++ [.stop]

/-- The next bit of a byte, the most significant first. -/
def shiftIn (data : UInt8) (bit : Bool) : UInt8 := if bit then data <<< 1 ||| 1 else data <<< 1

/-- The byte the slave drives from clock `n` on. -/
def driven (slave : Nat → Bool) (n : Nat) : UInt8 :=
  ((List.range 8).map fun i => slave (n + i)).foldl shiftIn 0

/-- The bytes it drives one after the other. -/
def answers (slave : Nat → Bool) : Nat → Nat → List UInt8
  | _, 0 => []
  | n, k + 1 => driven slave n :: answers slave (n + 8) k

/-- The master acknowledges all but the last. -/
def acknowledged : List UInt8 → Transfer
  | [] => []
  | data :: rest => (data, rest.isEmpty) :: acknowledged rest

/-- The result of a transaction, the transfers it is on the wire, and the clocks the
slave had. -/
structure Outcome where
  reply : Reply
  transfers : List Transfer
  clocks : Nat

/-- A write: one transfer. -/
def writes (slave : Nat → Bool) (n : Nat) (bytes : List UInt8) : Outcome where
  reply := ⟨result (upToNack slave n bytes), []⟩
  transfers := [upToNack slave n bytes]
  clocks := (upToNack slave n bytes).length

/-- The second transfer of a read. -/
def readsBack (slave : Nat → Bool) (n : Nat) (chipAddr : UInt8) (size : Nat) : Outcome :=
  let address := chipAddr <<< 1 ||| 1
  if slave n then ⟨⟨.nack, []⟩, [[(address, true)]], 1⟩
  else
    ⟨⟨.ack, answers slave (n + 1) size⟩,
      [(address, false) :: acknowledged (answers slave (n + 1) size)], 1 + 8 * size⟩

/-- A read: the bytes that say where, and if they are acknowledged the second
transfer. -/
def reads (slave : Nat → Bool) (n : Nat) (chipAddr : UInt8) (sub : List UInt8) (size : Nat) :
    Outcome :=
  let first := writes slave n (chipAddr <<< 1 :: sub)
  if first.reply.ack = .nack then first
  else
    let second := readsBack slave (n + first.clocks) chipAddr size
    ⟨second.reply, first.transfers ++ second.transfers, first.clocks + second.clocks⟩

theorem reads_of_nack {slave : Nat → Bool} {n : Nat} {chipAddr : UInt8} {sub : List UInt8}
    (h : result (upToNack slave n (chipAddr <<< 1 :: sub)) = .nack) (size : Nat) :
    reads slave n chipAddr sub size = writes slave n (chipAddr <<< 1 :: sub) :=
  if_pos h

theorem reads_of_ack {slave : Nat → Bool} {n : Nat} {chipAddr : UInt8} {sub : List UInt8}
    (h : result (upToNack slave n (chipAddr <<< 1 :: sub)) ≠ .nack) (size : Nat) :
    reads slave n chipAddr sub size =
      let first := writes slave n (chipAddr <<< 1 :: sub)
      let second := readsBack slave (n + first.clocks) chipAddr size
      ⟨second.reply, first.transfers ++ second.transfers, first.clocks + second.clocks⟩ :=
  if_neg h

/-- What a transaction is to be on the wire. -/
def Transaction.outcome (slave : Nat → Bool) (n : Nat) : Transaction → Outcome
  | .readByte chipAddr subAddr size => reads slave n chipAddr [subAddr.toUInt8] size.toNat
  | .writeByte chipAddr buf size => writes slave n (chipAddr <<< 1 :: buf.take size.toNat)
  | .read2byte chipAddr subAddr size =>
    reads slave n chipAddr [(subAddr >>> 8).toUInt8, subAddr.toUInt8] size.toNat
  | .write2byte chipAddr buf size => writes slave n (chipAddr <<< 1 :: buf.take size.toNat)

/-- The sizes that the `u8` counters reach, and a buffer for them. -/
def Transaction.Sized : Transaction → Prop
  | .readByte _ _ size => size.toNat ≤ 255
  | .writeByte _ buf size => 1 ≤ size.toNat ∧ size.toNat ≤ 255 ∧ size.toNat ≤ buf.length
  | .read2byte _ _ size => size.toNat ≤ 255
  | .write2byte _ buf size => 2 ≤ size.toNat ∧ size.toNat ≤ 255 ∧ size.toNat ≤ buf.length

/-- The transactions one after the other. -/
def calls (fuel : Nat) : List Transaction → I2c (List Reply)
  | [] => pure []
  | t :: ts => do
    let reply ← t.program fuel
    let replies ← calls fuel ts
    pure (reply :: replies)

/-- What they are to be on the wire. -/
def outcomes (slave : Nat → Bool) : Nat → List Transaction → List Outcome
  | _, [] => []
  | n, t :: ts => t.outcome slave n :: outcomes slave (n + (t.outcome slave n).clocks) ts

/-! ## A byte from the slave -/

section Read

variable {slave : Nat → Bool}

/-- SDA is the slave's, the clock is low. -/
abbrev listen (n : Nat) : Bus := ⟨false, false, true, false, n⟩

/-- One pass of the bit loop but the last. -/
def readPass (data : UInt8) : I2c UInt8 := do
  setI2cPin .scl
  let value ← perform (.getValue .sda)
  clrI2cPin .scl
  pure (shiftIn data value)

theorem i2cReadLoop_succ (i : Nat) (data : UInt8) :
    i2cReadLoop (i + 2) data = readPass data >>= i2cReadLoop (i + 1) := rfl

/-- A bit is clocked out of the slave. -/
theorem sends_readPass (n : Nat) (data : UInt8) :
    Sends slave (readPass data) (listen n) none (shiftIn data (slave n)) (listen (n + 1)) none
      [.bit (slave n)] := by
  refine ⟨_, rfl, ?_⟩
  simp [run, receive, level, Bus.sdaLevel, Bus.setScl]

/-- The last pass takes SDA back. -/
theorem sends_readLast (n : Nat) (data : UInt8) :
    Sends slave (i2cReadLoop 1 data) (listen n) none (shiftIn data (slave n))
      (drive true false (n + 1)) none [.bit (slave n)] := by
  refine ⟨_, rfl, ?_⟩
  simp [run, receive, level, Bus.sdaLevel, Bus.setScl]

/-- The bits the slave drives from clock `n` on. -/
def bits (slave : Nat → Bool) (n k : Nat) : List Bool := (List.range k).map fun i => slave (n + i)

theorem bits_succ (slave : Nat → Bool) (n k : Nat) :
    bits slave n (k + 1) = slave n :: bits slave (n + 1) k := by
  rw [bits, List.range_succ_eq_map, List.map_cons, List.map_map, bits]
  congr 1
  refine List.map_congr_left fun i _ => ?_
  show slave (n + (i + 1)) = slave (n + 1 + i)
  rw [Nat.add_assoc, Nat.add_comm 1 i]

theorem sends_readLoop (i n : Nat) (data : UInt8) :
    Sends slave (i2cReadLoop (i + 1) data) (listen n) none
      ((bits slave n (i + 1)).foldl shiftIn data) (drive true false (n + (i + 1))) none
      ((bits slave n (i + 1)).map .bit) := by
  induction i generalizing n data with
  | zero => exact sends_readLast n data
  | succ i ih =>
    have hrest := ih (n + 1) (shiftIn data (slave n))
    rw [i2cReadLoop_succ, bits_succ, List.foldl_cons, List.map_cons]
    rw [show n + 1 + (i + 1) = n + (i + 1 + 1) by omega] at hrest
    exact (sends_readPass n data).bind hrest

/-- Eight bits shifted in are the byte with these bits. -/
theorem msbFirst_shiftIn : ∀ a b c d e f g h : Bool,
    msbFirst ([a, b, c, d, e, f, g, h].foldl shiftIn 0) = [a, b, c, d, e, f, g, h] := by
  decide

theorem msbFirst_driven (slave : Nat → Bool) (n : Nat) :
    msbFirst (driven slave n) = bits slave n 8 :=
  msbFirst_shiftIn _ _ _ _ _ _ _ _

/-- **A byte from the slave.** -/
theorem sends_read (n : Nat) :
    Sends slave i2cRead (drive true false n) none (driven slave n) (drive true false (n + 8)) none
      ((msbFirst (driven slave n)).map .bit) := by
  have hconfig : Sends slave (i2cIoConfig .sda false) (drive true false n) none () (listen n) none
      [] := by
    refine ⟨_, rfl, ?_⟩
    simp [run, receive, level, Bus.sdaLevel]
  rw [msbFirst_driven]
  exact hconfig.bind (sends_readLoop 7 n 0)

/-- The acknowledge of the master. -/
theorem sends_writeAsk (nack : Bool) (n : Nat) :
    Sends slave (i2cWriteAsk (if nack then .nack else .ack)) (drive true false n) none ()
      (drive true false n) none [.bit nack] := by
  cases nack <;> exact ⟨_, rfl, rfl⟩

theorem sends_finishWith (a : Ack) (buf : List UInt8) (sda scl : Bool) (n : Nat) :
    Sends slave (finish a buf) (drive sda scl n) none ⟨a, buf⟩ (idle n) none [.stop] := by
  cases scl <;> exact ⟨_, rfl, rfl⟩

theorem length_answers (slave : Nat → Bool) (n k : Nat) : (answers slave n k).length = k := by
  induction k generalizing n with
  | zero => rfl
  | succ k ih => rw [answers, List.length_cons, ih]

theorem isEmpty_answers (slave : Nat → Bool) (n k : Nat) :
    (answers slave n k).isEmpty = decide (k = 0) := by
  cases k <;> rfl

/-- **The bytes of a read**, and the STOP. -/
theorem sends_readBytes {size : UInt32} (hsize : size.toNat ≤ 255) (fuel : Nat) (i : UInt8)
    (hi : i.toNat ≤ size.toNat) (hfuel : size.toNat < fuel + i.toNat) (buf : List UInt8) (n : Nat) :
    Sends slave (readLoop size fuel i buf) (drive true false n) none
      ⟨.ack, buf ++ answers slave n (size.toNat - i.toNat)⟩
      (idle (n + 8 * (size.toNat - i.toNat))) none
      ((acknowledged (answers slave n (size.toNat - i.toNat))).flatMap
        (fun p => frame p.1 p.2) ++ [.stop]) := by
  induction fuel generalizing i buf n with
  | zero => omega
  | succ fuel ih =>
    rw [readLoop]
    split
    · next hlt =>
      have hnext : (i + 1).toNat = i.toNat + 1 := by
        rw [UInt8.toNat_add]
        show (i.toNat + 1) % 256 = _
        omega
      have hlast : (size - 1).toNat = size.toNat - 1 := by
        have hone : (1 : UInt32) ≤ size := UInt32.le_iff_toNat_le.mpr (by show 1 ≤ _; omega)
        rw [UInt32.toNat_sub_of_le size 1 hone]
        rfl
      obtain ⟨k, hk⟩ : ∃ k, size.toNat - i.toNat = k + 1 := ⟨size.toNat - i.toNat - 1, by omega⟩
      have hrest := ih (i + 1) (by omega) (by omega) (buf ++ [driven slave n]) (n + 8)
      have hk' : size.toNat - (i + 1).toNat = k := by omega
      rw [hk', List.append_assoc, List.singleton_append] at hrest
      have hask : (if i.toNat = (size - 1).toNat then Ack.nack else .ack) =
          if (answers slave (n + 8) k).isEmpty then .nack else .ack := by
        rw [isEmpty_answers, hlast]
        by_cases hz : k = 0
        · rw [if_pos (by omega), if_pos (by simpa using hz)]
        · rw [if_neg (by omega), if_neg (by simpa using hz)]
      rw [hk, answers, acknowledged, List.flatMap_cons, frame, hask]
      have hstop : n + 8 + 8 * k = n + 8 * (k + 1) := by omega
      rw [hstop] at hrest
      simp only [List.append_assoc]
      refine (sends_read n).bind ?_
      exact (sends_writeAsk _ (n + 8)).bind hrest
    · next hge =>
      rw [show size.toNat - i.toNat = 0 by omega]
      rw [answers, List.append_nil]
      exact sends_finishWith .ack buf true false n

/-! ## The transactions -/

/-- Bytes, each with its acknowledge, and what follows. -/
def writeAll : List UInt8 → I2c Reply → I2c Reply
  | [], next => next
  | data :: rest, next => do
    i2cWrite data
    checkAck (writeAll rest next)

theorem writeAll_cons (data : UInt8) (rest : List UInt8) (next : I2c Reply) :
    writeAll (data :: rest) next = (do
      i2cWrite data
      checkAck (writeAll rest next)) := rfl

/-- **Bytes on the wire**, up to the first that is not acknowledged, and what follows
or the exit. -/
theorem sends_writeAll (next : I2c Reply) (rest : List UInt8) (data : UInt8) (sda scl : Bool)
    (n : Nat) {a : Reply} {b : Bus} {r : Option Bool} {syms : List Symbol}
    (hnack : result (upToNack slave n (data :: rest)) = .nack →
      Sends slave (finish .nack [])
        (drive true false (n + (upToNack slave n (data :: rest)).length)) none a b r syms)
    (hack : result (upToNack slave n (data :: rest)) = .ack →
      Sends slave next
        (drive true false (n + (upToNack slave n (data :: rest)).length)) none a b r syms) :
    Sends slave (writeAll (data :: rest) next) (drive sda scl n) none a b r
      ((upToNack slave n (data :: rest)).flatMap (fun p => frame p.1 p.2) ++ syms) := by
  rw [writeAll_cons]
  induction rest generalizing data sda scl n with
  | nil =>
    cases hn : slave n with
    | true =>
      rw [upToNack_of_nack hn] at hnack ⊢
      have h := sends_byte next data sda scl n (fun _ => hnack rfl)
        (fun hn' => by rw [hn] at hn'; cases hn')
      rw [hn] at h
      simpa [writeAll] using h
    | false =>
      rw [upToNack_of_ack hn] at hack ⊢
      have h := sends_byte next data sda scl n (fun hn' => by rw [hn] at hn'; cases hn')
        (fun _ => hack rfl)
      rw [hn] at h
      simpa [upToNack, writeAll] using h
  | cons data' rest ih =>
    cases hn : slave n with
    | true =>
      rw [upToNack_of_nack hn] at hnack ⊢
      have h := sends_byte (writeAll (data' :: rest) next) data sda scl n (fun _ => hnack rfl)
        (fun hn' => by rw [hn] at hn'; cases hn')
      rw [hn] at h
      simpa using h
    | false =>
      rw [upToNack_of_ack hn] at hnack hack ⊢
      rw [result_cons_ack, List.length_cons, ← Nat.add_assoc, Nat.add_right_comm] at hnack hack
      have hrest := ih data' true false (n + 1) hnack hack
      have h := sends_byte (writeAll (data' :: rest) next) data sda scl n
        (fun hn' => by rw [hn] at hn'; cases hn') (fun _ => hrest)
      rw [hn] at h
      simpa using h

/-- The first steps of every transaction. -/
theorem sends_open {p : I2c Reply} {n : Nat} {a : Reply} {b : Bus} {r : Option Bool}
    {syms : List Symbol} (h : Sends slave p (drive false true n) none a b r syms) :
    Sends slave (do perform .mutexLock; i2cInit; i2cBegin; p) (idle n) none a b r
      (.start :: syms) := by
  have hlock : Sends slave (perform .mutexLock) (idle n) none () ⟨true, true, true, true, n⟩ none
      [] := ⟨_, rfl, rfl⟩
  exact hlock.bind ((sends_init n).bind ((sends_begin n).bind h))

theorem sends_stop (sda scl : Bool) (n : Nat) :
    Sends slave i2cStop (drive sda scl n) none () (idle n) none [.stop] := by
  cases scl <;> exact ⟨_, rfl, rfl⟩

/-- A transaction on the wire. -/
def OnTheWire (slave : Nat → Bool) (p : I2c Reply) (n : Nat) (out : Outcome) : Prop :=
  Sends slave p (idle n) none out.reply (idle (n + out.clocks)) none
    (out.transfers.flatMap Transfer.encode)

/-- A write of bytes that are there. -/
theorem onTheWire_writes {p : I2c Reply} {n : Nat} {bytes : List UInt8}
    (h : Transmits slave p (drive false true n) n bytes) :
    OnTheWire slave (do perform .mutexLock; i2cInit; i2cBegin; p) n (writes slave n bytes) := by
  have hopen := sends_open h
  unfold OnTheWire writes
  simpa [Transfer.encode] using hopen

/-- **The second transfer of a read.** -/
theorem sends_readsBack (slave : Nat → Bool) {fuel : Nat} {size : UInt32} (hsize : size.toNat ≤ 255)
    (hfuel : 256 ≤ fuel) (chipAddr : UInt8) (n : Nat) :
    Sends slave (do
        i2cStop
        i2cBegin
        i2cWriteChipAddr chipAddr true
        checkAck (readLoop size fuel 0 [])) (drive true false n) none
      (readsBack slave n chipAddr size.toNat).reply
      (idle (n + (readsBack slave n chipAddr size.toNat).clocks)) none
      (.stop :: (readsBack slave n chipAddr size.toNat).transfers.flatMap Transfer.encode) := by
  have hbytes : Sends slave (writeAll [chipAddr <<< 1 ||| 1] (readLoop size fuel 0 []))
      (drive false true n) none (readsBack slave n chipAddr size.toNat).reply
      (idle (n + (readsBack slave n chipAddr size.toNat).clocks)) none
      (((readsBack slave n chipAddr size.toNat).transfers.flatMap fun t =>
        t.flatMap fun p => frame p.1 p.2) ++ [.stop]) := by
    have hloop : Sends slave (readLoop size fuel 0 []) (drive true false (n + 1)) none
        ⟨.ack, [] ++ answers slave (n + 1) size.toNat⟩ _ none _ :=
      sends_readBytes hsize fuel 0 (Nat.zero_le _) (by show _ < fuel + 0; omega) [] (n + 1)
    have hzero : size.toNat - (0 : UInt8).toNat = size.toNat := Nat.sub_zero _
    rw [hzero, List.nil_append] at hloop
    cases hn : slave n with
    | true =>
      -- no chip answers to the address, and nothing is read
      have hfirst := upToNack_of_nack hn (chipAddr <<< 1 ||| 1) []
      have h := sends_writeAll (readLoop size fuel 0 []) [] (chipAddr <<< 1 ||| 1) false true n
        (fun _ => sends_finish .nack true false _) (fun hack => by rw [hfirst] at hack; cases hack)
      rw [hfirst] at h
      simpa [readsBack, hn] using h
    | false =>
      have hfirst := upToNack_of_ack hn (chipAddr <<< 1 ||| 1) []
      have h := sends_writeAll (readLoop size fuel 0 []) [] (chipAddr <<< 1 ||| 1) false true n
        (fun hnack => by rw [hfirst] at hnack; cases hnack)
        (fun _ => by rw [hfirst]; exact hloop)
      rw [hfirst] at h
      simpa [readsBack, hn, upToNack, Nat.add_assoc] using h
  have hall : Sends slave (do
        i2cStop
        i2cBegin
        i2cWriteChipAddr chipAddr true
        checkAck (readLoop size fuel 0 [])) (drive true false n) none _ _ _ _ :=
    (sends_stop true false n).bind ((sends_begin n).bind hbytes)
  -- the stop in front, and the transfers behind it
  have hsyms : [Symbol.stop] ++ ([.start] ++ (((readsBack slave n chipAddr
      size.toNat).transfers.flatMap fun t => t.flatMap fun p => frame p.1 p.2) ++ [.stop])) =
      .stop :: (readsBack slave n chipAddr size.toNat).transfers.flatMap Transfer.encode := by
    unfold readsBack
    dsimp only
    split <;> simp [Transfer.encode]
  rwa [hsyms] at hall

theorem onTheWire_reads {fuel : Nat} {size : UInt32} (hsize : size.toNat ≤ 255)
    (hfuel : 256 ≤ fuel) (chipAddr : UInt8) (sub : List UInt8) (n : Nat) :
    OnTheWire slave (do
        perform .mutexLock
        i2cInit
        i2cBegin
        writeAll (chipAddr <<< 1 :: sub) do
          i2cStop
          i2cBegin
          i2cWriteChipAddr chipAddr true
          checkAck (readLoop size fuel 0 [])) n
      (reads slave n chipAddr sub size.toNat) := by
  unfold OnTheWire
  have hback := sends_readsBack slave hsize hfuel chipAddr
    (n + (upToNack slave n (chipAddr <<< 1 :: sub)).length)
  cases hsent : result (upToNack slave n (chipAddr <<< 1 :: sub)) with
  | nack =>
    have h := sends_open (sends_writeAll (do
        i2cStop
        i2cBegin
        i2cWriteChipAddr chipAddr true
        checkAck (readLoop size fuel 0 [])) sub (chipAddr <<< 1) false true n
      (fun _ => sends_finish .nack true false _) (fun hack => by rw [hsent] at hack; cases hack))
    rw [reads_of_nack hsent, writes, hsent]
    simpa [Transfer.encode] using h
  | ack =>
    have hack : result (upToNack slave n (chipAddr <<< 1 :: sub)) ≠ .nack := by
      rw [hsent]
      exact fun h => by cases h
    have h := sends_open (sends_writeAll _ sub (chipAddr <<< 1) false true n
      (fun hnack => absurd hnack hack) (fun _ => hback))
    rw [reads_of_ack hack]
    simpa [writes, Transfer.encode, Nat.add_assoc] using h

/-- **A call is on the wire** as the transfers it asks for. -/
theorem onTheWire {fuel : Nat} (hfuel : 256 ≤ fuel) {t : Transaction} (hsized : t.Sized) (n : Nat) :
    OnTheWire slave (t.program fuel) n (t.outcome slave n) := by
  cases t with
  | readByte chipAddr subAddr size => exact onTheWire_reads hsized hfuel chipAddr [subAddr.toUInt8] n
  | read2byte chipAddr subAddr size => exact onTheWire_reads hsized hfuel chipAddr [(subAddr >>> 8).toUInt8, subAddr.toUInt8] n
  | writeByte chipAddr buf size =>
    obtain ⟨hone, hsize, hbuf⟩ := hsized
    refine onTheWire_writes ?_
    have hlen : 0 < (buf.take size.toNat).length := by
      rw [List.length_take]
      omega
    rw [← List.drop_zero (l := buf.take size.toNat), List.drop_eq_getElem_cons hlen,
      List.getElem_take]
    refine transmits_cons (chipAddr <<< 1) false true n fun _ => ?_
    refine transmits_writeBuf (List.getElem?_eq_getElem _) true false (n + 1) fun _ => ?_
    exact transmits_writeLoop hsize hbuf fuel 1 hone (by show _ < fuel + 1; omega) true false _
  | write2byte chipAddr buf size =>
    obtain ⟨htwo, hsize, hbuf⟩ := hsized
    refine onTheWire_writes ?_
    have hlen : 1 < (buf.take size.toNat).length := by
      rw [List.length_take]
      omega
    rw [← List.drop_zero (l := buf.take size.toNat), List.drop_eq_getElem_cons (by omega),
      List.getElem_take, List.drop_eq_getElem_cons hlen, List.getElem_take]
    refine transmits_cons (chipAddr <<< 1) false true n fun _ => ?_
    refine transmits_writeBuf (List.getElem?_eq_getElem _) true false (n + 1) fun _ => ?_
    refine transmits_writeBuf (List.getElem?_eq_getElem _) true false (n + 1 + 1) fun _ => ?_
    exact transmits_writeLoop hsize hbuf fuel 2 htwo (by show _ < fuel + 2; omega) true false _

variable (slave) in
/-- The transactions one after the other. -/
theorem sends_calls {fuel : Nat} (hfuel : 256 ≤ fuel) {ts : List Transaction}
    (hsized : ∀ t ∈ ts, t.Sized) (n : Nat) :
    ∃ m, Sends slave (calls fuel ts) (idle n) none ((outcomes slave n ts).map Outcome.reply)
      (idle m) none ((outcomes slave n ts).flatMap fun out =>
        out.transfers.flatMap Transfer.encode) := by
  induction ts generalizing n with
  | nil => exact ⟨n, sends_pure [] (idle n) none⟩
  | cons t ts ih =>
    rw [List.forall_mem_cons] at hsized
    obtain ⟨m, hrest⟩ := ih hsized.2 (n + (t.outcome slave n).clocks)
    refine ⟨m, ?_⟩
    rw [outcomes, List.map_cons, List.flatMap_cons]
    have hone : Sends slave (t.program fuel) (idle n) none _ _ none _ := onTheWire hfuel hsized.1 n
    refine hone.bind ?_
    rw [← List.append_nil (List.flatMap _ (outcomes _ _ ts))]
    exact hrest.bind (sends_pure _ _ _)

/-- A START and a STOP a transfer. -/
theorem countP_encode (t : Transfer) : t.encode.countP Symbol.isCondition = 2 := by
  rw [Transfer.encode, List.countP_append, List.countP_cons, countP_frames]
  rfl

theorem countP_transfers (ts : List Transfer) :
    (ts.flatMap Transfer.encode).countP Symbol.isCondition = 2 * ts.length := by
  induction ts with
  | nil => rfl
  | cons t ts ih =>
    rw [List.flatMap_cons, List.countP_append, countP_encode, ih, List.length_cons]
    omega

end Read

/-- **Any calls on the wire.** Whatever the slave drives, the four transactions called
one after the other from an idle bus show exactly the transfers they ask for, each byte
with its acknowledge, a write up to the first byte the slave does not acknowledge and a
read behind its address only if that is acknowledged; SDA changes under a high clock
only twice a transfer; they return what the slave drove, and the bus is idle again. -/
theorem calls_onTheWire (slave : Nat → Bool) {fuel : Nat} (hfuel : 256 ≤ fuel)
    {ts : List Transaction} (hsized : ∀ t ∈ ts, t.Sized) :
    ∃ n trace,
      (calls fuel ts).exec (handle slave) (idle 0) =
        some ((outcomes slave 0 ts).map Outcome.reply, idle n, trace) ∧
      symbols (trace.map (level slave)) =
        some (((outcomes slave 0 ts).flatMap Outcome.transfers).flatMap Transfer.encode) ∧
      changesHigh ⟨true, true⟩ (trace.map (level slave)) =
        2 * ((outcomes slave 0 ts).flatMap Outcome.transfers).length := by
  obtain ⟨n, trace, hexec, hrun⟩ := sends_calls slave hfuel hsized 0
  rw [← List.flatMap_assoc] at hrun
  refine ⟨n, trace, hexec, congrArg (Option.map Prod.snd) hrun, ?_⟩
  rw [show (⟨true, true⟩ : Level) = level slave (idle 0) from rfl, changesHigh_eq hrun,
    countP_transfers]

/-- A slave that acknowledges what it is sent and drives two bytes when it is read. -/
def twoBytes : Nat → Bool := fun n =>
  (msbFirst 0xa5 ++ msbFirst 0x3c).getD (n - 6) true && 6 ≤ n

/-- A write of a register, and a read of two. -/
def writeAndRead : List Transaction :=
  [.writeByte 0x44 [0x03, 0x80] 2, .readByte 0x44 0x10 2]

example : (outcomes twoBytes 0 writeAndRead).flatMap Outcome.transfers =
    [[(0x88, false), (0x03, false), (0x80, false)], [(0x88, false), (0x10, false)],
      [(0x89, false), (0xa5, false), (0x3c, true)]] := by decide

theorem calls_onTheWire_writeAndRead :
    ∃ n trace,
      (calls 256 writeAndRead).exec (handle twoBytes) (idle 0) =
        some ((outcomes twoBytes 0 writeAndRead).map Outcome.reply, idle n, trace) ∧
      symbols (trace.map (level twoBytes)) =
        some (((outcomes twoBytes 0 writeAndRead).flatMap Outcome.transfers).flatMap
          Transfer.encode) ∧
      changesHigh ⟨true, true⟩ (trace.map (level twoBytes)) =
        2 * ((outcomes twoBytes 0 writeAndRead).flatMap Outcome.transfers).length :=
  calls_onTheWire twoBytes (Nat.le_refl 256) (by
    intro t ht
    simp only [writeAndRead, List.mem_cons, List.not_mem_nil, or_false] at ht
    rcases ht with rfl | rfl <;> simp [Transaction.Sized])

end Lidbg.I2cIo
