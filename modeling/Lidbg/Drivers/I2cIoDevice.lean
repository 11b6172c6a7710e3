import Lidbg.Drivers.I2cIoRead

/-!
# A chip behind the bus (`drivers/videoin/i2c_io.c`)

The chips the driver talks to have 256 registers of a byte and a pointer: the first
byte of a write sets it, and every byte written or read moves it on. Where the slave
behaves as such a chip, calls of `i2c_write_byte` and `i2c_read_byte` are reads and
writes of its registers (`calls_reply`), and what is written to registers is read from
them until something else is (`register_roundtrip`).
-/

namespace Lidbg.I2cIo

open Machine

/-! ## The chip -/

structure Chip where
  address : UInt8
  regs : UInt8 → UInt8
  pointer : UInt8

/-- The bytes of a write behind the first. -/
def Chip.store (c : Chip) : List UInt8 → Chip
  | [] => c
  | data :: rest =>
    Chip.store { c with
      regs := fun r => if r = c.pointer then data else c.regs r
      pointer := c.pointer + 1 } rest

/-- The bytes of a read. -/
def Chip.load (c : Chip) : Nat → List UInt8
  | 0 => []
  | k + 1 => c.regs c.pointer :: Chip.load { c with pointer := c.pointer + 1 } k

/-- A transfer as the chip takes part in it: it acknowledges what it is sent, and
drives its registers. -/
def Chip.transfer (c : Chip) : Transfer → Option Chip
  | [] => none
  | (address, nack) :: rest =>
    if nack then none
    else if address = c.address <<< 1 then
      match rest with
      | [] => some c
      | (sub, nack) :: data =>
        if nack || data.any Prod.snd then none
        else some (Chip.store { c with pointer := sub } (data.map Prod.fst))
    else if address = c.address <<< 1 ||| 1 then
      if rest.map Prod.fst = c.load rest.length then
        some { c with pointer := c.pointer + UInt8.ofNat rest.length }
      else none
    else none

/-- A call that is about registers of the chip. -/
inductive RegCall where
  | write (sub : UInt8) (data : List UInt8)
  | read (sub : UInt8) (size : Nat)

/-- The call of the driver. -/
def RegCall.transaction (address : UInt8) : RegCall → Transaction
  | .write sub data => .writeByte address (sub :: data) (UInt32.ofNat (data.length + 1))
  | .read sub size => .readByte address sub.toUInt32 (UInt32.ofNat size)

/-- What the `u8` counters reach. -/
def RegCall.Sized : RegCall → Prop
  | .write _ data => data.length ≤ 254
  | .read _ size => size ≤ 255

/-- The call on the registers. -/
def Chip.call (c : Chip) : RegCall → Chip × Reply
  | .write sub data => (Chip.store { c with pointer := sub } data, ⟨.ack, []⟩)
  | .read sub size =>
    ({ c with pointer := sub + UInt8.ofNat size },
      ⟨.ack, Chip.load { c with pointer := sub } size⟩)

/-- The calls one after the other. -/
def Chip.calls (c : Chip) : List RegCall → Chip × List Reply
  | [] => (c, [])
  | call :: rest =>
    (((c.call call).1.calls rest).1, (c.call call).2 :: ((c.call call).1.calls rest).2)

/-- The registers a call writes. -/
def RegCall.written : RegCall → List UInt8
  | .write sub data => (List.range data.length).map fun k => sub + UInt8.ofNat k
  | .read _ _ => []

/-! ## Registers -/

theorem add_ofNat_succ (r : UInt8) (k : Nat) :
    r + 1 + UInt8.ofNat k = r + UInt8.ofNat (k + 1) := by
  apply UInt8.toNat.inj
  simp only [UInt8.toNat_add, UInt8.toNat_ofNat']
  show ((r.toNat + 1) % 256 + k % 256) % 256 = (r.toNat + (k + 1) % 256) % 256
  omega

/-- A run of at most 256 registers does not come back to where it started. -/
theorem add_ofNat_ne {k : Nat} (hpos : 0 < k) (hk : k < 256) (r : UInt8) :
    r + UInt8.ofNat k ≠ r := by
  intro h
  have hnat := congrArg UInt8.toNat h
  simp only [UInt8.toNat_add, UInt8.toNat_ofNat'] at hnat
  have hr : r.toNat < 256 := r.toNat_lt
  have hmod : (r.toNat + k % 2 ^ 8) % 2 ^ 8 = (r.toNat + k) % 256 := by omega
  omega

@[simp] theorem address_store (c : Chip) (data : List UInt8) :
    (c.store data).address = c.address := by
  induction data generalizing c with
  | nil => rfl
  | cons d data ih => exact ih _

/-- A register that is not written keeps its value. -/
theorem regs_store_of_notMem (c : Chip) (data : List UInt8) {r : UInt8}
    (h : ∀ k < data.length, r ≠ c.pointer + UInt8.ofNat k) : (c.store data).regs r = c.regs r := by
  induction data generalizing c with
  | nil => rfl
  | cons d data ih =>
    have hzero : r ≠ c.pointer := by
      have h0 := h 0 (Nat.zero_lt_succ _)
      rwa [show UInt8.ofNat 0 = 0 from rfl, UInt8.add_zero] at h0
    have hrest : ∀ k < data.length, r ≠ c.pointer + 1 + UInt8.ofNat k := by
      intro k hk
      rw [add_ofNat_succ]
      exact h (k + 1) (Nat.succ_lt_succ hk)
    rw [Chip.store, ih _ hrest]
    exact if_neg hzero

/-- The registers written hold the data. -/
theorem regs_store (c : Chip) {data : List UInt8} (hlen : data.length ≤ 256) {k : Nat}
    (hk : k < data.length) : (c.store data).regs (c.pointer + UInt8.ofNat k) = data[k] := by
  induction data generalizing c k with
  | nil => cases hk
  | cons d data ih =>
    rw [List.length_cons] at hlen
    rw [Chip.store]
    cases k with
    | zero =>
      rw [show UInt8.ofNat 0 = 0 from rfl, UInt8.add_zero, regs_store_of_notMem]
      · exact if_pos rfl
      · intro k hk
        rw [add_ofNat_succ]
        exact (add_ofNat_ne (Nat.zero_lt_succ k) (by omega) c.pointer).symm
    | succ k =>
      rw [← add_ofNat_succ]
      exact ih { c with regs := _, pointer := c.pointer + 1 } (by omega)
        (Nat.lt_of_succ_lt_succ hk)

theorem load_eq (c : Chip) (k : Nat) :
    c.load k = (List.range k).map fun j => c.regs (c.pointer + UInt8.ofNat j) := by
  induction k generalizing c with
  | zero => rfl
  | succ k ih =>
    rw [Chip.load, ih, List.range_succ_eq_map, List.map_cons, List.map_map]
    congr 1
    · rw [show UInt8.ofNat 0 = 0 from rfl, UInt8.add_zero]
    · refine List.map_congr_left fun j _ => ?_
      rw [Function.comp_apply, ← add_ofNat_succ]

@[simp] theorem length_load (c : Chip) (k : Nat) : (c.load k).length = k := by
  rw [load_eq, List.length_map, List.length_range]

/-- A call leaves the registers it does not write. -/
theorem regs_call_of_notMem (c : Chip) (call : RegCall) {r : UInt8} (h : r ∉ call.written) :
    (c.call call).1.regs r = c.regs r := by
  cases call with
  | read sub size => rfl
  | write sub data =>
    refine regs_store_of_notMem _ data fun k hk hr => h ?_
    exact List.mem_map.mpr ⟨k, List.mem_range.mpr hk, hr.symm⟩

theorem regs_calls_of_notMem (c : Chip) {cs : List RegCall} {r : UInt8}
    (h : ∀ call ∈ cs, r ∉ call.written) : (c.calls cs).1.regs r = c.regs r := by
  induction cs generalizing c with
  | nil => rfl
  | cons call cs ih =>
    rw [List.forall_mem_cons] at h
    rw [Chip.calls, ih _ h.2, regs_call_of_notMem c call h.1]

theorem calls_append (c : Chip) (cs ds : List RegCall) :
    c.calls (cs ++ ds) =
      (((c.calls cs).1.calls ds).1, (c.calls cs).2 ++ ((c.calls cs).1.calls ds).2) := by
  induction cs generalizing c with
  | nil => rfl
  | cons call cs ih =>
    rw [List.cons_append, Chip.calls, ih]
    rfl

/-! ## Calls with a chip -/

/-- The slave is this chip in all transfers of the calls. -/
def Behaves (slave : Nat → Bool) (n : Nat) (c : Chip) (cs : List RegCall) : Prop :=
  (((outcomes slave n (cs.map (RegCall.transaction c.address))).flatMap
    Outcome.transfers).foldlM Chip.transfer c).isSome = true

variable {slave : Nat → Bool} {n : Nat} {c c' : Chip}

theorem shiftLeft_one_or_ne (a : UInt8) : (a <<< 1 ||| 1 : UInt8) ≠ a <<< 1 := by
  intro heq
  have hbit := congrArg (fun b : UInt8 => b.toBitVec.getLsbD 0) heq
  simp at hbit

/-- Where nothing is refused, everything is sent. -/
theorem upToNack_of_acked {bytes : List UInt8}
    (h : (upToNack slave n bytes).any Prod.snd = false) :
    upToNack slave n bytes = bytes.map fun data => (data, false) := by
  induction bytes generalizing n with
  | nil => rfl
  | cons data rest ih =>
    cases hn : slave n with
    | true =>
      rw [upToNack_of_nack hn] at h
      cases h
    | false =>
      rw [upToNack_of_ack hn, List.any_cons, Bool.false_or] at h
      rw [upToNack_of_ack hn, ih h]
      rfl

theorem result_acked (bytes : List UInt8) :
    result (bytes.map fun data => (data, false)) = .ack := by
  simp [result]

theorem map_fst_acknowledged (l : List UInt8) : (acknowledged l).map Prod.fst = l := by
  induction l with
  | nil => rfl
  | cons data rest ih => rw [acknowledged, List.map_cons, ih]

theorem length_acknowledged (l : List UInt8) : (acknowledged l).length = l.length := by
  rw [← List.length_map Prod.fst, map_fst_acknowledged]

/-- The chip takes part in a write that it acknowledges. -/
theorem transfer_write {sub : UInt8} {data : List UInt8}
    (h : c.transfer (upToNack slave n (c.address <<< 1 :: sub :: data)) = some c') :
    upToNack slave n (c.address <<< 1 :: sub :: data) =
        (c.address <<< 1 :: sub :: data).map (fun data => (data, false)) ∧
      c' = Chip.store { c with pointer := sub } data := by
  cases hn : slave n with
  | true =>
    rw [upToNack_of_nack hn] at h
    cases h
  | false =>
    cases hn' : slave (n + 1) with
    | true =>
      rw [upToNack_of_ack hn, upToNack_of_nack hn'] at h
      simp [Chip.transfer] at h
    | false =>
      rw [upToNack_of_ack hn, upToNack_of_ack hn'] at h ⊢
      simp only [Chip.transfer, Bool.false_eq_true, if_false, if_true, Bool.false_or] at h
      split at h
      · cases h
      · next hany =>
        have hacked := upToNack_of_acked (Bool.eq_false_iff.mpr hany)
        rw [hacked, Option.some.injEq] at h
        rw [hacked]
        refine ⟨rfl, ?_⟩
        rw [← h, List.map_map]
        simp [Function.comp_def]

/-- And in a read. -/
theorem transfer_read {bytes : List UInt8}
    (h : c.transfer ((c.address <<< 1 ||| 1, false) :: acknowledged bytes) = some c') :
    bytes = c.load bytes.length ∧
      c' = { c with pointer := c.pointer + UInt8.ofNat bytes.length } := by
  simp only [Chip.transfer, Bool.false_eq_true, if_false, if_neg (shiftLeft_one_or_ne c.address),
    if_true, map_fst_acknowledged, length_acknowledged] at h
  split at h
  · next hload =>
    cases h
    exact ⟨hload, rfl⟩
  · cases h

/-- **One call** is what it is on the registers. -/
theorem call_spec {call : RegCall} (hsized : call.Sized)
    (h : ((call.transaction c.address).outcome slave n).transfers.foldlM Chip.transfer c = some c') :
    c' = (c.call call).1 ∧ ((call.transaction c.address).outcome slave n).reply = (c.call call).2 := by
  cases call with
  | write sub data =>
    -- the size reaches the loop uncut
    have hsize : (UInt32.ofNat (data.length + 1)).toNat = (sub :: data).length := by
      rw [UInt32.toNat_ofNat', List.length_cons]
      exact Nat.mod_eq_of_lt (by have : data.length ≤ 254 := hsized; omega)
    simp only [RegCall.transaction, Transaction.outcome, hsize, List.take_length] at h ⊢
    simp only [writes, List.foldlM_cons, List.foldlM_nil, Option.bind_eq_bind] at h
    obtain ⟨c₁, hone, heq⟩ := Option.bind_eq_some_iff.mp h
    cases heq
    obtain ⟨hsent, hc⟩ := transfer_write hone
    refine ⟨hc, ?_⟩
    rw [writes, hsent, result_acked]
    rfl
  | read sub size =>
    have hsize : (UInt32.ofNat size).toNat = size := by
      rw [UInt32.toNat_ofNat']
      exact Nat.mod_eq_of_lt (by have : size ≤ 255 := hsized; omega)
    have hsub : sub.toUInt32.toUInt8 = sub := by simp
    simp only [RegCall.transaction, Transaction.outcome, hsize, hsub] at h ⊢
    by_cases hnack : result (upToNack slave n [c.address <<< 1, sub]) = .nack
    · -- the first transfer is not the chip's
      rw [reads_of_nack hnack] at h
      simp only [writes, List.foldlM_cons, List.foldlM_nil, Option.bind_eq_bind] at h
      obtain ⟨c₁, hone, -⟩ := Option.bind_eq_some_iff.mp h
      rw [(transfer_write hone).1, result_acked] at hnack
      cases hnack
    · rw [reads_of_ack hnack] at h ⊢
      simp only [writes, List.cons_append, List.nil_append, List.foldlM_cons,
        Option.bind_eq_bind] at h ⊢
      obtain ⟨c₁, hone, hrest⟩ := Option.bind_eq_some_iff.mp h
      obtain ⟨-, rfl⟩ := transfer_write hone
      rw [readsBack] at hrest ⊢
      split at hrest
      · -- the second transfer was not acknowledged, which the chip never does
        rw [List.foldlM_cons] at hrest
        cases hrest
      · next hn =>
        rw [if_neg hn]
        simp only [List.foldlM_cons, List.foldlM_nil, Option.bind_eq_bind] at hrest
        obtain ⟨c₂, htwo, heq⟩ := Option.bind_eq_some_iff.mp hrest
        cases heq
        obtain ⟨hload, hc⟩ := transfer_read (c := Chip.store { c with pointer := sub } []) htwo
        rw [length_answers] at hload hc
        exact ⟨hc, by rw [hload]; rfl⟩

theorem address_call (c : Chip) (call : RegCall) : (c.call call).1.address = c.address := by
  cases call with
  | write sub data => exact address_store _ data
  | read sub size => rfl

/-- **Calls of the driver are calls on the registers** of a chip. -/
theorem calls_reply {cs : List RegCall} (hsized : ∀ call ∈ cs, call.Sized)
    (h : Behaves slave n c cs) :
    (outcomes slave n (cs.map (RegCall.transaction c.address))).map Outcome.reply =
      (c.calls cs).2 := by
  induction cs generalizing n c with
  | nil => rfl
  | cons call cs ih =>
    rw [List.forall_mem_cons] at hsized
    unfold Behaves at h
    rw [List.map_cons, outcomes, List.flatMap_cons, List.foldlM_append] at h
    obtain ⟨c', hall⟩ := Option.isSome_iff_exists.mp h
    obtain ⟨c₁, hone, hrest⟩ := Option.bind_eq_some_iff.mp hall
    obtain ⟨rfl, hreply⟩ := call_spec hsized.1 hone
    have haddress := address_call c call
    rw [List.map_cons, outcomes, List.map_cons, Chip.calls, hreply]
    congr 1
    rw [← haddress]
    refine ih hsized.2 ?_
    unfold Behaves
    rw [haddress, hrest]
    rfl

theorem sized_transaction {call : RegCall} (h : call.Sized) (address : UInt8) :
    (call.transaction address).Sized := by
  cases call with
  | write sub data =>
    have hlen : data.length ≤ 254 := h
    have hsize : (UInt32.ofNat (data.length + 1)).toNat = data.length + 1 := by
      rw [UInt32.toNat_ofNat']
      exact Nat.mod_eq_of_lt (by omega)
    simp only [RegCall.transaction, Transaction.Sized, hsize, List.length_cons]
    omega
  | read sub size =>
    have hlen : size ≤ 255 := h
    have hsize : (UInt32.ofNat size).toNat = size := by
      rw [UInt32.toNat_ofNat']
      exact Nat.mod_eq_of_lt (by omega)
    simp only [RegCall.transaction, Transaction.Sized, hsize]
    exact hlen

/-- On the registers, what is written is read. -/
theorem calls_readBack (c : Chip) (before : List RegCall) {between : List RegCall} {sub : UInt8}
    {data : List UInt8} (hlen : data.length ≤ 256)
    (hbetween : ∀ call ∈ between, ∀ k < data.length, sub + UInt8.ofNat k ∉ call.written) :
    (c.calls (before ++ RegCall.write sub data :: between ++ [RegCall.read sub data.length])).2 =
      (c.calls (before ++ RegCall.write sub data :: between)).2 ++ [⟨.ack, data⟩] := by
  have hregs : ∀ k (hk : k < data.length),
      (c.calls (before ++ RegCall.write sub data :: between)).1.regs (sub + UInt8.ofNat k) =
        data[k] := by
    intro k hk
    rw [calls_append, Chip.calls, regs_calls_of_notMem _ fun call hcall => hbetween call hcall k hk]
    exact regs_store { (c.calls before).1 with pointer := sub } hlen hk
  have hload : Chip.load { (c.calls (before ++ RegCall.write sub data :: between)).1 with
      pointer := sub } data.length = data := by
    rw [load_eq]
    refine List.ext_getElem (by simp) fun k hk hk' => ?_
    rw [List.getElem_map, List.getElem_range]
    exact hregs k hk'
  rw [calls_append]
  refine congrArg (fun r => (c.calls (before ++ RegCall.write sub data :: between)).2 ++ [r]) ?_
  exact congrArg (Reply.mk .ack) hload

/-- **What is written is read.** On the bit-banged bus with a chip behind it, whatever
is called before, a read of registers that were written, and by no call between,
returns what was written to them. -/
theorem register_roundtrip {fuel : Nat} (hfuel : 256 ≤ fuel) {before between : List RegCall}
    {sub : UInt8} {data : List UInt8}
    (hsized : ∀ call ∈ before ++ RegCall.write sub data :: between, call.Sized)
    (hbetween : ∀ call ∈ between, ∀ k < data.length, sub + UInt8.ofNat k ∉ call.written)
    (hchip : Behaves slave 0 c
      (before ++ RegCall.write sub data :: between ++ [RegCall.read sub data.length])) :
    ∃ replies n trace,
      (calls fuel ((before ++ RegCall.write sub data :: between ++ [RegCall.read sub data.length]).map
        (RegCall.transaction c.address))).exec (handle slave) (idle 0) =
      some (replies ++ [⟨.ack, data⟩], idle n, trace) := by
  have hdata : data.length ≤ 254 := hsized (RegCall.write sub data) (by simp)
  have hall : ∀ call ∈ before ++ RegCall.write sub data :: between ++ [RegCall.read sub data.length],
      call.Sized := by
    intro call hcall
    rcases List.mem_append.mp hcall with hcall | hcall
    · exact hsized call hcall
    · rw [List.mem_singleton.mp hcall]
      show data.length ≤ 255
      omega
  have htransactions : ∀ t ∈ (before ++ RegCall.write sub data :: between ++
      [RegCall.read sub data.length]).map (RegCall.transaction c.address), t.Sized := by
    intro t ht
    obtain ⟨call, hcall, rfl⟩ := List.mem_map.mp ht
    exact sized_transaction (hall call hcall) c.address
  obtain ⟨m, trace, hexec, -⟩ := sends_calls slave hfuel htransactions 0
  rw [calls_reply hall hchip, calls_readBack c before (by omega) hbetween] at hexec
  exact ⟨_, m, trace, hexec⟩

/-- A chip whose registers are zero; it acknowledges all, and drives `0x80` when it is
read. -/
theorem register_roundtrip_one :
    ∃ replies n trace,
      (calls 256 (([] ++ RegCall.write 0x03 [0x80] :: [RegCall.write 0x05 [0x7f]] ++
        [RegCall.read 0x03 ([0x80] : List UInt8).length]).map
        (RegCall.transaction 0x44))).exec (handle (· == 9)) (idle 0) =
      some (replies ++ [⟨.ack, [0x80]⟩], idle n, trace) :=
  register_roundtrip (c := ⟨0x44, fun _ => 0, 0⟩) (Nat.le_refl 256)
    (by intro call hcall; simp at hcall; rcases hcall with rfl | rfl <;> simp [RegCall.Sized])
    (by intro call hcall k hk; simp at hcall; subst hcall; simp at hk; subst hk; decide)
    (by unfold Behaves; decide)

end Lidbg.I2cIo
