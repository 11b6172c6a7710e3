import Lidbg.Core.MemLog
import Mathlib.Data.Nat.Log

/-!
# Devices of the memory log (`core/lidbg_mem_log.c`)

`lidbg_fifo_alloc` makes a device with a buffer of the size it is given, but
`lidbg_fifo_put` ends every message at byte 4095 of the buffer.
-/

namespace Lidbg.MemLog

open Machine

/-- `LIDBG_FIFO_SIZE`. -/
abbrev lidbgFifoSize : Nat := 2 ^ 22

/-- `sizeof` of a pointer. -/
abbrev pointerSize : Nat := 4

/-- `memset(p, '\0', sizeof(p))`, which clears as many bytes as the pointer has. -/
def memsetPointer (mem : List UInt8) : Option (List UInt8) :=
  if pointerSize ≤ mem.length then
    some (List.replicate pointerSize 0 ++ mem.drop pointerSize)
  else none

/-- What the system does in one `lidbg_fifo_alloc`: the `kmalloc` of the device, the
memory of the fifo, and the `kmalloc` of the buffer with what its memory held. -/
structure AllocIo where
  device : Bool
  fifo : Bool
  memory : Option (Nat → UInt8)

/-- How the kernel rounds the size of a kfifo to a power of two: up, or down in older ones. -/
structure Rounding where
  log : Nat → Nat
  log_pow : ∀ n, log (2 ^ n) = n

/-- Up. -/
def roundUp : Rounding := ⟨Nat.clog 2, fun n => Nat.clog_pow 2 n Nat.one_lt_two⟩

section Model

variable (K : ByteFifo) (rounding : Rounding)

/-- `kfifo_alloc`. -/
def kfifoAlloc (size : Nat) (allocated : Bool) : Option K.State :=
  if 2 ≤ size ∧ allocated then some (K.init (2 ^ rounding.log size)) else none

/-- `lidbg_fifo_alloc`, with the device it returns; the outer `none` stores outside
`msg_in_buff`. -/
def lidbgFifoAlloc (owner : Option CStr) (fifoSize size : Nat) (io : AllocIo) :
    Option (Option (LidbgFifoDevice K)) :=
  if owner.isNone ∨ ¬ io.device then some none
  else
    match kfifoAlloc K rounding fifoSize io.fifo, io.memory with
    | some fifo, some memory =>
      (memsetPointer ((List.range size).map memory)).map fun msgInBuff =>
        some ⟨fifo, msgInBuff, true⟩
    | _, _ => some none

end Model

variable {K : ByteFifo} {rounding : Rounding}

/-! ## Room in the buffer -/

/-- A device as `lidbg_fifo_alloc` returns it. -/
theorem lidbgFifoAlloc_some {owner : Option CStr} {fifoSize size : Nat} {io : AllocIo}
    {dev : LidbgFifoDevice K}
    (h : lidbgFifoAlloc K rounding owner fifoSize size io = some (some dev)) :
    dev.isInited = true ∧ dev.msgInBuff.length = size ∧
      K.size dev.fifo = 2 ^ rounding.log fifoSize := by
  unfold lidbgFifoAlloc kfifoAlloc memsetPointer at h
  split_ifs at h with howner hsize
  · cases h
  · cases hmemory : io.memory with
    | none =>
      rw [hmemory] at h
      cases h
    | some memory =>
      rw [hmemory] at h
      dsimp only at h
      split_ifs at h with hroom
      · cases h
        refine ⟨rfl, ?_, K.size_init _⟩
        rw [List.length_map, List.length_range] at hroom
        rw [List.length_append, List.length_replicate, List.length_drop, List.length_map,
          List.length_range]
        omega
      · cases h
  · cases h

/-- What no operation on a device changes. -/
structure SameSizes (dev dev' : LidbgFifoDevice K) : Prop where
  isInited : dev'.isInited = dev.isInited
  length_msgInBuff : dev'.msgInBuff.length = dev.msgInBuff.length
  size_fifo : K.size dev'.fifo = K.size dev.fifo

theorem SameSizes.refl (dev : LidbgFifoDevice K) : SameSizes dev dev := ⟨rfl, rfl, rfl⟩

/-- What a put has done when it returns: all its stores were inside the buffer. -/
theorem lidbgFifoPut_eq_some {dev dev' : LidbgFifoDevice K} {r : Record} {ret : Int32}
    (hinit : dev.isInited = true) (h : lidbgFifoPut K dev r = some (dev', ret)) :
    ∃ b₁ fifo₁ b₂ b₃ fifo₂, storeStr dev.msgInBuff (timeString r.tm) = some b₁ ∧
      logString K dev.fifo b₁ = some fifo₁ ∧ storeStr b₁ r.msg.chars = some b₂ ∧
      storeByte b₂ (buffSize - 1) 0 = some b₃ ∧ logString K fifo₁ b₃ = some fifo₂ ∧
      dev' = { dev with fifo := fifo₂, msgInBuff := b₃ } := by
  rw [lidbgFifoPut, if_pos hinit] at h
  obtain ⟨b₁, hb₁, h⟩ := Option.bind_eq_some_iff.mp h
  obtain ⟨fifo₁, hlog₁, h⟩ := Option.bind_eq_some_iff.mp h
  obtain ⟨b₂, hb₂, h⟩ := Option.bind_eq_some_iff.mp h
  obtain ⟨b₃, hb₃, h⟩ := Option.bind_eq_some_iff.mp h
  obtain ⟨fifo₂, hlog₂, h⟩ := Option.bind_eq_some_iff.mp h
  cases h
  exact ⟨b₁, fifo₁, b₂, b₃, fifo₂, hb₁, hlog₁, hb₂, hb₃, hlog₂, rfl⟩

/-- A put leaves the sizes. -/
theorem lidbgFifoPut_sizes {dev dev' : LidbgFifoDevice K} {r : Record} {ret : Int32}
    (h : lidbgFifoPut K dev r = some (dev', ret)) : SameSizes dev dev' := by
  cases hinit : dev.isInited with
  | false =>
    rw [lidbgFifoPut, hinit, if_neg Bool.false_ne_true] at h
    cases h
    exact .refl dev
  | true =>
    obtain ⟨b₁, fifo₁, b₂, b₃, fifo₂, hb₁, hlog₁, hb₂, hb₃, hlog₂, rfl⟩ :=
      lidbgFifoPut_eq_some hinit h
    exact ⟨rfl, (length_storeByte hb₃).trans ((length_storeStr hb₂).trans (length_storeStr hb₁)),
      (size_logString hlog₂).trans (size_logString hlog₁)⟩

/-- Wherever a NUL stands in a buffer, its string can be logged. -/
theorem logString_isSome (fifo : K.State) {msgInBuff : List UInt8} (hnul : 0 ∈ msgInBuff) :
    ∃ fifo', logString K fifo msgInBuff = some fifo' := by
  rw [logString, loadStr, if_pos hnul]
  exact ⟨_, rfl⟩

/-- One put stores inside a buffer exactly if the buffer has `BUFF_SIZE` bytes. -/
theorem lidbgFifoPut_isSome_iff {dev : LidbgFifoDevice K} {r : Record}
    (hinit : dev.isInited = true) (hfits : r.msg.chars.length < dev.msgInBuff.length) :
    (lidbgFifoPut K dev r).isSome ↔ buffSize ≤ dev.msgInBuff.length := by
  constructor
  · intro h
    obtain ⟨⟨dev', ret⟩, h⟩ := Option.isSome_iff_exists.mp h
    obtain ⟨b₁, -, b₂, b₃, -, hb₁, -, hb₂, hb₃, -⟩ := lidbgFifoPut_eq_some hinit h
    -- the last byte of a buffer of `BUFF_SIZE` bytes is stored, whatever the size is
    unfold storeByte at hb₃
    split_ifs at hb₃ with hlast
    rw [length_storeStr hb₂, length_storeStr hb₁] at hlast
    exact Nat.le_of_pred_lt hlast
  · intro hbuf
    obtain ⟨b₁, hb₁, hlen₁, hnul₁⟩ :=
      exists_storeStr (Nat.lt_of_lt_of_le (length_timeString_lt r.tm) hbuf)
    obtain ⟨fifo₁, hlog₁⟩ := logString_isSome dev.fifo hnul₁
    obtain ⟨b₂, hb₂, hlen₂, -⟩ := exists_storeStr (hlen₁ ▸ hfits)
    have hlast : buffSize - 1 < b₂.length := by
      rw [hlen₂, hlen₁]
      exact Nat.lt_of_lt_of_le (by decide) hbuf
    obtain ⟨b₃, hb₃, -, hnul₃⟩ := exists_storeByte hlast 0
    obtain ⟨fifo₂, hlog₂⟩ := logString_isSome fifo₁ hnul₃
    rw [lidbgFifoPut, if_pos hinit]
    simp only [hb₁, hlog₁, hb₂, hb₃, hlog₂, Option.bind_eq_bind, Option.bind_some, Option.isSome]

/-- Puts of texts that fit the buffer. -/
theorem run_fifoPut_isSome_iff {dev : LidbgFifoDevice K} (hinit : dev.isInited = true)
    {recs : List Record} (hfits : ∀ r ∈ recs, r.msg.chars.length < dev.msgInBuff.length) :
    (run (fifoPutStep K) dev recs).isSome ↔ recs = [] ∨ buffSize ≤ dev.msgInBuff.length := by
  induction recs generalizing dev with
  | nil => exact iff_of_true rfl (.inl rfl)
  | cons r recs ih =>
    rw [List.forall_mem_cons] at hfits
    have hput := lidbgFifoPut_isSome_iff hinit hfits.1
    rw [run_cons_isSome, or_iff_right (List.cons_ne_nil r recs), ← hput]
    constructor
    · rintro ⟨dev', o, hstep, -⟩
      obtain ⟨⟨d, ret⟩, hsome, -⟩ := Option.map_eq_some_iff.mp hstep
      rw [hsome]
      rfl
    · intro hsome
      obtain ⟨⟨dev', ret⟩, hdev'⟩ := Option.isSome_iff_exists.mp hsome
      have hsame := lidbgFifoPut_sizes hdev'
      refine ⟨dev', [ret], by rw [fifoPutStep, hdev']; rfl, ?_⟩
      rw [ih (hsame.isInited.trans hinit) (hsame.length_msgInBuff.symm ▸ hfits.2),
        hsame.length_msgInBuff]
      exact .inr (hput.mp hsome)

/-- **Puts store inside the buffer** of a device exactly if it was made with
`BUFF_SIZE` bytes at least. -/
theorem putsInside_iff {owner : Option CStr} {fifoSize size : Nat} {io : AllocIo}
    {dev : LidbgFifoDevice K}
    (halloc : lidbgFifoAlloc K rounding owner fifoSize size io = some (some dev))
    {recs : List Record} (hfits : ∀ r ∈ recs, r.msg.chars.length < size) :
    (run (fifoPutStep K) dev recs).isSome ↔ recs = [] ∨ buffSize ≤ size := by
  obtain ⟨hinit, hlen, -⟩ := lidbgFifoAlloc_some halloc
  subst hlen
  exact run_fifoPut_isSome_iff hinit hfits

/-- A device with a buffer of `size` bytes, in memory of zeros. -/
def deviceOf (fifoSize size : Nat) : LidbgFifoDevice ringFifo :=
  ⟨ringFifo.init (2 ^ roundUp.log fifoSize),
    List.replicate pointerSize 0 ++ (List.replicate size 0).drop pointerSize, true⟩

theorem lidbgFifoAlloc_deviceOf (owner : CStr) {fifoSize size : Nat} (hfifo : 2 ≤ fifoSize)
    (hsize : pointerSize ≤ size) :
    lidbgFifoAlloc ringFifo roundUp (some owner) fifoSize size ⟨true, true, some fun _ => 0⟩ =
      some (some (deviceOf fifoSize size)) := by
  have hmemory : (List.range size).map (fun _ => (0 : UInt8)) = List.replicate size 0 := by
    rw [List.map_const', List.length_range]
  have hclear : memsetPointer (List.replicate size 0) =
      some (List.replicate pointerSize 0 ++ (List.replicate size 0).drop pointerSize) := by
    rw [memsetPointer, List.length_replicate, if_pos hsize]
  rw [lidbgFifoAlloc, if_neg (by simp), kfifoAlloc, if_pos ⟨hfifo, rfl⟩]
  dsimp only
  rw [hmemory, hclear]
  rfl

/-- The owner that `lidbg_msg_probe` names. -/
def commenOwner : CStr := ⟨ascii "lidbg_commen_owner", by decide⟩

/-- A message of one line. -/
def oneRecord : Record := ⟨⟨5, 15, 10, 21, 9, 113⟩, ⟨ascii "machine_id:1\n", by decide⟩⟩

/-- A device as `lidbg_msg_probe` makes it. -/
theorem putsInside_msgProbe :
    (run (fifoPutStep ringFifo) (deviceOf lidbgFifoSize buffSize) [oneRecord]).isSome ↔
      [oneRecord] = [] ∨ buffSize ≤ buffSize :=
  putsInside_iff (lidbgFifoAlloc_deviceOf commenOwner (by decide) (by decide)) (by decide)

/-- The file server makes its device with 1024 bytes. -/
theorem not_putsInside :
    ¬ ∀ (owner : Option CStr) (fifoSize size : Nat) (io : AllocIo)
      (dev : LidbgFifoDevice ringFifo) (recs : List Record),
      lidbgFifoAlloc ringFifo roundUp owner fifoSize size io = some (some dev) →
      (∀ r ∈ recs, r.msg.chars.length < size) →
      (run (fifoPutStep ringFifo) dev recs).isSome := by
  intro hall
  have halloc : lidbgFifoAlloc ringFifo roundUp (some ⟨ascii "fileserver", by decide⟩) (2 ^ 16)
      1024 ⟨true, true, some fun _ => 0⟩ = some (some (deviceOf (2 ^ 16) 1024)) :=
    lidbgFifoAlloc_deviceOf _ (by decide) (by decide)
  have hinside := hall _ _ _ _ _ [oneRecord] halloc (by decide)
  obtain ⟨hinit, hlen, -⟩ := lidbgFifoAlloc_some halloc
  rw [run_fifoPut_isSome_iff hinit (by rw [hlen]; decide), hlen] at hinside
  exact absurd hinside (by decide)

end Lidbg.MemLog
