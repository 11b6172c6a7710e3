import Lidbg.Machine.BitField
import Mathlib.Data.Nat.Init
import Mathlib.Tactic.Common

/-!
# Words of memory and their fields (`core/lidbg_mem.c`)

A word is reached by its physical address, through `ioremap`, or by a virtual
one, which the kernel maps. The functions on fields come in two versions that
differ in how they reach the word and in nothing else; `Access` is that
difference, with what reading and writing a word promise.

- `mark_eq_lowMask`: the loop over `num - 1` shifts builds the mask.
- `writeAddrBit_eq`, `readAddrBit_eq`: in a word's bounds the code writes and
  reads a field of `Machine.BitField`, whose laws then are the code's.
-/

namespace Lidbg.Mem

open Machine

/-- The words of memory, and where the kernel maps a virtual address to. -/
structure Memory where
  word : UInt32 → UInt32
  mapped : UInt32 → UInt32

def Memory.store (m : Memory) (physAddr value : UInt32) : Memory :=
  { m with word := Function.update m.word physAddr value }

@[simp] theorem Memory.mapped_store (m : Memory) (physAddr value : UInt32) :
    (m.store physAddr value).mapped = m.mapped := rfl

@[simp] theorem Memory.word_store (m : Memory) (physAddr value : UInt32) :
    (m.store physAddr value).word physAddr = value := by
  simp [Memory.store]

theorem Memory.store_word (m : Memory) (physAddr : UInt32) :
    m.store physAddr (m.word physAddr) = m := by
  simp [Memory.store]

theorem Memory.store_store (m : Memory) (physAddr value value' : UInt32) :
    (m.store physAddr value).store physAddr value' = m.store physAddr value' := by
  simp [Memory.store]

/-- `read_phy_addr`. -/
def readPhyAddr (m : Memory) (phyAddr : UInt32) : UInt32 :=
  m.word phyAddr

/-- `write_phy_addr`. -/
def writePhyAddr (m : Memory) (phyAddr value : UInt32) : Memory :=
  m.store phyAddr value

/-- `read_virt_addr`. -/
def readVirtAddr (m : Memory) (virtAddr : UInt32) : UInt32 :=
  m.word (m.mapped virtAddr)

/-- `write_virt_addr`. -/
def writeVirtAddr (m : Memory) (virtAddr value : UInt32) : Memory :=
  m.store (m.mapped virtAddr) value

/-- A way to reach a word. -/
structure Access where
  read : Memory → UInt32 → UInt32
  write : Memory → UInt32 → UInt32 → Memory
  read_write : ∀ addr m value, read (write m addr value) addr = value
  write_read : ∀ m addr, write m addr (read m addr) = m
  write_write : ∀ addr m value value',
    write (write m addr value) addr value' = write m addr value'

def phy : Access where
  read := readPhyAddr
  write := writePhyAddr
  read_write := fun addr m value => m.word_store addr value
  write_read := fun m addr => m.store_word addr
  write_write := fun addr m value value' => m.store_store addr value value'

def virt : Access where
  read := readVirtAddr
  write := writeVirtAddr
  read_write := fun addr m value => m.word_store (m.mapped addr) value
  write_read := fun m addr => m.store_word (m.mapped addr)
  write_write := fun addr m value value' => m.store_store (m.mapped addr) value value'

/-- `Mark` after so many turns of the loop. -/
def markLoop : Nat → UInt32
  | 0 => 1
  | i + 1 => markLoop i <<< 1 ||| 1

/-- `Mark`. The count is unsigned: without bits it is `2 ^ 32 - 1`. -/
def mark (num : UInt32) : UInt32 :=
  markLoop (num - 1).toNat

/-- `x << offset`, which is defined for less than the width. -/
def shiftLeft (x offset : UInt32) : Option UInt32 :=
  if offset < 32 then some (x <<< offset) else none

/-- `x >> offset`. -/
def shiftRight (x offset : UInt32) : Option UInt32 :=
  if offset < 32 then some (x >>> offset) else none

def writeAddrBit (acc : Access) (offset num addr value : UInt32) (m : Memory) :
    Option Memory := do
  let temp := acc.read m addr
  -- `(~(Mark << offset))` and `(value & Mark) << offset`
  let cleared ← shiftLeft (mark num) offset
  let put ← shiftLeft (value &&& mark num) offset
  some (acc.write m addr (temp &&& ~~~cleared ||| put))

def readAddrBit (acc : Access) (offset num addr : UInt32) (m : Memory) : Option UInt32 := do
  let value := acc.read m addr
  let field ← shiftLeft (mark num) offset
  shiftRight (value &&& field) offset

/-- `write_phy_addr_bit`. -/
def writePhyAddrBit (offset num phyAddr value : UInt32) (m : Memory) : Option Memory :=
  writeAddrBit phy offset num phyAddr value m

/-- `write_virt_addr_bit`. -/
def writeVirtAddrBit (offset num phyAddr value : UInt32) (m : Memory) : Option Memory :=
  writeAddrBit virt offset num phyAddr value m

/-- `read_phy_addr_bit`. -/
def readPhyAddrBit (offset num phyAddr : UInt32) (m : Memory) : Option UInt32 :=
  readAddrBit phy offset num phyAddr m

/-- `read_virt_addr_bit`. -/
def readVirtAddrBit (offset num phyAddr : UInt32) (m : Memory) : Option UInt32 :=
  readAddrBit virt offset num phyAddr m

theorem toBitVec_mark_loop (i : Nat) : (markLoop i).toBitVec = lowMask 32 (i + 1) := by
  induction i with
  | zero => rfl
  | succ i ih =>
    have hstep : (markLoop (i + 1)).toBitVec = (markLoop i).toBitVec <<< 1 ||| 1 := by
      rw [markLoop, UInt32.toBitVec_or, UInt32.toBitVec_shiftLeft]
      rfl
    rw [hstep, ih]
    exact lowMask_succ (i + 1)

/-- **The loop builds the mask** of a field that has a bit. -/
theorem toBitVec_mark {num : UInt32} (hnum : 0 < num.toNat) :
    (mark num).toBitVec = lowMask 32 num.toNat := by
  have hlt := num.toNat_lt
  have hpred : (num - 1).toNat = num.toNat - 1 :=
    UInt32.toNat_sub_of_le num 1 (UInt32.le_iff_toNat_le.mpr hnum)
  rw [mark, toBitVec_mark_loop, hpred, Nat.sub_add_cancel hnum]

/-- A field of a word: it has a bit and ends in the word. -/
structure InWord (offset num : UInt32) : Prop where
  pos : 0 < num.toNat
  fits : offset.toNat + num.toNat ≤ 32

section Field

variable {offset num : UInt32} (h : InWord offset num)
include h

theorem InWord.lt : offset < 32 := by
  rw [UInt32.lt_iff_toNat_lt]
  show offset.toNat < 32
  have hpos := h.pos
  have hfits := h.fits
  omega

theorem InWord.toNat_mod : (offset.toBitVec % 32).toNat = offset.toNat := by
  rw [BitVec.toNat_umod]
  exact Nat.mod_eq_of_lt (UInt32.lt_iff_toNat_lt.mp h.lt)

theorem shiftLeft_eq (x : UInt32) :
    shiftLeft x offset = some (UInt32.ofBitVec (x.toBitVec <<< offset.toNat)) := by
  rw [shiftLeft, if_pos h.lt]
  congr 1
  apply UInt32.toBitVec_inj.mp
  rw [UInt32.toBitVec_shiftLeft, BitVec.shiftLeft_eq', h.toNat_mod]

theorem shiftRight_eq (x : UInt32) :
    shiftRight x offset = some (UInt32.ofBitVec (x.toBitVec >>> offset.toNat)) := by
  rw [shiftRight, if_pos h.lt]
  congr 1
  apply UInt32.toBitVec_inj.mp
  rw [UInt32.toBitVec_shiftRight, BitVec.ushiftRight_eq', h.toNat_mod]

/-- The code reads the field. -/
theorem readAddrBit_eq (acc : Access) (addr : UInt32) (m : Memory) :
    readAddrBit acc offset num addr m =
      some (UInt32.ofBitVec
        (extractField offset.toNat num.toNat (acc.read m addr).toBitVec)) := by
  simp only [readAddrBit, shiftLeft_eq h, shiftRight_eq h, Option.bind_eq_bind, Option.bind_some,
    UInt32.toBitVec_and, toBitVec_mark h.pos, extractField]

/-- The code writes the field, and the rest of the word back. -/
theorem writeAddrBit_eq (acc : Access) (addr value : UInt32) (m : Memory) :
    writeAddrBit acc offset num addr value m =
      some (acc.write m addr (UInt32.ofBitVec
        (insertField offset.toNat num.toNat (acc.read m addr).toBitVec value.toBitVec))) := by
  have hword : acc.read m addr &&&
        ~~~(UInt32.ofBitVec ((mark num).toBitVec <<< offset.toNat)) |||
          UInt32.ofBitVec ((value &&& mark num).toBitVec <<< offset.toNat) =
      UInt32.ofBitVec
        (insertField offset.toNat num.toNat (acc.read m addr).toBitVec value.toBitVec) := by
    apply UInt32.toBitVec_inj.mp
    simp only [UInt32.toBitVec_or, UInt32.toBitVec_and, UInt32.toBitVec_not,
      toBitVec_mark h.pos, insertField]
  simp only [writeAddrBit, shiftLeft_eq h, Option.bind_eq_bind, Option.bind_some, hword]

end Field

/-- A bit of a word. -/
def bit (x : UInt32) (i : Nat) : Bool :=
  x.toBitVec.getLsbD i

/-- The bits outside a field are the same. -/
def SameOutside (offset num word word' : UInt32) : Prop :=
  ∀ i < 32, ¬ (offset.toNat ≤ i ∧ i < offset.toNat + num.toNat) → bit word' i = bit word i

/-- What a write to a field does, as seen by reads. -/
theorem writeAddrBit_spec {offset num : UInt32} (h : InWord offset num) (acc : Access)
    (addr value : UInt32) (m : Memory) :
    ∃ m' field, writeAddrBit acc offset num addr value m = some m' ∧
      readAddrBit acc offset num addr m' = some field ∧
      field.toNat = value.toNat % 2 ^ num.toNat ∧
      SameOutside offset num (acc.read m addr) (acc.read m' addr) := by
  refine ⟨_, _, writeAddrBit_eq h acc addr value m, readAddrBit_eq h acc addr _, ?_, ?_⟩
  · rw [acc.read_write]
    show (extractField _ _ (insertField _ _ _ _)).toNat = _
    rw [extractField_insertField h.fits, toNat_and_lowMask]
    rfl
  · intro i hi hout
    rw [acc.read_write]
    show (insertField _ _ _ _).getLsbD i = _
    rw [getLsbD_insertField _ _ _ _ hi, if_neg hout]
    rfl

/-- Two accesses that read one word write one word and read one field. -/
theorem addrBit_congr (acc acc' : Access) {m m' : Memory} {addr addr' : UInt32}
    (hword : acc'.read m' addr' = acc.read m addr) (offset num value : UInt32) :
    readAddrBit acc' offset num addr' m' = readAddrBit acc offset num addr m ∧
    (writeAddrBit acc' offset num addr' value m').map (acc'.read · addr') =
      (writeAddrBit acc offset num addr value m).map (acc.read · addr) := by
  refine ⟨by simp only [readAddrBit, hword], ?_⟩
  simp only [writeAddrBit, hword, Option.bind_eq_bind]
  -- also where the shifts are undefined, both are
  cases shiftLeft (mark num) offset with
  | none => rfl
  | some cleared =>
    cases shiftLeft (value &&& mark num) offset with
    | none => rfl
    | some put => simp [acc.read_write, acc'.read_write]

/-- **Fields of a word.** What is written is read, the rest of the word stays,
and the two versions agree. -/
theorem addr_bit_laws {offset num : UInt32} (h : InWord offset num) (value : UInt32)
    (m mv : Memory) (phyAddr virtAddr : UInt32) :
    (∃ m' field, writePhyAddrBit offset num phyAddr value m = some m' ∧
      readPhyAddrBit offset num phyAddr m' = some field ∧
      field.toNat = value.toNat % 2 ^ num.toNat ∧
      SameOutside offset num (readPhyAddr m phyAddr) (readPhyAddr m' phyAddr)) ∧
    (∃ m' field, writeVirtAddrBit offset num virtAddr value mv = some m' ∧
      readVirtAddrBit offset num virtAddr m' = some field ∧
      field.toNat = value.toNat % 2 ^ num.toNat ∧
      SameOutside offset num (readVirtAddr mv virtAddr) (readVirtAddr m' virtAddr)) ∧
    (readVirtAddr mv virtAddr = readPhyAddr m phyAddr →
      readVirtAddrBit offset num virtAddr mv = readPhyAddrBit offset num phyAddr m ∧
      (writeVirtAddrBit offset num virtAddr value mv).map (readVirtAddr · virtAddr) =
        (writePhyAddrBit offset num phyAddr value m).map (readPhyAddr · phyAddr)) :=
  ⟨writeAddrBit_spec h phy phyAddr value m, writeAddrBit_spec h virt virtAddr value mv,
    fun hword => addrBit_congr phy virt hword offset num value⟩

/-- The highest byte of one word, which is mapped to itself, and a whole word. -/
theorem addr_bit_laws_top :
    InWord 24 8 ∧ InWord 0 32 ∧
    (∃ m' field, writePhyAddrBit 24 8 16 511 ⟨fun _ => 7, id⟩ = some m' ∧
      readPhyAddrBit 24 8 16 m' = some field ∧ field.toNat = 511 % 2 ^ 8 ∧
      SameOutside 24 8 7 (readPhyAddr m' 16)) ∧
    readVirtAddrBit 24 8 16 ⟨fun _ => 7, id⟩ = readPhyAddrBit 24 8 16 ⟨fun _ => 7, id⟩ := by
  have hword : InWord 24 8 := ⟨by decide, by decide⟩
  have hlaws := addr_bit_laws hword 511 ⟨fun _ => 7, id⟩ ⟨fun _ => 7, id⟩ 16 16
  exact ⟨hword, ⟨by decide, by decide⟩, hlaws.1, (hlaws.2.2 rfl).1⟩

/-- Writing back the field that was read changes nothing. -/
theorem writeAddrBit_readAddrBit {offset num : UInt32} (h : InWord offset num) (acc : Access)
    (addr : UInt32) (m : Memory) :
    (readAddrBit acc offset num addr m).bind
      (fun field => writeAddrBit acc offset num addr field m) = some m := by
  rw [readAddrBit_eq h, Option.bind_some, writeAddrBit_eq h, insertField_extractField]
  congr 1
  exact acc.write_read m addr

/-- Of two writes to one field the second counts. -/
theorem writeAddrBit_writeAddrBit {offset num : UInt32} (h : InWord offset num) (acc : Access)
    (addr value value' : UInt32) (m : Memory) :
    (writeAddrBit acc offset num addr value m).bind
      (writeAddrBit acc offset num addr value') =
        writeAddrBit acc offset num addr value' m := by
  rw [writeAddrBit_eq h, Option.bind_some, writeAddrBit_eq h, writeAddrBit_eq h, acc.read_write,
    acc.write_write]
  congr 3
  exact insertField_insertField _ _ _ _ _

end Lidbg.Mem
