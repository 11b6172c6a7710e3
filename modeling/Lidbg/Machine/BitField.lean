import Mathlib.Data.Nat.Bitwise
import Mathlib.Tactic.SplitIfs

/-!
# Bit fields of a word

A field of a word is `num` bits from `offset` on. `extractField` reads it and
`insertField` writes it, both by a mask, as such code does. One lemma each says
which bits they yield; the laws follow: what is inserted is read
(`extractField_insertField`), inserting what was read changes nothing
(`insertField_extractField`), the second of two insertions counts
(`insertField_insertField`).
-/

namespace Lidbg.Machine

variable {w : Nat}

/-- The `num` lowest bits. -/
def lowMask (w num : Nat) : BitVec w :=
  (BitVec.allOnes num).setWidth w

def extractField (offset num : Nat) (x : BitVec w) : BitVec w :=
  (x &&& lowMask w num <<< offset) >>> offset

def insertField (offset num : Nat) (x v : BitVec w) : BitVec w :=
  (x &&& ~~~(lowMask w num <<< offset)) ||| (v &&& lowMask w num) <<< offset

@[simp] theorem getLsbD_lowMask (num i : Nat) :
    (lowMask w num).getLsbD i = (decide (i < w) && decide (i < num)) := by
  simp [lowMask]

@[simp] theorem getElem_lowMask (num i : Nat) (hi : i < w) :
    (lowMask w num)[i] = decide (i < num) := by
  rw [← BitVec.getLsbD_eq_getElem hi, getLsbD_lowMask, decide_eq_true hi, Bool.true_and]

/-- A mask grows by a shift and a bit. -/
theorem lowMask_succ (num : Nat) : lowMask w num <<< 1 ||| 1 = lowMask w (num + 1) := by
  apply BitVec.eq_of_getLsbD_eq
  intro i hi
  cases i with
  | zero => simp [hi]
  | succ i => simp [hi]

/-- The low bits of a word, as a number. -/
theorem toNat_and_lowMask (v : BitVec w) (num : Nat) :
    (v &&& lowMask w num).toNat = v.toNat % 2 ^ num := by
  apply Nat.eq_of_testBit_eq
  intro i
  have hbit : ∀ x : BitVec w, x.toNat.testBit i = x.getLsbD i := fun _ => rfl
  rw [hbit, Nat.testBit_mod_two_pow, hbit, BitVec.getLsbD_and, getLsbD_lowMask]
  by_cases hi : i < w
  · simp [hi, Bool.and_comm]
  · simp [BitVec.getLsbD_of_ge v i (Nat.not_lt.mp hi)]

theorem getLsbD_extractField {offset num : Nat} (x : BitVec w) (i : Nat) :
    (extractField offset num x).getLsbD i = (decide (i < num) && x.getLsbD (offset + i)) := by
  by_cases hi : offset + i < w
  · have hlt : i < w := by omega
    have hge : ¬ offset + i < offset := by omega
    simp [extractField, hi, hlt, hge, Bool.and_comm]
  · simp [extractField, BitVec.getLsbD_of_ge x (offset + i) (Nat.not_lt.mp hi)]

/-- The bits of the field are those of the value, the others those of the word. -/
theorem getLsbD_insertField (offset num : Nat) (x v : BitVec w) {i : Nat} (hi : i < w) :
    (insertField offset num x v).getLsbD i =
      if offset ≤ i ∧ i < offset + num then v.getLsbD (i - offset) else x.getLsbD i := by
  have hlt : i - offset < w := by omega
  by_cases hoff : offset ≤ i
  · have hge : ¬ i < offset := Nat.not_lt.mpr hoff
    have hfield : i - offset < num ↔ i < offset + num := by omega
    by_cases hnum : i < offset + num
    · simp [insertField, hi, hlt, hoff, hge, hfield, hnum]
    · simp [insertField, hi, hge, hfield, hnum]
  · simp [insertField, hi, hoff, Nat.lt_of_not_le hoff]

/-- **Read after write.** -/
theorem extractField_insertField {offset num : Nat} (h : offset + num ≤ w) (x v : BitVec w) :
    extractField offset num (insertField offset num x v) = v &&& lowMask w num := by
  apply BitVec.eq_of_getLsbD_eq
  intro i hi
  rw [getLsbD_extractField, BitVec.getLsbD_and, getLsbD_lowMask]
  by_cases hnum : i < num
  · have hlt : offset + i < w := by omega
    rw [getLsbD_insertField offset num x v hlt, if_pos ⟨by omega, by omega⟩,
      Nat.add_sub_cancel_left]
    simp [hi, hnum]
  · simp [hnum]

/-- **Write after read.** -/
theorem insertField_extractField (offset num : Nat) (x : BitVec w) :
    insertField offset num x (extractField offset num x) = x := by
  apply BitVec.eq_of_getLsbD_eq
  intro i hi
  rw [getLsbD_insertField offset num x _ hi]
  split_ifs with hfield
  · obtain ⟨hoff, hnum⟩ := hfield
    have hlt : i - offset < num := by omega
    rw [getLsbD_extractField, Nat.add_sub_cancel' hoff, decide_eq_true hlt, Bool.true_and]
  · rfl

/-- **Write after write.** -/
theorem insertField_insertField (offset num : Nat) (x v v' : BitVec w) :
    insertField offset num (insertField offset num x v) v' = insertField offset num x v' := by
  apply BitVec.eq_of_getLsbD_eq
  intro i hi
  rw [getLsbD_insertField offset num _ v' hi, getLsbD_insertField offset num x v hi,
    getLsbD_insertField offset num x v' hi]
  split_ifs <;> rfl

end Lidbg.Machine
