import Mathlib.Data.BitVec
import Mathlib.Logic.Function.Basic

/-!
# Multi-touch slots, and bits of a `u16`

An input device of the slotted multi-touch protocol has a fixed number of slots,
one of them selected. A reported state or coordinate goes to the selected slot. A
released slot keeps its coordinates.
-/

namespace Lidbg.Machine

/-- One slot: whether it holds a contact, and what was reported for it last. -/
structure MtSlot where
  active : Bool
  positionX : Nat
  positionY : Nat
  touchMajor : Nat
  widthMajor : Nat
deriving DecidableEq

/-- A device of `num` slots. -/
structure InputDev (num : Nat) where
  slot : Nat
  slots : Nat → MtSlot

/-- The coordinates reported for a contact. -/
inductive AbsCode where
  | mtPositionX
  | mtPositionY
  | mtTouchMajor
  | mtWidthMajor

namespace InputDev

variable {num : Nat}

/-- `input_mt_slot`, which ignores a slot that the device does not have. -/
def inputMtSlot (dev : InputDev num) (slot : Nat) : InputDev num :=
  if slot < num then { dev with slot := slot } else dev

def modifySlot (dev : InputDev num) (f : MtSlot → MtSlot) : InputDev num :=
  { dev with slots := Function.update dev.slots dev.slot (f (dev.slots dev.slot)) }

/-- `input_mt_report_slot_state`. -/
def inputMtReportSlotState (dev : InputDev num) (active : Bool) : InputDev num :=
  dev.modifySlot fun s => { s with active := active }

/-- `input_report_abs`. -/
def inputReportAbs (dev : InputDev num) (code : AbsCode) (value : Nat) : InputDev num :=
  dev.modifySlot fun s =>
    match code with
    | .mtPositionX => { s with positionX := value }
    | .mtPositionY => { s with positionY := value }
    | .mtTouchMajor => { s with touchMajor := value }
    | .mtWidthMajor => { s with widthMajor := value }

@[simp] theorem slots_inputMtSlot (dev : InputDev num) (slot : Nat) :
    (dev.inputMtSlot slot).slots = dev.slots := by
  unfold inputMtSlot
  split_ifs <;> rfl

theorem slot_inputMtSlot {slot : Nat} (h : slot < num) (dev : InputDev num) :
    (dev.inputMtSlot slot).slot = slot := by
  rw [inputMtSlot, if_pos h]

@[simp] theorem slot_modifySlot (dev : InputDev num) (f : MtSlot → MtSlot) :
    (dev.modifySlot f).slot = dev.slot := rfl

@[simp] theorem slots_modifySlot (dev : InputDev num) (f : MtSlot → MtSlot) :
    (dev.modifySlot f).slots = Function.update dev.slots dev.slot (f (dev.slots dev.slot)) := rfl

/-- What is reported to the selected slot adds up. -/
theorem modifySlot_modifySlot (dev : InputDev num) (f g : MtSlot → MtSlot) :
    (dev.modifySlot f).modifySlot g = dev.modifySlot (g ∘ f) := by
  unfold modifySlot
  dsimp only [Function.comp]
  rw [Function.update_self, Function.update_idem]

end InputDev

/-! ## Bits -/

/-- `b & (0x01 << i)`. -/
def bitSet (b : BitVec 16) (i : Nat) : Bool :=
  b &&& (1#16 <<< i) ≠ 0#16

/-- `b |= 0x01 << i`. -/
def setBit (b : BitVec 16) (i : Nat) : BitVec 16 :=
  b ||| (1#16 <<< i)

/-- `b &= ~(0x01 << i)`. -/
def clearBit (b : BitVec 16) (i : Nat) : BitVec 16 :=
  b &&& ~~~(1#16 <<< i)

theorem bitSet_eq (b : BitVec 16) (i : Nat) : bitSet b i = b.getLsbD i := by
  rw [bitSet, ← BitVec.twoPow_eq, BitVec.and_twoPow]
  cases hbit : b.getLsbD i with
  | true =>
    have hi : i < 16 := BitVec.lt_of_getLsbD hbit
    have hne : BitVec.twoPow 16 i ≠ 0#16 := by
      intro h
      have hbit := congrArg (fun b => b.getLsbD i) h
      simp [hi] at hbit
    exact decide_eq_true hne
  | false => exact decide_eq_false (not_not.mpr rfl)

theorem bitSet_setBit {i : Nat} (hi : i < 16) (b : BitVec 16) (j : Nat) :
    bitSet (setBit b i) j = (decide (j = i) || bitSet b j) := by
  rw [bitSet_eq, bitSet_eq, setBit, ← BitVec.twoPow_eq]
  simp [hi, eq_comm, Bool.or_comm]

theorem bitSet_clearBit (b : BitVec 16) (i j : Nat) :
    bitSet (clearBit b i) j = (decide (j ≠ i) && bitSet b j) := by
  rw [bitSet_eq, bitSet_eq, clearBit, ← BitVec.twoPow_eq]
  by_cases hj : j < 16
  · simp [hj, eq_comm, Bool.and_comm]
  · simp [Nat.le_of_not_lt hj]

end Lidbg.Machine
