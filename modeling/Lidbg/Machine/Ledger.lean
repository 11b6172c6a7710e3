import Mathlib.Logic.Function.Basic

/-!
# Ledgers of resources

Operations ask for resources, which they may not get, and give them back. What is held
after a list of operations is a function of the list (`heldAfterAll`), and so is whether a
resource was asked for while it was held (`AskedFree`); both go over appends, so that a
list is taken call by call.
-/

namespace Lidbg.Machine

universe u v

variable {ι : Type u} {ω : Type v} [DecidableEq ι]

/-- What an operation does to the resources. -/
inductive LedgerOp (ι : Type u) where
  | ask (i : ι) (got : Bool)
  | giveBack (i : ι)
  | none

/-- What is held after an operation. -/
def LedgerOp.after (held : ι → Bool) : LedgerOp ι → ι → Bool
  | .ask i got => if got then Function.update held i true else held
  | .giveBack i => Function.update held i false
  | .none => held

/-- The resource asked for was not held. -/
def LedgerOp.AskedFree (held : ι → Bool) : LedgerOp ι → Prop
  | .ask i _ => held i = false
  | _ => True

variable (ledgerOp : ω → LedgerOp ι)

/-- What is held after all of the operations. -/
def heldAfterAll (held : ι → Bool) : List ω → ι → Bool
  | [] => held
  | w :: o => heldAfterAll ((ledgerOp w).after held) o

/-- None of the operations asks for a resource that is held. -/
def AskedFree (held : ι → Bool) : List ω → Prop
  | [] => True
  | w :: o => (ledgerOp w).AskedFree held ∧ AskedFree ((ledgerOp w).after held) o

variable {ledgerOp}

theorem heldAfterAll_append (held : ι → Bool) (o o' : List ω) :
    heldAfterAll ledgerOp held (o ++ o') =
      heldAfterAll ledgerOp (heldAfterAll ledgerOp held o) o' := by
  induction o generalizing held with
  | nil => rfl
  | cons w o ih => exact ih _

theorem askedFree_append (held : ι → Bool) (o o' : List ω) :
    AskedFree ledgerOp held (o ++ o') ↔
      AskedFree ledgerOp held o ∧ AskedFree ledgerOp (heldAfterAll ledgerOp held o) o' := by
  induction o generalizing held with
  | nil => exact (and_iff_right trivial).symm
  | cons w o ih => rw [List.cons_append, AskedFree, AskedFree, ih, and_assoc]; rfl

end Lidbg.Machine
