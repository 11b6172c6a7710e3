import Mathlib.Algebra.Order.Ring.Int
import Mathlib.Tactic.Linarith
import Mathlib.Tactic.Ring
import Mathlib.Tactic.Zify

/-!
# Digital lines

A line that goes `b` up while it goes `a` to the right, `b ≤ a`, has one point in each
column. `nearest a b k` is the row nearest to it in column `k`, the upper one of two.

- `nearest_succ`: the next row by the sign of a decision variable (`decision`), which
  `decision_succ` keeps up with sums alone.
- `nearest_close`: no point is further from the line than half a row.
-/

namespace Lidbg.Machine

variable {a b : Nat}

/-- `k * b / a`, rounded. -/
def nearest (a b k : Nat) : Nat := (2 * k * b + a) / (2 * a)

theorem nearest_spec (ha : 0 < a) (k : Nat) :
    2 * a * nearest a b k ≤ 2 * k * b + a ∧ 2 * k * b + a < 2 * a * (nearest a b k + 1) := by
  have hpos : 0 < 2 * a := Nat.mul_pos Nat.two_pos ha
  exact ⟨Nat.mul_div_le _ _, Nat.lt_mul_div_succ _ hpos⟩

theorem nearest_unique {k n : Nat} (hle : 2 * a * n ≤ 2 * k * b + a)
    (hlt : 2 * k * b + a < 2 * a * (n + 1)) : nearest a b k = n := by
  refine Nat.div_eq_of_lt_le ?_ ?_
  · rwa [Nat.mul_comm n]
  · rwa [Nat.mul_comm (n + 1)]

theorem nearest_zero (ha : 0 < a) : nearest a b 0 = 0 := by
  refine nearest_unique (Nat.zero_le _) ?_
  simp only [Nat.mul_zero, Nat.zero_mul, Nat.zero_add, Nat.mul_one]
  omega

theorem nearest_self (ha : 0 < a) : nearest a b a = b := by
  refine nearest_unique ?_ ?_
  · exact Nat.le_add_right _ _
  · rw [Nat.mul_succ]
    omega

/-- Twice the distance from the middle of the row to the line in the next column, in
parts of a row. -/
def decision (a b k : Nat) : Int := 2 * b * (k + 1) - 2 * a * nearest a b k - a

theorem decision_zero (ha : 0 < a) : decision a b 0 = 2 * b - a := by
  rw [decision, nearest_zero ha]
  ring

theorem decision_bounds (ha : 0 < a) (k : Nat) :
    2 * b - 2 * a ≤ decision a b k ∧ decision a b k < 2 * b := by
  obtain ⟨hle, hlt⟩ := nearest_spec (b := b) ha k
  have hle' : (2 * a * nearest a b k : Int) ≤ 2 * k * b + a := by exact_mod_cast hle
  have hlt' : (2 * k * b + a : Int) < 2 * a * (nearest a b k + 1) := by exact_mod_cast hlt
  unfold decision
  constructor <;> linarith

/-- **The next row**: the same, or the one above. -/
theorem nearest_succ (ha : 0 < a) (hb : b ≤ a) (k : Nat) :
    nearest a b (k + 1) = if decision a b k < 0 then nearest a b k else nearest a b k + 1 := by
  obtain ⟨hle, hlt⟩ := nearest_spec (b := b) ha k
  have hmul : 2 * (k + 1) * b = 2 * k * b + 2 * b := by ring
  have hup : 2 * a * (nearest a b k + 1 + 1) = 2 * a * (nearest a b k + 1) + 2 * a := by ring
  have hsign : decision a b k < 0 ↔ 2 * (k + 1) * b + a < 2 * a * (nearest a b k + 1) := by
    unfold decision
    zify
    constructor <;> intro h <;> linarith
  split
  · next hneg =>
    refine nearest_unique ?_ (hsign.mp hneg)
    omega
  · next hneg =>
    refine nearest_unique (Nat.not_lt.mp (hneg ∘ hsign.mpr)) ?_
    omega

/-- The decision variable in the next column. -/
theorem decision_succ (ha : 0 < a) (hb : b ≤ a) (k : Nat) :
    decision a b (k + 1) =
      decision a b k + if decision a b k < 0 then 2 * (b : Int) else 2 * b - 2 * a := by
  have hnext := nearest_succ ha hb k
  rw [decision, hnext, decision]
  split <;> push_cast <;> ring

theorem nearest_mono {k l : Nat} (h : k ≤ l) : nearest a b k ≤ nearest a b l := by
  refine Nat.div_le_div_right (Nat.add_le_add_right ?_ a)
  exact Nat.mul_le_mul_right b (Nat.mul_le_mul_left 2 h)

theorem nearest_le (ha : 0 < a) {k : Nat} (hk : k ≤ a) : nearest a b k ≤ b :=
  (nearest_mono hk).trans_eq (nearest_self ha)

/-- **No further than half a row.** -/
theorem nearest_close (ha : 0 < a) (k : Nat) :
    |2 * (k * b - a * nearest a b k : Int)| ≤ a := by
  obtain ⟨hle, hlt⟩ := nearest_spec (b := b) ha k
  have hle' : (2 * a * nearest a b k : Int) ≤ 2 * k * b + a := by exact_mod_cast hle
  have hlt' : (2 * k * b + a : Int) < 2 * a * (nearest a b k + 1) := by exact_mod_cast hlt
  rw [abs_le]
  constructor <;> linarith

end Lidbg.Machine
