import Mathlib.Algebra.Group.Int.Defs
import Mathlib.Algebra.Group.Nat.Defs
import Mathlib.Data.Int.Init
import Mathlib.Data.List.Basic
import Mathlib.Tactic.SplitIfs

/-!
# C integers as bytes and values

The conversions the modelled C relies on, over bare bytes: the value of a plain
`char` (signed or not, which is the compiler's choice), the `char` an `int`
expression is stored as, the value an `int` parameter receives from a wider
unsigned count, and what a cast between signed and unsigned words keeps.
-/

namespace Lidbg.Machine

/-- The value of a plain `char` holding the byte `b`. -/
def charVal (signed : Bool) (b : UInt8) : Int :=
  if signed && decide (128 ≤ b.toNat) then (b.toNat : Int) - 256 else b.toNat

/-- The byte stored when an `int` is assigned to a `char`. -/
def toChar (x : Int) : UInt8 :=
  UInt8.ofNat (x % 256).toNat

/-- The value of an `int` parameter passed a count: two's complement. -/
def toInt (n : Nat) : Int :=
  Int.bmod n (2 ^ 32)

/-- The four bytes of an `int` in memory, least significant first. -/
def intBytes (x : Int32) : List UInt8 :=
  let n := x.toUInt32.toNat
  [UInt8.ofNat n, UInt8.ofNat (n / 2 ^ 8), UInt8.ofNat (n / 2 ^ 16), UInt8.ofNat (n / 2 ^ 24)]

/-- The `int` whose memory holds the first four bytes of `l`. -/
def intOfBytes (l : List UInt8) : Int32 :=
  (UInt32.ofNat ((l.getD 0 0).toNat + (l.getD 1 0).toNat * 2 ^ 8 +
    (l.getD 2 0).toNat * 2 ^ 16 + (l.getD 3 0).toNat * 2 ^ 24)).toInt32

@[simp] theorem length_intBytes (x : Int32) : (intBytes x).length = 4 := rfl

theorem intOfBytes_intBytes (x : Int32) (l : List UInt8) :
    intOfBytes (intBytes x ++ l) = x := by
  have hlt := x.toUInt32.toNat_lt
  simp only [intOfBytes, intBytes, List.cons_append, List.getD_cons_zero,
    List.getD_cons_succ, UInt8.toNat_ofNat']
  generalize hn : x.toUInt32.toNat = n at hlt
  rw [show n % 2 ^ 8 + n / 2 ^ 8 % 2 ^ 8 * 2 ^ 8 + n / 2 ^ 16 % 2 ^ 8 * 2 ^ 16 +
    n / 2 ^ 24 % 2 ^ 8 * 2 ^ 24 = n by omega, ← hn, UInt32.ofNat_toNat,
    Int32.toInt32_toUInt32]

theorem toNat_toChar (x : Int) : ((toChar x).toNat : Int) = x % 256 := by
  rw [toChar, UInt8.toNat_ofNat']
  omega

theorem toInt_of_lt {n : Nat} (h : n < 2 ^ 31) : toInt n = n := by
  unfold toInt
  exact Int.bmod_eq_of_le (by omega) (by omega)

/-- `x++` below `INT_MAX`. -/
theorem toInt_add_one {x : Int32} (h0 : 0 ≤ x.toInt) (h : x.toInt < 2147483647) :
    (x + 1).toInt = x.toInt + 1 := by
  rw [Int32.toInt_add]
  exact Int.bmod_eq_of_le (by simp; omega) (by simp; omega)

/-- `x--` above zero. -/
theorem toInt_sub_one {x : Int32} (h : 0 < x.toInt) : (x - 1).toInt = x.toInt - 1 := by
  have hlt := x.toInt_lt
  rw [Int32.toInt_sub]
  exact Int.bmod_eq_of_le (by simp; omega) (by simp; omega)

/-- The bits of a signed word, read as an unsigned one. -/
theorem toNat_toUInt64 (x : Int64) : (x.toUInt64.toNat : Int) = x.toInt % 2 ^ 64 := by
  have h : x.toInt = (x.toUInt64.toNat : Int).bmod (2 ^ 64) :=
    BitVec.toInt_eq_toNat_bmod x.toBitVec
  have hlt := x.toUInt64.toNat_lt
  rw [h, Int.bmod_def]
  omega

/-- `(unsigned int)x` of a 64-bit `x`. -/
theorem toNat_toUInt32_toUInt64 (x : Int64) :
    (x.toUInt64.toUInt32.toNat : Int) = x.toInt % 2 ^ 32 := by
  have h := toNat_toUInt64 x
  rw [UInt64.toNat_toUInt32]
  omega

/-- An unsigned word keeps its value in a wider signed one. -/
theorem toInt_toInt64 (x : UInt32) : x.toUInt64.toInt64.toInt = x.toNat := by
  have hlt := x.toNat_lt
  show x.toUInt64.toBitVec.toInt = x.toNat
  rw [BitVec.toInt_eq_toNat_of_lt]
  · rfl
  · show 2 * x.toNat < 2 ^ 64
    omega

end Lidbg.Machine
