import Lidbg.Machine.CStr
import Mathlib.Algebra.Group.Int.Defs
import Mathlib.Data.Nat.Basic

/-!
# Printing with `%d`, reading with `simple_strtoul`

`sprintf`'s `%d` prints a sign and decimal digits, `%0wd` fills up to a width of
`w` with zeros. The kernel's `simple_strtoul(s, 0, 0)` takes the base from the
prefix, stops at the first character that is no digit of it, and knows no sign.
Read back into an `int`, what was printed is the `int` again exactly when it is
not negative (`strtoulInt_printInt_iff`).
-/

namespace Lidbg.Machine

/-! ## Printing -/

/-- The decimal digits, most significant first. -/
def decimal (n : Nat) : List UInt8 :=
  (Nat.toDigits 10 n).map fun c => c.toNat.toUInt8

/-- `%d`. -/
def printInt (x : Int32) : List UInt8 :=
  if x.toInt < 0 then ascii "-" ++ decimal x.toInt.natAbs else decimal x.toInt.natAbs

/-- `%0wd`: the zeros that fill the width stand behind the sign. -/
def printPadded (w : Nat) (x : Int32) : List UInt8 :=
  let digits := decimal x.toInt.natAbs
  if x.toInt < 0 then ascii "-" ++ List.replicate (w - 1 - digits.length) 48 ++ digits
  else List.replicate (w - digits.length) 48 ++ digits

/-! ## Reading -/

/-- `_tolower`. -/
def toLower (c : UInt8) : UInt8 := c ||| 0x20

/-- The value of a hexadecimal digit. -/
def digitVal (c : UInt8) : Option Nat :=
  if 48 ≤ c ∧ c ≤ 57 then some (c.toNat - 48)
  else if 97 ≤ toLower c ∧ toLower c ≤ 102 then some ((toLower c).toNat - 97 + 10)
  else none

/-- `_parse_integer`, from the digits already read. -/
def parseInteger (base res : Nat) : List UInt8 → Nat
  | [] => res
  | c :: s =>
    match digitVal c with
    | none => res
    | some val => if base ≤ val then res else parseInteger base (res * base + val) s

/-- `_parse_integer_fixup_radix` for base 0. -/
def fixupRadix (s : List UInt8) : Nat × List UInt8 :=
  if s.head? = some 48 then
    if (s[1]?.map toLower = some 120) ∧ (s[2]?.bind digitVal).isSome then (16, s.drop 2)
    else (8, s)
  else (10, s)

/-- `simple_strtoul(s, 0, 0)`, before it is cut to the width of its type. -/
def simpleStrtoul (s : List UInt8) : Nat :=
  parseInteger (fixupRadix s).1 0 (fixupRadix s).2

/-- The `int` it is assigned to. -/
def strtoulInt (s : List UInt8) : Int32 :=
  Int32.ofNat (simpleStrtoul s)

/-! ## Digits -/

/-- The character of a decimal digit. -/
def digit (d : Nat) : UInt8 := (Nat.digitChar d).toNat.toUInt8

theorem toNat_digit {d : Nat} (h : d < 10) : (digit d).toNat = 48 + d := by
  rw [digit, Nat.toNat_digitChar_of_lt_ten h, UInt8.toNat_ofNat']
  omega

theorem digitVal_digit {d : Nat} (h : d < 10) : digitVal (digit d) = some d := by
  have hd := toNat_digit h
  rw [digitVal, if_pos, hd, Nat.add_sub_cancel_left]
  constructor
  · rw [UInt8.le_iff_toNat_le, hd]
    exact Nat.le_add_right 48 d
  · rw [UInt8.le_iff_toNat_le, hd]
    show 48 + d ≤ 57
    omega

theorem decimal_of_lt {n : Nat} (h : n < 10) : decimal n = [digit n] := by
  rw [decimal, Nat.toDigits_of_lt_base h]
  rfl

theorem decimal_of_le {n : Nat} (h : 10 ≤ n) :
    decimal n = decimal (n / 10) ++ [digit (n % 10)] := by
  rw [decimal, Nat.toDigits_of_base_le (by omega) h, List.map_append]
  rfl

/-- A decimal is digits, and only zero starts with a zero. -/
theorem decimal_spec (n : Nat) :
    (∀ c ∈ decimal n, 48 ≤ c.toNat ∧ c.toNat ≤ 57) ∧
      ∃ c rest, decimal n = c :: rest ∧ (c.toNat = 48 → n = 0) := by
  induction n using Nat.strong_induction_on with
  | _ n ih =>
    have hmod := toNat_digit (Nat.mod_lt n (show 10 > 0 by omega))
    by_cases h : n < 10
    · rw [decimal_of_lt h]
      have hd := toNat_digit h
      refine ⟨?_, digit n, [], rfl, by omega⟩
      intro c hc
      rw [List.mem_singleton.mp hc, hd]
      omega
    · obtain ⟨hall, c, rest, hcons, hc⟩ := ih (n / 10) (by omega)
      rw [decimal_of_le (by omega)]
      refine ⟨?_, c, rest ++ [digit (n % 10)], by rw [hcons, List.cons_append], by omega⟩
      intro c hc
      rcases List.mem_append.mp hc with hc | hc
      · exact hall c hc
      · rw [List.mem_singleton.mp hc, hmod]
        omega

theorem notMem_decimal (n : Nat) {c : UInt8} (h : c.toNat < 48) : c ∉ decimal n := by
  intro hc
  have := (decimal_spec n).1 c hc
  omega

theorem notMem_minus {c : UInt8} (h : c.toNat < 45) : c ∉ ascii "-" := by
  show c ∉ [45]
  rw [List.mem_singleton]
  rintro rfl
  exact absurd h (by decide)

/-- What `%d` prints never holds: a NUL, a newline, and the like. -/
theorem notMem_printInt (x : Int32) {c : UInt8} (h : c.toNat < 45) : c ∉ printInt x := by
  have hd : c ∉ decimal x.toInt.natAbs := notMem_decimal _ (by omega)
  unfold printInt
  split
  · rw [List.mem_append, not_or]
    exact ⟨notMem_minus h, hd⟩
  · exact hd

theorem notMem_printPadded (w : Nat) (x : Int32) {c : UInt8} (h : c.toNat < 45) :
    c ∉ printPadded w x := by
  have hd : c ∉ decimal x.toInt.natAbs := notMem_decimal _ (by omega)
  have hz : ∀ n, c ∉ List.replicate n 48 := by
    intro n hc
    rw [List.eq_of_mem_replicate hc] at h
    exact absurd h (by decide)
  simp only [printPadded]
  split
  · simp [notMem_minus h, hz, hd]
  · simp [hz, hd]

/-- A number that is printed holds no NUL. -/
theorem nul_notMem_printInt (x : Int32) : 0 ∉ printInt x :=
  notMem_printInt x (by decide)

theorem nul_notMem_printPadded (w : Nat) (x : Int32) : 0 ∉ printPadded w x :=
  notMem_printPadded w x (by decide)

/-- An `int` has at most ten digits. -/
theorem length_decimal_natAbs_le (x : Int32) : (decimal x.toInt.natAbs).length ≤ 10 := by
  rw [decimal, List.length_map, Nat.length_toDigits_le_iff (by decide) (by decide)]
  have := x.le_toInt
  have := x.toInt_lt
  omega

theorem length_printInt_le (x : Int32) : (printInt x).length ≤ 11 := by
  have hd := length_decimal_natAbs_le x
  unfold printInt
  split
  · rw [List.length_append]
    show 1 + _ ≤ 11
    omega
  · omega

theorem length_printPadded_le {w : Nat} (hw : w ≤ 11) (x : Int32) :
    (printPadded w x).length ≤ 11 := by
  have hd := length_decimal_natAbs_le x
  simp only [printPadded]
  split
  · rw [List.length_append, List.length_append, List.length_replicate]
    show 1 + _ + _ ≤ 11
    omega
  · rw [List.length_append, List.length_replicate]
    omega

/-- A number that does not need more digits takes exactly its width. -/
theorem length_printPadded {w : Nat} (hw : 0 < w) {x : Int32} (h0 : 0 ≤ x.toInt)
    (h : x.toInt < 10 ^ w) : (printPadded w x).length = w := by
  have hdigits : (decimal x.toInt.natAbs).length ≤ w := by
    rw [decimal, List.length_map, Nat.length_toDigits_le_iff (by decide) hw]
    have hcast : (x.toInt.natAbs : Int) < 10 ^ w := by rwa [Int.natAbs_of_nonneg h0]
    exact_mod_cast hcast
  unfold printPadded
  dsimp only
  rw [if_neg (Int.not_lt.mpr h0), List.length_append, List.length_replicate,
    Nat.sub_add_cancel hdigits]

/-! ## The round trip -/

/-- Reading a decimal puts it in front of what follows. -/
theorem parseInteger_decimal (n : Nat) (s : List UInt8) :
    parseInteger 10 0 (decimal n ++ s) = parseInteger 10 n s := by
  induction n using Nat.strong_induction_on generalizing s with
  | _ n ih =>
    by_cases h : n < 10
    · rw [decimal_of_lt h, List.singleton_append, parseInteger, digitVal_digit h]
      show (if 10 ≤ n then 0 else parseInteger 10 (0 * 10 + n) s) = _
      rw [if_neg (by omega), Nat.zero_mul, Nat.zero_add]
    · have hmod := Nat.mod_lt n (show 10 > 0 by omega)
      rw [decimal_of_le (by omega), List.append_assoc, List.singleton_append,
        ih (n / 10) (by omega), parseInteger, digitVal_digit hmod]
      show (if 10 ≤ n % 10 then n / 10 else parseInteger 10 (n / 10 * 10 + n % 10) s) = _
      rw [if_neg (by omega), Nat.div_add_mod']

theorem simpleStrtoul_decimal (n : Nat) : simpleStrtoul (decimal n) = n := by
  obtain ⟨-, c, rest, hcons, hc⟩ := decimal_spec n
  by_cases h0 : n = 0
  · rw [h0]
    decide
  · have hhead : (decimal n).head? ≠ some 48 := by
      rw [hcons, List.head?_cons, Ne, Option.some.injEq]
      rintro rfl
      exact h0 (hc rfl)
    rw [simpleStrtoul, fixupRadix, if_neg hhead]
    show parseInteger 10 0 (decimal n) = n
    rw [← List.append_nil (decimal n), parseInteger_decimal]
    rfl

/-- A minus sign is no digit. -/
theorem simpleStrtoul_minus (s : List UInt8) : simpleStrtoul (ascii "-" ++ s) = 0 := rfl

/-- **`simple_strtoul` reads back what `%d` printed exactly when it is not
negative.** -/
theorem strtoulInt_printInt_iff (x : Int32) : strtoulInt (printInt x) = x ↔ 0 ≤ x.toInt := by
  unfold printInt
  split
  · next hneg =>
    rw [strtoulInt, simpleStrtoul_minus]
    refine ⟨fun h => ?_, fun h => by omega⟩
    rw [← h]
    decide
  · next hnn =>
    refine ⟨fun _ => by omega, fun h => ?_⟩
    rw [strtoulInt, simpleStrtoul_decimal, ← Int32.ofInt_eq_ofNat, Int.natAbs_of_nonneg h,
      Int32.ofInt_toInt]

end Lidbg.Machine
