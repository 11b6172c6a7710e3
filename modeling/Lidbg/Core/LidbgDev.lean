import Lidbg.Machine.CInt
import Lidbg.Machine.Run

/-!
# Seeking in the memory device (`core/lidbg.c`)

`lidbg_llseek` checks an absolute offset after cutting it to an `unsigned int`,
and a relative one in full. `seekTo` says what a seek is for, over the
integers: go to the requested position if it lies in the device, else fail and
stay. `lidbgLlseek_eq_seekTo_iff` finds the code to be that function except for
the absolute offsets from `2 ^ 32` on whose low word is a position.
-/

namespace Lidbg.Dev

open Machine

/-- `LIDBG_SIZE`. -/
def lidbgSize : Nat := 4096

/-- `EINVAL`. -/
def einval : Int64 := 22

structure SeekCall where
  offset : Int64
  orig : Int32
deriving DecidableEq

/-- `lidbg_llseek`: `f_pos` afterwards, and what it returns. -/
def lidbgLlseek (fPos : Int64) (c : SeekCall) : Int64 × Int64 :=
  if c.orig = 0 then
    if c.offset < 0 then (fPos, -einval)
    else if UInt32.ofNat lidbgSize < c.offset.toUInt64.toUInt32 then (fPos, -einval)
    else
      let pos := c.offset.toUInt64.toUInt32.toUInt64.toInt64
      (pos, pos)
  else if c.orig = 1 then
    if Int64.ofNat lidbgSize < fPos + c.offset then (fPos, -einval)
    else if fPos + c.offset < 0 then (fPos, -einval)
    else (fPos + c.offset, fPos + c.offset)
  else (fPos, -einval)

/-- One call on an open file, with what it returns. -/
def seekStep : Step Int64 SeekCall Int64 := fun fPos c =>
  some ((lidbgLlseek fPos c).1, [(lidbgLlseek fPos c).2])

/-- The position a call asks for. -/
def requested (fPos : Int64) (c : SeekCall) : Option Int :=
  if c.orig = 0 then some c.offset.toInt
  else if c.orig = 1 then some (fPos.toInt + c.offset.toInt)
  else none

/-- What a seek is for. -/
def seekTo (fPos : Int64) : Option Int → Int64 × Int64
  | some pos =>
    if 0 ≤ pos ∧ pos ≤ lidbgSize then (Int64.ofInt pos, Int64.ofInt pos) else (fPos, -einval)
  | none => (fPos, -einval)

/-- A position in the device, its end included. -/
def InDevice (fPos : Int64) : Prop := 0 ≤ fPos.toInt ∧ fPos.toInt ≤ lidbgSize

/-- What a call leaves and returns, by the seek law. -/
structure SeekLaw (fPos : Int64) (c : SeekCall) (fPos' ret : Int64) : Prop where
  inDevice : InDevice fPos'
  success : 0 ≤ ret.toInt → ret = fPos' ∧ requested fPos c = some fPos'.toInt
  failure : ret.toInt < 0 → fPos' = fPos

/-- An absolute offset is below `2 ^ 32`, or its low word is no position. -/
def SeekCall.Fits (c : SeekCall) : Prop :=
  c.orig = 0 → c.offset.toInt < 2 ^ 32 ∨ lidbgSize < c.offset.toInt % 2 ^ 32

theorem seekTo_out (fPos : Int64) {pos : Int} (h : ¬ (0 ≤ pos ∧ pos ≤ lidbgSize)) :
    seekTo fPos (some pos) = (fPos, -einval) :=
  if_neg h

theorem eq_ofInt_iff {x : Int64} {n : Int} (h0 : -2 ^ 63 ≤ n) (hn : n < 2 ^ 63) :
    x = Int64.ofInt n ↔ x.toInt = n := by
  rw [← Int64.toInt_inj, Int64.toInt_ofInt_of_le h0 hn]

theorem lt_zero_iff (x : Int64) : x < 0 ↔ x.toInt < 0 := by
  rw [Int64.lt_iff_toInt_lt]
  rfl

theorem lidbgSize_lt_low_iff (x : Int64) :
    UInt32.ofNat lidbgSize < x.toUInt64.toUInt32 ↔ (lidbgSize : Int) < x.toInt % 2 ^ 32 := by
  rw [UInt32.lt_iff_toNat_lt, ← toNat_toUInt32_toUInt64]
  exact Int.ofNat_lt.symm

theorem toInt_low (x : Int64) :
    x.toUInt64.toUInt32.toUInt64.toInt64.toInt = x.toInt % 2 ^ 32 := by
  rw [toInt_toInt64, toNat_toUInt32_toUInt64]

/-- The wrapped sum is in the device exactly when the sum is, and then it is the
sum. -/
theorem inDevice_add {fPos : Int64} (hpos : InDevice fPos) (offset : Int64) :
    (InDevice (fPos + offset) ↔
      0 ≤ fPos.toInt + offset.toInt ∧ fPos.toInt + offset.toInt ≤ lidbgSize) ∧
    (InDevice (fPos + offset) → (fPos + offset).toInt = fPos.toInt + offset.toInt) := by
  have hlo := offset.le_toInt
  have hhi := offset.toInt_lt
  unfold InDevice lidbgSize at *
  rw [Int64.toInt_add, Int.bmod_def]
  omega

/-- An absolute seek goes to the low word of its offset. -/
theorem lidbgLlseek_set (fPos : Int64) {c : SeekCall} (horig : c.orig = 0) :
    lidbgLlseek fPos c =
      if c.offset.toInt < 0 then (fPos, -einval)
      else seekTo fPos (some (c.offset.toInt % 2 ^ 32)) := by
  have hlow : c.offset.toUInt64.toUInt32.toUInt64.toInt64 =
      Int64.ofInt (c.offset.toInt % 2 ^ 32) := by
    rw [eq_ofInt_iff (by omega) (by omega)]
    exact toInt_low c.offset
  simp only [lidbgLlseek, if_pos horig, lt_zero_iff, lidbgSize_lt_low_iff, hlow, seekTo]
  split_ifs
  · rfl
  · omega
  · rfl
  · rfl
  · omega

/-- A relative seek goes where it says. -/
theorem lidbgLlseek_cur {fPos : Int64} (hpos : InDevice fPos) {c : SeekCall}
    (horig : c.orig = 1) :
    lidbgLlseek fPos c = seekTo fPos (some (fPos.toInt + c.offset.toInt)) := by
  obtain ⟨hiff, hsum⟩ := inDevice_add hpos c.offset
  have hne : c.orig ≠ 0 := by
    rw [horig]
    decide
  rw [lidbgLlseek, if_neg hne, if_pos horig, seekTo]
  by_cases hin : InDevice (fPos + c.offset)
  · have heq : fPos + c.offset = Int64.ofInt (fPos.toInt + c.offset.toInt) := by
      rw [← hsum hin, Int64.ofInt_toInt]
    obtain ⟨h0, h1⟩ := hin
    have hle : ¬ Int64.ofNat lidbgSize < fPos + c.offset := by
      rw [Int64.lt_iff_toInt_lt]
      exact Int.not_lt.mpr h1
    have hge : ¬ fPos + c.offset < 0 := by
      rw [lt_zero_iff]
      exact Int.not_lt.mpr h0
    rw [if_neg hle, if_neg hge, if_pos (hiff.mp ⟨h0, h1⟩), heq]
  · rw [if_neg (fun h => hin (hiff.mpr h))]
    split_ifs with hgt hlt
    · rfl
    · rfl
    · rw [Int64.lt_iff_toInt_lt] at hgt
      rw [lt_zero_iff] at hlt
      exact absurd ⟨Int.not_lt.mp hlt, Int.not_lt.mp hgt⟩ hin

theorem lidbgLlseek_other (fPos : Int64) {c : SeekCall} (h0 : c.orig ≠ 0) (h1 : c.orig ≠ 1) :
    lidbgLlseek fPos c = (fPos, -einval) := by
  rw [lidbgLlseek, if_neg h0, if_neg h1]

theorem seekTo_inDevice {fPos : Int64} (hpos : InDevice fPos) (pos : Option Int) :
    InDevice (seekTo fPos pos).1 := by
  cases pos with
  | none => exact hpos
  | some n =>
    rw [seekTo]
    split_ifs with h
    · obtain ⟨h0, h1⟩ := h
      have hint : (Int64.ofInt n).toInt = n := by
        unfold lidbgSize at h1
        exact Int64.toInt_ofInt_of_le (by omega) (by omega)
      show 0 ≤ (Int64.ofInt n).toInt ∧ (Int64.ofInt n).toInt ≤ lidbgSize
      rw [hint]
      exact ⟨h0, h1⟩
    · exact hpos

/-- A seek that does what it is for obeys the law. -/
theorem seekLaw_seekTo {fPos : Int64} (hpos : InDevice fPos) (c : SeekCall) :
    SeekLaw fPos c (seekTo fPos (requested fPos c)).1 (seekTo fPos (requested fPos c)).2 := by
  have hneg : ¬ 0 ≤ (-einval).toInt := by decide
  refine ⟨seekTo_inDevice hpos _, ?_, ?_⟩
  · intro hret
    cases hreq : requested fPos c with
    | none =>
      rw [hreq] at hret
      exact absurd hret hneg
    | some n =>
      rw [hreq, seekTo] at hret
      rw [seekTo]
      split_ifs at hret ⊢ with h
      · obtain ⟨h0, h1⟩ := h
        unfold lidbgSize at h1
        refine ⟨rfl, ?_⟩
        show some n = some (Int64.ofInt n).toInt
        rw [Int64.toInt_ofInt_of_le (by omega) (by omega)]
      · exact absurd hret hneg
  · intro hret
    cases hreq : requested fPos c with
    | none => rfl
    | some n =>
      rw [hreq, seekTo] at hret
      rw [seekTo]
      split_ifs at hret ⊢ with h
      · obtain ⟨h0, h1⟩ := h
        unfold lidbgSize at h1
        have hint := Int64.toInt_ofInt_of_le (n := n) (by omega) (by omega)
        exact absurd (hint ▸ hret) (Int.not_lt.mpr h0)
      · rfl

/-- **The code is the seek** where the offset fits. -/
theorem lidbgLlseek_eq_seekTo {fPos : Int64} (hpos : InDevice fPos) {c : SeekCall}
    (hfits : c.Fits) : lidbgLlseek fPos c = seekTo fPos (requested fPos c) := by
  by_cases h0 : c.orig = 0
  · rw [lidbgLlseek_set fPos h0, requested, if_pos h0]
    have hfits := hfits h0
    by_cases hneg : c.offset.toInt < 0
    · rw [if_pos hneg, seekTo_out fPos (by omega)]
    · rw [if_neg hneg]
      by_cases hword : c.offset.toInt < 2 ^ 32
      · have heq : c.offset.toInt % 2 ^ 32 = c.offset.toInt := by omega
        rw [heq]
      · unfold lidbgSize at hfits
        rw [seekTo_out fPos (by unfold lidbgSize; omega),
          seekTo_out fPos (by unfold lidbgSize; omega)]
  · by_cases h1 : c.orig = 1
    · rw [lidbgLlseek_cur hpos h1, requested, if_neg h0, if_pos h1]
    · rw [lidbgLlseek_other fPos h0 h1, requested, if_neg h0, if_neg h1]
      rfl

theorem lidbgLlseek_inDevice {fPos : Int64} (hpos : InDevice fPos) (c : SeekCall) :
    InDevice (lidbgLlseek fPos c).1 := by
  by_cases hfits : c.Fits
  · rw [lidbgLlseek_eq_seekTo hpos hfits]
    exact seekTo_inDevice hpos _
  · have h0 : c.orig = 0 := by
      by_contra h
      exact hfits fun h0 => absurd h0 h
    rw [lidbgLlseek_set fPos h0]
    split_ifs
    · exact hpos
    · exact seekTo_inDevice hpos _

theorem seekLaw_iff {fPos : Int64} (hpos : InDevice fPos) (c : SeekCall) :
    SeekLaw fPos c (lidbgLlseek fPos c).1 (lidbgLlseek fPos c).2 ↔ c.Fits := by
  constructor
  · intro hlaw horig
    by_contra hbig
    rw [not_or, Int.not_lt, Int.not_lt] at hbig
    obtain ⟨hbig, hlow⟩ := hbig
    have hpos' : ¬ c.offset.toInt < 0 := by omega
    have hseek : lidbgLlseek fPos c =
        (Int64.ofInt (c.offset.toInt % 2 ^ 32), Int64.ofInt (c.offset.toInt % 2 ^ 32)) := by
      rw [lidbgLlseek_set fPos horig, if_neg hpos', seekTo, if_pos ⟨by omega, hlow⟩]
    have hint : (Int64.ofInt (c.offset.toInt % 2 ^ 32)).toInt = c.offset.toInt % 2 ^ 32 :=
      Int64.toInt_ofInt_of_le (by omega) (by omega)
    rw [hseek] at hlaw
    -- the low word is returned as if it were the offset
    have hreq := (hlaw.success (by rw [hint]; omega)).2
    rw [requested, if_pos horig, hint, Option.some.injEq] at hreq
    omega
  · intro hfits
    rw [lidbgLlseek_eq_seekTo hpos hfits]
    exact seekLaw_seekTo hpos c

/-- **The seek law** holds of every call of a run on an open file if and only if
every offset fits. -/
theorem seek_run_iff (calls : List SeekCall) :
    StepsMeet seekStep (fun _ _ fPos c =>
        SeekLaw fPos c (lidbgLlseek fPos c).1 (lidbgLlseek fPos c).2) 0 calls ↔
      ∀ c ∈ calls, c.Fits := by
  have hkeep : ∀ fPos c fPos' rets, InDevice fPos → seekStep fPos c = some (fPos', rets) →
      InDevice fPos' := by
    intro fPos c fPos' rets hpos hstep
    cases hstep
    exact lidbgLlseek_inDevice hpos c
  have hzero : InDevice 0 := by
    unfold InDevice
    decide
  rw [stepsMeet_congr hkeep (fun fPos c hpos => seekLaw_iff hpos c) hzero]
  exact stepsMeet_input_iff (fun _ _ => rfl) 0 calls

/-- A seek to `2 ^ 32 + 5` goes to 5 and says so. -/
theorem seek_truncates :
    ¬ StepsMeet seekStep (fun _ _ fPos c =>
        SeekLaw fPos c (lidbgLlseek fPos c).1 (lidbgLlseek fPos c).2) 0 [⟨4294967301, 0⟩] := by
  intro h
  have hlaw := h [] ⟨4294967301, 0⟩ List.prefix_rfl 0 [] rfl
  have hreq := (hlaw.success (by decide)).2
  revert hreq
  decide

end Lidbg.Dev
