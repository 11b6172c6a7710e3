import Lidbg.Hal.FlyCamera
import Lidbg.Machine.CStr

/-!
# Black rows of a camera frame (`hal/8x25q_camera/FlyCamera.cpp`)

A split frame shows as a row that is black from side to side.
`RowsOfDataTraversingTheFrameToFindTheBlackLine` and its twin for DVD and AUX look for
one; their counter is an uninitialised local, which is only set to 0 once a row is
rejected. `LookingForABlackCriticalLine` looks for the first row that is not black; it
gives a row up at the twelfth bright pixel, where fifty are allowed.

- `findsBlackLine_iff` says for which rows the first count comes out right.
- `looksFor_iff` says which rows are given up wrongly: those of the black ones that have
  too few dark bytes among the first 661.
-/

namespace Lidbg.FlyCamera

open Machine

/-- The bytes of a row that are above `limit`, among its first `n`. -/
def Frame.brightInRow (frame : Frame) (limit : UInt8) (row n : Nat) : Nat :=
  n - frame.darkInRow limit row n

/-- Every byte of a row is dark or bright. -/
theorem Frame.dark_add_bright (frame : Frame) (limit : UInt8) (row n : Nat) :
    frame.darkInRow limit row n + frame.brightInRow limit row n = n :=
  Nat.add_sub_cancel' (Nat.count_le _)

/-! ## A black line -/

/-- The body of the loop over a row. -/
def blackLineTurn (frame : Frame) (limit : UInt8) (i jj : Nat) (count : UInt32) :
    UInt32 ⊕ UInt32 :=
  let count := if frame.at i jj ≤ limit then count + 1 else count
  if 719 - UInt32.ofNat jj + count < 715 then .inr count else .inl count

/-- `count` at `Break_The_For`. -/
def blackLineCount (frame : Frame) (limit : UInt8) (i : Nat) (count : UInt32) : UInt32 :=
  Sum.elim id id (scan (blackLineTurn frame limit i) 719 0 count)

/-- The body of the loop over the rows; it leaves to `Break_The_Func`. -/
def blackLinesTurn (frame : Frame) (limit : UInt8) (i : Nat) (count : UInt32) :
    UInt32 ⊕ Unit :=
  if frame.at i 300 ≤ limit then
    if blackLineCount frame limit i count ≥ 715 then .inr () else .inl 0
  else .inl count

/-- `find_line`, by the first character of `video_format`. -/
def findLine (videoFormat : UInt8) : Nat :=
  if videoFormat = 52 ∨ videoFormat = 50 then 562 else 477

/-- What the two functions below have in common; `count` is what the uninitialised local
holds. -/
def findTheBlackLine (limit videoFormat : UInt8) (count : UInt32) (frame : Frame) : Bool :=
  Sum.elim (fun _ => false) (fun _ => true)
    (scan (blackLinesTurn frame limit) (findLine videoFormat - 9) 9 count)

/-- `RowsOfDataTraversingTheFrameToFindTheBlackLine`. -/
def rowsOfDataTraversingTheFrameToFindTheBlackLine (videoFormat : UInt8) (count : UInt32)
    (frame : Frame) : Bool :=
  findTheBlackLine bcarBlackValueUperrLimit videoFormat count frame

/-- `RowsOfDataTraversingTheFrameToFindTheBlackLineForDVDorAUX`. -/
def rowsOfDataTraversingTheFrameToFindTheBlackLineForDVDorAUX (videoFormat : UInt8)
    (count : UInt32) (frame : Frame) : Bool :=
  findTheBlackLine 0x43 videoFormat count frame

/-- A row that is black from side to side. -/
def IsBlackLine (frame : Frame) (limit : UInt8) (row : Nat) : Prop :=
  frame.at row 300 ≤ limit ∧ 715 ≤ frame.darkInRow limit row 719

def HasBlackLine (frame : Frame) (limit videoFormat : UInt8) : Prop :=
  ∃ row, 9 ≤ row ∧ row < findLine videoFormat ∧ IsBlackLine frame limit row

/-- Counted from `count` on, modulo `2 ^ 32`, the row comes to 715. From a `count` that
stands for a negative number, the loop may give up before it has wrapped. -/
def ComesTo715 (frame : Frame) (limit : UInt8) (row : Nat) (count : UInt32) : Prop :=
  if count.toNat < 2 ^ 32 - 720 then frame.brightInRow limit row 719 ≤ count.toNat + 4
  else frame.brightInRow limit row 719 + 2 ^ 32 ≤ count.toNat + 4 ∨
    count.toNat + 6 ≤ 2 ^ 32 + frame.brightInRow limit row 5

/-- The test that gives up, after the turn of pixel `jj`. -/
theorem toNat_left (jj : Nat) (hjj : jj < 719) (count : UInt32) :
    (719 - UInt32.ofNat jj + count).toNat = (719 - jj + count.toNat) % 2 ^ 32 := by
  rw [UInt32.toNat_add, UInt32.toNat_sub, UInt32.toNat_ofNat']
  show ((2 ^ 32 - jj % 2 ^ 32 + 719) % 2 ^ 32 + count.toNat) % 2 ^ 32 = _
  omega

/-- The counter behind one more byte, as it wraps. -/
theorem toNat_counted (frame : Frame) (limit : UInt8) (row : Nat) {jj : Nat}
    {start count : UInt32}
    (h : count.toNat = (start.toNat + frame.darkInRow limit row jj) % 2 ^ 32) :
    (if frame.at row jj ≤ limit then count + 1 else count).toNat =
      (start.toNat + frame.darkInRow limit row (jj + 1)) % 2 ^ 32 := by
  have hone : (count + 1).toNat = (count.toNat + 1) % 2 ^ 32 := UInt32.toNat_add count 1
  rw [frame.darkInRow_succ]
  split_ifs <;> omega

/-- The loop goes on after pixel `jj`. -/
def GoesOn (frame : Frame) (limit : UInt8) (row : Nat) (start : UInt32) (jj : Nat) : Prop :=
  715 ≤ (719 - jj + (start.toNat + frame.darkInRow limit row (jj + 1))) % 2 ^ 32

/-- The loop over a row ends at its end, or where it gives up. -/
theorem blackLineCount_cases (frame : Frame) (limit : UInt8) (row : Nat) (start : UInt32) :
    ∃ jj < 719, (blackLineCount frame limit row start).toNat =
        (start.toNat + frame.darkInRow limit row (jj + 1)) % 2 ^ 32 ∧
      (∀ j < jj, GoesOn frame limit row start j) ∧
      (GoesOn frame limit row start jj → jj = 718) := by
  have hscan := scan_spec (f := blackLineTurn frame limit row) (n := 719) (i := 0)
    (I := fun k count =>
      count.toNat = (start.toNat + frame.darkInRow limit row k) % 2 ^ 32 ∧
        ∀ j < k, GoesOn frame limit row start j)
    (Q := fun count => ∃ jj < 719,
      count.toNat = (start.toNat + frame.darkInRow limit row (jj + 1)) % 2 ^ 32 ∧
        (∀ j < jj, GoesOn frame limit row start j) ∧ ¬ GoesOn frame limit row start jj)
    (s := start) ?_ ?_
  · unfold blackLineCount
    cases h : scan (blackLineTurn frame limit row) 719 0 start with
    | inl count =>
      rw [h] at hscan
      exact ⟨718, by omega, hscan.1, fun j hj => hscan.2 j (by omega), fun _ => rfl⟩
    | inr count =>
      rw [h] at hscan
      obtain ⟨jj, hjj, hcount, hbefore, hstop⟩ := hscan
      exact ⟨jj, hjj, hcount, hbefore, fun h => absurd h hstop⟩
  · rintro jj count hjj ⟨hcount, hbefore⟩
    have hnext := toNat_counted frame limit row hcount
    rw [Nat.zero_add]
    unfold blackLineTurn
    generalize (if frame.at row jj ≤ limit then count + 1 else count) = next at hnext ⊢
    dsimp only
    -- what the row can still come to, as an unsigned number
    have hleft : (719 - UInt32.ofNat jj + next).toNat =
        (719 - jj + (start.toNat + frame.darkInRow limit row (jj + 1))) % 2 ^ 32 := by
      rw [toNat_left jj hjj, hnext, Nat.add_mod_mod]
    split_ifs with hstop
    · refine ⟨jj, hjj, hnext, hbefore, ?_⟩
      rw [UInt32.lt_iff_toNat_lt, hleft] at hstop
      exact Nat.not_le_of_lt hstop
    · rw [UInt32.lt_iff_toNat_lt, hleft] at hstop
      refine ⟨hnext, fun j hj => ?_⟩
      rcases Nat.lt_succ_iff_lt_or_eq.mp hj with hlt | rfl
      · exact hbefore j hlt
      · exact Nat.le_of_not_lt hstop
  · refine ⟨?_, fun j hj => absurd hj (Nat.not_lt_zero j)⟩
    show _ = (start.toNat + Nat.count _ 0) % 2 ^ 32
    rw [Nat.count_zero, Nat.add_zero, Nat.mod_eq_of_lt start.toNat_lt]

/-- The counter comes to 715 as an unsigned number. -/
theorem le_blackLineCount_iff (frame : Frame) (limit : UInt8) (row : Nat) (start : UInt32) :
    715 ≤ (blackLineCount frame limit row start).toNat ↔ ComesTo715 frame limit row start := by
  obtain ⟨jj, hjj, hcount, hbefore, hlast⟩ := blackLineCount_cases frame limit row start
  have hstart := start.toNat_lt
  rw [hcount]
  unfold ComesTo715 GoesOn at *
  generalize start.toNat = c at *
  have hnow := frame.dark_add_bright limit row (jj + 1)
  have hall := frame.dark_add_bright limit row 719
  have hfive := frame.dark_add_bright limit row 5
  have hrest := frame.darkInRow_rest limit row (show jj + 1 ≤ 719 by omega)
  have hone := frame.darkInRow_rest limit row (show jj ≤ jj + 1 by omega)
  have hjjth := frame.dark_add_bright limit row jj
  have hfiverest := frame.darkInRow_rest limit row (show 5 ≤ 719 by omega)
  split_ifs with hsmall
  · -- nothing wraps, so that a row that is given up has too little
    omega
  · rcases Nat.lt_or_ge jj 5 with hearly | hlate
    · have h5 := frame.darkInRow_rest limit row (show jj + 1 ≤ 5 by omega)
      rcases Nat.eq_zero_or_pos jj with rfl | hpos
      · omega
      · have hprev := hbefore (jj - 1) (by omega)
        rw [Nat.sub_add_cancel hpos] at hprev
        omega
    · have h5 := frame.darkInRow_rest limit row (show 5 ≤ jj by omega)
      have hprev := hbefore (jj - 1) (by omega)
      rw [Nat.sub_add_cancel (by omega)] at hprev
      omega

/-- From 0 on the count is the plain one, and the row comes to 715 if it is black. -/
theorem comesTo715_zero_iff (frame : Frame) (limit : UInt8) (row : Nat) :
    ComesTo715 frame limit row 0 ↔ 715 ≤ frame.darkInRow limit row 719 := by
  have hall := frame.dark_add_bright limit row 719
  rw [ComesTo715, if_pos (by decide)]
  show _ ≤ 0 + 4 ↔ _
  omega

/-- A row is looked at only if its byte 300 is dark. -/
theorem blackLinesTurn_eq (frame : Frame) (limit : UInt8) (i : Nat) (count : UInt32)
    [Decidable (ComesTo715 frame limit i count)] :
    blackLinesTurn frame limit i count =
      if frame.at i 300 ≤ limit then
        if ComesTo715 frame limit i count then .inr () else .inl 0
      else .inl count := by
  have hge : blackLineCount frame limit i count ≥ 715 ↔ ComesTo715 frame limit i count :=
    UInt32.le_iff_toNat_le.trans (le_blackLineCount_iff frame limit i count)
  unfold blackLinesTurn
  simp only [hge]

/-- The first row from `i` on whose pixel 300 is dark. -/
def IsFirst (frame : Frame) (limit : UInt8) (i row : Nat) : Prop :=
  i ≤ row ∧ frame.at row 300 ≤ limit ∧ ∀ r, i ≤ r → r < row → ¬ frame.at r 300 ≤ limit

/-- There is one first row. -/
theorem IsFirst.unique {frame : Frame} {limit : UInt8} {i row row' : Nat}
    (h : IsFirst frame limit i row) (h' : IsFirst frame limit i row') : row = row' := by
  rcases Nat.lt_trichotomy row row' with hlt | heq | hlt
  · exact absurd h.2.1 (h'.2.2 row h.1 hlt)
  · exact heq
  · exact absurd h'.2.1 (h.2.2 row' h'.1 hlt)

/-- What holds of some first row holds of this one. -/
theorem IsFirst.exists_iff {frame : Frame} {limit : UInt8} {i row stop : Nat}
    (h : IsFirst frame limit i row) (hlt : row < stop) {P : Nat → Prop} :
    (∃ row, row < stop ∧ IsFirst frame limit i row ∧ P row) ↔ P row := by
  constructor
  · rintro ⟨row', -, h', hP⟩
    exact h.unique h' ▸ hP
  · intro hP
    exact ⟨row, hlt, h, hP⟩

/-- From 0 on, the loop over the rows finds a black line if there is one. -/
theorem scan_blackLines_zero (frame : Frame) (limit : UInt8) (n i : Nat) :
    scan (blackLinesTurn frame limit) n i 0 = .inr () ↔
      ∃ row, i ≤ row ∧ row < i + n ∧ IsBlackLine frame limit row := by
  classical
  induction n generalizing i with
  | zero =>
    refine iff_of_false (fun h => nomatch h) ?_
    rintro ⟨row, hle, hlt, -⟩
    omega
  | succ n ih =>
    have hstop : i + (n + 1) = i + 1 + n := by omega
    have hturn := blackLinesTurn_eq frame limit i 0
    rw [comesTo715_zero_iff, ← ite_and] at hturn
    rw [hstop]
    by_cases hblack : IsBlackLine frame limit i
    · rw [scan_leave (hturn.trans (if_pos hblack))]
      exact iff_of_true rfl ⟨i, Nat.le_refl i, by omega, hblack⟩
    · rw [scan_again (hturn.trans (if_neg hblack)), ih]
      constructor
      · rintro ⟨row, hle, hlt, hrow⟩
        exact ⟨row, Nat.le_of_succ_le hle, hlt, hrow⟩
      · rintro ⟨row, hle, hlt, hrow⟩
        rcases Nat.eq_or_lt_of_le hle with rfl | hle
        · exact absurd hrow hblack
        · exact ⟨row, hle, hlt, hrow⟩

/-- From any count on, the first row that is looked at decides, or a later one. -/
theorem scan_blackLines_iff (frame : Frame) (limit : UInt8) (count : UInt32) (n i : Nat) :
    scan (blackLinesTurn frame limit) n i count = .inr () ↔
      ∃ row, row < i + n ∧ IsFirst frame limit i row ∧
        (ComesTo715 frame limit row count ∨
          ∃ later, row < later ∧ later < i + n ∧ IsBlackLine frame limit later) := by
  classical
  induction n generalizing i with
  | zero =>
    refine iff_of_false (fun h => nomatch h) ?_
    rintro ⟨row, hlt, ⟨hle, -⟩, -⟩
    omega
  | succ n ih =>
    have hstop : i + (n + 1) = i + 1 + n := by omega
    have hturn := blackLinesTurn_eq frame limit i count
    rw [hstop]
    by_cases hdark : frame.at i 300 ≤ limit
    · have hfirst : IsFirst frame limit i i :=
        ⟨Nat.le_refl i, hdark, fun r hr hlt => absurd hlt (Nat.not_lt_of_le hr)⟩
      rw [if_pos hdark] at hturn
      by_cases hcomes : ComesTo715 frame limit i count
      · rw [if_pos hcomes] at hturn
        rw [scan_leave hturn]
        exact iff_of_true rfl ⟨i, by omega, hfirst, .inl hcomes⟩
      · -- the counter is zero from here on, and each row counts by itself
        rw [if_neg hcomes] at hturn
        rw [scan_again hturn, scan_blackLines_zero]
        constructor
        · rintro ⟨later, hle, hlt, hblack⟩
          exact ⟨i, by omega, hfirst, .inr ⟨later, hle, hlt, hblack⟩⟩
        · rintro ⟨row, -, hrow, h⟩
          obtain rfl := hfirst.unique hrow
          obtain ⟨later, hlt, hstop, hblack⟩ := h.resolve_left hcomes
          exact ⟨later, hlt, hstop, hblack⟩
    · -- a bright row is skipped, so the first row is the same one
      rw [if_neg hdark] at hturn
      have hfirst : ∀ row, IsFirst frame limit (i + 1) row ↔ IsFirst frame limit i row := by
        intro row
        constructor
        · rintro ⟨hle, hrow, hbefore⟩
          refine ⟨Nat.le_of_succ_le hle, hrow, fun r hr hlt => ?_⟩
          rcases Nat.eq_or_lt_of_le hr with rfl | hr
          · exact hdark
          · exact hbefore r hr hlt
        · rintro ⟨hle, hrow, hbefore⟩
          refine ⟨?_, hrow, fun r hr hlt => hbefore r (Nat.le_of_succ_le hr) hlt⟩
          rcases Nat.eq_or_lt_of_le hle with rfl | hle
          · exact absurd hrow hdark
          · exact hle
      rw [scan_again hturn, ih]
      simp only [hfirst]

/-- The first row that is looked at counts right from `count` on, or does not matter
because a later one is black. -/
def FirstCountsRight (frame : Frame) (limit videoFormat : UInt8) (count : UInt32) : Prop :=
  ∀ row, row < findLine videoFormat → IsFirst frame limit 9 row →
    (ComesTo715 frame limit row count ↔ 715 ≤ frame.darkInRow limit row 719) ∨
      ∃ later, row < later ∧ later < findLine videoFormat ∧ IsBlackLine frame limit later

/-- The search ends at the last row of the format. -/
theorem nine_add_findLine (videoFormat : UInt8) :
    9 + (findLine videoFormat - 9) = findLine videoFormat := by
  unfold findLine
  split_ifs <;> rfl

/-- The function is its scan over the rows from 9 on. -/
theorem findTheBlackLine_eq_true (limit videoFormat : UInt8) (count : UInt32) (frame : Frame) :
    findTheBlackLine limit videoFormat count frame = true ↔
      scan (blackLinesTurn frame limit) (findLine videoFormat - 9) 9 count = .inr () := by
  unfold findTheBlackLine
  cases scan (blackLinesTurn frame limit) (findLine videoFormat - 9) 9 count with
  | inl _ => exact iff_of_false Bool.false_ne_true fun h => nomatch h
  | inr _ => exact iff_of_true rfl rfl

/-- The answer is right exactly if the first dark row is counted right. -/
theorem findTheBlackLine_iff (limit videoFormat : UInt8) (count : UInt32) (frame : Frame) :
    (findTheBlackLine limit videoFormat count frame = true ↔
        HasBlackLine frame limit videoFormat) ↔
      FirstCountsRight frame limit videoFormat count := by
  -- a black line is what the loop finds from 0 on
  have hhas : HasBlackLine frame limit videoFormat ↔
      scan (blackLinesTurn frame limit) (findLine videoFormat - 9) 9 0 = .inr () := by
    rw [scan_blackLines_zero, nine_add_findLine]
    rfl
  rw [findTheBlackLine_eq_true, hhas, scan_blackLines_iff, scan_blackLines_iff,
    nine_add_findLine]
  simp only [comesTo715_zero_iff]
  constructor
  · intro h row hlt hfirst
    rw [hfirst.exists_iff hlt, hfirst.exists_iff hlt] at h
    by_cases hlater : ∃ later, row < later ∧ later < findLine videoFormat ∧
        IsBlackLine frame limit later
    · exact .inr hlater
    · rw [or_iff_left hlater, or_iff_left hlater] at h
      exact .inl h
  · intro h
    by_cases hrow : ∃ row, row < findLine videoFormat ∧ IsFirst frame limit 9 row
    · obtain ⟨row, hlt, hfirst⟩ := hrow
      rw [hfirst.exists_iff hlt, hfirst.exists_iff hlt]
      rcases h row hlt hfirst with hright | hlater
      · rw [hright]
      · exact iff_of_true (.inr hlater) (.inr hlater)
    · exact iff_of_false (fun ⟨row, hlt, hfirst, _⟩ => hrow ⟨row, hlt, hfirst⟩)
        fun ⟨row, hlt, hfirst, _⟩ => hrow ⟨row, hlt, hfirst⟩

/-- **The row scan**, from whatever the uninitialised counter holds. -/
theorem findsBlackLine_iff (videoFormat : UInt8) (count : UInt32) (frame : Frame) :
    ((rowsOfDataTraversingTheFrameToFindTheBlackLine videoFormat count frame = true ↔
        HasBlackLine frame bcarBlackValueUperrLimit videoFormat) ↔
      FirstCountsRight frame bcarBlackValueUperrLimit videoFormat count) ∧
    ((rowsOfDataTraversingTheFrameToFindTheBlackLineForDVDorAUX videoFormat count frame = true ↔
        HasBlackLine frame 0x43 videoFormat) ↔
      FirstCountsRight frame 0x43 videoFormat count) :=
  ⟨findTheBlackLine_iff _ videoFormat count frame, findTheBlackLine_iff _ videoFormat count frame⟩

/-- A bright frame with one dark pixel, in the first row that is looked at. -/
def speck : Frame := ⟨fun n => if n = 720 * 9 + 300 then 0x10 else 0xff⟩

theorem speck_at (row column : Nat) :
    speck.at row column = if 720 * row + column = 720 * 9 + 300 then 0x10 else 0xff := rfl

/-- One dark pixel and a counter at 1000 are taken for a line. -/
theorem finds_speck (limit : UInt8) (hdark : 0x10 ≤ limit) (hbright : ¬ 0xff ≤ limit) :
    findTheBlackLine limit 49 1000 speck = true ∧ ¬ HasBlackLine speck limit 49 := by
  constructor
  · rw [findTheBlackLine_eq_true, scan_blackLines_iff]
    refine ⟨9, by decide, ⟨Nat.le_refl 9, hdark, fun r hr hlt => by omega⟩, .inl ?_⟩
    have hall := speck.dark_add_bright limit 9 719
    rw [ComesTo715, if_pos (by decide)]
    show _ ≤ 1000 + 4
    omega
  · rintro ⟨row, -, -, hdark, hmany⟩
    have hrow : row = 9 := by
      by_contra hne
      exact hbright (by rwa [speck_at, if_neg (by omega)] at hdark)
    -- its first five pixels are bright
    have hfive : speck.darkInRow limit 9 5 = 0 := by
      rw [Frame.darkInRow, Nat.count_iff_forall_not]
      intro column hlt
      rwa [speck_at, if_neg (by omega)]
    have hrest := speck.darkInRow_rest limit 9 (show 5 ≤ 719 by decide)
    rw [hrow] at hmany
    omega

/-- Both functions find a line where there is none. -/
theorem finds_no_line :
    ¬ (rowsOfDataTraversingTheFrameToFindTheBlackLine 49 1000 speck = true ↔
      HasBlackLine speck bcarBlackValueUperrLimit 49) ∧
    ¬ (rowsOfDataTraversingTheFrameToFindTheBlackLineForDVDorAUX 49 1000 speck = true ↔
      HasBlackLine speck 0x43 49) := by
  have hastern := finds_speck bcarBlackValueUperrLimit (by decide) (by decide)
  have hdvd := finds_speck 0x43 (by decide) (by decide)
  exact ⟨fun h => hastern.2 (h.mp hastern.1), fun h => hdvd.2 (h.mp hdvd.1)⟩

/-! ## The critical line -/

/-- The body of the loop over a row. -/
def criticalTurn (frame : Frame) (limit : UInt8) (row jj count : Nat) : Nat ⊕ Nat :=
  let count := if frame.at row jj ≤ limit then count + 1 else count
  if 700 - jj + count < 690 then .inr count else .inl count

/-- `count` at `Break_The_For`. -/
def criticalCount (frame : Frame) (limit : UInt8) (row : Nat) : Nat :=
  Sum.elim id id (scan (criticalTurn frame limit row) 700 0 0)

/-- The body of the loop over the rows: on to `GO_H_NEXT`, or out with the row. -/
def criticalLineTurn (frame : Frame) (limit : UInt8) (lineCount : Nat) : Unit ⊕ Nat :=
  if frame.at lineCount 300 ≤ 0x43 then
    if criticalCount frame limit lineCount ≥ 650 then .inl () else .inr lineCount
  else .inr lineCount

/-- `LookingForABlackCriticalLine`. -/
def lookingForABlackCriticalLine (frame : Frame) (star len : UInt32) (downOrUp : Bool) : Nat :=
  Sum.elim (fun _ => 0) id <|
    if downOrUp then
      scan (fun lineCount _ => criticalLineTurn frame 0x30 lineCount)
        ((star + len).toNat - star.toNat) star.toNat ()
    else
      scan (fun k _ => criticalLineTurn frame 0x20 (star.toNat - k))
        (star.toNat - (star - len).toNat) 0 ()

/-- The calls of `DetermineImageSplitScreenDVD_16_9_Vedio`. -/
def criticalCalls : List (UInt32 × UInt32 × Bool) :=
  [(0, 300, true), (479, 70, false), (479, 80, false)]

/-- The rows of a search, in the order in which they are met. -/
def rowsMet (star len : UInt32) (downOrUp : Bool) : List Nat :=
  if downOrUp then List.range' star.toNat len.toNat
  else (List.range len.toNat).map fun k => star.toNat - k

/-- What counts as black, by the direction. -/
def criticalLimit (downOrUp : Bool) : UInt8 := if downOrUp then 0x30 else 0x20

def IsBlackRow (frame : Frame) (downOrUp : Bool) (row : Nat) : Prop :=
  frame.at row 300 ≤ 0x43 ∧ 650 ≤ frame.darkInRow (criticalLimit downOrUp) row 700

instance (frame : Frame) (downOrUp : Bool) (row : Nat) :
    Decidable (IsBlackRow frame downOrUp row) :=
  inferInstanceAs (Decidable (_ ∧ _))

/-- The first row met that is not black, or 0. -/
def firstNotBlack (frame : Frame) (star len : UInt32) (downOrUp : Bool) : Nat :=
  ((rowsMet star len downOrUp).find? fun row => !decide (IsBlackRow frame downOrUp row)).getD 0

/-- The loop leaves with the whole count, or at the twelfth bright pixel. -/
theorem criticalCount_cases (frame : Frame) (limit : UInt8) (row : Nat) :
    criticalCount frame limit row = frame.darkInRow limit row 700 ∧
        700 ≤ frame.darkInRow limit row 700 + 11 ∨
      ∃ jj < 700, criticalCount frame limit row = frame.darkInRow limit row (jj + 1) ∧
        jj ≤ frame.darkInRow limit row jj + 11 ∧
        jj + 1 = frame.darkInRow limit row (jj + 1) + 12 := by
  have hscan := scan_spec (f := criticalTurn frame limit row) (n := 700) (i := 0) (s := 0)
    (I := fun k count => count = frame.darkInRow limit row k ∧ k ≤ count + 11)
    (Q := fun count => ∃ jj < 700, count = frame.darkInRow limit row (jj + 1) ∧
      jj ≤ frame.darkInRow limit row jj + 11 ∧
      jj + 1 = frame.darkInRow limit row (jj + 1) + 12) ?_ ⟨(Nat.count_zero _).symm, by omega⟩
  · unfold criticalCount
    cases h : scan (criticalTurn frame limit row) 700 0 0 with
    | inl count =>
      rw [h] at hscan
      obtain ⟨heq, hle⟩ := hscan
      exact .inl ⟨heq, heq ▸ hle⟩
    | inr count =>
      rw [h] at hscan
      exact .inr hscan
  · rintro jj count hjj ⟨rfl, hle⟩
    have hturn := frame.darkInRow_succ limit row jj
    rw [Nat.zero_add]
    unfold criticalTurn
    dsimp only
    split_ifs at hturn ⊢ with hdark hfew hfew
    · exact ⟨jj, hjj, hturn.symm, hle, by omega⟩
    · exact ⟨hturn.symm, by omega⟩
    · exact ⟨jj, hjj, hturn.symm, hle, by omega⟩
    · exact ⟨hturn.symm, by omega⟩

/-- A row passes by its first 661 bytes. -/
theorem le_criticalCount_iff (frame : Frame) (limit : UInt8) (row : Nat) :
    650 ≤ criticalCount frame limit row ↔ 650 ≤ frame.darkInRow limit row 661 := by
  rcases criticalCount_cases frame limit row with ⟨heq, hfew⟩ | ⟨jj, hjj, heq, hfew, htwelve⟩
  · have hrest := frame.darkInRow_rest limit row (show 661 ≤ 700 by omega)
    omega
  · rcases Nat.lt_or_ge jj 661 with hearly | hlate
    · have hrest := frame.darkInRow_rest limit row (show jj + 1 ≤ 661 by omega)
      omega
    · have hrest := frame.darkInRow_rest limit row hlate
      omega

/-- The row passes: the loop over the rows goes on. -/
def Passes (frame : Frame) (downOrUp : Bool) (row : Nat) : Prop :=
  frame.at row 300 ≤ 0x43 ∧ 650 ≤ frame.darkInRow (criticalLimit downOrUp) row 661

instance (frame : Frame) (downOrUp : Bool) (row : Nat) :
    Decidable (Passes frame downOrUp row) :=
  inferInstanceAs (Decidable (_ ∧ _))

/-- Only black rows pass. -/
theorem Passes.isBlackRow {frame : Frame} {downOrUp : Bool} {row : Nat}
    (h : Passes frame downOrUp row) : IsBlackRow frame downOrUp row := by
  obtain ⟨hpixel, hmany⟩ := h
  have hrest := frame.darkInRow_rest (criticalLimit downOrUp) row (show 661 ≤ 700 by decide)
  exact ⟨hpixel, Nat.le_trans hmany hrest.1⟩

/-- A row is passed, or is the answer. -/
theorem criticalLineTurn_eq (frame : Frame) (downOrUp : Bool) (row : Nat) :
    criticalLineTurn frame (criticalLimit downOrUp) row =
      if decide (Passes frame downOrUp row) = true then .inl () else .inr row := by
  unfold criticalLineTurn
  by_cases h : Passes frame downOrUp row
  · rw [if_pos h.1, if_pos ((le_criticalCount_iff ..).mpr h.2), if_pos (decide_eq_true h)]
  · rw [if_neg fun hpasses => h (of_decide_eq_true hpasses)]
    split_ifs with hpixel hmany
    · exact absurd ⟨hpixel, (le_criticalCount_iff ..).mp hmany⟩ h
    · rfl
    · rfl

/-- The loop variable of the calls does not wrap. -/
theorem turns_of_calls {star len : UInt32} {downOrUp : Bool}
    (hcall : (star, len, downOrUp) ∈ criticalCalls) :
    if downOrUp then (star + len).toNat - star.toNat = len.toNat
    else star.toNat - (star - len).toNat = len.toNat ∧ len < star := by
  simp only [criticalCalls, List.mem_cons, Prod.mk.injEq, List.not_mem_nil, or_false] at hcall
  rcases hcall with ⟨rfl, rfl, rfl⟩ | ⟨rfl, rfl, rfl⟩ | ⟨rfl, rfl, rfl⟩ <;> decide

/-- The search is that for the first row that does not pass. -/
theorem lookingForABlackCriticalLine_eq (frame : Frame) {star len : UInt32} {downOrUp : Bool}
    (hcall : (star, len, downOrUp) ∈ criticalCalls) :
    lookingForABlackCriticalLine frame star len downOrUp =
      ((rowsMet star len downOrUp).find? fun row =>
        !decide (Passes frame downOrUp row)).getD 0 := by
  have hturns := turns_of_calls hcall
  have hgetD : ∀ r : Unit ⊕ Nat, Sum.elim (fun _ => 0) id r =
      (Sum.elim (fun _ => none) some r).getD 0 := by
    rintro (_ | row) <;> rfl
  have hbody : ∀ (downOrUp : Bool) (g : Nat → Nat),
      (fun k (_ : Unit) => criticalLineTurn frame (criticalLimit downOrUp) (g k)) =
        fun k _ => if decide (Passes frame downOrUp (g k)) = true then .inl () else .inr (g k) := by
    intro downOrUp g
    funext k _
    exact criticalLineTurn_eq frame downOrUp (g k)
  unfold lookingForABlackCriticalLine rowsMet
  cases downOrUp with
  | true =>
    rw [if_pos rfl] at hturns
    rw [if_pos rfl, if_pos rfl, hturns, hgetD]
    show (Sum.elim (fun _ => none) some
      (scan (fun k _ => criticalLineTurn frame (criticalLimit true) (id k)) _ _ ())).getD 0 = _
    rw [hbody true id, scan_find, Option.map_id]
    rfl
  | false =>
    rw [if_neg Bool.false_ne_true] at hturns
    rw [if_neg Bool.false_ne_true, if_neg Bool.false_ne_true, hturns.1, hgetD, List.find?_map,
      List.range_eq_range']
    show (Sum.elim (fun _ => none) some
      (scan (fun k _ => criticalLineTurn frame (criticalLimit false) (star.toNat - k)) _ _
        ())).getD 0 = _
    rw [hbody false fun k => star.toNat - k, scan_find]
    rfl

/-- A row is met once. -/
theorem nodup_rowsMet {star len : UInt32} {downOrUp : Bool}
    (hcall : (star, len, downOrUp) ∈ criticalCalls) : (rowsMet star len downOrUp).Nodup := by
  have hturns := turns_of_calls hcall
  unfold rowsMet
  cases downOrUp with
  | true => exact List.nodup_range'
  | false =>
    have hlt : len.toNat < star.toNat := UInt32.lt_iff_toNat_lt.mp hturns.2
    refine List.Nodup.map_on ?_ List.nodup_range
    intro i hi j hj heq
    rw [List.mem_range] at hi hj
    omega

/-- Row 0 is met by the search that starts with it. -/
theorem zero_mem_rowsMet {star len : UInt32} {downOrUp : Bool}
    (hcall : (star, len, downOrUp) ∈ criticalCalls) :
    0 ∈ rowsMet star len downOrUp ↔ star = 0 := by
  simp only [criticalCalls, List.mem_cons, Prod.mk.injEq, List.not_mem_nil, or_false] at hcall
  rcases hcall with ⟨rfl, rfl, rfl⟩ | ⟨rfl, rfl, rfl⟩ | ⟨rfl, rfl, rfl⟩ <;> decide

/-- A search from row 0 meets that row first. -/
theorem rowsMet_eq_zero_cons {star len : UInt32} {downOrUp : Bool}
    (hcall : (star, len, downOrUp) ∈ criticalCalls) (hstar : star = 0) :
    ∃ rows, rowsMet star len downOrUp = 0 :: rows := by
  simp only [criticalCalls, List.mem_cons, Prod.mk.injEq, List.not_mem_nil, or_false] at hcall
  rcases hcall with ⟨-, rfl, rfl⟩ | ⟨rfl, -, -⟩ | ⟨rfl, -, -⟩
  · exact ⟨List.range' 1 299, by rw [hstar]; rfl⟩
  · exact absurd hstar (by decide)
  · exact absurd hstar (by decide)

/-- **The critical line**: the early exit does not change the answer if and only if every
black row that is met before the first one that is not has 650 dark bytes among its first
661; or all rows are black, and the row that is returned in their place is row 0. -/
theorem looksFor_iff (frame : Frame) {star len : UInt32} {downOrUp : Bool}
    (hcall : (star, len, downOrUp) ∈ criticalCalls) :
    lookingForABlackCriticalLine frame star len downOrUp =
        firstNotBlack frame star len downOrUp ↔
      (∀ row ∈ (rowsMet star len downOrUp).takeWhile
          fun row => decide (IsBlackRow frame downOrUp row),
        650 ≤ frame.darkInRow (criticalLimit downOrUp) row 661) ∨
      star = 0 ∧ (∀ row ∈ rowsMet star len downOrUp, IsBlackRow frame downOrUp row) ∧
        frame.darkInRow (criticalLimit downOrUp) 0 661 < 650 := by
  have hpasses : ∀ row, decide (Passes frame downOrUp row) = true →
      decide (IsBlackRow frame downOrUp row) = true :=
    fun row h => decide_eq_true (of_decide_eq_true h).isBlackRow
  rw [lookingForABlackCriticalLine_eq frame hcall, firstNotBlack,
    find?_getD_eq_iff hpasses 0 (nodup_rowsMet hcall)]
  refine or_congr ?_ ?_
  · refine forall₂_congr fun row hrow => ?_
    have hblack := List.mem_takeWhile_imp hrow
    rw [decide_eq_true_iff] at hblack ⊢
    rw [Passes, and_iff_right hblack.1]
  · simp only [decide_eq_true_iff]
    constructor
    · rintro ⟨hall, hfind⟩
      have hmem := List.mem_of_find?_eq_some hfind
      have hstop := List.find?_some (p := fun row => !decide (Passes frame downOrUp row)) hfind
      have hnot : ¬ Passes frame downOrUp 0 := by simpa using hstop
      rw [Passes, and_iff_right (hall 0 hmem).1, Nat.not_le] at hnot
      exact ⟨(zero_mem_rowsMet hcall).mp hmem, hall, hnot⟩
    · rintro ⟨hstar, hall, hfew⟩
      obtain ⟨rows, hrows⟩ := rowsMet_eq_zero_cons hcall hstar
      have hnot : ¬ Passes frame downOrUp 0 := fun h => Nat.not_le_of_lt hfew h.2
      refine ⟨hall, ?_⟩
      rw [hrows, List.find?_cons, decide_eq_false hnot]
      rfl

/-- Black rows with a bright edge, and a bright row 10. -/
def edge : Frame := ⟨fun n => if n / 720 = 10 ∨ 700 ≤ n % 720 then 0xff else 0x10⟩

theorem edge_at (row column : Nat) (h : column < 720) :
    edge.at row column = if row = 10 ∨ 700 ≤ column then 0xff else 0x10 := by
  have hmod : (720 * row + column) % 720 = column := by omega
  have hdiv : (720 * row + column) / 720 = row := by omega
  simp only [edge, Frame.at, hmod, hdiv]

/-- The rows above the bright one are black from their first bytes on. -/
theorem looksFor_edge : (0, 300, true) ∈ criticalCalls ∧
    lookingForABlackCriticalLine edge 0 300 true = firstNotBlack edge 0 300 true := by
  have hcall : (0, 300, true) ∈ criticalCalls := List.mem_cons_self
  refine ⟨hcall, (looksFor_iff _ hcall).mpr (.inl fun row hrow => ?_)⟩
  have hmet := List.mem_takeWhile_imp hrow
  have hblack : IsBlackRow edge true row := of_decide_eq_true hmet
  have hten : row ≠ 10 := by
    rintro rfl
    have hbright := hblack.1
    rw [edge_at _ _ (by decide), if_pos (.inl rfl)] at hbright
    exact absurd hbright (by decide)
  have hall : Nat.count (fun column => edge.at row column ≤ criticalLimit true) 661 = 661 := by
    refine Nat.count_of_forall fun column hlt => ?_
    rw [edge_at _ _ (by omega), if_neg (by omega)]
    decide
  show 650 ≤ Nat.count (fun column => edge.at row column ≤ criticalLimit true) 661
  omega

/-- A black frame with twelve bright pixels at the start of each row. -/
def hem : Frame := ⟨fun n => if n % 720 < 12 then 0xff else 0x10⟩

theorem hem_at (row column : Nat) (h : column < 720) :
    hem.at row column = if column < 12 then 0xff else 0x10 := by
  have hmod : (720 * row + column) % 720 = column := by omega
  show (if (720 * row + column) % 720 < 12 then _ else _) = _
  rw [hmod]

/-- The early exit leaves the first row, which is black. -/
theorem looksFor_gives_up :
    ¬ lookingForABlackCriticalLine hem 479 70 false = firstNotBlack hem 479 70 false := by
  have hgives : lookingForABlackCriticalLine hem 479 70 false = 479 := by
    have hnot : ¬ Passes hem false 479 := by
      rintro ⟨-, hmany⟩
      have htwelve : hem.darkInRow (criticalLimit false) 479 12 = 0 := by
        rw [Frame.darkInRow, Nat.count_iff_forall_not]
        intro column hlt
        rw [hem_at _ _ (by omega), if_pos hlt]
        decide
      have hrest := hem.darkInRow_rest (criticalLimit false) 479 (show 12 ≤ 661 by decide)
      omega
    obtain ⟨rows, hrows⟩ : ∃ rows, rowsMet 479 70 false = 479 :: rows := ⟨_, rfl⟩
    rw [lookingForABlackCriticalLine_eq hem (by decide), hrows, List.find?_cons,
      decide_eq_false hnot]
    rfl
  have hblack : firstNotBlack hem 479 70 false = 0 := by
    rw [firstNotBlack, List.find?_eq_none.mpr, Option.getD_none]
    intro row _
    have hrow : IsBlackRow hem false row := by
      refine ⟨by rw [hem_at _ _ (by decide)]; decide, ?_⟩
      have hdark : Nat.count (fun k => hem.at row (12 + k) ≤ criticalLimit false) 688 = 688 := by
        refine Nat.count_of_forall fun k hk => ?_
        rw [hem_at _ _ (by omega), if_neg (by omega)]
        decide
      show 650 ≤ Nat.count (fun column => hem.at row column ≤ criticalLimit false) (12 + 688)
      rw [Nat.count_add, hdark]
      omega
    rw [decide_eq_true hrow]
    exact Bool.false_ne_true
  rw [hgives, hblack]
  decide

end Lidbg.FlyCamera
