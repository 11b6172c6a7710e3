import Lidbg.Machine.Scan
import Mathlib.Data.UInt
import Mathlib.Tactic.SplitIfs

/-!
# Black pixels of a camera frame (`hal/8x25q_camera/FlyCamera.cpp`)

The camera HAL looks at the luma bytes of a frame and counts those that are black. Its
loops stop where enough are found and give up where not enough can be left.
`blackCounts_eq_plain`: in `ToFindBlackLine` and in `VideoItselfBlackJudge` giving up
never changes the answer, which is that of the plain count.
-/

namespace Lidbg.FlyCamera

open Machine

/-- The bytes from `frame->def.frame->buffer + frame->def.frame->y_off` on. -/
structure Frame where
  y : Nat → UInt8

/-- `*piont_y`, in rows of 720. -/
def Frame.at (frame : Frame) (row column : Nat) : UInt8 :=
  frame.y (720 * row + column)

/-- The bytes of a row that are at most `limit`, among its first `n`. -/
def Frame.darkInRow (frame : Frame) (limit : UInt8) (row n : Nat) : Nat :=
  Nat.count (fun column => frame.at row column ≤ limit) n

/-- The bytes of a column that are at most `limit`, among `n` from a row on. -/
def Frame.darkInColumn (frame : Frame) (limit : UInt8) (column start n : Nat) : Nat :=
  Nat.count (fun k => frame.at (start + k) column ≤ limit) n

theorem Frame.darkInRow_succ (frame : Frame) (limit : UInt8) (row n : Nat) :
    frame.darkInRow limit row (n + 1) =
      frame.darkInRow limit row n + if frame.at row n ≤ limit then 1 else 0 :=
  Nat.count_succ _ n

/-- What is still to come of a row. -/
theorem Frame.darkInRow_rest (frame : Frame) (limit : UInt8) (row : Nat) {m n : Nat}
    (h : m ≤ n) : frame.darkInRow limit row m ≤ frame.darkInRow limit row n ∧
      frame.darkInRow limit row n ≤ frame.darkInRow limit row m + (n - m) :=
  ⟨Nat.count_monotone _ h, count_le_add_sub h⟩

/-- `BCAR_BLACK_VALUE_UPERR_LIMIT`. -/
def bcarBlackValueUperrLimit : UInt8 := 0x42

/-! ## The first row -/

/-- The body of the loop of `ToFindBlackLine`. -/
def toFindBlackLineTurn (frame : Frame) (i blackCount : Nat) : Nat ⊕ Bool :=
  if frame.at 0 i ≤ bcarBlackValueUperrLimit then
    let blackCount := blackCount + 1
    if 719 - i + blackCount < 710 then .inr false
    else if blackCount > 710 then .inr true
    else .inl blackCount
  else .inl blackCount

/-- `ToFindBlackLine`. -/
def toFindBlackLine (frame : Frame) : Bool :=
  Sum.elim (fun _ => false) id (scan (toFindBlackLineTurn frame) 719 0 0)

theorem toFindBlackLineTurn_spec (frame : Frame) {i : Nat} (hi : i < 719)
    (hfew : frame.darkInRow bcarBlackValueUperrLimit 0 i ≤ 710) :
    Sum.elim
      (fun blackCount => blackCount = frame.darkInRow bcarBlackValueUperrLimit 0 (i + 1) ∧
        blackCount ≤ 710)
      (fun found => found = true ↔ 710 < frame.darkInRow bcarBlackValueUperrLimit 0 719)
      (toFindBlackLineTurn frame i (frame.darkInRow bcarBlackValueUperrLimit 0 i)) := by
  have hturn := frame.darkInRow_succ bcarBlackValueUperrLimit 0 i
  have hrest := frame.darkInRow_rest bcarBlackValueUperrLimit 0 (show i + 1 ≤ 719 from hi)
  unfold toFindBlackLineTurn
  dsimp only
  split_ifs at hturn ⊢ with hblack hprune hmany
  · exact iff_of_false Bool.false_ne_true (by omega)
  · exact iff_of_true rfl (by omega)
  · exact ⟨hturn.symm, by omega⟩
  · exact ⟨hturn.symm, hfew⟩

theorem toFindBlackLine_iff (frame : Frame) :
    toFindBlackLine frame = true ↔ 710 < frame.darkInRow bcarBlackValueUperrLimit 0 719 := by
  refine scan_decides (I := fun i blackCount =>
    blackCount = frame.darkInRow bcarBlackValueUperrLimit 0 i ∧ blackCount ≤ 710)
    ?_ ?_ ⟨(Nat.count_zero _).symm, Nat.zero_le _⟩
  · rintro i blackCount hi ⟨rfl, hfew⟩
    rw [Nat.zero_add]
    exact toFindBlackLineTurn_spec frame hi hfew
  · rintro blackCount ⟨heq, hfew⟩
    omega

/-! ## The diagonals -/

/-- The body of a loop of `VideoItselfBlackJudge`, at the point in row `j`. -/
def blackJudgeTurn (frame : Frame) (enough j : Nat) (s : Nat × Nat) : (Nat × Nat) ⊕ Bool :=
  let i := s.1 + 1
  let blackCount := if frame.at j i ≤ 0x20 then s.2 + 1 else s.2
  if 400 - j + blackCount < enough then .inl (i, blackCount)
  else if blackCount > enough then .inr true
  else .inl (i, blackCount)

/-- `VideoItselfBlackJudge`. -/
def videoItselfBlackJudge (frame : Frame) : Bool :=
  match scan (blackJudgeTurn frame 170) 340 60 (0, 0) with
  | .inr judged => judged
  | .inl s =>
    -- `for(j=400;j>60;j--)`
    Sum.elim (fun _ => false) id (scan (fun k => blackJudgeTurn frame 280 (400 - k)) 340 0 s)

/-- The black points of the diagonal down, among its first `n`. -/
def Frame.darkDown (frame : Frame) (n : Nat) : Nat :=
  Nat.count (fun k => frame.at (60 + k) (1 + k) ≤ 0x20) n

/-- The black points of the diagonal up, among its first `n`. -/
def Frame.darkUp (frame : Frame) (n : Nat) : Nat :=
  Nat.count (fun k => frame.at (400 - k) (341 + k) ≤ 0x20) n

/-- A count that is enough is not passed over. -/
theorem blackJudgeTurn_eq (frame : Frame) {enough j i blackCount : Nat}
    (hfew : blackCount ≤ enough) :
    blackJudgeTurn frame enough j (i, blackCount) =
      if enough < blackCount + (if frame.at j (i + 1) ≤ 0x20 then 1 else 0) then .inr true
      else .inl (i + 1, blackCount + if frame.at j (i + 1) ≤ 0x20 then 1 else 0) := by
  unfold blackJudgeTurn
  dsimp only
  split_ifs <;> first | rfl | omega

theorem Frame.darkDown_succ (frame : Frame) (n : Nat) :
    frame.darkDown (n + 1) =
      frame.darkDown n + if frame.at (60 + n) (1 + n) ≤ 0x20 then 1 else 0 :=
  Nat.count_succ _ n

theorem Frame.darkUp_succ (frame : Frame) (n : Nat) :
    frame.darkUp (n + 1) =
      frame.darkUp n + if frame.at (400 - n) (341 + n) ≤ 0x20 then 1 else 0 :=
  Nat.count_succ _ n

/-- The first loop: it leaves at the 171st black point. -/
theorem scan_down (frame : Frame) :
    Sum.elim (fun s => s = (340, frame.darkDown 340) ∧ frame.darkDown 340 ≤ 170)
      (fun judged => judged = true ∧ 170 < frame.darkDown 340)
      (scan (blackJudgeTurn frame 170) 340 60 (0, 0)) := by
  refine scan_spec (I := fun k s => s = (k, frame.darkDown k) ∧ frame.darkDown k ≤ 170) ?_
    ⟨rfl, Nat.zero_le _⟩
  rintro k s hk ⟨rfl, hfew⟩
  have hmono : frame.darkDown (k + 1) ≤ frame.darkDown 340 := Nat.count_monotone _ hk
  rw [blackJudgeTurn_eq frame hfew, Nat.add_comm k 1, ← frame.darkDown_succ, Nat.add_comm 1 k]
  split_ifs with hmany
  · exact ⟨rfl, by omega⟩
  · exact ⟨rfl, Nat.le_of_not_lt hmany⟩

/-- The second loop, which goes on counting. -/
theorem scan_up (frame : Frame) (hfew : frame.darkDown 340 ≤ 170) :
    Sum.elim (fun _ => false) id (scan (fun k => blackJudgeTurn frame 280 (400 - k)) 340 0
        (340, frame.darkDown 340)) = true ↔
      280 < frame.darkDown 340 + frame.darkUp 340 := by
  refine scan_decides (I := fun k s =>
    s = (340 + k, frame.darkDown 340 + frame.darkUp k) ∧
      frame.darkDown 340 + frame.darkUp k ≤ 280) ?_ ?_ ⟨rfl, Nat.le_trans hfew (by decide)⟩
  · rintro k s hk ⟨rfl, hle⟩
    have hmono : frame.darkUp (k + 1) ≤ frame.darkUp 340 := Nat.count_monotone _ hk
    rw [Nat.zero_add, blackJudgeTurn_eq frame hle, Nat.add_assoc, Nat.add_right_comm 340 k 1,
      ← frame.darkUp_succ]
    split_ifs with hmany
    · exact iff_of_true rfl (by omega)
    · rw [Nat.add_right_comm 340 1 k]
      exact ⟨rfl, Nat.le_of_not_lt hmany⟩
  · rintro s ⟨-, hle⟩
    exact Nat.not_lt_of_le hle

theorem videoItselfBlackJudge_iff (frame : Frame) :
    videoItselfBlackJudge frame = true ↔
      170 < frame.darkDown 340 ∨ 280 < frame.darkDown 340 + frame.darkUp 340 := by
  have hdown := scan_down frame
  unfold videoItselfBlackJudge
  cases h : scan (blackJudgeTurn frame 170) 340 60 (0, 0) with
  | inl s =>
    rw [h] at hdown
    obtain ⟨rfl, hfew⟩ := hdown
    rw [or_iff_right (Nat.not_lt_of_le hfew)]
    exact scan_up frame hfew
  | inr judged =>
    rw [h] at hdown
    exact iff_of_true hdown.1 (.inl hdown.2)

/-- **Giving up never changes the answer.** -/
theorem blackCounts_eq_plain (frame : Frame) :
    (toFindBlackLine frame = true ↔ 710 < frame.darkInRow bcarBlackValueUperrLimit 0 719) ∧
    (videoItselfBlackJudge frame = true ↔
      170 < frame.darkDown 340 ∨ 280 < frame.darkDown 340 + frame.darkUp 340) :=
  ⟨toFindBlackLine_iff frame, videoItselfBlackJudge_iff frame⟩

end Lidbg.FlyCamera
