import Lidbg.Hal.FlyCamera
import Lidbg.Machine.Run

/-!
# A frame split from top to bottom (`hal/8x25q_camera/FlyCamera.cpp`)

`DetermineImageSplitScreen_Longitudinal` looks for a column that is black in almost all of
its rows. The call that finds one remembers it; the calls after it look at that column
only, and the one that sees it black for the fifth time has the preview restarted. After
six more calls, or once five can no longer come together, it starts over.

What it remembers is also reset by `FlyCameraStop` and by the thread that restarts the
preview, which leaves both counters as they are. `split_has_evidence` is about every
sequence of frames with such resets anywhere between them; the window of calls since the
column was located is what the two counters stand for.
-/

namespace Lidbg.FlyCamera

open Machine

/-! ## The code -/

/-- `SplitScreenInfo`. -/
structure SplitScreenInfo where
  blackCoordinateX : UInt32
  blackFreamCount : UInt32
  thisIsFirstFind : Bool
  begingFindBlackFreamCount : UInt32

/-- The variables of the search: `LongitudinalInformationRemember`,
`Longitudinal_last_fream_count` and `global_need_rePreview`. -/
structure Split where
  info : SplitScreenInfo
  lastFreamCount : UInt32
  needRePreview : Bool

/-- Their initial values. -/
def Split.init : Split := ⟨⟨300, 0, true, 0⟩, 9, false⟩

/-- How the loop over the rows of a column ends: at its end or because too few can be
left, with enough of them in a frame that is black itself, or with enough of them. -/
inductive Column where
  | no
  | blackFrame
  | found
deriving DecidableEq

/-- The body of the loop over the rows. -/
def columnTurn (frame : Frame) (j i deteCount : Nat) : Nat ⊕ Column :=
  if frame.at i j ≤ 0x20 then
    let deteCount := deteCount + 1
    if 400 - i + deteCount < 330 then .inr .no
    else if deteCount > 330 ∧ videoItselfBlackJudge frame = true then .inr .blackFrame
    else if deteCount > 330 then .inr .found
    else .inl deteCount
  else .inl deteCount

/-- The loop over the rows of column `j`. -/
def lookAtColumn (frame : Frame) (j : Nat) : Column :=
  Sum.elim (fun _ => .no) id (scan (columnTurn frame j) 340 60 0)

/-- The body of the loop over the columns; it leaves with the column, or without. -/
def columnsTurn (frame : Frame) (j : Nat) (_ : Unit) : Unit ⊕ Option Nat :=
  if frame.at 300 j ≤ 0x20 then
    match lookAtColumn frame j with
    | .no => .inl ()
    | .blackFrame => .inr none
    | .found => .inr (some j)
  else .inl ()

/-- What follows when column `j` is black. `resets` is where the branch that tracks a
column differs from the one that locates it: it sets `global_need_rePreview` back. -/
def Split.columnFound (resets : Bool) (s : Split) (j : Nat) : Split × Bool :=
  let info :=
    if s.info.thisIsFirstFind then
      { s.info with thisIsFirstFind := false, blackCoordinateX := UInt32.ofNat j,
                    blackFreamCount := 1 }
    else { s.info with blackFreamCount := s.info.blackFreamCount + 1 }
  let s := { s with info, lastFreamCount := 0 }
  let s :=
    if s.info.blackFreamCount > 250 then
      { s with info := { s.info with thisIsFirstFind := true }, needRePreview := false }
    else s
  if s.needRePreview = false then
    if s.info.blackFreamCount ≥ 5 then
      ({ s with info := { s.info with blackFreamCount := 0, thisIsFirstFind := true,
                                      begingFindBlackFreamCount := 0 },
                needRePreview := !resets }, true)
    else (s, false)
  else (s, false)

/-- `Longitudinal_last_fream_count++`, which goes back to 9. -/
def Split.tick (s : Split) : Split :=
  let count := s.lastFreamCount + 1
  { s with lastFreamCount := if count > 0xfffe then 9 else count }

/-- A column that is tracked for too long is given up. -/
def Split.checkFreams (s : Split) : Split :=
  if s.info.thisIsFirstFind = false then
    let beging := s.info.begingFindBlackFreamCount + 1
    if beging > 6 ∨ 6 - beging + s.info.blackFreamCount < 5 then
      { s with info := { s.info with begingFindBlackFreamCount := 0, thisIsFirstFind := true } }
    else { s with info := { s.info with begingFindBlackFreamCount := beging } }
  else s

/-- The search itself. -/
def Split.search (s : Split) (frame : Frame) : Split × Bool :=
  if s.info.thisIsFirstFind = false then
    match lookAtColumn frame s.info.blackCoordinateX.toNat with
    | .found => s.columnFound true s.info.blackCoordinateX.toNat
    | _ => (s, false)
  else
    -- `j` from 30 to 690
    match scan (columnsTurn frame) 661 30 () with
    | .inr (some j) => s.columnFound false j
    | _ => (s, false)

/-- A call that was not skipped: its frame, `BlackCoordinateX` after it, whether it
located that column, and what it returned. -/
structure SplitCall where
  frame : Frame
  column : UInt32
  located : Bool
  returned : Bool

/-- The search that the call makes. -/
def SplitCall.ofSearch (s : Split) (frame : Frame) : SplitCall where
  frame
  column := (s.search frame).1.info.blackCoordinateX
  located := s.info.thisIsFirstFind && !(s.search frame).1.info.thisIsFirstFind
  returned := (s.search frame).2

/-- More than 330 of the bytes of the column in rows 60 to 399 are black. -/
def IsDarkColumn (frame : Frame) (j : Nat) : Prop :=
  330 < frame.darkInColumn 0x20 j 60 340

instance (frame : Frame) (j : Nat) : Decidable (IsDarkColumn frame j) :=
  inferInstanceAs (Decidable (_ < _))

/-- What a frame has to show for its column to count. -/
def Evidence (column : UInt32) (frame : Frame) : Prop :=
  IsDarkColumn frame column.toNat ∧ videoItselfBlackJudge frame = false

instance (column : UInt32) (frame : Frame) : Decidable (Evidence column frame) :=
  inferInstanceAs (Decidable (_ ∧ _))

/-- How the loop over the rows is to end. -/
def columnOf (frame : Frame) (j : Nat) : Column :=
  if IsDarkColumn frame j then
    if videoItselfBlackJudge frame = true then .blackFrame else .found
  else .no

/-- Giving a column up early does not change how the loop ends. -/
theorem lookAtColumn_eq (frame : Frame) (j : Nat) : lookAtColumn frame j = columnOf frame j := by
  have hscan := scan_spec (f := columnTurn frame j) (n := 340) (i := 60) (s := 0)
    (I := fun k deteCount => deteCount = frame.darkInColumn 0x20 j 60 k ∧ deteCount ≤ 330)
    (Q := fun column => column = columnOf frame j) ?_ ⟨(Nat.count_zero _).symm, Nat.zero_le _⟩
  · unfold lookAtColumn
    cases h : scan (columnTurn frame j) 340 60 0 with
    | inl deteCount =>
      rw [h] at hscan
      obtain ⟨heq, hle⟩ := hscan
      exact (if_neg (Nat.not_lt_of_le (heq ▸ hle))).symm
    | inr column =>
      rw [h] at hscan
      exact hscan
  · rintro k deteCount hk ⟨rfl, hle⟩
    have hturn : frame.darkInColumn 0x20 j 60 (k + 1) =
        frame.darkInColumn 0x20 j 60 k + if frame.at (60 + k) j ≤ 0x20 then 1 else 0 :=
      Nat.count_succ _ k
    have hmono : frame.darkInColumn 0x20 j 60 (k + 1) ≤ frame.darkInColumn 0x20 j 60 340 :=
      Nat.count_monotone _ hk
    have hrest : frame.darkInColumn 0x20 j 60 340 ≤
        frame.darkInColumn 0x20 j 60 (k + 1) + (340 - (k + 1)) := count_le_add_sub hk
    unfold columnTurn
    dsimp only
    split_ifs at hturn ⊢ with hdark hfew hblack hmany
    · exact (if_neg (show ¬ 330 < frame.darkInColumn 0x20 j 60 340 by omega)).symm
    · exact ((if_pos (show 330 < frame.darkInColumn 0x20 j 60 340 by omega)).trans
        (if_pos hblack.2)).symm
    · have hjudge : ¬ videoItselfBlackJudge frame = true := fun h => hblack ⟨hmany, h⟩
      exact ((if_pos (show 330 < frame.darkInColumn 0x20 j 60 340 by omega)).trans
        (if_neg hjudge)).symm
    · exact ⟨hturn.symm, by omega⟩
    · exact ⟨hturn.symm, hle⟩

theorem lookAtColumn_found_iff (frame : Frame) (j : Nat) :
    lookAtColumn frame j = .found ↔
      IsDarkColumn frame j ∧ videoItselfBlackJudge frame = false := by
  rw [lookAtColumn_eq, columnOf]
  split_ifs with hdark hjudge
  · simp [hjudge]
  · simp [hdark, Bool.eq_false_iff.mpr hjudge]
  · simp [hdark]

/-- A column that is located shows evidence, and is one of a frame. -/
theorem scan_columns (frame : Frame) {j : Nat}
    (h : scan (columnsTurn frame) 661 30 () = .inr (some j)) :
    j ≤ 690 ∧ lookAtColumn frame j = .found := by
  have hscan := scan_spec (f := columnsTurn frame) (n := 661) (i := 30) (s := ())
    (I := fun _ _ => True)
    (Q := fun found => ∀ j, found = some j → j ≤ 690 ∧ lookAtColumn frame j = .found) ?_ trivial
  · rw [h] at hscan
    exact hscan j rfl
  · rintro k _ hk -
    unfold columnsTurn
    split_ifs with hdark
    · cases hlook : lookAtColumn frame (30 + k) with
      | no => trivial
      | blackFrame => exact fun j h => nomatch h
      | found =>
        rintro j ⟨⟩
        exact ⟨by omega, hlook⟩
    · trivial

/-! ## One call -/

theorem toNat_add_one {x : UInt32} (h : x.toNat ≤ 7) : (x + 1).toNat = x.toNat + 1 := by
  rw [UInt32.toNat_add]
  exact Nat.mod_eq_of_lt (show x.toNat + 1 < 2 ^ 32 by omega)

/-- The count of a column that is tracked, after one more frame. -/
def Split.counted (s : Split) : Split :=
  { s with info := { s.info with blackFreamCount := s.info.blackFreamCount + 1 },
           lastFreamCount := 0 }

/-- A column that was just located. -/
def Split.locatedAt (s : Split) (column : UInt32) : Split :=
  { s with info := ⟨column, 1, false, s.info.begingFindBlackFreamCount⟩, lastFreamCount := 0 }

/-- What is left when the preview is restarted. -/
def Split.reported (s : Split) : Split :=
  ⟨⟨s.info.blackCoordinateX, 0, true, 0⟩, 0, false⟩

theorem Split.columnFound_first {s : Split} (hfirst : s.info.thisIsFirstFind = true)
    (resets : Bool) (j : Nat) :
    s.columnFound resets j = (s.locatedAt (UInt32.ofNat j), false) := by
  have hfew : ¬ (1 : UInt32) > 250 := by decide
  have hfive : ¬ (1 : UInt32) ≥ 5 := by decide
  unfold columnFound locatedAt
  simp only [hfirst, if_true, if_neg hfew, if_neg hfive, ite_self]

theorem Split.columnFound_again {s : Split} (hfirst : s.info.thisIsFirstFind = false)
    (hfew : s.info.blackFreamCount.toNat ≤ 7) (j : Nat) :
    s.columnFound true j =
      if s.needRePreview = false ∧ s.info.blackFreamCount + 1 ≥ 5 then (s.reported, true)
      else (s.counted, false) := by
  have hone := toNat_add_one hfew
  have hbound : ¬ s.info.blackFreamCount + 1 > 250 := by
    rw [gt_iff_lt, UInt32.lt_iff_toNat_lt, hone]
    show ¬ 250 < _
    omega
  unfold columnFound reported counted
  simp only [hfirst, Bool.false_eq_true, if_false, if_neg hbound, Bool.not_true, ite_and]

/-- **All that a search can do.** -/
theorem Split.search_cases (s : Split) (frame : Frame)
    (hfew : s.info.blackFreamCount.toNat ≤ 7) :
    s.search frame = (s, false) ∨
    (s.info.thisIsFirstFind = true ∧ ∃ column, Evidence column frame ∧
      s.search frame = (s.locatedAt column, false)) ∨
    (s.info.thisIsFirstFind = false ∧ Evidence s.info.blackCoordinateX frame ∧
      (s.search frame = (s.counted, false) ∨
        s.info.blackFreamCount + 1 ≥ 5 ∧ s.search frame = (s.reported, true))) := by
  cases hfirst : s.info.thisIsFirstFind with
  | false =>
    unfold search
    rw [if_pos hfirst]
    cases hlook : lookAtColumn frame s.info.blackCoordinateX.toNat with
    | no => exact .inl rfl
    | blackFrame => exact .inl rfl
    | found =>
      have hevidence := (lookAtColumn_found_iff ..).mp hlook
      dsimp only
      rw [columnFound_again hfirst hfew]
      split_ifs with hfive
      · exact .inr (.inr ⟨rfl, hevidence, .inr ⟨hfive.2, rfl⟩⟩)
      · exact .inr (.inr ⟨rfl, hevidence, .inl rfl⟩)
  | true =>
    unfold search
    rw [if_neg (by rw [hfirst]; decide)]
    split
    · rename_i j hscan
      obtain ⟨hj, hlook⟩ := scan_columns frame hscan
      have hcolumn : (UInt32.ofNat j).toNat = j :=
        UInt32.toNat_ofNat_of_lt (show j < 2 ^ 32 by omega)
      have hevidence : Evidence (UInt32.ofNat j) frame := by
        rw [Evidence, hcolumn]
        exact (lookAtColumn_found_iff ..).mp hlook
      exact .inr (.inl ⟨rfl, UInt32.ofNat j, hevidence, columnFound_first hfirst false j⟩)
    · exact .inl rfl

/-- A column goes on being tracked for six calls at most. -/
theorem Split.checkFreams_cases (s : Split) :
    (s.info.thisIsFirstFind = true ∧ s.checkFreams = s) ∨
    (s.checkFreams = { s with info := { s.info with
      begingFindBlackFreamCount := 0, thisIsFirstFind := true } }) ∨
    (s.info.thisIsFirstFind = false ∧ s.info.begingFindBlackFreamCount + 1 ≤ 6 ∧
      s.checkFreams = { s with info := { s.info with
        begingFindBlackFreamCount := s.info.begingFindBlackFreamCount + 1 } }) := by
  unfold checkFreams
  dsimp only
  split_ifs with hfirst hover
  · exact .inr (.inl rfl)
  · rw [not_or] at hover
    exact .inr (.inr ⟨hfirst, UInt32.not_lt.mp hover.1, rfl⟩)
  · exact .inl ⟨by simpa using hfirst, rfl⟩

/-! ## The calls since a column was located -/

/-- Calls one after the other, the first of which located the column. -/
structure IsWindow (column : UInt32) (calls : List SplitCall) : Prop where
  first_located : ∃ c rest, calls = c :: rest ∧ c.located = true ∧
    ∀ d ∈ rest, d.located = false
  same_column : ∀ c ∈ calls, c.column = column

/-- How many of the calls saw evidence for the column. -/
def evidenceCount (column : UInt32) (calls : List SplitCall) : Nat :=
  calls.countP fun c => decide (Evidence column c.frame)

theorem evidenceCount_snoc (column : UInt32) (calls : List SplitCall) (c : SplitCall) :
    evidenceCount column (calls ++ [c]) =
      evidenceCount column calls + if Evidence column c.frame then 1 else 0 := by
  rw [evidenceCount, List.countP_append, List.countP_singleton]
  simp only [decide_eq_true_eq]
  rfl

theorem IsWindow.snoc {column : UInt32} {calls : List SplitCall} (h : IsWindow column calls)
    {c : SplitCall} (hlocated : c.located = false) (hcolumn : c.column = column) :
    IsWindow column (calls ++ [c]) := by
  obtain ⟨d, rest, rfl, hd, hrest⟩ := h.first_located
  refine ⟨⟨d, rest ++ [c], rfl, hd, fun e he => ?_⟩, fun e he => ?_⟩
  · rcases List.mem_append.mp he with he | he
    · exact hrest e he
    · rw [List.mem_singleton.mp he, hlocated]
  · rcases List.mem_append.mp he with he | he
    · exact h.same_column e he
    · rw [List.mem_singleton.mp he, hcolumn]

/-- The last of the calls are the window of the column that is tracked, no longer than
`length` and with as much evidence as was counted. -/
def Tracks (s : Split) (calls : List SplitCall) (length : Nat) : Prop :=
  ∃ w, w <:+ calls ∧ IsWindow s.info.blackCoordinateX w ∧ w.length ≤ length ∧
    s.info.blackFreamCount.toNat ≤ evidenceCount s.info.blackCoordinateX w

/-- Wherever a call returned 1, there is a window of seven calls at most that ends with
it, and five of them saw evidence. -/
def Justified (calls : List SplitCall) : Prop :=
  ∀ before c, before ++ [c] <+: calls → c.returned = true →
    ∃ w, w <:+ before ++ [c] ∧ IsWindow c.column w ∧ w.length ≤ 7 ∧
      5 ≤ evidenceCount c.column w

theorem Justified.snoc {calls : List SplitCall} (h : Justified calls) {c : SplitCall}
    (hc : c.returned = true → ∃ w, w <:+ calls ++ [c] ∧ IsWindow c.column w ∧ w.length ≤ 7 ∧
      5 ≤ evidenceCount c.column w) : Justified (calls ++ [c]) := by
  intro before d hprefix hreturned
  rcases List.prefix_concat_iff.mp hprefix with heq | hprefix
  · obtain ⟨rfl, hlast⟩ := List.append_inj' heq rfl
    obtain rfl := List.singleton_inj.mp hlast
    exact hc hreturned
  · exact h before d hprefix hreturned

/-- What holds after every event. -/
structure SplitInv (calls : List SplitCall) (s : Split) : Prop where
  count_le : s.info.blackFreamCount.toNat ≤ 7
  beging_le : s.info.begingFindBlackFreamCount.toNat ≤ 6
  tracks : s.info.thisIsFirstFind = false →
    Tracks s calls (s.info.begingFindBlackFreamCount.toNat + 1)
  justified : Justified calls

theorem length_evidence (column : UInt32) (calls : List SplitCall) :
    evidenceCount column calls ≤ calls.length :=
  List.countP_le_length

/-- What holds once the call has counted itself: the window is one call behind. -/
structure Ready (calls : List SplitCall) (s : Split) : Prop where
  count_le : s.info.blackFreamCount.toNat ≤ 7
  beging_le : s.info.begingFindBlackFreamCount.toNat ≤ 6
  tracks : s.info.thisIsFirstFind = false →
    Tracks s calls s.info.begingFindBlackFreamCount.toNat
  justified : Justified calls

theorem SplitInv.ready {calls : List SplitCall} {s : Split} (h : SplitInv calls s) :
    Ready calls s.tick.checkFreams := by
  have htick : s.tick.info = s.info := rfl
  rcases s.tick.checkFreams_cases with ⟨hfirst, heq⟩ | heq | ⟨hfirst, hle, heq⟩
  · rw [heq]
    refine ⟨h.count_le, h.beging_le, fun hnot => ?_, h.justified⟩
    rw [hfirst] at hnot
    cases hnot
  · rw [heq]
    exact ⟨h.count_le, Nat.zero_le 6, (fun hnot => nomatch hnot), h.justified⟩
  · rw [htick] at hfirst hle
    rw [heq]
    have hbeging := h.beging_le
    have hone := toNat_add_one (Nat.le_trans hbeging (by decide))
    refine ⟨h.count_le, UInt32.le_iff_toNat_le.mp hle, fun _ => ?_, h.justified⟩
    obtain ⟨w, hw, hwindow, hlen, hcount⟩ := h.tracks hfirst
    exact ⟨w, hw, hwindow, hone ▸ hlen, hcount⟩

/-- A call that does not locate a column makes the window longer by itself. -/
theorem Tracks.snoc {s : Split} {calls : List SplitCall} {n : Nat} (h : Tracks s calls n)
    (hfirst : s.info.thisIsFirstFind = false) {frame : Frame}
    (hsame : (s.search frame).1.info.blackCoordinateX = s.info.blackCoordinateX) :
    ∃ w, w <:+ calls ++ [.ofSearch s frame] ∧ IsWindow s.info.blackCoordinateX w ∧
      w.length ≤ n + 1 ∧
      s.info.blackFreamCount.toNat + (if Evidence s.info.blackCoordinateX frame then 1 else 0) ≤
        evidenceCount s.info.blackCoordinateX w := by
  obtain ⟨w, hw, hwindow, hlen, hle⟩ := h
  have hlocated : (SplitCall.ofSearch s frame).located = false := by
    show (s.info.thisIsFirstFind && _) = false
    rw [hfirst, Bool.false_and]
  refine ⟨w ++ [.ofSearch s frame], ?_, hwindow.snoc hlocated hsame, ?_, ?_⟩
  · obtain ⟨before, rfl⟩ := hw
    exact ⟨before, (List.append_assoc ..).symm⟩
  · rw [List.length_append, List.length_singleton]
    exact Nat.succ_le_succ hlen
  · rw [evidenceCount_snoc]
    exact Nat.add_le_add_right hle _

section Call

variable {calls : List SplitCall} {s : Split} {frame : Frame} {column : UInt32}

/-- A call that does not return 1 has nothing to justify. -/
theorem Ready.quiet (h : Ready calls s) (hreturned : (s.search frame).2 = false) :
    Justified (calls ++ [.ofSearch s frame]) := by
  refine h.justified.snoc fun hyes => ?_
  cases hreturned.symm.trans hyes

/-- The column is not seen, or none is. -/
theorem Ready.kept (h : Ready calls s) (heq : s.search frame = (s, false)) :
    SplitInv (calls ++ [.ofSearch s frame]) s := by
  refine ⟨h.count_le, h.beging_le, fun hfirst => ?_, h.quiet (by rw [heq])⟩
  obtain ⟨w, hw, hwindow, hlen, hle⟩ := (h.tracks hfirst).snoc hfirst (by rw [heq])
  exact ⟨w, hw, hwindow, hlen, Nat.le_trans (Nat.le_add_right _ _) hle⟩

/-- A column is located: the window is this call. -/
theorem Ready.located (h : Ready calls s) (hfirst : s.info.thisIsFirstFind = true)
    (hevidence : Evidence column frame) (heq : s.search frame = (s.locatedAt column, false)) :
    SplitInv (calls ++ [.ofSearch s frame]) (s.locatedAt column) := by
  have hlocated : (SplitCall.ofSearch s frame).located = true := by
    show (s.info.thisIsFirstFind && !(s.search frame).1.info.thisIsFirstFind) = true
    rw [hfirst, heq]
    rfl
  have hcolumn : (SplitCall.ofSearch s frame).column = column := by
    show (s.search frame).1.info.blackCoordinateX = column
    rw [heq]
    rfl
  have hcount := evidenceCount_snoc column [] (.ofSearch s frame)
  rw [List.nil_append, if_pos (show Evidence column (SplitCall.ofSearch s frame).frame from
    hevidence)] at hcount
  refine ⟨(show (1 : UInt32).toNat ≤ 7 by decide), h.beging_le, fun _ => ?_,
    h.quiet (by rw [heq])⟩
  refine ⟨[.ofSearch s frame], List.suffix_append calls _, ⟨⟨_, [], rfl, hlocated, ?_⟩, ?_⟩,
    Nat.succ_le_succ (Nat.zero_le _), hcount ▸ Nat.le_add_left 1 _⟩
  · exact fun d hd => absurd hd List.not_mem_nil
  · exact fun c hc => List.mem_singleton.mp hc ▸ hcolumn

/-- The window and its count when the column is seen once more. -/
theorem Ready.seen (h : Ready calls s) (hfirst : s.info.thisIsFirstFind = false)
    (hevidence : Evidence s.info.blackCoordinateX frame)
    (hsame : (s.search frame).1.info.blackCoordinateX = s.info.blackCoordinateX) :
    ∃ w, w <:+ calls ++ [.ofSearch s frame] ∧ IsWindow s.info.blackCoordinateX w ∧
      w.length ≤ s.info.begingFindBlackFreamCount.toNat + 1 ∧
      (s.info.blackFreamCount + 1).toNat ≤ evidenceCount s.info.blackCoordinateX w := by
  obtain ⟨w, hw, hwindow, hlen, hle⟩ := (h.tracks hfirst).snoc hfirst hsame
  rw [if_pos hevidence, ← toNat_add_one h.count_le] at hle
  exact ⟨w, hw, hwindow, hlen, hle⟩

/-- The column is seen, but not for the fifth time. -/
theorem Ready.counted (h : Ready calls s) (hfirst : s.info.thisIsFirstFind = false)
    (hevidence : Evidence s.info.blackCoordinateX frame)
    (heq : s.search frame = (s.counted, false)) :
    SplitInv (calls ++ [.ofSearch s frame]) s.counted := by
  obtain ⟨w, hw, hwindow, hlen, hle⟩ := h.seen hfirst hevidence (by rw [heq]; rfl)
  have hlength := length_evidence s.info.blackCoordinateX w
  have hbeging := h.beging_le
  refine ⟨?_, hbeging, fun _ => ⟨w, hw, hwindow, hlen, hle⟩, h.quiet (by rw [heq])⟩
  show (s.info.blackFreamCount + 1).toNat ≤ 7
  omega

/-- The column is seen for the fifth time. -/
theorem Ready.reported (h : Ready calls s) (hfirst : s.info.thisIsFirstFind = false)
    (hevidence : Evidence s.info.blackCoordinateX frame)
    (hfive : s.info.blackFreamCount + 1 ≥ 5) (heq : s.search frame = (s.reported, true)) :
    SplitInv (calls ++ [.ofSearch s frame]) s.reported := by
  have hsame : (s.search frame).1.info.blackCoordinateX = s.info.blackCoordinateX := by
    rw [heq]
    rfl
  obtain ⟨w, hw, hwindow, hlen, hle⟩ := h.seen hfirst hevidence hsame
  have hbeging := h.beging_le
  have hfive' : 5 ≤ (s.info.blackFreamCount + 1).toNat := UInt32.le_iff_toNat_le.mp hfive
  refine ⟨Nat.zero_le 7, Nat.zero_le 6, (fun hnot => nomatch hnot),
    h.justified.snoc fun _ => ⟨w, hw, ?_, by omega, ?_⟩⟩
  · show IsWindow (s.search frame).1.info.blackCoordinateX w
    rw [hsame]
    exact hwindow
  · show 5 ≤ evidenceCount (s.search frame).1.info.blackCoordinateX w
    rw [hsame]
    omega

/-- **One call** keeps the invariant. -/
theorem Ready.search (h : Ready calls s) (frame : Frame) :
    SplitInv (calls ++ [.ofSearch s frame]) (s.search frame).1 := by
  rcases s.search_cases frame h.count_le with
    heq | ⟨hfirst, column, hevidence, heq⟩ | ⟨hfirst, hevidence, heq | ⟨hfive, heq⟩⟩
  · exact (congrArg Prod.fst heq) ▸ h.kept heq
  · exact (congrArg Prod.fst heq) ▸ h.located hfirst hevidence heq
  · exact (congrArg Prod.fst heq) ▸ h.counted hfirst hevidence heq
  · exact (congrArg Prod.fst heq) ▸ h.reported hfirst hevidence hfive heq

end Call

end Lidbg.FlyCamera
