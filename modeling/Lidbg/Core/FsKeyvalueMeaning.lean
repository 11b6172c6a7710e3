import Lidbg.Core.FsKeyvalueUpdate
import Mathlib.Data.List.Nodup

/-!
# What `update_list` means for an entry with a variable

With no two entries on one variable and callbacks that leave the variables
alone, an entry sees the lines of its key and nothing else: its variable follows
their numbers, and its callback is called where the number changes.
-/

namespace Lidbg.FsKeyvalueUpdate

open Machine FsKeyvalue

variable {ι κ : Type} [DecidableEq ι] {run : CallbackCall κ → (ι → Int32) → ι → Int32}

/-- The lines of an entry's key. -/
def ownLines (pos : StringDev ι κ) (lines : List (List UInt8 × List UInt8)) :
    List (List UInt8 × List UInt8) :=
  lines.filter fun kv => pos.yourkey.chars = kv.1

/-- The lines whose number differs from what the lines before have left of `old`. -/
def changes (old : Int32) : List (List UInt8 × List UInt8) → List (List UInt8 × List UInt8)
  | [] => []
  | kv :: lines =>
    (if old ≠ strtoulInt kv.2 then [kv] else []) ++ changes (strtoulInt kv.2) lines

/-- The number on the last line, or `old` if there is none. -/
def lastNumber (old : Int32) (lines : List (List UInt8 × List UInt8)) : Int32 :=
  (lines.getLast?.map fun kv => strtoulInt kv.2).getD old

/-- An entry's callback called for a line. -/
def callFor (pos : StringDev ι κ) (kv : List UInt8 × List UInt8) : List (EntryCall ι κ) :=
  (pos.callback.map fun cb => ⟨⟨cb, kv.1, kv.2⟩, pos⟩).toList

/-- The calls made from the entries on a variable. -/
def callsOn (var : ι) (s : UpdateState ι κ) : List (EntryCall ι κ) :=
  s.calls.filter fun call => call.pos.intValue = some var

theorem lastNumber_cons (old : Int32) (kv : List UInt8 × List UInt8)
    (lines : List (List UInt8 × List UInt8)) :
    lastNumber old (kv :: lines) = lastNumber (strtoulInt kv.2) lines := by
  unfold lastNumber
  rw [List.getLast?_cons]
  cases lines.getLast? <;> rfl

omit [DecidableEq ι] in
theorem callEntry_calls (key value : List UInt8) (pos : StringDev ι κ) (s : UpdateState ι κ) :
    (callEntry run key value pos s).calls = s.calls ++ callFor pos (key, value) := by
  unfold callEntry callFor
  cases pos.callback with
  | none => exact (List.append_nil _).symm
  | some cb => rfl

theorem callFor_filter (pos : StringDev ι κ) (kv : List UInt8 × List UInt8) (var : ι) :
    (callFor pos kv).filter (fun call => call.pos.intValue = some var) =
      if pos.intValue = some var then callFor pos kv else [] := by
  unfold callFor
  cases pos.callback with
  | none => split_ifs <;> rfl
  | some cb =>
    rw [Option.map_some, Option.toList_some, List.filter_singleton]
    split_ifs with h
    · rw [decide_eq_true h]
      rfl
    · rw [decide_eq_false h]
      rfl

section
variable (hrun : ∀ call ints, run call ints = ints)
include hrun

/-- An entry on another variable. -/
theorem updatePos_of_ne (key value : List UInt8) (s : UpdateState ι κ) {pos : StringDev ι κ}
    {var : ι} (hpos : pos.intValue ≠ some var) :
    (updatePos run key value s pos).ints var = s.ints var ∧
      callsOn var (updatePos run key value s pos) = callsOn var s := by
  refine ⟨?_, ?_⟩
  · rw [updatePos_ints hrun]
    exact if_neg fun h => hpos h.2
  · rcases updatePos_cases run key value s pos with ⟨-, -, heq⟩ | ⟨-, heq⟩
    · rw [heq, callsOn, callEntry_calls, List.filter_append, callFor_filter, if_neg hpos,
        List.append_nil]
      rfl
    · rw [heq]

theorem updateLine_of_ne (kv : List UInt8 × List UInt8) (s : UpdateState ι κ)
    {clientList : List (StringDev ι κ)} {var : ι}
    (hlist : ∀ pos ∈ clientList, pos.intValue ≠ some var) :
    (updateLine run clientList s kv).ints var = s.ints var ∧
      callsOn var (updateLine run clientList s kv) = callsOn var s := by
  induction clientList generalizing s with
  | nil => exact ⟨rfl, rfl⟩
  | cons pos clientList ih =>
    rw [List.forall_mem_cons] at hlist
    have hpos := updatePos_of_ne hrun kv.1 kv.2 s hlist.1
    have hrest := ih (updatePos run kv.1 kv.2 s pos) hlist.2
    exact ⟨hrest.1.trans hpos.1, hrest.2.trans hpos.2⟩

/-- The entry on the variable. -/
theorem updatePos_own (key value : List UInt8) (s : UpdateState ι κ) {pos : StringDev ι κ}
    {var : ι} (hpos : pos.intValue = some var) :
    (updatePos run key value s pos).ints var =
        (if pos.yourkey.chars = key then strtoulInt value else s.ints var) ∧
      callsOn var (updatePos run key value s pos) = callsOn var s ++
        if pos.yourkey.chars = key ∧ s.ints var ≠ strtoulInt value then callFor pos (key, value)
        else [] := by
  refine ⟨?_, ?_⟩
  · rw [updatePos_ints hrun, setEntry]
    exact if_congr (and_iff_left hpos) rfl rfl
  · have hdiffers : Differs value pos s.ints ↔ s.ints var ≠ strtoulInt value := by
      rw [Differs, hpos]
    rcases updatePos_cases run key value s pos with ⟨hkey, hdiff, heq⟩ | ⟨hquiet, heq⟩
    · rw [heq, callsOn, callEntry_calls, List.filter_append, callFor_filter, if_pos hpos,
        if_pos ⟨hkey, hdiffers.mp hdiff⟩]
      rfl
    · rw [heq, if_neg fun h => hquiet h.1 (hdiffers.mpr h.2), List.append_nil]

/-- **A line** reaches the variable through its one entry. -/
theorem updateLine_own {clientList : List (StringDev ι κ)}
    (hdistinct : (clientList.filterMap StringDev.intValue).Nodup) {pos : StringDev ι κ}
    (hmem : pos ∈ clientList) {var : ι} (hpos : pos.intValue = some var)
    (kv : List UInt8 × List UInt8) (s : UpdateState ι κ) :
    (updateLine run clientList s kv).ints var =
        (if pos.yourkey.chars = kv.1 then strtoulInt kv.2 else s.ints var) ∧
      callsOn var (updateLine run clientList s kv) = callsOn var s ++
        if pos.yourkey.chars = kv.1 ∧ s.ints var ≠ strtoulInt kv.2 then callFor pos kv else [] := by
  obtain ⟨pre, post, rfl⟩ := List.append_of_mem hmem
  rw [List.filterMap_append, List.filterMap_cons_some hpos, List.nodup_middle, List.nodup_cons,
    List.mem_append, not_or] at hdistinct
  obtain ⟨⟨hpre, hpost⟩, -⟩ := hdistinct
  have hne : ∀ {list : List (StringDev ι κ)}, var ∉ list.filterMap StringDev.intValue →
      ∀ other ∈ list, other.intValue ≠ some var := fun hlist other hother hvar =>
    hlist (List.mem_filterMap.mpr ⟨other, hother, hvar⟩)
  -- the entries before it, the entry, the entries behind it
  have hbefore := updateLine_of_ne hrun kv s (hne hpre)
  have hown := updatePos_own hrun kv.1 kv.2 (updateLine run pre s kv) hpos
  have hafter := updateLine_of_ne hrun kv (updatePos run kv.1 kv.2 (updateLine run pre s kv) pos)
    (hne hpost)
  rw [hbefore.1, hbefore.2] at hown
  rw [updateLine, List.foldl_append, List.foldl_cons]
  exact ⟨hafter.1.trans hown.1, hafter.2.trans hown.2⟩

/-- **All lines** reach the variable through its one entry. -/
theorem updateLines_own {clientList : List (StringDev ι κ)}
    (hdistinct : (clientList.filterMap StringDev.intValue).Nodup) {pos : StringDev ι κ}
    (hmem : pos ∈ clientList) {var : ι} (hpos : pos.intValue = some var)
    (lines : List (List UInt8 × List UInt8)) (s : UpdateState ι κ) :
    (updateLines run clientList s lines).ints var =
        lastNumber (s.ints var) (ownLines pos lines) ∧
      callsOn var (updateLines run clientList s lines) = callsOn var s ++
        (changes (s.ints var) (ownLines pos lines)).flatMap (callFor pos) := by
  induction lines generalizing s with
  | nil => exact ⟨rfl, (List.append_nil _).symm⟩
  | cons kv lines ih =>
    have hline := updateLine_own hrun hdistinct hmem hpos kv s
    have hrest := ih (updateLine run clientList s kv)
    rw [hline.1, hline.2] at hrest
    by_cases hkey : pos.yourkey.chars = kv.1
    · have hown : ownLines pos (kv :: lines) = kv :: ownLines pos lines :=
        List.filter_cons_of_pos (decide_eq_true hkey)
      rw [if_pos hkey, if_congr (and_iff_right hkey) rfl rfl] at hrest
      rw [hown, lastNumber_cons, changes, List.flatMap_append, ← List.append_assoc]
      refine ⟨hrest.1, hrest.2.trans ?_⟩
      congr 2
      split_ifs
      · exact (List.flatMap_singleton ..).symm
      · rfl
    · have hown : ownLines pos (kv :: lines) = ownLines pos lines :=
        List.filter_cons_of_neg fun h => hkey (of_decide_eq_true h)
      rw [if_neg hkey, if_neg fun h => hkey h.1, List.append_nil] at hrest
      rw [hown]
      exact hrest

/-- **`update_list` leaves the last number of an entry's key** in its variable,
calls its callback for each line that changes it, and leaves everything else. -/
theorem updateList_meaning {clientList : List (StringDev ι κ)}
    (hdistinct : (clientList.filterMap StringDev.intValue).Nodup) {text : List UInt8}
    (htext : 0 ∉ text) (hread : text ≠ []) (ints : ι → Int32) :
    ∃ s, updateList run (some text) true clientList ints = some (1, clientList, s) ∧
      (∀ pos ∈ clientList, ∀ var, pos.intValue = some var →
        s.ints var = lastNumber (ints var)
          (ownLines pos ((text.splitOn 10).filterMap keyValue)) ∧
        callsOn var s = (changes (ints var)
          (ownLines pos ((text.splitOn 10).filterMap keyValue))).flatMap (callFor pos)) ∧
      ∀ var, (∀ pos ∈ clientList, pos.intValue ≠ some var) → s.ints var = ints var := by
  have hopened : ¬ (¬ (true : Bool) ∨ text = []) := by
    rintro (h | h)
    · exact h rfl
    · exact hread h
  have hlines : linesRead (some text) true = (text.splitOn 10).filterMap keyValue := by
    rw [linesRead, if_neg hopened, fileLines, cstr_of_notMem htext]
  have hret : updateRet (some text) true = 1 := by
    rw [updateRet, if_neg hopened]
  refine ⟨_, by rw [updateList_eq, hret], ?_, ?_⟩
  · intro pos hmem var hpos
    rw [← hlines]
    exact updateLines_own hrun hdistinct hmem hpos (linesRead (some text) true) ⟨ints, []⟩
  · intro var hvar
    have hnone : ∀ kv ∈ linesRead (some text) true, ¬ decide (Sets clientList kv.1 var) := by
      intro kv _ hset
      obtain ⟨pos, hmem, -, hpos⟩ := of_decide_eq_true hset
      exact hvar pos hmem hpos
    rw [updateLines_ints hrun, foldl_setLine, lastSet, List.filter_eq_nil_iff.mpr hnone]
    rfl

end

/-- An entry of the key `k` on the one variable, with a callback. -/
def intEntry : StringDev Unit Unit :=
  ⟨keyK, none, some (), some ()⟩

/-- Two lines of the key, the first of which says what the variable is already. -/
theorem updateList_meaning_twice :
    ∃ s, updateList leaveAlone (some (ascii "k=1\nk=2")) true [intEntry] (fun _ => 1) =
        some (1, [intEntry], s) ∧
      s.ints () = 2 ∧ (callsOn () s).map (fun call => call.value) = [ascii "2"] := by
  have hlines : (ascii "k=1\nk=2").splitOn 10 = [ascii "k=1", ascii "k=2"] :=
    splitOn_two (u := ascii "k=1") (v := ascii "k=2") (by decide) (by decide)
  have hrun : ∀ call ints, leaveAlone (ι := Unit) (κ := Unit) call ints = ints := fun _ _ => rfl
  have hdistinct : ([intEntry].filterMap StringDev.intValue).Nodup := by decide
  have htext : 0 ∉ ascii "k=1\nk=2" := by decide
  have hread : ascii "k=1\nk=2" ≠ [] := by decide
  obtain ⟨s, hs, hown, -⟩ := updateList_meaning hrun hdistinct htext hread fun _ => 1
  have h := hown intEntry List.mem_cons_self () rfl
  rw [hlines] at h
  refine ⟨s, hs, h.1.trans (by decide), ?_⟩
  rw [h.2]
  decide

end Lidbg.FsKeyvalueUpdate
