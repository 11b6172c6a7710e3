import Lidbg.Core.FsKeyvalue
import Lidbg.Machine.Silent
import Lidbg.Machine.Strsep

/-!
# `update_list` on its buffer (`core/lidbg_fs_keyvalue.c`)

The function as it runs: the file is read into a buffer, `strsep` cuts lines out
of it, a NUL stored at the first `=` of a line cuts the key from the value, and
the callbacks are called in between, so that they may change the variables while
the file is being read. `run` is what the callbacks do to the variables; they
leave the list and the line they are given alone.
-/

namespace Lidbg.FsKeyvalueUpdate

open Machine FsKeyvalue

variable {ι κ : Type}

/-- A callback called from an entry of the list. -/
structure EntryCall (ι κ : Type) extends CallbackCall κ where
  pos : StringDev ι κ

/-- What `update_list` writes: the variables, and the calls it has made. -/
structure UpdateState (ι κ : Type) where
  ints : ι → Int32
  calls : List (EntryCall ι κ)

variable (run : CallbackCall κ → (ι → Int32) → ι → Int32)

/-- `if (pos->callback) pos->callback(key, value)`. -/
def callEntry (key value : List UInt8) (pos : StringDev ι κ) (s : UpdateState ι κ) :
    UpdateState ι κ :=
  match pos.callback with
  | none => s
  | some cb =>
    { ints := run ⟨cb, key, value⟩ s.ints, calls := s.calls ++ [⟨⟨cb, key, value⟩, pos⟩] }

variable [DecidableEq ι]

/-- The body of `list_for_each_entry`. -/
def updatePos (key value : List UInt8) (s : UpdateState ι κ) (pos : StringDev ι κ) :
    UpdateState ι κ :=
  if pos.yourkey.chars = key then
    match pos.intValue with
    | some var =>
      if s.ints var ≠ strtoulInt value then
        callEntry run key value pos
          { s with ints := Function.update s.ints var (strtoulInt value) }
      else s
    | none =>
      match pos.yourvalue with
      | some yourvalue =>
        if yourvalue.chars ≠ value then callEntry run key value pos s else s
      | none => s
  else s

/-- The body of the `strsep` loop. -/
def updateToken (clientList : List (StringDev ι κ)) (s : UpdateState ι κ) (token : List UInt8) :
    Option (UpdateState ι κ) :=
  if token.head? ≠ some 35 ∧ (cstr token).length > 2 then
    match cutStr 61 token with
    | some (key, value) => some (clientList.foldl (updatePos run (cstr key) (cstr value)) s)
    | none => some s
  else some s

/-- `update_list`, with its return value: the list, to which nothing is written,
the variables and the calls. `file` is what is read if the file opens. -/
def updateList (file : Option (List UInt8)) (allocated : Bool) (clientList : List (StringDev ι κ))
    (ints : ι → Int32) : Option (Int × List (StringDev ι κ) × UpdateState ι κ) :=
  match file with
  | none => some (-1, clientList, ⟨ints, []⟩)
  | some text =>
    if ¬ allocated ∨ text = [] then some (-1, clientList, ⟨ints, []⟩)
    else (strsepEach 10 (updateToken run clientList) (text ++ [0]) ⟨ints, []⟩).map
      fun s => (1, clientList, s)

/-! ## The lines of the buffer -/

/-- The lines that are read. -/
def linesRead (file : Option (List UInt8)) (allocated : Bool) :
    List (List UInt8 × List UInt8) :=
  match file with
  | none => []
  | some text => if ¬ allocated ∨ text = [] then [] else fileLines text

/-- The return value. -/
def updateRet (file : Option (List UInt8)) (allocated : Bool) : Int :=
  match file with
  | none => -1
  | some text => if ¬ allocated ∨ text = [] then -1 else 1

/-- All entries against a line. -/
def updateLine (clientList : List (StringDev ι κ)) (s : UpdateState ι κ)
    (kv : List UInt8 × List UInt8) : UpdateState ι κ :=
  clientList.foldl (updatePos run kv.1 kv.2) s

/-- All lines. -/
def updateLines (clientList : List (StringDev ι κ)) (s : UpdateState ι κ)
    (lines : List (List UInt8 × List UInt8)) : UpdateState ι κ :=
  lines.foldl (updateLine run clientList) s

/-- One line of the text, which may be one that does not count. -/
def updateText (clientList : List (StringDev ι κ)) (s : UpdateState ι κ) (t : List UInt8) :
    UpdateState ι κ :=
  ((keyValue t).map (updateLine run clientList s)).getD s

/-- A token is read as the string it points at. -/
theorem updateToken_eq (clientList : List (StringDev ι κ)) (s : UpdateState ι κ)
    {token : List UInt8} (htoken : 0 ∈ token) :
    updateToken run clientList s token = some (updateText run clientList s (cstr token)) := by
  obtain ⟨t, rest, ht, rfl⟩ | h := exists_str_or_notMem token
  · rw [updateToken, updateText, cstr_append_nul ht, keyValue]
    have hhead := head?_cstr (by decide : (35 : UInt8) ≠ 0) (t ++ 0 :: rest)
    rw [cstr_append_nul ht] at hhead
    rw [if_congr (and_congr_left' (not_congr hhead)) rfl rfl]
    split_ifs
    · rw [← map_cutStr ht rest]
      cases cutStr 61 (t ++ 0 :: rest) <;> rfl
    · rfl
  · exact absurd htoken h

theorem foldlM_lines (clientList : List (StringDev ι κ)) (pieces : List (List UInt8))
    (s : UpdateState ι κ) :
    pieces.foldlM (fun s t => some (updateText run clientList s t)) s =
      some (updateLines run clientList s (pieces.filterMap keyValue)) := by
  induction pieces generalizing s with
  | nil => rfl
  | cons t pieces ih =>
    rw [List.foldlM_cons, Option.bind_eq_bind, Option.bind_some, ih, updateText]
    cases h : keyValue t with
    | none => rw [List.filterMap_cons_none h, Option.map_none, Option.getD_none]
    | some kv => rw [List.filterMap_cons_some h, Option.map_some, Option.getD_some]; rfl

/-- **The buffer is read line by line.** -/
theorem updateList_eq (file : Option (List UInt8)) (allocated : Bool)
    (clientList : List (StringDev ι κ)) (ints : ι → Int32) :
    updateList run file allocated clientList ints =
      some (updateRet file allocated, clientList,
        updateLines run clientList ⟨ints, []⟩ (linesRead file allocated)) := by
  cases file with
  | none => rfl
  | some text =>
    unfold updateList updateRet linesRead
    dsimp only
    split_ifs with h
    · rfl
    · rw [strsepEach_cstr (f := fun s t => some (updateText run clientList s t)) (by decide)
        (List.mem_append_right text List.mem_cons_self)
        (fun s _ htoken => updateToken_eq run clientList s htoken), cstr_append_nul_cons,
        foldlM_lines, fileLines]
      rfl

/-! ## What a line sets -/

/-- A line of the key sets the variable. -/
def Sets (clientList : List (StringDev ι κ)) (key : List UInt8) (var : ι) : Prop :=
  ∃ pos ∈ clientList, pos.yourkey.chars = key ∧ pos.intValue = some var

instance (clientList : List (StringDev ι κ)) (key : List UInt8) (var : ι) :
    Decidable (Sets clientList key var) :=
  inferInstanceAs
    (Decidable (∃ pos ∈ clientList, pos.yourkey.chars = key ∧ pos.intValue = some var))

omit [DecidableEq ι] in
theorem sets_cons {pos : StringDev ι κ} {clientList : List (StringDev ι κ)} {key : List UInt8}
    {var : ι} : Sets (pos :: clientList) key var ↔
      (pos.yourkey.chars = key ∧ pos.intValue = some var) ∨ Sets clientList key var :=
  List.exists_mem_cons_iff ..

/-- An entry against a line, callbacks aside. -/
def setEntry (key value : List UInt8) (ints : ι → Int32) (pos : StringDev ι κ) : ι → Int32 :=
  fun var =>
    if pos.yourkey.chars = key ∧ pos.intValue = some var then strtoulInt value else ints var

/-- All entries against a line, callbacks aside. -/
def setLine (clientList : List (StringDev ι κ)) (ints : ι → Int32)
    (kv : List UInt8 × List UInt8) : ι → Int32 :=
  clientList.foldl (setEntry kv.1 kv.2) ints

/-- The number of the last line that sets a variable. -/
def lastSet (clientList : List (StringDev ι κ)) (lines : List (List UInt8 × List UInt8))
    (var : ι) : Option Int32 :=
  (lines.filter fun kv => Sets clientList kv.1 var).getLast?.map fun kv => strtoulInt kv.2

theorem foldl_setEntry (key value : List UInt8) (clientList : List (StringDev ι κ))
    (ints : ι → Int32) (var : ι) : clientList.foldl (setEntry key value) ints var =
      if Sets clientList key var then strtoulInt value else ints var := by
  induction clientList generalizing ints with
  | nil =>
    rw [if_neg fun ⟨_, h, _⟩ => by cases h]
    rfl
  | cons pos clientList ih =>
    rw [List.foldl_cons, ih, setEntry, if_congr sets_cons rfl rfl]
    by_cases hrest : Sets clientList key var
    · rw [if_pos hrest, if_pos (.inr hrest)]
    · rw [if_neg hrest, if_congr (or_iff_left hrest) rfl rfl]

theorem lastSet_append (clientList : List (StringDev ι κ))
    (p q : List (List UInt8 × List UInt8)) (var : ι) :
    lastSet clientList (p ++ q) var = (lastSet clientList q var).or (lastSet clientList p var) := by
  unfold lastSet
  rw [List.filter_append, List.getLast?_append, Option.map_or]

theorem lastSet_singleton (clientList : List (StringDev ι κ)) (kv : List UInt8 × List UInt8)
    (var : ι) : lastSet clientList [kv] var =
      if Sets clientList kv.1 var then some (strtoulInt kv.2) else none := by
  unfold lastSet
  split_ifs with h
  · rw [List.filter_singleton, decide_eq_true h]
    rfl
  · rw [List.filter_singleton, decide_eq_false h]
    rfl

/-- **The lines set a variable** to the number of the last one that sets it. -/
theorem foldl_setLine (clientList : List (StringDev ι κ)) (lines : List (List UInt8 × List UInt8))
    (ints : ι → Int32) (var : ι) : lines.foldl (setLine clientList) ints var =
      (lastSet clientList lines var).getD (ints var) := by
  induction lines generalizing ints with
  | nil => rfl
  | cons kv lines ih =>
    rw [List.foldl_cons, ih, setLine, foldl_setEntry, ← List.singleton_append, lastSet_append,
      lastSet_singleton]
    cases lastSet clientList lines var with
    | some n => rfl
    | none => split_ifs <;> rfl

/-! ## What a line calls -/

/-- An entry against a line calls nothing. -/
def EntrySilent (key value : List UInt8) (pos : StringDev ι κ) (ints : ι → Int32) : Prop :=
  pos.yourkey.chars = key → pos.callback.isSome → ¬ Differs value pos ints

/-- A line calls nothing. -/
def LineSilent (clientList : List (StringDev ι κ)) (kv : List UInt8 × List UInt8)
    (ints : ι → Int32) : Prop :=
  AllSilent (EntrySilent kv.1 kv.2) (setEntry kv.1 kv.2) clientList ints

/-- An entry that is not the line's, or that does not differ, sets nothing new. -/
theorem setEntry_of_not_differs {key value : List UInt8} {pos : StringDev ι κ} {ints : ι → Int32}
    (h : pos.yourkey.chars = key → ¬ Differs value pos ints) :
    setEntry key value ints pos = ints := by
  funext var
  rw [setEntry]
  split_ifs with hset
  · have h := h hset.1
    rw [Differs, hset.2] at h
    exact (not_not.mp h).symm
  · rfl

theorem setEntry_of_some {key value : List UInt8} {pos : StringDev ι κ} {bound : ι}
    (hkey : pos.yourkey.chars = key) (hint : pos.intValue = some bound) (ints : ι → Int32) :
    setEntry key value ints pos = Function.update ints bound (strtoulInt value) := by
  funext var
  rw [setEntry, hint, Function.update_apply]
  refine if_congr ?_ rfl rfl
  rw [and_iff_right hkey, Option.some_inj]
  exact eq_comm

/-- **One entry** sets its variable and calls its callback if the line differs. -/
theorem updatePos_cases (key value : List UInt8) (s : UpdateState ι κ) (pos : StringDev ι κ) :
    (pos.yourkey.chars = key ∧ Differs value pos s.ints ∧
      updatePos run key value s pos =
        callEntry run key value pos { s with ints := setEntry key value s.ints pos }) ∨
    ((pos.yourkey.chars = key → ¬ Differs value pos s.ints) ∧
      updatePos run key value s pos = s) := by
  unfold updatePos
  by_cases hkey : pos.yourkey.chars = key
  · rw [if_pos hkey]
    cases hint : pos.intValue with
    | some bound =>
      dsimp only
      split_ifs with hdiff
      · refine .inl ⟨hkey, by rwa [Differs, hint], ?_⟩
        rw [setEntry_of_some hkey hint]
      · exact .inr ⟨fun _ => by rwa [Differs, hint], rfl⟩
    | none =>
      cases hval : pos.yourvalue with
      | some yourvalue =>
        dsimp only
        split_ifs with hdiff
        · have hset : setEntry key value s.ints pos = s.ints := by
            funext var
            exact if_neg fun h => by rw [hint] at h; cases h.2
          refine .inl ⟨hkey, by rwa [Differs, hint, hval], ?_⟩
          rw [hset]
        · exact .inr ⟨fun _ => by rwa [Differs, hint, hval], rfl⟩
      | none => exact .inr ⟨fun _ => by rw [Differs, hint, hval]; exact id, rfl⟩
  · exact .inr ⟨fun h => absurd h hkey, if_neg hkey⟩

theorem updatePos_speaks (key value : List UInt8) :
    Speaks (updatePos run key value) UpdateState.calls UpdateState.ints
      (EntrySilent key value) (setEntry key value) := by
  intro s pos
  rcases updatePos_cases run key value s pos with ⟨hkey, hdiff, hpos⟩ | ⟨hquiet, hpos⟩
  · rw [hpos]
    cases hcb : pos.callback with
    | none =>
      refine .inl ⟨fun _ h => ?_, ?_⟩
      · rw [hcb] at h
        cases h
      · rw [callEntry, hcb]
        exact ⟨rfl, rfl⟩
    | some cb =>
      refine .inr ⟨fun h => h hkey (by rw [hcb]; rfl) hdiff, ⟨⟨cb, key, value⟩, pos⟩, [], ?_⟩
      rw [callEntry, hcb]
  · rw [hpos]
    exact .inl ⟨fun hkey _ => hquiet hkey, rfl, (setEntry_of_not_differs hquiet).symm⟩

/-- **The lines call something** unless each is silent where those before it
have left the variables. -/
theorem updateLines_speaks (clientList : List (StringDev ι κ)) :
    Speaks (updateLines run clientList) UpdateState.calls UpdateState.ints
      (AllSilent (LineSilent clientList) (setLine clientList))
      (fun ints lines => lines.foldl (setLine clientList) ints) := by
  have hline : Speaks (updateLine run clientList) UpdateState.calls UpdateState.ints
      (LineSilent clientList) (setLine clientList) := fun s kv =>
    (updatePos_speaks run kv.1 kv.2).foldl s clientList
  exact hline.foldl

/-! ## Callbacks that leave the variables alone -/

/-- Callbacks that change no variable. -/
def leaveAlone (_call : CallbackCall κ) (ints : ι → Int32) : ι → Int32 := ints

section
variable {run} (hrun : ∀ call ints, run call ints = ints)
include hrun

omit [DecidableEq ι] in
theorem callEntry_ints (key value : List UInt8) (pos : StringDev ι κ) (s : UpdateState ι κ) :
    (callEntry run key value pos s).ints = s.ints := by
  unfold callEntry
  cases pos.callback with
  | none => rfl
  | some cb => exact hrun ⟨cb, key, value⟩ s.ints

theorem updatePos_ints (key value : List UInt8) (s : UpdateState ι κ) (pos : StringDev ι κ) :
    (updatePos run key value s pos).ints = setEntry key value s.ints pos := by
  rcases updatePos_cases run key value s pos with ⟨-, -, hpos⟩ | ⟨hquiet, hpos⟩
  · rw [hpos, callEntry_ints hrun]
  · rw [hpos, setEntry_of_not_differs hquiet]

/-- The variables are what the lines set them to. -/
theorem updateLines_ints (clientList : List (StringDev ι κ)) (s : UpdateState ι κ)
    (lines : List (List UInt8 × List UInt8)) :
    (updateLines run clientList s lines).ints = lines.foldl (setLine clientList) s.ints := by
  have hline : ∀ s kv, setLine clientList s.ints kv = (updateLine run clientList s kv).ints :=
    fun s kv =>
      List.foldl_hom UpdateState.ints fun s pos => (updatePos_ints hrun kv.1 kv.2 s pos).symm
  exact (List.foldl_hom UpdateState.ints hline).symm

/-! The run is then the one that only observes its callbacks. -/

omit [DecidableEq ι] in
theorem callEntry_eq (key value : List UInt8) (pos : StringDev ι κ) (s : UpdateState ι κ) :
    (callEntry run key value pos s).ints = s.ints ∧
      (callEntry run key value pos s).calls.map EntryCall.toCallbackCall =
        s.calls.map EntryCall.toCallbackCall ++
          (pos.callback.map fun cb => ⟨cb, key, value⟩).toList := by
  refine ⟨callEntry_ints hrun key value pos s, ?_⟩
  unfold callEntry
  cases pos.callback with
  | none => exact (List.append_nil _).symm
  | some cb => exact List.map_append

/-- A step of the run, observed. -/
theorem updatePos_observed (key value : List UInt8) (s : UpdateState ι κ) (pos : StringDev ι κ) :
    (updatePos run key value s pos).ints = (updateEntry key value pos s.ints).1 ∧
      (updatePos run key value s pos).calls.map EntryCall.toCallbackCall =
        s.calls.map EntryCall.toCallbackCall ++ (updateEntry key value pos s.ints).2 := by
  have hquiet : s.ints = s.ints ∧ s.calls.map EntryCall.toCallbackCall =
      s.calls.map EntryCall.toCallbackCall ++ [] := ⟨rfl, (List.append_nil _).symm⟩
  unfold updatePos updateEntry
  split_ifs
  · cases pos.intValue with
    | some var =>
      dsimp only
      split_ifs
      · exact callEntry_eq hrun key value pos _
      · exact hquiet
    | none =>
      cases pos.yourvalue with
      | some yourvalue =>
        dsimp only
        split_ifs
        · exact callEntry_eq hrun key value pos s
        · exact hquiet
      | none => exact hquiet
  · exact hquiet

theorem updateLine_observed (clientList : List (StringDev ι κ)) (s : UpdateState ι κ)
    (kv : List UInt8 × List UInt8) :
    (updateLine run clientList s kv).ints =
        (FsKeyvalue.updateLine kv.1 kv.2 clientList s.ints).1 ∧
      (updateLine run clientList s kv).calls.map EntryCall.toCallbackCall =
        s.calls.map EntryCall.toCallbackCall ++
          (FsKeyvalue.updateLine kv.1 kv.2 clientList s.ints).2 := by
  induction clientList generalizing s with
  | nil => exact ⟨rfl, (List.append_nil _).symm⟩
  | cons pos clientList ih =>
    have hpos := updatePos_observed hrun kv.1 kv.2 s pos
    have hrest := ih (updatePos run kv.1 kv.2 s pos)
    rw [hpos.1, hpos.2, List.append_assoc] at hrest
    exact hrest

/-- **A run** with callbacks that leave the variables alone, observed. -/
theorem updateLines_observed (clientList : List (StringDev ι κ)) (s : UpdateState ι κ)
    (lines : List (List UInt8 × List UInt8)) :
    (updateLines run clientList s lines).ints =
        (FsKeyvalue.updateLines clientList lines s.ints).1 ∧
      (updateLines run clientList s lines).calls.map EntryCall.toCallbackCall =
        s.calls.map EntryCall.toCallbackCall ++
          (FsKeyvalue.updateLines clientList lines s.ints).2 := by
  induction lines generalizing s with
  | nil => exact ⟨rfl, (List.append_nil _).symm⟩
  | cons kv lines ih =>
    have hline := updateLine_observed hrun clientList s kv
    have hrest := ih (updateLine run clientList s kv)
    rw [hline.1, hline.2, List.append_assoc] at hrest
    exact hrest

end

end Lidbg.FsKeyvalueUpdate
