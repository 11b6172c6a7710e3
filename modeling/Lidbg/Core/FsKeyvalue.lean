import Lidbg.Machine.Run
import Lidbg.Machine.CStr
import Lidbg.Machine.Decimal
import Mathlib.Logic.Function.Basic

/-!
# The key/value configuration (`core/lidbg_fs_keyvalue.c`)

A configuration file is a list of entries, a key and a value each. A driver asks
for a key with `get_int_value`, which hooks a variable or a callback of the
driver into the entry. `update_list` reads an edited file against the list:
hooked variables are set and callbacks called. `save_list_to_file` writes the
list back.

The drivers' variables are a function from their addresses. A call of a callback
is observed, not run.
-/

namespace Lidbg.FsKeyvalue

open Machine

/-- `struct string_dev`: the fields of the key/value part. -/
structure StringDev (ι κ : Type) where
  yourkey : CStr
  yourvalue : Option CStr
  intValue : Option ι
  callback : Option κ

/-- A callback called with its two arguments. -/
structure CallbackCall (κ : Type) where
  callback : κ
  key : List UInt8
  value : List UInt8

/-- A key of one letter, which an entry may have as its value too. -/
def keyK : CStr := ⟨ascii "k", by decide⟩

variable {ι κ : Type}

/-! ## `get_int_value` -/

/-- The first entry of a key, the one `get_int_value` hooks into. -/
def firstEntry (clientList : List (StringDev ι κ)) (key : CStr) : Option (StringDev ι κ) :=
  clientList.find? fun pos => pos.yourkey = key

theorem firstEntry_cons (pos : StringDev ι κ) (rest : List (StringDev ι κ)) (key : CStr) :
    firstEntry (pos :: rest) key = if pos.yourkey = key then some pos else firstEntry rest key := by
  rw [firstEntry, List.find?_cons]
  split_ifs with h
  · rw [decide_eq_true h]
  · rw [decide_eq_false h]
    rfl

variable [DecidableEq ι]

/-- What `get_int_value` does at the entry it finds; `none` is a store through
a null pointer. -/
def hookEntry (pos : StringDev ι κ) (ints : ι → Int32) (intValue : Option ι)
    (callback : Option κ) : Option (StringDev ι κ × (ι → Int32)) :=
  match pos.intValue with
  | some bound =>
    match intValue with
    | none => none
    | some var => some (pos, Function.update ints var (ints bound))
  | none =>
    match intValue, pos.yourvalue with
    | some var, some value =>
      some ({ pos with
          intValue := some var, yourvalue := none, callback := callback.or pos.callback },
        Function.update ints var (strtoulInt value.chars))
    | _, _ => some ({ pos with callback := callback.or pos.callback }, ints)

/-- Its loop, which stops at the first entry of the key. -/
def hookFirst (key : CStr) (intValue : Option ι) (callback : Option κ) :
    List (StringDev ι κ) → (ι → Int32) → Option (List (StringDev ι κ) × (ι → Int32) × Int)
  | [], ints => some ([], ints, -1)
  | pos :: rest, ints =>
    if pos.yourkey = key then
      match hookEntry pos ints intValue callback with
      | none => none
      | some (pos', ints') => some (pos' :: rest, ints', 1)
    else
      match hookFirst key intValue callback rest ints with
      | none => none
      | some (rest', ints', ret) => some (pos :: rest', ints', ret)

/-- `get_int_value`, with its return value. -/
def getIntValue (clientList : List (StringDev ι κ)) (ints : ι → Int32) (key : CStr)
    (intValue : Option ι) (callback : Option κ) :
    Option (List (StringDev ι κ) × (ι → Int32) × Int) :=
  match clientList with
  | [] => some ([], ints, -2)
  | _ => hookFirst key intValue callback clientList ints

/-! ## `update_list` -/

/-- One entry against a line of the file. -/
def updateEntry (key value : List UInt8) (pos : StringDev ι κ) (ints : ι → Int32) :
    (ι → Int32) × List (CallbackCall κ) :=
  if pos.yourkey.chars = key then
    match pos.intValue with
    | some var =>
      if ints var ≠ strtoulInt value then
        (Function.update ints var (strtoulInt value),
          (pos.callback.map fun cb => ⟨cb, key, value⟩).toList)
      else (ints, [])
    | none =>
      match pos.yourvalue with
      | some yourvalue =>
        if yourvalue.chars ≠ value then
          (ints, (pos.callback.map fun cb => ⟨cb, key, value⟩).toList)
        else (ints, [])
      | none => (ints, [])
  else (ints, [])

/-- `list_for_each_entry`, for one line. -/
def updateLine (key value : List UInt8) :
    List (StringDev ι κ) → (ι → Int32) → (ι → Int32) × List (CallbackCall κ)
  | [], ints => (ints, [])
  | pos :: rest, ints =>
    let r := updateEntry key value pos ints
    let r' := updateLine key value rest r.1
    (r'.1, r.2 ++ r'.2)

/-- The key and the value of a line: a comment, a line of at most two
characters, or one without `=` has none. -/
def keyValue (token : List UInt8) : Option (List UInt8 × List UInt8) :=
  if token.head? ≠ some 35 ∧ token.length > 2 then cutAt 61 token else none

/-- The lines of a file that count, up to its first NUL. -/
def fileLines (file : List UInt8) : List (List UInt8 × List UInt8) :=
  ((cstr file).splitOn 10).filterMap keyValue

/-- The `strsep` loop, on the lines that count. -/
def updateLines (clientList : List (StringDev ι κ)) :
    List (List UInt8 × List UInt8) → (ι → Int32) → (ι → Int32) × List (CallbackCall κ)
  | [], ints => (ints, [])
  | kv :: lines, ints =>
    let r := updateLine kv.1 kv.2 clientList ints
    let r' := updateLines clientList lines r.1
    (r'.1, r.2 ++ r'.2)

/-- `update_list`. A file that cannot be opened or is empty changes nothing. -/
def updateList (file : Option (List UInt8)) (clientList : List (StringDev ι κ))
    (ints : ι → Int32) : (ι → Int32) × List (CallbackCall κ) :=
  match file with
  | none => (ints, [])
  | some [] => (ints, [])
  | some file => updateLines clientList (fileLines file) ints

/-! ## `save_list_to_file` -/

/-- What is printed into `buff` for an entry. -/
def saveLine (ints : ι → Int32) (pos : StringDev ι κ) : List UInt8 :=
  match pos.intValue, pos.yourvalue with
  | some var, _ => pos.yourkey.chars ++ 61 :: (printInt (ints var) ++ [10])
  | none, some value => pos.yourkey.chars ++ 61 :: (value.chars ++ [10])
  | none, none => []

/-- `save_list_to_file`; `none` if a line does not fit into `char buff[100]`. -/
def saveListToFile (clientList : List (StringDev ι κ)) (ints : ι → Int32) :
    Option (List UInt8) :=
  if ∀ pos ∈ clientList, (saveLine ints pos).length < 100 then
    some (clientList.flatMap (saveLine ints))
  else none

/-! ## What a line sets -/

theorem updateEntry_ints (key value : List UInt8) (pos : StringDev ι κ) (ints : ι → Int32)
    (var : ι) : (updateEntry key value pos ints).1 var =
      if pos.yourkey.chars = key ∧ pos.intValue = some var then strtoulInt value
      else ints var := by
  unfold updateEntry
  by_cases hkey : pos.yourkey.chars = key
  · rw [if_pos hkey]
    cases hint : pos.intValue with
    | some bound =>
      by_cases hvar : bound = var
      · subst hvar
        rw [if_pos ⟨hkey, rfl⟩]
        dsimp only
        split_ifs with h
        · exact Function.update_self ..
        · exact not_not.mp h
      · rw [if_neg fun h => hvar (Option.some.inj h.2)]
        dsimp only
        split_ifs
        · exact Function.update_of_ne (Ne.symm hvar) _ _
        · rfl
    | none =>
      rw [if_neg fun h => nomatch h.2]
      cases pos.yourvalue with
      | none => rfl
      | some yourvalue =>
        dsimp only
        split_ifs <;> rfl
  · rw [if_neg hkey, if_neg fun h => hkey h.1]

/-- **One line** sets exactly the variables hooked to its key. -/
theorem updateLine_ints (key value : List UInt8) (clientList : List (StringDev ι κ))
    (ints : ι → Int32) (var : ι) : (updateLine key value clientList ints).1 var =
      if ∃ pos ∈ clientList, pos.yourkey.chars = key ∧ pos.intValue = some var then
        strtoulInt value
      else ints var := by
  induction clientList generalizing ints with
  | nil =>
    rw [if_neg fun ⟨_, h, _⟩ => nomatch h]
    rfl
  | cons pos rest ih =>
    show (updateLine key value rest (updateEntry key value pos ints).1).1 var = _
    rw [ih, updateEntry_ints]
    by_cases hrest : ∃ q ∈ rest, q.yourkey.chars = key ∧ q.intValue = some var
    · rw [if_pos hrest, if_pos]
      obtain ⟨q, hq, h⟩ := hrest
      exact ⟨q, List.mem_cons_of_mem pos hq, h⟩
    · rw [if_neg hrest]
      by_cases hpos : pos.yourkey.chars = key ∧ pos.intValue = some var
      · rw [if_pos hpos, if_pos ⟨pos, List.mem_cons_self, hpos⟩]
      · rw [if_neg hpos, if_neg]
        rintro ⟨q, hq, h⟩
        rcases List.mem_cons.mp hq with rfl | hq
        · exact hpos h
        · exact hrest ⟨q, hq, h⟩

/-- An empty file has no lines either. -/
theorem updateList_some (file : List UInt8) (clientList : List (StringDev ι κ))
    (ints : ι → Int32) :
    updateList (some file) clientList ints = updateLines clientList (fileLines file) ints := by
  cases file with
  | nil => rfl
  | cons b file => rfl

/-! ## What a line calls -/

/-- The test that lets a line of the entry's key through to its callback. -/
def Differs (value : List UInt8) (pos : StringDev ι κ) (ints : ι → Int32) : Prop :=
  match pos.intValue, pos.yourvalue with
  | some var, _ => ints var ≠ strtoulInt value
  | none, some yourvalue => yourvalue.chars ≠ value
  | none, none => False

theorem updateEntry_of_ne {key : List UInt8} (value : List UInt8) {pos : StringDev ι κ}
    (ints : ι → Int32) (h : pos.yourkey.chars ≠ key) :
    updateEntry key value pos ints = (ints, []) :=
  if_neg h

theorem updateEntry_of_not_differs {key value : List UInt8} {pos : StringDev ι κ}
    {ints : ι → Int32} (h : ¬ Differs value pos ints) :
    updateEntry key value pos ints = (ints, []) := by
  unfold Differs at h
  unfold updateEntry
  split_ifs
  · split at h
    · next hint =>
      rw [hint]
      exact if_neg h
    · next hint hval =>
      rw [hint, hval]
      exact if_neg h
    · next hint hval =>
      rw [hint, hval]
  · rfl

/-- **A differing line calls the entry's callback.** -/
theorem updateEntry_call {value : List UInt8} {pos : StringDev ι κ} {ints : ι → Int32} {cb : κ}
    (h : Differs value pos ints) (hcb : pos.callback = some cb) :
    ⟨cb, pos.yourkey.chars, value⟩ ∈ (updateEntry pos.yourkey.chars value pos ints).2 := by
  unfold Differs at h
  unfold updateEntry
  rw [if_pos rfl, hcb]
  split at h
  · next hint =>
    rw [hint]
    dsimp only
    rw [if_pos h]
    exact List.mem_singleton_self _
  · next hint hval =>
    rw [hint, hval]
    dsimp only
    rw [if_pos h]
    exact List.mem_singleton_self _
  · exact absurd h id

/-- A line that differs for no entry of its key is quiet. -/
theorem updateLine_quiet {key value : List UInt8} {clientList : List (StringDev ι κ)}
    {ints : ι → Int32}
    (h : ∀ pos ∈ clientList, pos.yourkey.chars = key → ¬ Differs value pos ints) :
    updateLine key value clientList ints = (ints, []) := by
  induction clientList with
  | nil => rfl
  | cons pos rest ih =>
    have hpos : updateEntry key value pos ints = (ints, []) := by
      by_cases hkey : pos.yourkey.chars = key
      · exact updateEntry_of_not_differs (h pos List.mem_cons_self hkey)
      · exact updateEntry_of_ne value ints hkey
    rw [updateLine, hpos]
    dsimp only
    rw [ih fun q hq => h q (List.mem_cons_of_mem pos hq)]
    rfl

/-- The first entry of the key sees the line before any other has acted on it. -/
theorem updateLine_call {clientList : List (StringDev ι κ)} {ints : ι → Int32} {key : CStr}
    {value : List UInt8} {pos : StringDev ι κ} {cb : κ}
    (hfirst : firstEntry clientList key = some pos) (h : Differs value pos ints)
    (hcb : pos.callback = some cb) :
    ⟨cb, key.chars, value⟩ ∈ (updateLine key.chars value clientList ints).2 := by
  induction clientList with
  | nil => cases hfirst
  | cons q rest ih =>
    rw [firstEntry_cons] at hfirst
    by_cases hkey : q.yourkey = key
    · rw [if_pos hkey] at hfirst
      cases hfirst
      subst hkey
      exact List.mem_append_left _ (updateEntry_call h hcb)
    · rw [if_neg hkey] at hfirst
      -- the line passes this entry by: its key is another string
      have hne : q.yourkey.chars ≠ key.chars := by
        intro heq
        exact hkey (CStr.ext heq)
      rw [updateLine, updateEntry_of_ne value ints hne]
      exact List.mem_append_right _ (ih hfirst)

end Lidbg.FsKeyvalue
