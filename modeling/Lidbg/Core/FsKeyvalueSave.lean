import Lidbg.Core.FsKeyvalue
import Mathlib.Data.List.Nodup

/-!
# Saving the configuration and reading it back

`save_list_to_file` prints an `int` with `%d`, `update_list` reads it with
`simple_strtoul`. Strings come back as they were; an `int` does exactly when it
is not negative (`saveAndUpdate_noop_iff`).
-/

namespace Lidbg.FsKeyvalue

open Machine

variable {ι κ : Type}

/-- A list that `save_list_to_file` can save, and whose lines can be told apart
again. -/
structure Savable (clientList : List (StringDev ι κ)) (ints : ι → Int32) : Prop where
  keys : (clientList.map StringDev.yourkey).Nodup
  key : ∀ pos ∈ clientList, 10 ∉ pos.yourkey.chars ∧ 61 ∉ pos.yourkey.chars ∧
    pos.yourkey.chars.head? ≠ some 35
  value : ∀ pos ∈ clientList, ∀ value ∈ pos.yourvalue, 10 ∉ value.chars
  fits : ∀ pos ∈ clientList, (saveLine ints pos).length ≤ 99

/-! ## The lines of the saved file -/

/-- What is printed for the value of an entry. -/
def savedValue (ints : ι → Int32) (pos : StringDev ι κ) : Option (List UInt8) :=
  match pos.intValue, pos.yourvalue with
  | some var, _ => some (printInt (ints var))
  | none, some value => some value.chars
  | none, none => none

/-- The line `update_list` makes of it. -/
def savedLine (ints : ι → Int32) (pos : StringDev ι κ) : Option (List UInt8 × List UInt8) :=
  (savedValue ints pos).bind fun value => keyValue (pos.yourkey.chars ++ 61 :: value)

theorem saveLine_eq (ints : ι → Int32) (pos : StringDev ι κ) :
    saveLine ints pos =
      match savedValue ints pos with
      | some value => (pos.yourkey.chars ++ 61 :: value) ++ [10]
      | none => [] := by
  have hassoc : ∀ value : List UInt8, pos.yourkey.chars ++ 61 :: (value ++ [10]) =
      (pos.yourkey.chars ++ 61 :: value) ++ [10] := by
    intro value
    rw [List.append_assoc, List.cons_append]
  unfold saveLine savedValue
  cases pos.intValue with
  | some var => exact hassoc _
  | none =>
    cases pos.yourvalue with
    | some value => exact hassoc _
    | none => rfl

/-- Printed values hold neither a NUL nor a newline. -/
theorem notMem_savedValue {clientList : List (StringDev ι κ)} {ints : ι → Int32}
    (h : Savable clientList ints) {pos : StringDev ι κ} (hpos : pos ∈ clientList)
    {value : List UInt8} (hvalue : savedValue ints pos = some value) :
    0 ∉ value ∧ 10 ∉ value := by
  unfold savedValue at hvalue
  split at hvalue
  · cases hvalue
    exact ⟨notMem_printInt _ (by decide), notMem_printInt _ (by decide)⟩
  · next y hint hval =>
    cases hvalue
    exact ⟨y.nul_notMem, h.value pos hpos y hval⟩
  · cases hvalue

/-- The key and the value of a saved line, if `update_list` does not find it too
short. -/
theorem keyValue_line {key : List UInt8} (value : List UInt8) (heq : 61 ∉ key)
    (hhash : key.head? ≠ some 35) :
    keyValue (key ++ 61 :: value) =
      if (key ++ 61 :: value).length > 2 then some (key, value) else none := by
  have hhead : (key ++ 61 :: value).head? ≠ some 35 := by
    cases key with
    | nil => exact fun h => absurd h (by simp)
    | cons c key => exact hhash
  rw [keyValue, cutAt_append heq]
  simp only [hhead, ne_eq, not_false_eq_true, true_and]

/-- **The saved file, line by line.** -/
theorem fileLines_saved {clientList : List (StringDev ι κ)} {ints : ι → Int32}
    (h : Savable clientList ints) :
    fileLines (clientList.flatMap (saveLine ints)) = clientList.filterMap (savedLine ints) := by
  have hnul : 0 ∉ clientList.flatMap (saveLine ints) := by
    intro h0
    obtain ⟨pos, hpos, hmem⟩ := List.mem_flatMap.mp h0
    rw [saveLine_eq] at hmem
    cases hvalue : savedValue ints pos with
    | none =>
      rw [hvalue] at hmem
      cases hmem
    | some value =>
      have hv := notMem_savedValue h hpos hvalue
      have hk := pos.yourkey.nul_notMem
      rw [hvalue] at hmem
      simp [hk, hv.1] at hmem
  rw [fileLines, cstr_of_notMem hnul]
  -- every line that is written ends in a newline and holds no other
  have hline : ∀ pos ∈ clientList, ∀ value, savedValue ints pos = some value →
      (10 : UInt8) ∉ pos.yourkey.chars ++ 61 :: value := by
    intro pos hpos value hvalue hmem
    have hv := notMem_savedValue h hpos hvalue
    have hk := (h.key pos hpos).1
    simp [hk, hv.2] at hmem
  -- `hline` is about each entry alone, and passes to the tail
  clear hnul h
  induction clientList with
  | nil => rfl
  | cons pos rest ih =>
    have ih := ih fun q hq => hline q (List.mem_cons_of_mem pos hq)
    rw [List.flatMap_cons, saveLine_eq, List.filterMap_cons, savedLine]
    cases hvalue : savedValue ints pos with
    | none => exact ih
    | some value =>
      dsimp only [Option.bind_some]
      rw [List.append_assoc, List.singleton_append,
        List.splitOn_append_cons_self_of_not_mem (hline pos List.mem_cons_self value hvalue),
        List.filterMap_cons, ih]

/-! ## A saved line and its entry -/

/-- An entry is the only one with its key. -/
theorem Savable.eq_of_key {clientList : List (StringDev ι κ)} {ints : ι → Int32}
    (h : Savable clientList ints) {p q : StringDev ι κ} (hp : p ∈ clientList)
    (hq : q ∈ clientList) (hkey : p.yourkey.chars = q.yourkey.chars) : p = q :=
  List.inj_on_of_nodup_map h.keys hp hq (CStr.ext hkey)

/-- A line of the saved file comes from an entry. -/
theorem exists_of_savedLine {clientList : List (StringDev ι κ)} {ints : ι → Int32}
    (h : Savable clientList ints) {kv : List UInt8 × List UInt8}
    (hkv : kv ∈ clientList.filterMap (savedLine ints)) :
    ∃ pos ∈ clientList, pos.yourkey.chars = kv.1 ∧ savedValue ints pos = some kv.2 := by
  obtain ⟨pos, hpos, hline⟩ := List.mem_filterMap.mp hkv
  obtain ⟨value, hvalue, hkv⟩ := Option.bind_eq_some_iff.mp hline
  rw [keyValue_line value (h.key pos hpos).2.1 (h.key pos hpos).2.2] at hkv
  split_ifs at hkv
  cases hkv
  exact ⟨pos, hpos, rfl, hvalue⟩

/-- What was printed for an entry does not differ from it, unless it is a
negative `int`. -/
theorem not_differs_savedValue {ints : ι → Int32} {pos : StringDev ι κ} {value : List UInt8}
    (hvalue : savedValue ints pos = some value)
    (hnn : ∀ var, pos.intValue = some var → 0 ≤ (ints var).toInt) : ¬ Differs value pos ints := by
  unfold savedValue at hvalue
  unfold Differs
  cases hint : pos.intValue with
  | some var =>
    rw [hint] at hvalue
    cases hvalue
    exact not_not.mpr ((strtoulInt_printInt_iff (ints var)).mpr (hnn var hint)).symm
  | none =>
    rw [hint] at hvalue
    cases hval : pos.yourvalue with
    | some y =>
      rw [hval] at hvalue
      cases hvalue
      exact not_not.mpr rfl
    | none => exact id

/-- A negative `int` is never dropped as too short a line. -/
theorem savedLine_of_neg {clientList : List (StringDev ι κ)} {ints : ι → Int32}
    (h : Savable clientList ints) {pos : StringDev ι κ} (hpos : pos ∈ clientList) {var : ι}
    (hint : pos.intValue = some var) (hneg : (ints var).toInt < 0) :
    savedLine ints pos = some (pos.yourkey.chars, printInt (ints var)) := by
  have hvalue : savedValue ints pos = some (printInt (ints var)) := by
    rw [savedValue, hint]
  have hlen : (pos.yourkey.chars ++ 61 :: printInt (ints var)).length > 2 := by
    obtain ⟨-, c, rest, hcons, -⟩ := decimal_spec (ints var).toInt.natAbs
    have hminus : (ascii "-").length = 1 := rfl
    rw [printInt, if_pos hneg, hcons, List.length_append, List.length_cons, List.length_append,
      List.length_cons, hminus]
    omega
  rw [savedLine, hvalue, Option.bind_some,
    keyValue_line _ (h.key pos hpos).2.1 (h.key pos hpos).2.2, if_pos hlen]

/-! ## What the lines do -/

variable [DecidableEq ι]

/-- `save_list_to_file(list, f)`, then `update_list(f, list)`. -/
def saveAndUpdate (clientList : List (StringDev ι κ)) (ints : ι → Int32) :
    Option ((ι → Int32) × List (CallbackCall κ)) :=
  (saveListToFile clientList ints).map fun file => updateList (some file) clientList ints

theorem saveAndUpdate_eq {clientList : List (StringDev ι κ)} {ints : ι → Int32}
    (h : Savable clientList ints) :
    saveAndUpdate clientList ints =
      some (updateLines clientList (clientList.filterMap (savedLine ints)) ints) := by
  have hfits : ∀ pos ∈ clientList, (saveLine ints pos).length < 100 :=
    fun pos hpos => Nat.lt_succ_of_le (h.fits pos hpos)
  rw [saveAndUpdate, saveListToFile, if_pos hfits, Option.map_some, updateList_some,
    fileLines_saved h]

theorem updateLines_quiet {clientList : List (StringDev ι κ)} {ints : ι → Int32}
    {lines : List (List UInt8 × List UInt8)}
    (h : ∀ kv ∈ lines, updateLine kv.1 kv.2 clientList ints = (ints, [])) :
    updateLines clientList lines ints = (ints, []) := by
  induction lines with
  | nil => rfl
  | cons kv lines ih =>
    rw [updateLines, h kv List.mem_cons_self]
    dsimp only
    rw [ih fun kv' h' => h kv' (List.mem_cons_of_mem kv h')]
    rfl

/-- Lines that all set a variable to `x`. -/
theorem updateLines_ints_const {clientList : List (StringDev ι κ)}
    {lines : List (List UInt8 × List UInt8)} {var : ι} {x : Int32}
    (h : ∀ kv ∈ lines, (∃ pos ∈ clientList, pos.yourkey.chars = kv.1 ∧ pos.intValue = some var) →
      strtoulInt kv.2 = x) (ints : ι → Int32) :
    (updateLines clientList lines ints).1 var =
      if ∃ kv ∈ lines, ∃ pos ∈ clientList, pos.yourkey.chars = kv.1 ∧ pos.intValue = some var then x
      else ints var := by
  induction lines generalizing ints with
  | nil =>
    rw [if_neg fun ⟨_, h, _⟩ => nomatch h]
    rfl
  | cons kv lines ih =>
    show (updateLines clientList lines (updateLine kv.1 kv.2 clientList ints).1).1 var = _
    rw [ih (fun kv' h' => h kv' (List.mem_cons_of_mem kv h')), updateLine_ints]
    by_cases hrest : ∃ kv' ∈ lines, ∃ pos ∈ clientList,
        pos.yourkey.chars = kv'.1 ∧ pos.intValue = some var
    · rw [if_pos hrest, if_pos]
      obtain ⟨kv', h', hpos⟩ := hrest
      exact ⟨kv', List.mem_cons_of_mem kv h', hpos⟩
    · rw [if_neg hrest]
      by_cases hkv : ∃ pos ∈ clientList, pos.yourkey.chars = kv.1 ∧ pos.intValue = some var
      · rw [if_pos hkv, if_pos ⟨kv, List.mem_cons_self, hkv⟩]
        exact h kv List.mem_cons_self hkv
      · rw [if_neg hkv, if_neg]
        rintro ⟨kv', h', hpos⟩
        rcases List.mem_cons.mp h' with rfl | h'
        · exact hkv hpos
        · exact hrest ⟨kv', h', hpos⟩

/-! ## Saving and reading back -/

/-- **Saving and re-reading is a no-op exactly when no hooked variable is
negative.** -/
theorem saveAndUpdate_noop_iff (clientList : List (StringDev ι κ)) (ints : ι → Int32)
    (h : Savable clientList ints) :
    saveAndUpdate clientList ints = some (ints, []) ↔
      ∀ pos ∈ clientList, ∀ var, pos.intValue = some var → 0 ≤ (ints var).toInt := by
  rw [saveAndUpdate_eq h, Option.some.injEq]
  constructor
  · intro hnoop pos hpos var hint
    by_contra hneg
    have hneg : (ints var).toInt < 0 := Int.not_le.mp hneg
    -- every line that sets `var` carries what was printed for it
    have hset : ∀ kv ∈ clientList.filterMap (savedLine ints),
        (∃ q ∈ clientList, q.yourkey.chars = kv.1 ∧ q.intValue = some var) →
        strtoulInt kv.2 = strtoulInt (printInt (ints var)) := by
      rintro kv hkv ⟨q, hq, hqkey, hqint⟩
      obtain ⟨p, hp, hpkey, hpvalue⟩ := exists_of_savedLine h hkv
      obtain rfl := h.eq_of_key hp hq (hpkey.trans hqkey.symm)
      rw [savedValue, hqint] at hpvalue
      rw [Option.some.inj hpvalue]
    have hfinal := updateLines_ints_const hset ints
    rw [hnoop, if_pos] at hfinal
    · have := (strtoulInt_printInt_iff (ints var)).mp hfinal.symm
      omega
    · exact ⟨_, List.mem_filterMap.mpr ⟨pos, hpos, savedLine_of_neg h hpos hint hneg⟩,
        pos, hpos, rfl, hint⟩
  · intro hnn
    refine updateLines_quiet fun kv hkv => updateLine_quiet fun q hq hqkey => ?_
    obtain ⟨p, hp, hpkey, hpvalue⟩ := exists_of_savedLine h hkv
    obtain rfl := h.eq_of_key hp hq (hpkey.trans hqkey.symm)
    exact not_differs_savedValue hpvalue (hnn p hp)

/-- One key, hooked to one variable. -/
def volume : List (StringDev Unit Unit) :=
  [⟨⟨ascii "volume", by decide⟩, none, some (), some ()⟩]

/-- A volume of 7 survives. -/
theorem saveAndUpdate_volume :
    saveAndUpdate volume (fun _ => 7) = some (fun _ => 7, []) ↔
      ∀ pos ∈ volume, ∀ var, pos.intValue = some var →
        0 ≤ ((fun _ => 7 : Unit → Int32) var).toInt :=
  saveAndUpdate_noop_iff volume (fun _ => 7)
    { keys := by decide
      key := by decide
      value := by decide
      fits := by decide }

/-- A volume of -7 is saved as `volume=-7`, and read back as 0. -/
theorem saveAndUpdate_negative :
    Savable volume (fun _ => -7) ∧
    (saveAndUpdate volume (fun _ => -7)).map (fun r => (r.1 (), r.2.length)) = some (0, 1) ∧
    saveAndUpdate volume (fun _ => -7) ≠ some (fun _ => -7, []) := by
  have hrun : (saveAndUpdate volume (fun _ => -7)).map (fun r => (r.1 (), r.2.length)) =
      some (0, 1) := by
    decide +kernel
  refine ⟨⟨by decide, by decide, by decide, by decide⟩, hrun, fun hnoop => ?_⟩
  rw [hnoop] at hrun
  exact absurd hrun (by decide)

end Lidbg.FsKeyvalue
