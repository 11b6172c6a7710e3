import Lidbg.Core.FsKeyvalueUpdate

/-!
# A second run of `update_list`

An entry with a variable is compared with the variable, which the first run has
set. An entry without one is compared with its string, which no run sets: its
callback is called again each time the file is read.
-/

namespace Lidbg.FsKeyvalueUpdate

open Machine FsKeyvalue

variable {ι κ : Type} [DecidableEq ι] (run : CallbackCall κ → (ι → Int32) → ι → Int32)

/-- A second run on the same file changes nothing and calls nothing. -/
def Idempotent (file : Option (List UInt8)) (allocated : Bool) (clientList : List (StringDev ι κ))
    (ints : ι → Int32) : Prop :=
  ∀ ret clientList' s, updateList run file allocated clientList ints = some (ret, clientList', s) →
    updateList run file allocated clientList' s.ints = some (ret, clientList', ⟨s.ints, []⟩)

/-- A string with a callback is what a line of its key says. -/
def StringsMatch (clientList : List (StringDev ι κ)) (lines : List (List UInt8 × List UInt8)) :
    Prop :=
  ∀ kv ∈ lines, ∀ pos ∈ clientList, pos.yourkey.chars = kv.1 → pos.callback.isSome →
    pos.intValue = none → ∀ yourvalue, pos.yourvalue = some yourvalue → yourvalue.chars = kv.2

/-- A line that sets a variable and would call a callback for it has the number
of the line before it, counted around the file, that sets the variable as well. -/
def NumbersMatch (clientList : List (StringDev ι κ)) (lines : List (List UInt8 × List UInt8)) :
    Prop :=
  ∀ p kv q, lines = p ++ kv :: q → ∀ pre pos post, clientList = pre ++ pos :: post →
    pos.yourkey.chars = kv.1 → pos.callback.isSome →
    ∀ var, pos.intValue = some var → ¬ Sets pre kv.1 var →
      ∀ n, lastSet clientList (q ++ p) var = some n → n = strtoulInt kv.2

/-- The variables are what the lines set them to. -/
def Holds (clientList : List (StringDev ι κ)) (lines : List (List UInt8 × List UInt8))
    (ints : ι → Int32) : Prop :=
  ∀ var n, lastSet clientList lines var = some n → ints var = n

theorem holds_iff {clientList : List (StringDev ι κ)} {lines : List (List UInt8 × List UInt8)}
    {ints : ι → Int32} :
    lines.foldl (setLine clientList) ints = ints ↔ Holds clientList lines ints := by
  constructor
  · intro h var n hn
    rw [← congrFun h var, foldl_setLine, hn]
    rfl
  · intro h
    funext var
    rw [foldl_setLine]
    cases hn : lastSet clientList lines var with
    | none => rfl
    | some n => exact (h var n hn).symm

/-- Before a line that sets it, a variable has the number of the line before,
counted around the file, or of the line itself. -/
theorem Holds.before {clientList : List (StringDev ι κ)} {p q : List (List UInt8 × List UInt8)}
    {kv : List UInt8 × List UInt8} {ints : ι → Int32}
    (h : Holds clientList (p ++ kv :: q) ints) {var : ι} (hset : Sets clientList kv.1 var) :
    p.foldl (setLine clientList) ints var =
      (lastSet clientList (q ++ p) var).getD (strtoulInt kv.2) := by
  rw [foldl_setLine, lastSet_append]
  cases hp : lastSet clientList p var with
  | some m => rfl
  | none =>
    have hlines : lastSet clientList (p ++ kv :: q) var =
        some ((lastSet clientList q var).getD (strtoulInt kv.2)) := by
      rw [lastSet_append, ← List.singleton_append, lastSet_append, lastSet_singleton, if_pos hset]
      cases lastSet clientList q var <;> rfl
    exact h var _ hlines

/-- Where the variables are what the lines set them to, the lines are silent if
and only if they match. -/
theorem Holds.allSilent_iff {clientList : List (StringDev ι κ)}
    {lines : List (List UInt8 × List UInt8)} {ints : ι → Int32}
    (h : Holds clientList lines ints) :
    AllSilent (LineSilent clientList) (setLine clientList) lines ints ↔
      StringsMatch clientList lines ∧ NumbersMatch clientList lines := by
  -- what an entry finds in its variable when the loop comes to it on line `kv`: a number
  -- from an earlier entry of the key on the same variable, or from the line before
  have hbefore : ∀ p kv q, lines = p ++ kv :: q → ∀ pre pos post, clientList = pre ++ pos :: post →
      pos.yourkey.chars = kv.1 → ∀ var, pos.intValue = some var →
        pre.foldl (setEntry kv.1 kv.2) (p.foldl (setLine clientList) ints) var =
          if Sets pre kv.1 var then strtoulInt kv.2
          else (lastSet clientList (q ++ p) var).getD (strtoulInt kv.2) := by
    intro p kv q hlines pre pos post hlist hkey var hint
    have hset : Sets clientList kv.1 var :=
      ⟨pos, hlist ▸ List.mem_append_right pre List.mem_cons_self, hkey, hint⟩
    have hp : Holds clientList (p ++ kv :: q) ints := hlines ▸ h
    rw [foldl_setEntry, hp.before hset]
  constructor
  · intro hsilent
    refine ⟨?_, ?_⟩
    · intro kv hkv pos hpos hkey hcb hint yourvalue hval
      obtain ⟨p, q, hlines⟩ := List.append_of_mem hkv
      obtain ⟨pre, post, hlist⟩ := List.append_of_mem hpos
      have hquiet := hsilent p kv q hlines pre pos post hlist hkey hcb
      rw [Differs, hint, hval] at hquiet
      exact not_not.mp hquiet
    · intro p kv q hlines pre pos post hlist hkey hcb var hint hfirst n hn
      have hquiet := hsilent p kv q hlines pre pos post hlist hkey hcb
      rw [Differs, hint] at hquiet
      dsimp only at hquiet
      rw [not_not, hbefore p kv q hlines pre pos post hlist hkey var hint, if_neg hfirst, hn]
        at hquiet
      exact hquiet
  · rintro ⟨hstrings, hnumbers⟩ p kv q hlines pre pos post hlist hkey hcb
    have hkv : kv ∈ lines := hlines ▸ List.mem_append_right p List.mem_cons_self
    have hpos : pos ∈ clientList := hlist ▸ List.mem_append_right pre List.mem_cons_self
    cases hint : pos.intValue with
    | some var =>
      rw [Differs, hint]
      dsimp only
      rw [not_not, hbefore p kv q hlines pre pos post hlist hkey var hint]
      split_ifs with hfirst
      · rfl
      · cases hn : lastSet clientList (q ++ p) var with
        | none => rfl
        | some n => exact hnumbers p kv q hlines pre pos post hlist hkey hcb var hint hfirst n hn
    | none =>
      cases hval : pos.yourvalue with
      | some yourvalue =>
        rw [Differs, hint, hval]
        exact not_not.mpr (hstrings kv hkv pos hpos hkey hcb hint yourvalue hval)
      | none =>
        rw [Differs, hint, hval]
        exact id

/-- A run that changes and calls nothing, from any state of the variables. -/
theorem updateLines_eq_self_iff (clientList : List (StringDev ι κ))
    (lines : List (List UInt8 × List UInt8)) (ints : ι → Int32) :
    updateLines run clientList ⟨ints, []⟩ lines = ⟨ints, []⟩ ↔
      StringsMatch clientList lines ∧ NumbersMatch clientList lines ∧
        Holds clientList lines ints := by
  rcases updateLines_speaks run clientList ⟨ints, []⟩ lines with
    ⟨hsilent, hcalls, hints⟩ | ⟨hsilent, b, bs, hcalls⟩
  · dsimp only at hsilent hcalls hints
    have hself : updateLines run clientList ⟨ints, []⟩ lines = ⟨ints, []⟩ ↔
        Holds clientList lines ints := by
      rw [← holds_iff, ← hints]
      constructor
      · intro h
        rw [h]
      · intro h
        exact congrArg₂ UpdateState.mk h hcalls
    rw [hself]
    constructor
    · intro h
      obtain ⟨hstrings, hnumbers⟩ := h.allSilent_iff.mp hsilent
      exact ⟨hstrings, hnumbers, h⟩
    · exact fun h => h.2.2
  · refine iff_of_false ?_ ?_
    · intro h
      rw [h] at hcalls
      cases hcalls
    · rintro ⟨hstrings, hnumbers, h⟩
      exact hsilent (h.allSilent_iff.mpr ⟨hstrings, hnumbers⟩)

/-- **A second run is silent** if and only if the strings and the numbers match
the lines and the variables are still what the lines say. -/
theorem idempotent_iff (file : Option (List UInt8)) (allocated : Bool)
    (clientList : List (StringDev ι κ)) (ints : ι → Int32) :
    Idempotent run file allocated clientList ints ↔
      StringsMatch clientList (linesRead file allocated) ∧
      NumbersMatch clientList (linesRead file allocated) ∧
      ∀ ret clientList' s,
        updateList run file allocated clientList ints = some (ret, clientList', s) →
          Holds clientList (linesRead file allocated) s.ints := by
  have hrun := updateList_eq run file allocated clientList
  have hsecond := fun s : UpdateState ι κ =>
    updateLines_eq_self_iff run clientList (linesRead file allocated) s.ints
  constructor
  · intro h
    have h := h _ _ _ (hrun ints)
    rw [hrun, Option.some_inj, Prod.mk.injEq, Prod.mk.injEq] at h
    obtain ⟨hstrings, hnumbers, hholds⟩ := (hsecond _).mp h.2.2
    refine ⟨hstrings, hnumbers, fun ret clientList' s hfirst => ?_⟩
    rw [hrun] at hfirst
    cases hfirst
    exact hholds
  · rintro ⟨hstrings, hnumbers, hholds⟩ ret clientList' s hfirst
    have hholds := hholds ret clientList' s hfirst
    rw [hrun] at hfirst
    cases hfirst
    rw [hrun, (hsecond _).mpr ⟨hstrings, hnumbers, hholds⟩]

/-- Callbacks that leave the variables alone leave them what the lines say. -/
theorem holds_of_run_eq {file : Option (List UInt8)} {allocated : Bool}
    {clientList : List (StringDev ι κ)} {ints : ι → Int32}
    (hrun : ∀ call ints, run call ints = ints) :
    ∀ ret clientList' s,
      updateList run file allocated clientList ints = some (ret, clientList', s) →
      Holds clientList (linesRead file allocated) s.ints := by
  intro ret clientList' s hfirst var n hn
  rw [updateList_eq] at hfirst
  cases hfirst
  rw [updateLines_ints hrun, foldl_setLine, hn]
  rfl

/-- A string entry of the key `k` and the value `k`, with a callback. -/
def stringEntry : StringDev Unit Unit :=
  ⟨keyK, some keyK, none, some ()⟩

/-- A line with another value calls the callback each time. -/
theorem stringEntry_not_idempotent :
    ¬ Idempotent leaveAlone (some (ascii "k=b")) true [stringEntry] fun _ => 0 := by
  intro h
  have hcalls := congrArg (Option.map fun r => r.2.2.calls.length) (h 1 _ _ rfl)
  exact absurd hcalls (by decide)

end Lidbg.FsKeyvalueUpdate
