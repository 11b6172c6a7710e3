import Lidbg.Core.FsKeyvalueRegister
import Lidbg.Machine.Silent

/-!
# Stores through a null `int_value`

`get_int_value` copies the value of a bound entry to `*int_value` without asking
whether the caller has brought a pointer. `FS_REGISTER_KEY` brings none: it faults
when a `FS_REGISTER_INT` of the same key came first.
-/

namespace Lidbg.FsKeyvalueHook

open Machine FsKeyvalue

variable {ι κ : Type}

/-- A call of `get_int_value`. -/
structure HookCall (ι κ : Type) where
  key : CStr
  intValue : Option ι
  callback : Option κ

def HookCall.op (c : HookCall ι κ) : Op ι κ :=
  .register c.key c.intValue c.callback

/-- The entry is bound, or is bound by one of the calls of its key. -/
def Bound (pos : StringDev ι κ) (calls : List (HookCall ι κ)) : Prop :=
  pos.intValue.isSome ∨
    (pos.yourvalue.isSome ∧ ∃ d ∈ calls, d.key = pos.yourkey ∧ d.intValue.isSome)

/-- A call without a pointer, behind others, for a key whose first entry they
leave bound. -/
def StoresNull (clientList : List (StringDev ι κ)) (calls : List (HookCall ι κ))
    (c : HookCall ι κ) : Prop :=
  c.intValue = none ∧ ∃ pos, firstEntry clientList c.key = some pos ∧ Bound pos calls

theorem bound_cons_of_ne {pos : StringDev ι κ} {c : HookCall ι κ} (h : c.key ≠ pos.yourkey)
    (calls : List (HookCall ι κ)) : Bound pos (c :: calls) ↔ Bound pos calls := by
  have hcalls : (∃ d ∈ c :: calls, d.key = pos.yourkey ∧ d.intValue.isSome) ↔
      ∃ d ∈ calls, d.key = pos.yourkey ∧ d.intValue.isSome := by
    rw [List.exists_mem_cons_iff, or_iff_right fun h' => h h'.1]
  rw [Bound, hcalls, Bound]

variable [DecidableEq ι]

/-- **What hooking does to an entry**: it fails at a bound entry without a
pointer, and else binds the entry as the call says. -/
theorem hookEntry_cases (pos : StringDev ι κ) (ints : ι → Int32) {c : HookCall ι κ}
    (hkey : pos.yourkey = c.key) :
    (c.intValue = none ∧ pos.intValue.isSome ∧
      hookEntry pos ints c.intValue c.callback = none) ∨
    (¬ (c.intValue = none ∧ pos.intValue.isSome) ∧
      ∃ pos' ints', hookEntry pos ints c.intValue c.callback = some (pos', ints') ∧
        pos'.yourkey = pos.yourkey ∧
        ∀ calls, Bound pos' calls ↔ Bound pos (c :: calls)) := by
  unfold hookEntry Bound
  cases hint : pos.intValue with
  | some bound =>
    cases hc : c.intValue with
    | none => exact .inl ⟨rfl, rfl, rfl⟩
    | some var =>
      refine .inr ⟨fun h => (by cases h.1), pos, _, rfl, rfl, fun calls => ?_⟩
      rw [hint]
      exact iff_of_true (.inl rfl) (.inl rfl)
  | none =>
    refine .inr ⟨fun h => (by cases h.2), ?_⟩
    cases hc : c.intValue with
    | none =>
      refine ⟨_, _, rfl, rfl, fun calls => ?_⟩
      simp [hc]
    | some var =>
      cases hval : pos.yourvalue with
      | none =>
        refine ⟨_, _, rfl, rfl, fun calls => ?_⟩
        simp
      | some value =>
        refine ⟨_, _, rfl, rfl, fun calls => iff_of_true (.inl rfl) (.inr ⟨rfl, c, ?_⟩)⟩
        exact ⟨List.mem_cons_self, hkey.symm, by rw [hc]; rfl⟩

/-- **One call** stores through a null pointer, or leaves the calls behind it to
store through one as before. -/
theorem getIntValue_cases (clientList : List (StringDev ι κ)) (ints : ι → Int32)
    (c : HookCall ι κ) :
    (StoresNull clientList [] c ∧
      getIntValue clientList ints c.key c.intValue c.callback = none) ∨
    (¬ StoresNull clientList [] c ∧ ∃ clientList' ints' ret,
      getIntValue clientList ints c.key c.intValue c.callback = some (clientList', ints', ret) ∧
      ∀ calls d, StoresNull clientList' calls d ↔ StoresNull clientList (c :: calls) d) := by
  cases hfirst : firstEntry clientList c.key with
  | none =>
    obtain ⟨ret, hret, -⟩ := getIntValue_none ints c.intValue c.callback hfirst
    refine .inr ⟨?_, clientList, ints, ret, hret, fun calls d => ?_⟩
    · rintro ⟨-, pos, hpos, -⟩
      rw [hfirst] at hpos
      cases hpos
    · -- no entry of another key cares for the call
      refine and_congr_right fun _ => exists_congr fun pos => and_congr_right fun hpos => ?_
      refine (bound_cons_of_ne (fun hkey => ?_) calls).symm
      rw [hkey, (firstEntry_mem hpos).2, hpos] at hfirst
      cases hfirst
  | some pos =>
    have hkey : pos.yourkey = c.key := (firstEntry_mem hfirst).2
    rcases hookEntry_cases pos ints hkey with ⟨hnone, hbound, hhook⟩ |
      ⟨hok, pos', ints', hhook, hkey', hbound⟩
    · refine .inl ⟨⟨hnone, pos, hfirst, .inl hbound⟩, ?_⟩
      rw [getIntValue_hook hfirst, hhook]
      rfl
    · refine .inr ⟨?_, _, ints', 1, getIntValue_some hfirst hhook, fun calls d => ?_⟩
      · rintro ⟨hnone, other, hother, hint | ⟨-, d, hmem, -⟩⟩
        · rw [hfirst] at hother
          cases hother
          exact hok ⟨hnone, hint⟩
        · cases hmem
      · unfold StoresNull
        rw [firstEntry_replaceFirst hfirst (hkey'.trans hkey)]
        split_ifs with hd
        · rw [hd, hfirst]
          simp only [Option.some_inj, exists_eq_left', hbound]
        · refine and_congr_right fun _ => exists_congr fun q => and_congr_right fun hq => ?_
          refine (bound_cons_of_ne (fun h => hd ?_) calls).symm
          rw [h, (firstEntry_mem hq).2]

/-- **No call stores through a null pointer** if and only if none without a
pointer finds the first entry of its key bound. -/
theorem registers_isSome_iff (clientList : List (StringDev ι κ)) (ints : ι → Int32)
    (calls : List (HookCall ι κ)) :
    (run step ⟨clientList, ints⟩ (calls.map HookCall.op)).isSome ↔
      ∀ pre c post, calls = pre ++ c :: post → ¬ StoresNull clientList pre c := by
  induction calls generalizing clientList ints with
  | nil => exact iff_of_true rfl fun pre c post h => by simp at h
  | cons c calls ih =>
    rw [List.map_cons, run_cons_isSome]
    refine Iff.trans ?_ (forall_split_cons (P := fun pre (d : HookCall ι κ) =>
      ¬ StoresNull clientList pre d)).symm
    rcases getIntValue_cases clientList ints c with
      ⟨hstores, hnone⟩ | ⟨hnot, clientList', ints', ret, hsome, hrest⟩
    · refine iff_of_false ?_ fun h => h.1 hstores
      rintro ⟨s', o, hs, -⟩
      have hfault : step ⟨clientList, ints⟩ c.op = none := congrArg (Option.map _) hnone
      rw [hfault] at hs
      cases hs
    · have hstep : step ⟨clientList, ints⟩ c.op =
          some (⟨clientList', ints'⟩, [.registered c.key c.intValue c.callback ret]) :=
        congrArg (Option.map _) hsome
      rw [hstep, and_iff_right hnot]
      simp only [← hrest, ← ih clientList' ints']
      constructor
      · rintro ⟨s', o, hs, h⟩
        cases hs
        exact h
      · exact fun h => ⟨_, _, rfl, h⟩

/-- An entry of the boot file, with a value and nothing hooked. -/
def bootEntry : StringDev Unit Unit :=
  ⟨keyK, some ⟨ascii "1", by decide⟩, none, none⟩

/-- `FS_REGISTER_INT`, then `FS_REGISTER_KEY` of the same key. -/
theorem registerInt_registerKey :
    ¬ (run step ⟨[bootEntry], fun _ => 0⟩
      ([⟨bootEntry.yourkey, some (), none⟩, ⟨bootEntry.yourkey, none, some ()⟩].map
        HookCall.op)).isSome := by
  decide

end Lidbg.FsKeyvalueHook
