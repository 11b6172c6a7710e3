import Mathlib.Data.List.Forall2
import Mathlib.Data.List.Induction
import Mathlib.Data.List.Infix

/-!
# Faulting machines that observe

A program that keeps state between calls is run here as a *machine*: a step
function that takes one input and either faults (it touched memory outside the
object it was given) or yields the next state and what the outside sees of the
step. Nothing in this file is about a particular program.

- `run` feeds a list of inputs, concatenating the observations.
- `runChunks` feeds the same inputs cut into calls; `runChunks_eq` says the cut
  is unobservable.
- `StepsMeet` states a side condition of *every* step of a run, with the
  history (inputs and observations so far) in scope.
- `run_invariant` is the one induction of the development: what a step
  preserves, given its side condition, a whole run preserves, and the run does
  not fault.
- `throughout_iff` is for a property of every state of a run whose steps keep it
  exactly under a condition: then it holds throughout exactly when every step
  meets the condition.
- `observed_iff` is the same for a property of everything a run is observed to do.
- `keeps_iff` is for an invariant that looks back, kept exactly under a condition.
- `run_measure` bounds a run by what its steps use up.
- `run_simulates` carries a simulation from steps to runs.
- `pipe` puts one machine behind another, and `run_pipe` runs them together.
- `run_isSome_iff` is for a machine whose steps fault exactly where a condition
  is not met; `stepsMeet_congr` replaces one condition by another under an
  invariant.
-/

namespace Lidbg.Machine

universe u v w

variable {σ : Type u} {ι : Type v} {ω : Type w}

/-- One step of a machine: `none` is a fault. -/
abbrev Step (σ : Type u) (ι : Type v) (ω : Type w) : Type (max u v w) :=
  σ → ι → Option (σ × List ω)

/-- Feed a list of inputs, oldest first. -/
def run (step : Step σ ι ω) : σ → List ι → Option (σ × List ω)
  | s, [] => some (s, [])
  | s, i :: is =>
    match step s i with
    | none => none
    | some (s', o) =>
      match run step s' is with
      | none => none
      | some (s'', o') => some (s'', o ++ o')

/-- Feed the inputs call by call; the state is carried from call to call. -/
def runChunks (step : Step σ ι ω) : σ → List (List ι) → Option (σ × List ω)
  | s, [] => some (s, [])
  | s, c :: cs =>
    match run step s c with
    | none => none
    | some (s', o) =>
      match runChunks step s' cs with
      | none => none
      | some (s'', o') => some (s'', o ++ o')

variable {step : Step σ ι ω}

@[simp] theorem run_nil (s : σ) : run step s [] = some (s, []) := rfl

theorem run_cons_eq {s s' s'' : σ} {i : ι} {is : List ι} {o o' : List ω}
    (h : step s i = some (s', o)) (h' : run step s' is = some (s'', o')) :
    run step s (i :: is) = some (s'', o ++ o') := by
  simp only [run, h, h']

/-- Inversion of `run` at a cons. -/
theorem run_cons_inv {s s'' : σ} {i : ι} {is : List ι} {p : List ω}
    (h : run step s (i :: is) = some (s'', p)) :
    ∃ s' o o', step s i = some (s', o) ∧ run step s' is = some (s'', o') ∧
      p = o ++ o' := by
  rw [run] at h
  cases hs : step s i with
  | none => rw [hs] at h; cases h
  | some r =>
    obtain ⟨s', o⟩ := r
    rw [hs] at h
    dsimp only at h
    cases hr : run step s' is with
    | none => rw [hr] at h; cases h
    | some r' =>
      obtain ⟨t, o'⟩ := r'
      rw [hr] at h
      simp only [Option.some.injEq, Prod.mk.injEq] at h
      obtain ⟨rfl, rfl⟩ := h
      exact ⟨s', o, o', rfl, hr, rfl⟩

/-- A run does not fault if its first step does not and what follows does not. -/
theorem run_cons_isSome {s : σ} {i : ι} {is : List ι} :
    (run step s (i :: is)).isSome ↔
      ∃ s' o, step s i = some (s', o) ∧ (run step s' is).isSome := by
  rw [Option.isSome_iff_exists]
  constructor
  · rintro ⟨⟨s'', p⟩, h⟩
    obtain ⟨s', o, o', hs, hrest, -⟩ := run_cons_inv h
    exact ⟨s', o, hs, by rw [hrest]; rfl⟩
  · rintro ⟨s', o, hs, hrest⟩
    obtain ⟨⟨s'', o'⟩, hrest⟩ := Option.isSome_iff_exists.mp hrest
    exact ⟨(s'', o ++ o'), run_cons_eq hs hrest⟩

/-- Two runs, the second from where the first ended. -/
theorem run_append {s s' s'' : σ} {is js : List ι} {o o' : List ω}
    (h : run step s is = some (s', o)) (h' : run step s' js = some (s'', o')) :
    run step s (is ++ js) = some (s'', o ++ o') := by
  induction is generalizing s o with
  | nil =>
    rw [run_nil, Option.some.injEq, Prod.mk.injEq] at h
    obtain ⟨rfl, rfl⟩ := h
    exact h'
  | cons i is ih =>
    obtain ⟨s₁, o₁, o₂, hs, hr, rfl⟩ := run_cons_inv h
    rw [List.append_assoc]
    exact run_cons_eq hs (ih hr)

/-- A run over a concatenation passes through the state after the first part. -/
theorem run_append_inv {s s'' : σ} {is js : List ι} {p : List ω}
    (h : run step s (is ++ js) = some (s'', p)) :
    ∃ s' o o', run step s is = some (s', o) ∧ run step s' js = some (s'', o') ∧
      p = o ++ o' := by
  induction is generalizing s p with
  | nil => exact ⟨s, [], p, rfl, h, rfl⟩
  | cons i is ih =>
    obtain ⟨s₁, o₁, o₂, hs, hr, rfl⟩ := run_cons_inv h
    obtain ⟨s', o, o', hi, hj, rfl⟩ := ih hr
    exact ⟨s', o₁ ++ o, o', run_cons_eq hs hi, hj, by rw [List.append_assoc]⟩

theorem run_singleton {s s' : σ} {i : ι} {o : List ω}
    (h : step s i = some (s', o)) : run step s [i] = some (s', o) := by
  simpa using run_cons_eq h (run_nil s')

theorem run_snoc {s s' s'' : σ} {is : List ι} {i : ι} {o o' : List ω}
    (h : run step s is = some (s', o)) (h' : step s' i = some (s'', o')) :
    run step s (is ++ [i]) = some (s'', o ++ o') :=
  run_append h (run_singleton h')

/-- **Cutting a stream into calls is unobservable.** -/
theorem runChunks_eq (step : Step σ ι ω) (s : σ) (cs : List (List ι)) :
    runChunks step s cs = run step s cs.flatten := by
  induction cs generalizing s with
  | nil => rfl
  | cons c cs ih =>
    rw [List.flatten_cons, runChunks]
    cases hc : run step s c with
    | none =>
      -- a fault of the first call is a fault of the whole
      cases ha : run step s (c ++ cs.flatten) with
      | none => rfl
      | some r =>
        obtain ⟨s', o, o', h, -, -⟩ := run_append_inv ha
        rw [hc] at h
        cases h
    | some r =>
      obtain ⟨s', o⟩ := r
      dsimp only
      rw [ih]
      cases hr : run step s' cs.flatten with
      | some r' => exact (run_append hc hr).symm
      | none =>
        cases ha : run step s (c ++ cs.flatten) with
        | none => rfl
        | some r' =>
          obtain ⟨t, p, p', h, h', -⟩ := run_append_inv ha
          rw [hc] at h
          cases h
          rw [hr] at h'
          cases h'

/-! ## Side conditions and invariants along a run -/

/-- Every step of the run meets `P`, which may look at the inputs and
observations so far and at the state before the step. -/
def StepsMeet (step : Step σ ι ω) (P : List ι → List ω → σ → ι → Prop) (s : σ)
    (is : List ι) : Prop :=
  ∀ pre i, pre ++ [i] <+: is → ∀ s' o, run step s pre = some (s', o) → P pre o s' i

theorem StepsMeet.of_prefix {P : List ι → List ω → σ → ι → Prop} {s : σ}
    {is js : List ι} (h : StepsMeet step P s js) (hp : is <+: js) :
    StepsMeet step P s is :=
  fun pre i hpre => h pre i (hpre.trans hp)

/-- A condition on the input alone, met by every input of the run. -/
theorem stepsMeet_of_forall {C : ι → Prop} {is : List ι} (h : ∀ i ∈ is, C i)
    (step : Step σ ι ω) (s : σ) : StepsMeet step (fun _ _ _ i => C i) s is := by
  intro pre i hpre _ _ _
  exact h i (hpre.subset (List.mem_append_right pre List.mem_cons_self))

/-- `StepsMeet` as a loop over the inputs, with the history accumulated. -/
def allSteps (step : Step σ ι ω) (p : List ι → List ω → σ → ι → Bool) :
    List ι → List ω → σ → List ι → Bool
  | _, _, _, [] => true
  | h, o, s, i :: is =>
    p h o s i &&
      match step s i with
      | none => true
      | some (s', o') => allSteps step p (h ++ [i]) (o ++ o') s' is

theorem allSteps_iff (p : List ι → List ω → σ → ι → Bool) (is : List ι) :
    ∀ (h : List ι) (o : List ω) (s : σ), allSteps step p h o s is = true ↔
      ∀ pre i, pre ++ [i] <+: is → ∀ s' o', run step s pre = some (s', o') →
        p (h ++ pre) (o ++ o') s' i = true := by
  induction is with
  | nil =>
    intro h o s
    refine ⟨fun _ pre i hpre => ?_, fun _ => rfl⟩
    simp at hpre
  | cons j is ih =>
    intro h o s
    rw [allSteps, Bool.and_eq_true]
    constructor
    · rintro ⟨hj, hrest⟩ pre i hpre s' o' hrun
      -- the first input is checked here, the others by the loop
      cases pre with
      | nil =>
        obtain ⟨rfl, -⟩ := List.cons_prefix_cons.mp hpre
        cases hrun
        simpa using hj
      | cons k pre =>
        obtain ⟨rfl, hpre'⟩ := List.cons_prefix_cons.mp hpre
        obtain ⟨s₁, o₁, o₂, hs, hr, rfl⟩ := run_cons_inv hrun
        rw [hs] at hrest
        have := (ih (h ++ [k]) (o ++ o₁) s₁).mp hrest pre i hpre' s' o₂ hr
        simpa using this
    · intro hall
      refine ⟨?_, ?_⟩
      · have := hall [] j (List.cons_prefix_cons.mpr ⟨rfl, List.nil_prefix⟩) s [] rfl
        simpa using this
      · cases hs : step s j with
        | none => rfl
        | some r =>
          obtain ⟨s₁, o₁⟩ := r
          refine (ih (h ++ [j]) (o ++ o₁) s₁).mpr fun pre i hpre s' o' hr => ?_
          have := hall (j :: pre) i (List.cons_prefix_cons.mpr ⟨rfl, hpre⟩) s' (o₁ ++ o')
            (run_cons_eq hs hr)
          simpa using this

/-- A decidable side condition can be checked along a given run. -/
instance {P : List ι → List ω → σ → ι → Prop} [∀ h o s i, Decidable (P h o s i)]
    {s : σ} {is : List ι} : Decidable (StepsMeet step P s is) :=
  decidable_of_iff (allSteps step (fun h o s i => decide (P h o s i)) [] [] s is) <| by
    rw [allSteps_iff]
    simp only [List.nil_append, decide_eq_true_iff, StepsMeet]

/-- **The run rule.** If a step from a state that satisfies the history
invariant, and meets its side condition, does not fault and re-establishes the
invariant, then so does every run whose steps all meet theirs. -/
theorem run_invariant {I : List ι → List ω → σ → Prop}
    {P : List ι → List ω → σ → ι → Prop} {s₀ : σ} {is : List ι}
    (hstep : ∀ h o s i, I h o s → P h o s i →
      ∃ s' o', step s i = some (s', o') ∧ I (h ++ [i]) (o ++ o') s')
    (hinit : I [] [] s₀) (hmeet : StepsMeet step P s₀ is) :
    ∃ s o, run step s₀ is = some (s, o) ∧ I is o s := by
  -- from the end: the invariant and the side condition both look back
  induction is using List.reverseRecOn with
  | nil => exact ⟨s₀, [], rfl, hinit⟩
  | append_singleton is i ih =>
    obtain ⟨s, o, hrun, hI⟩ := ih (hmeet.of_prefix (List.prefix_append is [i]))
    have hP := hmeet is i List.prefix_rfl s o hrun
    obtain ⟨s', o', hs, hI'⟩ := hstep is o s i hI hP
    exact ⟨s', o ++ o', run_snoc hrun hs, hI'⟩

/-- What every step that does not fault keeps, a run that does not fault keeps. -/
theorem run_preserves {I : σ → Prop} (hstep : ∀ s i s' o, I s → step s i = some (s', o) → I s')
    {s s' : σ} {is : List ι} {o : List ω} (hs : I s) (hrun : run step s is = some (s', o)) :
    I s' := by
  induction is generalizing s o with
  | nil =>
    cases hrun
    exact hs
  | cons i is ih =>
    obtain ⟨s₁, o₁, o₂, h₁, h₂, -⟩ := run_cons_inv hrun
    exact ih (hstep s i s₁ o₁ hs h₁) h₂

/-- The same for an invariant that looks back at the observations. -/
theorem run_preserves_observed {I : List ω → σ → Prop}
    (hstep : ∀ o s i s' o', I o s → step s i = some (s', o') → I (o ++ o') s')
    {s s' : σ} {is : List ι} {o o' : List ω} (hs : I o s) (hrun : run step s is = some (s', o')) :
    I (o ++ o') s' := by
  induction is generalizing s o o' with
  | nil =>
    cases hrun
    rwa [List.append_nil]
  | cons i is ih =>
    obtain ⟨s₁, o₁, o₂, h₁, h₂, rfl⟩ := run_cons_inv hrun
    rw [← List.append_assoc]
    exact ih (hstep o s i s₁ o₁ hs h₁) h₂

/-- **A run is no longer than what its steps use up.** -/
theorem run_measure {C : ι → Prop} {I : List ω → σ → Prop} {m : σ → Nat}
    (hstep : ∀ o s i s' o', I o s → C i → step s i = some (s', o') →
      I (o ++ o') s' ∧ m s' + 1 ≤ m s)
    {s s' : σ} {is : List ι} {o o' : List ω} (hs : I o s) (hC : ∀ i ∈ is, C i)
    (hrun : run step s is = some (s', o')) : m s' + is.length ≤ m s := by
  induction is generalizing s o o' with
  | nil =>
    cases hrun
    exact Nat.le_refl _
  | cons i is ih =>
    obtain ⟨s₁, o₁, o₂, h₁, h₂, rfl⟩ := run_cons_inv hrun
    obtain ⟨hI, hlt⟩ := hstep o s i s₁ o₁ hs (hC i List.mem_cons_self) h₁
    have hrest := ih hI (fun j hj => hC j (List.mem_cons_of_mem i hj)) h₂
    rw [List.length_cons]
    omega

/-- The run rule for a machine whose steps need no side condition. -/
theorem run_invariant' {I : List ι → List ω → σ → Prop} {s₀ : σ}
    (hstep : ∀ h o s i, I h o s →
      ∃ s' o', step s i = some (s', o') ∧ I (h ++ [i]) (o ++ o') s')
    (hinit : I [] [] s₀) (is : List ι) :
    ∃ s o, run step s₀ is = some (s, o) ∧ I is o s :=
  run_invariant (P := fun _ _ _ _ => True) (fun h o s i hI _ => hstep h o s i hI)
    hinit (fun _ _ _ _ _ _ => trivial)

/-- Side conditions that agree wherever an invariant of the machine holds. -/
theorem stepsMeet_congr {I : σ → Prop} {P Q : σ → ι → Prop} {s₀ : σ}
    (hkeep : ∀ s i s' o, I s → step s i = some (s', o) → I s')
    (hiff : ∀ s i, I s → (P s i ↔ Q s i)) (hinit : I s₀) (is : List ι) :
    StepsMeet step (fun _ _ s i => P s i) s₀ is ↔ StepsMeet step (fun _ _ s i => Q s i) s₀ is := by
  have hI : ∀ pre s o, run step s₀ pre = some (s, o) → I s := fun pre s o hrun =>
    run_preserves hkeep hinit hrun
  constructor
  · intro h pre i hpre s o hrun
    exact (hiff s i (hI pre s o hrun)).mp (h pre i hpre s o hrun)
  · intro h pre i hpre s o hrun
    exact (hiff s i (hI pre s o hrun)).mpr (h pre i hpre s o hrun)

/-- A machine that cannot fault goes on to every input, whatever came before. -/
theorem stepsMeet_input_iff {C : ι → Prop} (htotal : ∀ s i, (step s i).isSome) (s₀ : σ)
    (is : List ι) : StepsMeet step (fun _ _ _ i => C i) s₀ is ↔ ∀ i ∈ is, C i := by
  refine ⟨fun h i hi => ?_, fun h => stepsMeet_of_forall h step s₀⟩
  obtain ⟨pre, post, rfl⟩ := List.append_of_mem hi
  have hrun : ∃ s o, run step s₀ pre = some (s, o) ∧ True :=
    run_invariant' (I := fun _ _ _ => True) (fun _ _ s i _ => by
      obtain ⟨⟨s', o'⟩, hs⟩ := Option.isSome_iff_exists.mp (htotal s i)
      exact ⟨s', o', hs, trivial⟩) trivial pre
  obtain ⟨s, o, hrun, -⟩ := hrun
  exact h pre i (List.prefix_append_right_inj pre |>.mpr
    (List.cons_prefix_cons.mpr ⟨rfl, List.nil_prefix⟩)) s o hrun

/-- **The exact fault rule.** Where a step faults exactly if its side condition
is not met, a run does not fault exactly if all its steps meet theirs. -/
theorem run_isSome_iff {I : σ → Prop} {P : σ → ι → Prop} {s₀ : σ}
    (hkeep : ∀ s i s' o, I s → step s i = some (s', o) → I s')
    (hstep : ∀ s i, I s → ((step s i).isSome ↔ P s i)) (hinit : I s₀) (is : List ι) :
    (run step s₀ is).isSome ↔ StepsMeet step (fun _ _ s i => P s i) s₀ is := by
  constructor
  · intro h pre i hpre s o hrun
    obtain ⟨post, rfl⟩ := hpre
    obtain ⟨⟨s', p⟩, hall⟩ := Option.isSome_iff_exists.mp h
    rw [List.append_assoc] at hall
    obtain ⟨t, o₁, o₂, hrun', hrest, -⟩ := run_append_inv hall
    rw [hrun, Option.some.injEq, Prod.mk.injEq] at hrun'
    obtain ⟨rfl, -⟩ := hrun'
    obtain ⟨t, o₃, -, hs, -, -⟩ := run_cons_inv hrest
    exact (hstep s i (run_preserves hkeep hinit hrun)).mp (by rw [hs]; rfl)
  · intro h
    obtain ⟨s, o, hrun, -⟩ := run_invariant (I := fun _ _ s => I s) (fun _ _ s i hI hP => by
      obtain ⟨⟨s', o'⟩, hs⟩ := Option.isSome_iff_exists.mp ((hstep s i hI).mpr hP)
      exact ⟨s', o', hs, hkeep s i s' o' hI hs⟩) hinit h
    rw [hrun]
    rfl

/-- Every state of the run satisfies `Ok`, the last one included. -/
def Throughout (step : Step σ ι ω) (Ok : σ → Prop) (s : σ) (is : List ι) : Prop :=
  ∀ pre, pre <+: is → ∀ s' o, run step s pre = some (s', o) → Ok s'

/-- **The exact run rule.** -/
theorem throughout_iff {Ok : σ → Prop} {P : σ → ι → Prop} {s₀ : σ}
    (hstep : ∀ s i, Ok s → ∃ s' o, step s i = some (s', o) ∧ (Ok s' ↔ P s i))
    (hinit : Ok s₀) (is : List ι) :
    Throughout step Ok s₀ is ↔ StepsMeet step (fun _ _ s i => P s i) s₀ is := by
  constructor
  · intro h pre i hpre s o hrun
    have hok := h pre ((List.prefix_append pre [i]).trans hpre) s o hrun
    obtain ⟨s', o', hs, hiff⟩ := hstep s i hok
    exact hiff.mp (h (pre ++ [i]) hpre s' (o ++ o') (run_snoc hrun hs))
  · intro h pre hpre s o hrun
    obtain ⟨s', o', hrun', hok⟩ := run_invariant (I := fun _ _ s => Ok s)
      (fun _ _ s i hok hP => by
        obtain ⟨s', o', hs, hiff⟩ := hstep s i hok
        exact ⟨s', o', hs, hiff.mpr hP⟩)
      hinit (h.of_prefix hpre)
    rw [hrun, Option.some.injEq, Prod.mk.injEq] at hrun'
    exact hrun'.1 ▸ hok

/-- **The exact run rule, with the history.** Where a step does not fault and keeps the
invariant exactly under a condition, it holds after every part of a run exactly if all
steps of the run meet the condition. -/
theorem keeps_iff {I : List ι → List ω → σ → Prop} {P : List ι → List ω → σ → ι → Prop} {s₀ : σ}
    (hstep : ∀ h o s i, I h o s →
      ((∃ s' o', step s i = some (s', o') ∧ I (h ++ [i]) (o ++ o') s') ↔ P h o s i))
    (hinit : I [] [] s₀) (is : List ι) :
    (∀ pre, pre <+: is → ∃ s o, run step s₀ pre = some (s, o) ∧ I pre o s) ↔
      StepsMeet step P s₀ is := by
  constructor
  · intro h pre i hpre s o hrun
    obtain ⟨t, p, hrun', hI⟩ := h pre ((List.prefix_append pre [i]).trans hpre)
    cases hrun.symm.trans hrun'
    obtain ⟨t, p, hall, hI'⟩ := h (pre ++ [i]) hpre
    obtain ⟨s₁, o₁, o₂, h₁, h₂, rfl⟩ := run_append_inv hall
    cases hrun.symm.trans h₁
    obtain ⟨t', o', p', hs, hnil, rfl⟩ := run_cons_inv h₂
    cases hnil
    rw [List.append_nil] at hI'
    exact (hstep pre o s i hI).mp ⟨t, o', hs, hI'⟩
  · intro h pre hpre
    exact run_invariant (fun h o s i hI hP => (hstep h o s i hI).mpr hP) hinit (h.of_prefix hpre)

/-- A condition on states and inputs is met by a run if its first step meets it and so
does the rest. -/
theorem stepsMeet_cons_iff {P : σ → ι → Prop} {s s' : σ} {i : ι} {is : List ι} {o : List ω}
    (hs : step s i = some (s', o)) :
    StepsMeet step (fun _ _ s i => P s i) s (i :: is) ↔
      P s i ∧ StepsMeet step (fun _ _ s i => P s i) s' is := by
  constructor
  · intro h
    refine ⟨h [] i (List.cons_prefix_cons.mpr ⟨rfl, List.nil_prefix⟩) s [] rfl, ?_⟩
    intro pre j hpre t p hrun
    exact h (i :: pre) j (List.cons_prefix_cons.mpr ⟨rfl, hpre⟩) t (o ++ p) (run_cons_eq hs hrun)
  · rintro ⟨hi, hrest⟩ pre j hpre t p hrun
    cases pre with
    | nil =>
      obtain ⟨rfl, -⟩ := List.cons_prefix_cons.mp hpre
      cases hrun
      exact hi
    | cons k pre =>
      obtain ⟨rfl, hpre'⟩ := List.cons_prefix_cons.mp hpre
      obtain ⟨s₁, o₁, o₂, hs₁, hrun', -⟩ := run_cons_inv hrun
      cases hs.symm.trans hs₁
      exact hrest pre j hpre' t o₂ hrun'

/-- **The exact rule for observations.** Where the observations of a step are all as they
should be exactly under a condition, and such a step keeps the invariant, those of a run
are exactly if all its steps meet the condition. -/
theorem observed_iff {Ok : ω → Prop} {I : σ → Prop} {P : σ → ι → Prop}
    (hstep : ∀ s i s' o, I s → step s i = some (s', o) →
      ((∀ w ∈ o, Ok w) ↔ P s i) ∧ (P s i → I s'))
    {s s' : σ} {is : List ι} {o : List ω} (hs : I s) (hrun : run step s is = some (s', o)) :
    (∀ w ∈ o, Ok w) ↔ StepsMeet step (fun _ _ s i => P s i) s is := by
  induction is generalizing s o with
  | nil =>
    cases hrun
    exact iff_of_true (fun w hw => absurd hw List.not_mem_nil)
      (fun pre i hpre => by simp at hpre)
  | cons i is ih =>
    obtain ⟨s₁, o₁, o₂, h₁, h₂, rfl⟩ := run_cons_inv hrun
    obtain ⟨hiff, hkeep⟩ := hstep s i s₁ o₁ hs h₁
    rw [stepsMeet_cons_iff h₁, List.forall_mem_append, hiff]
    exact and_congr_right fun hP => ih (hkeep hP) h₂

/-- What every step that meets a condition keeps, and what it lets be seen. -/
theorem run_preserves_meet {Ok : ω → Prop} {I : σ → Prop} {P : σ → ι → Prop}
    (hstep : ∀ s i s' o, I s → P s i → step s i = some (s', o) → I s' ∧ ∀ w ∈ o, Ok w)
    {s s' : σ} {is : List ι} {o : List ω} (hs : I s)
    (hmeet : StepsMeet step (fun _ _ s i => P s i) s is) (hrun : run step s is = some (s', o)) :
    I s' ∧ ∀ w ∈ o, Ok w := by
  induction is generalizing s o with
  | nil =>
    cases hrun
    exact ⟨hs, List.forall_mem_nil _⟩
  | cons i is ih =>
    obtain ⟨s₁, o₁, o₂, h₁, h₂, rfl⟩ := run_cons_inv hrun
    obtain ⟨hP, hrest⟩ := (stepsMeet_cons_iff h₁).mp hmeet
    obtain ⟨hI, hok⟩ := hstep s i s₁ o₁ hs hP h₁
    obtain ⟨hI', hok'⟩ := ih hI hrest h₂
    exact ⟨hI', List.forall_mem_append.mpr ⟨hok, hok'⟩⟩

/-- The same for an invariant that looks back at the observations. -/
theorem run_preserves_observed_meet {I : List ω → σ → Prop} {P : σ → ι → Prop}
    (hstep : ∀ o s i s' o', I o s → P s i → step s i = some (s', o') → I (o ++ o') s')
    {s s' : σ} {is : List ι} {o o' : List ω} (hs : I o s)
    (hmeet : StepsMeet step (fun _ _ s i => P s i) s is) (hrun : run step s is = some (s', o')) :
    I (o ++ o') s' := by
  induction is generalizing s o o' with
  | nil =>
    cases hrun
    rwa [List.append_nil]
  | cons i is ih =>
    obtain ⟨s₁, o₁, o₂, h₁, h₂, rfl⟩ := run_cons_inv hrun
    obtain ⟨hP, hrest⟩ := (stepsMeet_cons_iff h₁).mp hmeet
    rw [← List.append_assoc]
    exact ih (hstep o s i s₁ o₁ hs hP h₁) hrest h₂

/-- **Simulation.** Two machines on the same inputs, the states related and the
observations one by one. -/
theorem run_simulates {τ : Type*} {υ : Type*} {other : Step τ ι υ} {R : σ → τ → Prop}
    {Q : ω → υ → Prop}
    (hstep : ∀ s t i s' o, R s t → step s i = some (s', o) →
      ∃ t' p, other t i = some (t', p) ∧ R s' t' ∧ List.Forall₂ Q o p)
    {s s' : σ} {t : τ} {is : List ι} {o : List ω} (h : R s t)
    (hrun : run step s is = some (s', o)) :
    ∃ t' p, run other t is = some (t', p) ∧ R s' t' ∧ List.Forall₂ Q o p := by
  induction is generalizing s t o with
  | nil =>
    cases hrun
    exact ⟨t, [], rfl, h, .nil⟩
  | cons i is ih =>
    obtain ⟨s₁, o₁, o₂, hs, hrest, rfl⟩ := run_cons_inv hrun
    obtain ⟨t₁, p₁, ht, h₁, hobs₁⟩ := hstep s t i s₁ o₁ h hs
    obtain ⟨t', p₂, htrest, h', hobs₂⟩ := ih h₁ hrest
    exact ⟨t', p₁ ++ p₂, run_cons_eq ht htrest, h', List.rel_append hobs₁ hobs₂⟩

/-! ## One machine behind another -/

section Pipe

variable {τ : Type*} {υ : Type*} {second : Step τ ω υ}

/-- What the first machine is observed to do in a step is the input of the second. -/
def pipe (step : Step σ ι ω) (second : Step τ ω υ) : Step (σ × τ) ι υ := fun (s, t) i =>
  match step s i with
  | none => none
  | some (s', o) =>
    match run second t o with
    | none => none
    | some (t', p) => some ((s', t'), p)

theorem pipe_step {s s' : σ} {t t' : τ} {i : ι} {o : List ω} {p : List υ}
    (h : step s i = some (s', o)) (h' : run second t o = some (t', p)) :
    pipe step second (s, t) i = some ((s', t'), p) := by
  simp only [pipe, h, h']

/-- Two machines run together as they run one after the other. -/
theorem run_pipe {s s' : σ} {t t' : τ} {is : List ι} {o : List ω} {p : List υ}
    (h : run step s is = some (s', o)) (h' : run second t o = some (t', p)) :
    run (pipe step second) (s, t) is = some ((s', t'), p) := by
  induction is generalizing s t o p with
  | nil =>
    cases h
    cases h'
    rfl
  | cons i is ih =>
    obtain ⟨s₁, o₁, o₂, hs, hrest, rfl⟩ := run_cons_inv h
    obtain ⟨t₁, p₁, p₂, ht, htrest, rfl⟩ := run_append_inv h'
    exact run_cons_eq (pipe_step hs ht) (ih hrest htrest)

/-- Two machines that have run together have run one after the other. -/
theorem run_pipe_inv {s s' : σ} {t t' : τ} {is : List ι} {p : List υ}
    (h : run (pipe step second) (s, t) is = some ((s', t'), p)) :
    ∃ o, run step s is = some (s', o) ∧ run second t o = some (t', p) := by
  induction is generalizing s t p with
  | nil =>
    cases h
    exact ⟨[], rfl, rfl⟩
  | cons i is ih =>
    obtain ⟨⟨s₁, t₁⟩, p₁, p₂, hone, hrest, rfl⟩ := run_cons_inv h
    obtain ⟨o₂, hs, ht⟩ := ih hrest
    -- the first step of the pipe is one of the first machine and a run of the second
    unfold pipe at hone
    dsimp only at hone
    cases hi : step s i with
    | none =>
      rw [hi] at hone
      cases hone
    | some r =>
      obtain ⟨s₂, o₁⟩ := r
      rw [hi] at hone
      dsimp only at hone
      cases hsecond : run second t o₁ with
      | none =>
        rw [hsecond] at hone
        cases hone
      | some q =>
        obtain ⟨t₂, q⟩ := q
        rw [hsecond] at hone
        cases hone
        exact ⟨o₁ ++ o₂, run_cons_eq hi hs, run_append hsecond ht⟩

end Pipe

end Lidbg.Machine
