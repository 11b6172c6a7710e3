import Mathlib.Data.Nat.Init
import Mathlib.Tactic.Basic

/-!
# Loops that need not end

The body of a loop either goes round again with a new state or leaves with a
result. A loop runs on fuel, one unit a turn, and yields nothing when the fuel is
spent, so that a loop which does not end yields nothing for every fuel.

- `loop_spec` is partial correctness: what an invariant says about the turn
  that leaves, it says about the result.
- `LoopEnds` is total correctness, turn by turn (`loopEnds_again`,
  `loopEnds_leave`) or by a measure (`loopEnds_of_measure`).
- `isSome_foldlM` and `foldlM_preserves` are for a loop over a list, whose turns
  may fail.
-/

namespace Lidbg.Machine

universe u v

variable {σ : Type u} {ρ : Type v}

def loop (body : σ → σ ⊕ ρ) : Nat → σ → Option ρ
  | 0, _ => none
  | n + 1, s =>
    match body s with
    | .inl s' => loop body n s'
    | .inr r => some r

variable {body : σ → σ ⊕ ρ}

theorem loop_again {s s' : σ} (h : body s = .inl s') (n : Nat) :
    loop body (n + 1) s = loop body n s' := by
  rw [loop, h]

theorem loop_leave {s : σ} {r : ρ} (h : body s = .inr r) (n : Nat) :
    loop body (n + 1) s = some r := by
  rw [loop, h]

/-- **Partial correctness.** -/
theorem loop_spec {I : σ → Prop} {Q : ρ → Prop} (hagain : ∀ s s', I s → body s = .inl s' → I s')
    (hleave : ∀ s r, I s → body s = .inr r → Q r) {n : Nat} {s : σ} {r : ρ} (hs : I s)
    (h : loop body n s = some r) : Q r := by
  induction n generalizing s with
  | zero => cases h
  | succ n ih =>
    cases hbody : body s with
    | inl s' => exact ih (hagain s s' hs hbody) (loop_again hbody n ▸ h)
    | inr r' =>
      rw [loop_leave hbody, Option.some.injEq] at h
      exact h ▸ hleave s r' hs hbody

/-- More fuel does not change the result. -/
theorem loop_of_le {m n : Nat} (hmn : m ≤ n) {s : σ} {r : ρ} (h : loop body m s = some r) :
    loop body n s = some r := by
  induction m generalizing n s with
  | zero => cases h
  | succ m ih =>
    obtain ⟨n, rfl⟩ := Nat.exists_eq_add_one_of_ne_zero (Nat.ne_zero_of_lt hmn)
    cases hbody : body s with
    | inl s' =>
      rw [loop_again hbody] at h ⊢
      exact ih (Nat.le_of_succ_le_succ hmn) h
    | inr r' =>
      rw [loop_leave hbody] at h ⊢
      exact h

/-- The loop ends, and with a result that satisfies `P`. -/
def LoopEnds (body : σ → σ ⊕ ρ) (s : σ) (P : ρ → Prop) : Prop :=
  ∃ n r, loop body n s = some r ∧ P r

theorem loopEnds_again {s s' : σ} {P : ρ → Prop} (h : body s = .inl s') :
    LoopEnds body s P ↔ LoopEnds body s' P := by
  constructor
  · rintro ⟨n, r, hr, hP⟩
    cases n with
    | zero => cases hr
    | succ n => exact ⟨n, r, loop_again h n ▸ hr, hP⟩
  · rintro ⟨n, r, hr, hP⟩
    exact ⟨n + 1, r, (loop_again h n).trans hr, hP⟩

theorem loopEnds_leave {s : σ} {r : ρ} {P : ρ → Prop} (h : body s = .inr r) :
    LoopEnds body s P ↔ P r := by
  constructor
  · rintro ⟨n, r', hr, hP⟩
    cases n with
    | zero => cases hr
    | succ n =>
      rw [loop_leave h, Option.some.injEq] at hr
      exact hr ▸ hP
  · exact fun hP => ⟨1, r, loop_leave h 0, hP⟩

/-- A loop has one result. -/
theorem loopEnds_iff_of_eq {s : σ} {r : ρ} {P : ρ → Prop} (h : LoopEnds body s (· = r)) :
    LoopEnds body s P ↔ P r := by
  obtain ⟨m, r', hm, rfl⟩ := h
  constructor
  · rintro ⟨n, r, hn, hP⟩
    have hr := (loop_of_le (Nat.le_max_left m n) hm).symm.trans
      (loop_of_le (Nat.le_max_right m n) hn)
    exact Option.some.inj hr ▸ hP
  · exact fun hP => ⟨m, r', hm, hP⟩

/-- A turn that changes nothing is the first of endless ones. -/
theorem not_loopEnds_of_fixed {s : σ} {P : ρ → Prop} (h : body s = .inl s) :
    ¬ LoopEnds body s P := by
  rintro ⟨n, r, hr, -⟩
  refine loop_spec (I := (· = s)) (Q := fun _ => False) ?_ ?_ rfl hr
  · rintro _ s' rfl hagain
    exact Sum.inl.inj (hagain.symm.trans h)
  · rintro _ r' rfl hleave
    cases hleave.symm.trans h

/-- **Termination**, when every turn that goes on makes a measure smaller. -/
theorem loopEnds_of_measure {I : σ → Prop} {Q : ρ → Prop} (μ : σ → Nat)
    (hagain : ∀ s s', I s → body s = .inl s' → I s' ∧ μ s' < μ s)
    (hleave : ∀ s r, I s → body s = .inr r → Q r) {s : σ} (hs : I s) : LoopEnds body s Q := by
  induction hn : μ s using Nat.strong_induction_on generalizing s with
  | _ n ih =>
    cases hbody : body s with
    | inl s' =>
      obtain ⟨hs', hlt⟩ := hagain s s' hs hbody
      exact (loopEnds_again hbody).mpr (ih (μ s') (hn ▸ hlt) hs' rfl)
    | inr r => exact (loopEnds_leave hbody).mpr (hleave s r hs hbody)

/-! ## Loops over a list -/

/-- A loop fails exactly where a step does, if a step fails whatever the state is. -/
theorem isSome_foldlM {α : Type v} {step : σ → α → Option σ} {P : α → Prop}
    (h : ∀ s a, (step s a).isSome ↔ P a) (l : List α) (s : σ) :
    (l.foldlM step s).isSome ↔ ∀ a ∈ l, P a := by
  induction l generalizing s with
  | nil => exact ⟨fun _ a ha => absurd ha List.not_mem_nil, fun _ => rfl⟩
  | cons a l ih =>
    rw [List.foldlM_cons, List.forall_mem_cons, ← h s a]
    cases step s a with
    | none => exact ⟨fun h => absurd h Bool.false_ne_true, fun h => absurd h.1 Bool.false_ne_true⟩
    | some s' => exact (ih s').trans (and_iff_right rfl).symm

/-- What every step that does not fail keeps, the loop keeps. -/
theorem foldlM_preserves {α : Type v} {step : σ → α → Option σ} {I : σ → Prop}
    (hstep : ∀ s a s', I s → step s a = some s' → I s') {l : List α} {s s' : σ} (hs : I s)
    (h : l.foldlM step s = some s') : I s' := by
  induction l generalizing s with
  | nil =>
    cases h
    exact hs
  | cons a l ih =>
    rw [List.foldlM_cons, Option.bind_eq_bind, Option.bind_eq_some_iff] at h
    obtain ⟨s₁, hone, hrest⟩ := h
    exact ih (hstep s a s₁ hs hone) hrest

end Lidbg.Machine
