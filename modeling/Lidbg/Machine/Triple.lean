import Lidbg.Machine.LockDiscipline

/-!
# Pre- and postconditions of programs

`Triple handle P p Q`: where `P` holds of a program's variables and of the state of its
surroundings, the program runs to its end, and `Q` holds of the result and of both.

There is a rule for each way to put a program together, and `Triple.mono` between them. The
lock of a program that keeps to it may be left aside: `Triple.guarded` brings it back.
-/

namespace Lidbg.Machine

variable {ο : Type} {ρ : ο → Type} {α β γ σ : Type}

/-- The program ends, and the postcondition holds. -/
def Triple (handle : Handler σ ο ρ) (P : γ → σ → Prop) (p : StateT γ (Prog ο ρ) α)
    (Q : α → γ → σ → Prop) : Prop :=
  ∀ g s, P g s → ∃ a g' s' trace,
    (p.run g).exec handle s = some ((a, g'), s', trace) ∧ Q a g' s'

variable {handle : Handler σ ο ρ} {P P' : γ → σ → Prop} {Q Q' : α → γ → σ → Prop}
  {R : β → γ → σ → Prop}

theorem Triple.mono {p : StateT γ (Prog ο ρ) α} (h : Triple handle P p Q)
    (hpre : ∀ g s, P' g s → P g s) (hpost : ∀ a g s, Q a g s → Q' a g s) :
    Triple handle P' p Q' := by
  intro g s hP
  obtain ⟨a, g', s', trace, hrun, hQ⟩ := h g s (hpre g s hP)
  exact ⟨a, g', s', trace, hrun, hpost a g' s' hQ⟩

theorem Triple.pre {p : StateT γ (Prog ο ρ) α} (h : Triple handle P p Q)
    (hpre : ∀ g s, P' g s → P g s) : Triple handle P' p Q := h.mono hpre fun _ _ _ hQ => hQ

theorem Triple.post {p : StateT γ (Prog ο ρ) α} (h : Triple handle P p Q)
    (hpost : ∀ a g s, Q a g s → Q' a g s) : Triple handle P p Q' := h.mono (fun _ _ hP => hP) hpost

theorem triple_pure {a : α} (h : ∀ g s, P g s → Q a g s) :
    Triple handle P (pure a : StateT γ (Prog ο ρ) α) Q := by
  intro g s hP
  exact ⟨a, g, s, [], Prog.exec_pure (a, g) s, h g s hP⟩

/-- **One program after another.** -/
theorem Triple.bind {p : StateT γ (Prog ο ρ) α} {k : α → StateT γ (Prog ο ρ) β}
    (hp : Triple handle P p Q) (hk : ∀ a, Triple handle (Q a) (k a) R) :
    Triple handle P (p >>= k) R := by
  intro g s hP
  obtain ⟨a, g₁, s₁, trace₁, hrun, hQ⟩ := hp g s hP
  obtain ⟨b, g₂, s₂, trace₂, hrun', hR⟩ := hk a g₁ s₁ hQ
  refine ⟨b, g₂, s₂, trace₁ ++ trace₂, ?_, hR⟩
  rw [StateT.run_bind]
  exact Prog.exec_bind hrun hrun'

theorem triple_ite {c : Prop} [Decidable c] {p q : StateT γ (Prog ο ρ) α}
    (hp : c → Triple handle P p Q) (hq : ¬ c → Triple handle P q Q) :
    Triple handle P (if c then p else q) Q := by
  by_cases h : c
  · rw [if_pos h]
    exact hp h
  · rw [if_neg h]
    exact hq h

/-- The variables are looked at; what is known of them is known of what was seen. -/
theorem triple_get {k : γ → StateT γ (Prog ο ρ) β}
    (hk : ∀ g₀, Triple handle (fun g s => g = g₀ ∧ P g s) (k g₀) R) :
    Triple handle P (get >>= k) R := by
  intro g s hP
  exact hk g g s ⟨rfl, hP⟩

theorem triple_modify {f : γ → γ} {Q : PUnit → γ → σ → Prop} (h : ∀ g s, P g s → Q ⟨⟩ (f g) s) :
    Triple handle P (modify f : StateT γ (Prog ο ρ) PUnit) Q := by
  intro g s hP
  exact ⟨⟨⟩, f g, s, [], rfl, h g s hP⟩

/-- An operation, by what its handler does. -/
theorem triple_invoke {o : ο} {Q : ρ o → γ → σ → Prop}
    (h : ∀ g s, P g s → ∃ s' r, handle s o = some (s', r) ∧ Q r g s') :
    Triple handle P (invoke o : StateT γ (Prog ο ρ) (ρ o)) Q := by
  intro g s hP
  obtain ⟨s', r, ho, hQ⟩ := h g s hP
  exact ⟨r, g, s', [s'], Prog.exec_op ho, hQ⟩

/-! ## The lock left aside -/

/-- A run with the lock is a run without it. -/
theorem exec_of_guarded {lockOp : ο → Option LockOp} {env : σ → (o : ο) → σ × ρ o}
    {p : Prog ο ρ α} {a : α} {held held' : Bool} {s s' : σ} {trace : List (Bool × σ)}
    (h : p.exec (guarded lockOp env) (held, s) = some (a, (held', s'), trace)) :
    p.exec (fun s o => some (env s o)) s = some (a, s', trace.map Prod.snd) := by
  induction p generalizing held s trace with
  | done b =>
    cases h
    rfl
  | stuck => cases h
  | op o next ih =>
    obtain ⟨⟨⟨held₁, s₁⟩, r⟩, hstep, hrest⟩ := Option.bind_eq_some_iff.mp h
    obtain ⟨⟨b, s₂, trace₁⟩, hnext, heq⟩ := Option.map_eq_some_iff.mp hrest
    cases heq
    obtain ⟨mid, -, hreply⟩ := Option.map_eq_some_iff.mp hstep
    cases hreply
    rw [Prog.exec_op rfl, ih _ hnext]
    rfl

/-- **What is proved without the lock** holds with it, of a program that keeps to it. -/
theorem Triple.guarded {lockOp : ο → Option LockOp} {held held' : Bool}
    {env : σ → (o : ο) → σ × ρ o} {p : StateT γ (Prog ο ρ) α}
    (hp : Triple (fun s o => some (env s o)) P p Q) (h : KeepsLock lockOp held held' p) :
    Triple (guarded lockOp env) (fun g s => s.1 = held ∧ P g s.2) p
      (fun a g s => s.1 = held' ∧ Q a g s.2) := by
  rintro g ⟨b, s⟩ ⟨rfl, hP⟩
  obtain ⟨⟨a, g'⟩, s', trace, hrun⟩ := h g σ env s
  obtain ⟨a₁, g₁, s₁, trace₁, hrun₁, hQ⟩ := hp g s hP
  cases (exec_of_guarded hrun).symm.trans hrun₁
  exact ⟨a, g', (held', s'), trace, hrun, rfl, hQ⟩

end Lidbg.Machine
