/-!
# Silent folds

A loop carries a value and appends to an output. A step is silent at a value if
it appends nothing there, and then sets the value by a rule of its own; a step
that is not silent may do anything to the value. A whole loop is silent if and
only if each step is silent at the value that the rule gives the steps before it.
-/

namespace Lidbg.Machine

variable {σ ρ α β : Type}

/-- The splits of a list at one of its elements, by its head. -/
theorem forall_split_cons {P : List α → α → Prop} {b : α} {l : List α} :
    (∀ pre a post, b :: l = pre ++ a :: post → P pre a) ↔
      P [] b ∧ ∀ pre a post, l = pre ++ a :: post → P (b :: pre) a := by
  constructor
  · intro h
    exact ⟨h [] b l rfl, fun pre a post heq => h (b :: pre) a post (congrArg (b :: ·) heq)⟩
  · rintro ⟨hb, hl⟩ (_ | ⟨_, pre⟩) a post heq
    · cases heq
      exact hb
    · cases heq
      exact hl pre a post rfl

/-- A step either is silent and sets the value, or appends to the output. -/
def Speaks (step : σ → α → σ) (out : σ → List β) (val : σ → ρ) (silent : α → ρ → Prop)
    (set : ρ → α → ρ) : Prop :=
  ∀ s a, (silent a (val s) ∧ out (step s a) = out s ∧ val (step s a) = set (val s) a) ∨
    (¬ silent a (val s) ∧ ∃ b bs, out (step s a) = out s ++ b :: bs)

/-- Each step is silent where the steps before it have left the value. -/
def AllSilent (silent : α → ρ → Prop) (set : ρ → α → ρ) (l : List α) (v : ρ) : Prop :=
  ∀ pre a post, l = pre ++ a :: post → silent a (pre.foldl set v)

theorem allSilent_cons {silent : α → ρ → Prop} {set : ρ → α → ρ} {a : α} {l : List α} {v : ρ} :
    AllSilent silent set (a :: l) v ↔ silent a v ∧ AllSilent silent set l (set v a) :=
  forall_split_cons (P := fun pre a => silent a (pre.foldl set v))

/-- **A loop** speaks as its steps do. -/
theorem Speaks.foldl {step : σ → α → σ} {out : σ → List β} {val : σ → ρ} {silent : α → ρ → Prop}
    {set : ρ → α → ρ} (h : Speaks step out val silent set) :
    Speaks (fun s l => l.foldl step s) out val (AllSilent silent set)
      (fun v l => l.foldl set v) := by
  intro s l
  induction l generalizing s with
  | nil => exact .inl ⟨fun _ _ _ heq => by simp at heq, rfl, rfl⟩
  | cons a l ih =>
    dsimp only [List.foldl_cons] at ih ⊢
    rw [allSilent_cons]
    rcases h s a with ⟨ha, hout, hval⟩ | ⟨ha, b, bs, hout⟩
    · have ih := ih (step s a)
      rw [hout, hval] at ih
      rcases ih with ⟨hl, hout', hval'⟩ | ⟨hl, hspeak⟩
      · exact .inl ⟨⟨ha, hl⟩, hout', hval'⟩
      · exact .inr ⟨fun h => hl h.2, hspeak⟩
    · -- what the step appended is still there behind the rest of the loop
      refine .inr ⟨fun h => ha h.1, ?_⟩
      rcases ih (step s a) with ⟨_, hout', _⟩ | ⟨_, c, cs, hout'⟩
      · exact ⟨b, bs, hout'.trans hout⟩
      · exact ⟨b, bs ++ c :: cs, by rw [hout', hout, List.append_assoc, List.cons_append]⟩

end Lidbg.Machine
