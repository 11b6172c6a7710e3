import Lidbg.Machine.Run

/-!
# Programs of operations

A program that talks to its surroundings by operations only is the tree of what
it does: it is done, stuck, or performs an operation and goes on with the reply.
What an operation does to the state, and what it replies, is a *handler*; an
operation whose handler gives nothing waits.

- `exec` runs one program alone and collects the states it goes through;
  `exec_bind` runs one program after another.
- `interleave` runs several programs over one state, an operation at a time, in
  the order of a schedule; `interleave_cases` says what one step can be.
-/

namespace Lidbg.Machine

universe u v w

/-- A program with operations `ο`, replies `ρ` and a result in `α`. -/
inductive Prog (ο : Type u) (ρ : ο → Type v) (α : Type w) where
  | done (a : α)
  | stuck
  | op (o : ο) (next : ρ o → Prog ο ρ α)

/-- What an operation does; `none` waits. -/
abbrev Handler (σ : Type w) (ο : Type u) (ρ : ο → Type v) : Type (max u v w) :=
  σ → (o : ο) → Option (σ × ρ o)

namespace Prog

variable {ο : Type u} {ρ : ο → Type v} {α β : Type w} {σ : Type w}

def bind : Prog ο ρ α → (α → Prog ο ρ β) → Prog ο ρ β
  | done a, k => k a
  | stuck, _ => stuck
  | op o next, k => op o fun r => (next r).bind k

instance : Monad (Prog ο ρ) where
  pure := done
  bind := bind

/-- Run a program alone, with the states after each operation. -/
def exec (handle : Handler σ ο ρ) : Prog ο ρ α → σ → Option (α × σ × List σ)
  | done a, s => some (a, s, [])
  | stuck, _ => none
  | op o next, s =>
    (handle s o).bind fun (s', r) =>
      (exec handle (next r) s').map fun (a, s'', trace) => (a, s'', s' :: trace)

variable {handle : Handler σ ο ρ}

@[simp] theorem exec_pure (a : α) (s : σ) :
    exec handle (pure a : Prog ο ρ α) s = some (a, s, []) := rfl

theorem exec_op {o : ο} {next : ρ o → Prog ο ρ α} {s s' : σ} {r : ρ o}
    (h : handle s o = some (s', r)) :
    exec handle (op o next) s =
      (exec handle (next r) s').map fun (a, s'', trace) => (a, s'', s' :: trace) := by
  rw [exec, h, Option.bind_some]

/-- One program after another. -/
theorem exec_bind {p : Prog ο ρ α} {k : α → Prog ο ρ β} {s s' s'' : σ} {a : α} {b : β}
    {t t' : List σ} (h : exec handle p s = some (a, s', t))
    (h' : exec handle (k a) s' = some (b, s'', t')) :
    exec handle (p >>= k) s = some (b, s'', t ++ t') := by
  show exec handle (p.bind k) s = _
  induction p generalizing s t with
  | done a' =>
    cases h
    exact h'
  | stuck => cases h
  | op o next ih =>
    obtain ⟨⟨s₁, r⟩, hs₁, h⟩ := Option.bind_eq_some_iff.mp h
    obtain ⟨⟨a₁, s₂, t₁⟩, hrest, heq⟩ := Option.map_eq_some_iff.mp h
    cases heq
    rw [bind, exec_op hs₁, ih r hrest]
    rfl

end Prog

/-! ## Several programs -/

section Interleave

variable {ο : Type u} {ρ : ο → Type v} {α σ : Type w}

/-- The next operation of the program the schedule picks, observed with its
number. A program that is over, stuck or waiting stays where it is. -/
def interleave (handle : Handler σ ο ρ) :
    Step (σ × List (Prog ο ρ α)) Nat (Nat × ο) := fun (s, programs) i =>
  match programs[i]? with
  | some (.op o next) =>
    match handle s o with
    | some (s', r) => some ((s', programs.set i (next r)), [(i, o)])
    | none => some ((s, programs), [])
  | _ => some ((s, programs), [])

variable {handle : Handler σ ο ρ} {s s' : σ} {programs : List (Prog ο ρ α)} {i : Nat}

theorem interleave_op {o : ο} {next : ρ o → Prog ο ρ α} {r : ρ o}
    (hp : programs[i]? = some (.op o next)) (h : handle s o = some (s', r)) :
    interleave handle (s, programs) i = some ((s', programs.set i (next r)), [(i, o)]) := by
  simp only [interleave, hp, h]

/-- **One step** is nothing, or an operation of a program that stands before
it. -/
theorem interleave_cases (handle : Handler σ ο ρ) (s : σ) (programs : List (Prog ο ρ α))
    (i : Nat) :
    interleave handle (s, programs) i = some ((s, programs), []) ∨
      ∃ o next s' r, programs[i]? = some (.op o next) ∧ handle s o = some (s', r) ∧
        interleave handle (s, programs) i = some ((s', programs.set i (next r)), [(i, o)]) := by
  cases hp : programs[i]? with
  | none => exact .inl (by simp only [interleave, hp])
  | some p =>
    cases p with
    | done a => exact .inl (by simp only [interleave, hp])
    | stuck => exact .inl (by simp only [interleave, hp])
    | op o next =>
      cases h : handle s o with
      | none => exact .inl (by simp only [interleave, hp, h])
      | some r => exact .inr ⟨o, next, r.1, r.2, rfl, h, interleave_op hp h⟩

/-- A schedule runs the programs it is given and no others. -/
theorem interleave_lt (handle : Handler σ ο ρ) (s : σ) (programs : List (Prog ο ρ α))
    (schedule : List Nat) :
    ∃ r o, run (interleave handle) (s, programs) schedule = some (r, o) ∧
      r.2.length = programs.length ∧ ∀ e ∈ o, e.1 < programs.length := by
  refine run_invariant' (I := fun _ (o : List (Nat × ο)) (r : σ × List (Prog ο ρ α)) =>
    r.2.length = programs.length ∧ ∀ e ∈ o, e.1 < programs.length) (fun _ o r i h => ?_)
    ⟨rfl, fun e he => nomatch he⟩ schedule
  obtain ⟨hlen, hlt⟩ := h
  rcases interleave_cases handle r.1 r.2 i with hstep | ⟨op, next, s', rep, hp, -, hstep⟩
  · exact ⟨r, [], hstep, hlen, by rwa [List.append_nil]⟩
  · refine ⟨_, _, hstep, by rw [List.length_set, hlen], fun e he => ?_⟩
    rcases List.mem_append.mp he with he | he
    · exact hlt e he
    · rw [List.mem_singleton.mp he, ← hlen]
      exact (List.getElem?_eq_some_iff.mp hp).1

end Interleave

end Lidbg.Machine
