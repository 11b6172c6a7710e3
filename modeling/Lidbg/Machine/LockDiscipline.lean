import Lidbg.Machine.Prog

/-!
# Programs that keep to a lock

A program may lock and unlock among its other operations. `guarded` lets it lock
only when the lock is free and unlock only when it is held; for the rest its
surroundings reply as they like. A `Disciplined` program runs to its end in any
surroundings, and leaves the lock as it is said to.

There is a rule for each way to put a program together. `KeepsLock` has them again for
programs with variables of their own (`StateT`).
-/

namespace Lidbg.Machine

variable {ο : Type} {ρ : ο → Type} {α β γ : Type}

/-- What an operation does to the lock. -/
inductive LockOp where
  | lock
  | unlock

/-- Whether the lock is held after an operation; `none` is against the rules. -/
def heldAfter (lockOp : ο → Option LockOp) (held : Bool) (o : ο) : Option Bool :=
  match lockOp o with
  | none => some held
  | some .lock => if held then none else some true
  | some .unlock => if held then some false else none

/-- The surroundings `env` of a program, with the lock. -/
def guarded (lockOp : ο → Option LockOp) {σ : Type} (env : σ → (o : ο) → σ × ρ o) :
    Handler (Bool × σ) ο ρ := fun s o =>
  (heldAfter lockOp s.1 o).map fun held => ((held, (env s.2 o).1), (env s.2 o).2)

/-- From `held` to `held'`, whatever the program is told on its way. -/
def Disciplined (lockOp : ο → Option LockOp) (held held' : Bool) (p : Prog ο ρ α) : Prop :=
  ∀ (σ : Type) (env : σ → (o : ο) → σ × ρ o) (s : σ),
    ∃ a s' trace, p.exec (guarded lockOp env) (held, s) = some (a, (held', s'), trace)

variable {lockOp : ο → Option LockOp} {held mid held' : Bool}

theorem disciplined_pure (a : α) : Disciplined lockOp held held (pure a : Prog ο ρ α) := by
  intro σ env s
  exact ⟨a, s, [], Prog.exec_pure a (held, s)⟩

theorem disciplined_op {o : ο} {next : ρ o → Prog ο ρ α} (ho : heldAfter lockOp held o = some mid)
    (hnext : ∀ r, Disciplined lockOp mid held' (next r)) :
    Disciplined lockOp held held' (.op o next) := by
  intro σ env s
  obtain ⟨a, s', trace, hrun⟩ := hnext (env s o).2 σ env (env s o).1
  have hstep : guarded lockOp env (held, s) o = some ((mid, (env s o).1), (env s o).2) := by
    rw [guarded, ho, Option.map_some]
  exact ⟨a, s', _, by rw [Prog.exec_op hstep, hrun]; rfl⟩

/-- **One program after another.** -/
theorem Disciplined.bind {p : Prog ο ρ α} {k : α → Prog ο ρ β}
    (hp : Disciplined lockOp held mid p) (hk : ∀ a, Disciplined lockOp mid held' (k a)) :
    Disciplined lockOp held held' (p >>= k) := by
  intro σ env s
  obtain ⟨a, s₁, trace₁, hrun⟩ := hp σ env s
  obtain ⟨b, s₂, trace₂, hrun'⟩ := hk a σ env s₁
  exact ⟨b, s₂, trace₁ ++ trace₂, Prog.exec_bind hrun hrun'⟩

/-! ## Programs with variables -/

/-- The same, whatever the variables are. -/
def KeepsLock (lockOp : ο → Option LockOp) (held held' : Bool) (p : StateT γ (Prog ο ρ) α) : Prop :=
  ∀ g, Disciplined lockOp held held' (p.run g)

/-- One operation. -/
def invoke (o : ο) : StateT γ (Prog ο ρ) (ρ o) := fun g => .op o fun r => .done (r, g)

theorem keepsLock_pure (a : α) : KeepsLock lockOp held held (pure a : StateT γ (Prog ο ρ) α) := by
  intro g
  exact disciplined_pure (a, g)

theorem KeepsLock.bind {p : StateT γ (Prog ο ρ) α} {k : α → StateT γ (Prog ο ρ) β}
    (hp : KeepsLock lockOp held mid p) (hk : ∀ a, KeepsLock lockOp mid held' (k a)) :
    KeepsLock lockOp held held' (p >>= k) := by
  intro g
  rw [StateT.run_bind]
  exact (hp g).bind fun r => hk r.1 r.2

theorem keepsLock_get : KeepsLock lockOp held held (get : StateT γ (Prog ο ρ) γ) := by
  intro g
  exact disciplined_pure (g, g)

theorem keepsLock_modify (f : γ → γ) :
    KeepsLock lockOp held held (modify f : StateT γ (Prog ο ρ) PUnit) := by
  intro g
  exact disciplined_pure (PUnit.unit, f g)

theorem keepsLock_invoke {o : ο} (ho : heldAfter lockOp held o = some held') :
    KeepsLock lockOp held held' (invoke o : StateT γ (Prog ο ρ) (ρ o)) := by
  intro g
  exact disciplined_op ho fun r => disciplined_pure (r, g)

end Lidbg.Machine
