import Lidbg.Drivers.I2cIo

/-!
# Transactions side by side (`drivers/videoin/i2c_io.c`)

Several callers run their transactions on the one bus, an operation at a time in
any order (`interleave`). `io_i2c_lock` is meant to keep them apart, but every
transaction makes it anew, and free, as the first thing it does inside
(`program_lock_init`). Any two transactions can therefore be inside at once.
-/

namespace Lidbg.I2cIo

open Machine

/-- A call of one of the four transactions. -/
inductive Transaction where
  | readByte (chipAddr : UInt8) (subAddr size : UInt32)
  | writeByte (chipAddr : UInt8) (buf : List UInt8) (size : UInt32)
  | read2byte (chipAddr : UInt8) (subAddr size : UInt32)
  | write2byte (chipAddr : UInt8) (buf : List UInt8) (size : UInt32)

def Transaction.program (fuel : Nat) : Transaction → I2c Reply
  | .readByte chipAddr subAddr size => i2cReadByte fuel chipAddr subAddr size
  | .writeByte chipAddr buf size => i2cWriteByte fuel chipAddr buf size
  | .read2byte chipAddr subAddr size => i2cRead2byte fuel chipAddr subAddr size
  | .write2byte chipAddr buf size => i2cWrite2byte fuel chipAddr buf size

/-- Caller `i` is between its `mutex_lock` and its `mutex_unlock`. -/
def inside (i : Nat) (o : List (Nat × Op)) : Bool :=
  o.foldl (fun within e =>
    if e.1 = i then
      match e.2 with
      | .mutexLock => true
      | .mutexUnlock => false
      | _ => within
    else within) false

/-- At most one caller is inside. -/
def Excludes (o : List (Nat × Op)) : Prop :=
  ∀ i j, inside i o = true → inside j o = true → i = j

/-- Every schedule of the transactions keeps them apart. -/
def AlwaysExcludes (slave : Nat → Bool) (fuel n : Nat) (ts : List Transaction) : Prop :=
  ∀ schedule r o,
    run (interleave (handle slave))
      (⟨false, true, true, true, n⟩, ts.map (Transaction.program fuel)) schedule = some (r, o) →
    Excludes o

/-- The lock is taken and made anew. -/
theorem program_lock_init (fuel : Nat) (t : Transaction) :
    ∃ next, t.program fuel = .op .mutexLock fun _ => .op .mutexInit next := by
  cases t <;> exact ⟨_, rfl⟩

/-- Who is inside has done something. -/
theorem exists_mem_of_inside {i : Nat} {o : List (Nat × Op)} (h : inside i o = true) :
    ∃ e ∈ o, e.1 = i := by
  induction o using List.reverseRecOn with
  | nil => cases h
  | append_singleton o e ih =>
    rw [inside, List.foldl_append, List.foldl_cons, List.foldl_nil] at h
    by_cases he : e.1 = i
    · exact ⟨e, List.mem_append_right o List.mem_cons_self, he⟩
    · rw [if_neg he] at h
      obtain ⟨e', hmem, he'⟩ := ih h
      exact ⟨e', List.mem_append_left _ hmem, he'⟩

/-- Two transactions get inside: the first locks and makes the lock anew, the
second locks. -/
theorem not_alwaysExcludes (slave : Nat → Bool) (fuel n : Nat) (t₀ t₁ : Transaction)
    (ts : List Transaction) : ¬ AlwaysExcludes slave fuel n (t₀ :: t₁ :: ts) := by
  intro h
  obtain ⟨next₀, h₀⟩ := program_lock_init fuel t₀
  obtain ⟨next₁, h₁⟩ := program_lock_init fuel t₁
  unfold AlwaysExcludes at h
  rw [List.map_cons, List.map_cons, h₀, h₁] at h
  have hboth := h [0, 0, 1] _ [(0, .mutexLock), (0, .mutexInit), (1, .mutexLock)] rfl 0 1 rfl rfl
  exact absurd hboth Nat.zero_ne_one

/-- **The lock keeps transactions apart exactly when there is no second one.** -/
theorem alwaysExcludes_iff (slave : Nat → Bool) (fuel n : Nat) (ts : List Transaction) :
    AlwaysExcludes slave fuel n ts ↔ ts.length ≤ 1 := by
  constructor
  · intro h
    rcases ts with _ | ⟨t₀, _ | ⟨t₁, ts⟩⟩
    · exact Nat.zero_le 1
    · exact Nat.le_refl 1
    · exact absurd h (not_alwaysExcludes slave fuel n t₀ t₁ ts)
  · intro hlen schedule r o hrun i j hi hj
    obtain ⟨r', o', hrun', -, hlt⟩ :=
      interleave_lt (handle slave) (⟨false, true, true, true, n⟩ : Bus)
        (ts.map (Transaction.program fuel)) schedule
    rw [hrun, Option.some.injEq, Prod.mk.injEq] at hrun'
    rw [← hrun'.2, List.length_map] at hlt
    obtain ⟨e, he, rfl⟩ := exists_mem_of_inside hi
    obtain ⟨e', he', rfl⟩ := exists_mem_of_inside hj
    have := hlt e he
    have := hlt e' he'
    omega

/-- Two writes, the second let in by the first. -/
theorem twoWrites_inside :
    (∃ r o, run (interleave (handle fun _ => false)) (⟨false, true, true, true, 0⟩,
        [i2cWriteByte 2 0x44 [0x03, 0x80] 2, i2cWriteByte 2 0x44 [0x08, 0x17] 2]) [0, 0, 1] =
        some (r, o) ∧ inside 0 o = true ∧ inside 1 o = true) ∧
    ¬ AlwaysExcludes (fun _ => false) 2 0
      [.writeByte 0x44 [0x03, 0x80] 2, .writeByte 0x44 [0x08, 0x17] 2] := by
  refine ⟨⟨_, _, rfl, rfl, rfl⟩, fun h => ?_⟩
  exact absurd (h [0, 0, 1] _ _ rfl 0 1 rfl rfl) Nat.zero_ne_one

end Lidbg.I2cIo
