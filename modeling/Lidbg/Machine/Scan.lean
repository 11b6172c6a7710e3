import Mathlib.Data.Nat.Count

/-!
# Counting loops that stop early

A loop `for (i = start; i < stop; i++)` whose body goes on with a new state or leaves
with a result. The typical one counts the positions that are marked and leaves once the
outcome is settled.

- `scan_spec` is the rule: what every turn keeps, and what it says when it leaves.
- `scan_decides` is a loop that answers a question, `scan_find` one that looks for
  the first position without a property.
- `count_le_add_sub` bounds a count by one that was taken earlier: the positions in
  between are all that can have been added, which is what a loop that gives up early
  relies on.
-/

namespace Lidbg.Machine

universe u v

variable {σ : Type u} {ρ : Type v}

/-- `n` turns, the first with `i`. -/
def scan (body : Nat → σ → σ ⊕ ρ) : Nat → Nat → σ → σ ⊕ ρ
  | 0, _, s => .inl s
  | n + 1, i, s =>
    match body i s with
    | .inl s' => scan body n (i + 1) s'
    | .inr r => .inr r

variable {f : Nat → σ → σ ⊕ ρ}

theorem scan_again {i : Nat} {s s' : σ} (h : f i s = .inl s') (n : Nat) :
    scan f (n + 1) i s = scan f n (i + 1) s' := by
  rw [scan, h]

theorem scan_leave {i : Nat} {s : σ} {r : ρ} (h : f i s = .inr r) (n : Nat) :
    scan f (n + 1) i s = .inr r := by
  rw [scan, h]

/-- **The loop rule.** Each turn keeps what holds after as many turns as there were, or
leaves with a result that satisfies the postcondition. -/
theorem scan_spec {I : Nat → σ → Prop} {Q : ρ → Prop} {n i : Nat} {s : σ}
    (hbody : ∀ k s, k < n → I k s → Sum.elim (I (k + 1)) Q (f (i + k) s)) (hs : I 0 s) :
    Sum.elim (I n) Q (scan f n i s) := by
  induction n generalizing I i s with
  | zero => exact hs
  | succ n ih =>
    have hturn : Sum.elim (I 1) Q (f i s) := hbody 0 s (Nat.succ_pos n) hs
    cases h : f i s with
    | inl s' =>
      rw [h] at hturn
      rw [scan_again h]
      refine ih (I := fun k => I (k + 1)) ?_ hturn
      intro k t hk ht
      rw [Nat.add_right_comm i 1 k]
      exact hbody (k + 1) t (Nat.succ_lt_succ hk) ht
    | inr r =>
      rw [h] at hturn
      rw [scan_leave h]
      exact hturn

/-- A loop that leaves with the answer to a question, and whose end is the answer no. -/
theorem scan_decides {f : Nat → σ → σ ⊕ Bool} {I : Nat → σ → Prop} {P : Prop} {n i : Nat}
    {s : σ}
    (hbody : ∀ k s, k < n → I k s →
      Sum.elim (I (k + 1)) (fun answer => answer = true ↔ P) (f (i + k) s))
    (hend : ∀ s, I n s → ¬ P) (hs : I 0 s) :
    Sum.elim (fun _ => false) id (scan f n i s) = true ↔ P := by
  have hscan := scan_spec hbody hs
  cases h : scan f n i s with
  | inl s' =>
    rw [h] at hscan
    exact iff_of_false Bool.false_ne_true (hend s' hscan)
  | inr answer =>
    rw [h] at hscan
    exact hscan

/-- A loop that leaves at the first position without the property. -/
theorem scan_find (p : Nat → Bool) (g : Nat → ρ) (n i : Nat) :
    Sum.elim (fun _ => none) some
        (scan (fun i (_ : Unit) => if p i then .inl () else .inr (g i)) n i ()) =
      ((List.range' i n).find? fun i => !p i).map g := by
  induction n generalizing i with
  | zero => rfl
  | succ n ih =>
    rw [List.range'_succ, List.find?_cons]
    cases hp : p i with
    | true =>
      rw [scan_again (if_pos hp), ih]
      rfl
    | false =>
      rw [scan_leave (if_neg (Bool.eq_false_iff.mp hp))]
      rfl

/-- Two searches of one list, the first for a weaker property, end with the same value: the
first never stops where the second goes on, or it stops at what stands for nothing found. -/
theorem find?_getD_eq_iff {α : Type u} {p q : α → Bool} (hpq : ∀ a, p a = true → q a = true)
    (d : α) {l : List α} (hl : l.Nodup) :
    (l.find? fun a => !p a).getD d = (l.find? fun a => !q a).getD d ↔
      (∀ a ∈ l.takeWhile q, p a = true) ∨
        (∀ a ∈ l, q a = true) ∧ (l.find? fun a => !p a) = some d := by
  induction l with
  | nil => exact iff_of_true rfl (.inl fun a ha => absurd ha List.not_mem_nil)
  | cons a l ih =>
    obtain ⟨ha, hl⟩ := List.nodup_cons.mp hl
    cases hp : p a with
    | true =>
      have hq := hpq a hp
      simp only [List.find?_cons, List.takeWhile_cons, List.forall_mem_cons, hp, hq, Bool.not_true,
        if_true, true_and]
      exact ih hl
    | false =>
      cases hq : q a with
      | false =>
        simp only [List.find?_cons, List.takeWhile_cons, hp, hq, Bool.not_false]
        exact iff_of_true trivial (.inl fun b hb => absurd hb List.not_mem_nil)
      | true =>
        have hstop : ¬ ∀ b ∈ (a :: l).takeWhile q, p b = true := by
          intro h
          have hpa := h a (by rw [List.takeWhile_cons_of_pos hq]; exact List.mem_cons_self)
          rw [hp] at hpa
          exact Bool.false_ne_true hpa
        rw [or_iff_right hstop]
        simp only [List.find?_cons, List.forall_mem_cons, hp, hq, Bool.not_true, Bool.not_false,
          true_and, Option.getD_some, Option.some.injEq]
        cases hfind : l.find? fun a => !q a with
        | none =>
          have hall : ∀ b ∈ l, q b = true := by simpa using List.find?_eq_none.mp hfind
          rw [Option.getD_none]
          exact (and_iff_right hall).symm
        | some b =>
          have hb : b ∈ l := List.mem_of_find?_eq_some hfind
          have hqb : (!q b) = true := List.find?_some (p := fun a => !q a) hfind
          refine iff_of_false (fun h => ha (h ▸ hb)) fun h => ?_
          rw [h.1 b hb] at hqb
          exact Bool.false_ne_true hqb

/-- Between two counts no more is counted than there are positions. -/
theorem count_le_add_sub {p : Nat → Prop} [DecidablePred p] {m n : Nat} (h : m ≤ n) :
    Nat.count p n ≤ Nat.count p m + (n - m) := by
  obtain ⟨d, rfl⟩ := Nat.exists_eq_add_of_le h
  rw [Nat.count_add, Nat.add_sub_cancel_left]
  exact Nat.add_le_add_left (Nat.count_le _) _

end Lidbg.Machine
