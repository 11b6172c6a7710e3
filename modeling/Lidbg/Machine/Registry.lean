import Lidbg.Machine.Prog

/-!
# Registries

A registry is a list of items, each with a key, that grows at the head. A
registration looks its key up, updates what it finds and inserts what it made if
it finds nothing; the two are separate sections. What a lookup returns stays
good while others insert: it is the number of items behind the one found.

- `update_of_find` is the update of the only item with a key.
- `register` is a registration as a program of sections, `registerAlone` what it
  does undisturbed (`exec_register`).
- `nodup_iff`: side by side, registrations keep the keys apart in every schedule
  exactly when no two of them insert the same new key.
-/

namespace Lidbg.Machine.Registry

variable {κ ι : Type}

/-! ## The list -/

section List

variable [DecidableEq κ] (key : ι → κ)

/-- The first item with a key, as the number of items behind it. -/
def find (k : κ) : List ι → Option Nat
  | [] => none
  | a :: l => if key a = k then some l.length else find k l

/-- The item with so many behind it replaced. -/
def update (f : ι → ι) (p : Nat) : List ι → List ι
  | [] => []
  | a :: l => if l.length = p then f a :: l else a :: update f p l

variable {key}

theorem find_eq_none_iff (k : κ) (l : List ι) : find key k l = none ↔ k ∉ l.map key := by
  induction l with
  | nil => simp [find]
  | cons a l ih =>
    rw [find, List.map_cons, List.mem_cons, not_or, ← ih]
    split
    · next h => simp [h]
    · next h => simp [Ne.symm h]

theorem find_lt {k : κ} {l : List ι} {p : Nat} (h : find key k l = some p) : p < l.length := by
  induction l with
  | nil => cases h
  | cons a l ih =>
    rw [find] at h
    split at h
    · cases h
      exact Nat.lt_succ_self _
    · exact Nat.lt_succ_of_lt (ih h)

omit [DecidableEq κ] in
theorem map_key_update {f : ι → ι} (hf : ∀ a, key (f a) = key a) (p : Nat) (l : List ι) :
    (update f p l).map key = l.map key := by
  induction l with
  | nil => rfl
  | cons a l ih =>
    rw [update]
    split
    · rw [List.map_cons, List.map_cons, hf]
    · rw [List.map_cons, List.map_cons, ih]

/-- The items with other keys are left as they are. -/
theorem filter_update_of_find {f : ι → ι} (hf : ∀ a, key (f a) = key a) {k : κ} {l : List ι}
    {p : Nat} (h : find key k l = some p) :
    (update f p l).filter (fun a => key a ≠ k) = l.filter fun a => key a ≠ k := by
  induction l with
  | nil => rfl
  | cons a l ih =>
    rw [find] at h
    rw [update]
    split at h
    · next hk =>
      cases h
      rw [if_pos rfl, List.filter_cons_of_neg (by simpa [hf] using hk),
        List.filter_cons_of_neg (by simpa using hk)]
    · next hk =>
      rw [if_neg (find_lt h).ne', List.filter_cons, List.filter_cons, ih h]

/-- Where keys are distinct, the item found is all there is of its key. -/
theorem update_of_find {k : κ} {l : List ι} {p : Nat} (f : ι → ι) (hl : (l.map key).Nodup)
    (h : find key k l = some p) :
    update f p l = l.map fun a => if key a = k then f a else a := by
  induction l with
  | nil => rfl
  | cons a l ih =>
    rw [List.map_cons, List.nodup_cons] at hl
    rw [find] at h
    rw [update, List.map_cons]
    split at h
    · next hk =>
      -- no other item has the key, so the map stops here
      cases h
      rw [if_pos rfl, if_pos hk]
      have hrest : (l.map fun b => if key b = k then f b else b) = l := by
        refine (List.map_congr_left fun b hb => if_neg fun hbk => hl.1 ?_).trans (List.map_id l)
        exact List.mem_map.mpr ⟨b, hb, hbk.trans hk.symm⟩
      rw [hrest]
    · next hk =>
      rw [if_neg (find_lt h).ne', if_neg hk, ih hl.2 h]

end List

/-! ## Registrations -/

/-- The sections; `elsewhere` is one on another list. -/
inductive Op (κ ι : Type) where
  | lookup (k : κ)
  | update (f : ι → ι) (p : Nat)
  | insert (a : ι)
  | elsewhere

/-- Only a lookup replies. -/
abbrev Op.Reply : Op κ ι → Type
  | .lookup _ => Option Nat
  | _ => Unit

/-- The sections on the list. -/
def handle [DecidableEq κ] (key : ι → κ) : Handler (List ι) (Op κ ι) Op.Reply := fun l o =>
  match o with
  | .lookup k => some (l, find key k l)
  | .update f p => some (update f p l, ())
  | .insert a => some (a :: l, ())
  | .elsewhere => some (l, ())

/-- What follows the lookup: `touch` updates an item found, if at all, and `item`
is what is inserted if none was, unless it could not be made. -/
def afterLookup (touch : Option (ι → ι)) (item : Option ι) (r : Option Nat) :
    Prog (Op κ ι) Op.Reply Bool :=
  match r, touch, item with
  | some p, some f, _ => .op (.update f p) fun _ => .done true
  | some _, none, _ => .done false
  | none, _, some a => .op (.insert a) fun _ => .done true
  | none, _, none => .done false

/-- A registration. -/
def register (k : κ) (elsewhere : Bool) (touch : Option (ι → ι)) (item : Option ι) :
    Prog (Op κ ι) Op.Reply Bool :=
  .op (.lookup k) fun r =>
    if elsewhere then .op .elsewhere fun _ => afterLookup touch item r
    else afterLookup touch item r

/-- A registration nobody comes between. -/
def registerAlone [DecidableEq κ] (key : ι → κ) (k : κ) (touch : Option (ι → ι))
    (item : Option ι) (l : List ι) : List ι × Bool :=
  match find key k l, touch, item with
  | some p, some f, _ => (update f p l, true)
  | some _, none, _ => (l, false)
  | none, _, some a => (a :: l, true)
  | none, _, none => (l, false)

theorem exec_register [DecidableEq κ] (key : ι → κ) (k : κ) (elsewhere : Bool)
    (touch : Option (ι → ι)) (item : Option ι) (l : List ι) :
    ∃ trace, (register k elsewhere touch item).exec (handle key) l =
      some ((registerAlone key k touch item l).2, (registerAlone key k touch item l).1, trace) := by
  have hlookup : handle key l (.lookup k) = some (l, find key k l) := rfl
  unfold register registerAlone
  rw [Prog.exec_op hlookup]
  cases elsewhere <;> cases find key k l <;> cases touch <;> cases item <;> exact ⟨_, rfl⟩

/-- A call of a registration: its update leaves the key alone, and what it makes
has the key it looked up. -/
structure Call (key : ι → κ) where
  name : κ
  elsewhere : Bool
  touch : Option (ι → ι)
  item : Option ι
  key_touch : ∀ f ∈ touch, ∀ a, key (f a) = key a
  key_item : ∀ a ∈ item, key a = name

def Call.program {key : ι → κ} (c : Call key) : Prog (Op κ ι) Op.Reply Bool :=
  register c.name c.elsewhere c.touch c.item

/-- The call makes an item with a key that the list does not have. -/
def Call.Fresh {key : ι → κ} (l : List ι) (c : Call key) : Prop :=
  c.item.isSome ∧ c.name ∉ l.map key

/-! ## Side by side -/

section Race

variable {α : Type} (key : ι → κ)

/-- Nothing is inserted any more, and no key is changed. -/
def Quiet : Prog (Op κ ι) Op.Reply α → Prop
  | .done _ => True
  | .stuck => True
  | .op (.lookup _) next => ∀ r, Quiet (next r)
  | .op (.update f _) next => (∀ a, key (f a) = key a) ∧ Quiet (next ())
  | .op (.insert _) _ => False
  | .op .elsewhere next => Quiet (next ())

/-- One item is still inserted at most, and it has this key. -/
def Inserts (k : κ) : Prog (Op κ ι) Op.Reply α → Prop
  | .done _ => True
  | .stuck => True
  | .op (.lookup _) next => ∀ r, Inserts k (next r)
  | .op (.update f _) next => (∀ a, key (f a) = key a) ∧ Inserts k (next ())
  | .op (.insert a) next => key a = k ∧ Quiet key (next ())
  | .op .elsewhere next => Inserts k (next ())

variable {key} [DecidableEq κ] {o : Op κ ι} {next : o.Reply → Prog (Op κ ι) Op.Reply α}
  {l l' : List ι} {r : o.Reply}

theorem Quiet.step (h : Quiet key (.op o next)) (hop : handle key l o = some (l', r)) :
    l'.map key = l.map key ∧ Quiet key (next r) := by
  cases o with
  | insert a => exact h.elim
  | lookup k =>
    cases hop
    exact ⟨rfl, h _⟩
  | update f p =>
    cases hop
    exact ⟨map_key_update h.1 p l, h.2⟩
  | elsewhere =>
    cases hop
    exact ⟨rfl, h⟩

theorem Inserts.step {k : κ} (h : Inserts key k (.op o next))
    (hop : handle key l o = some (l', r)) :
    l'.map key = l.map key ∧ Inserts key k (next r) ∨
      l'.map key = k :: l.map key ∧ Quiet key (next r) := by
  cases o with
  | insert a =>
    cases hop
    exact .inr ⟨by rw [List.map_cons, h.1], h.2⟩
  | lookup k =>
    cases hop
    exact .inl ⟨rfl, h _⟩
  | update f p =>
    cases hop
    exact .inl ⟨map_key_update h.1 p l, h.2⟩
  | elsewhere =>
    cases hop
    exact .inl ⟨rfl, h⟩

omit [DecidableEq κ] in
/-- After the lookup a call is quiet, or it found nothing and inserts its item. -/
theorem Call.program_step (c : Call key) :
    ∃ next, c.program = .op (.lookup c.name) next ∧
      ∀ r, Quiet key (next r) ∨ r = none ∧ c.item.isSome ∧ Inserts key c.name (next r) := by
  refine ⟨_, rfl, fun r => ?_⟩
  have hafter : Quiet key (afterLookup c.touch c.item r) ∨
      r = none ∧ c.item.isSome ∧ Inserts key c.name (afterLookup c.touch c.item r) := by
    cases r with
    | some p =>
      cases htouch : c.touch with
      | some f => exact .inl ⟨c.key_touch f htouch, trivial⟩
      | none => exact .inl trivial
    | none =>
      cases hitem : c.item with
      | some a => exact .inr ⟨rfl, rfl, c.key_item a hitem, trivial⟩
      | none => exact .inl trivial
  cases c.elsewhere <;> exact hafter

/-- Where the run is: `ins` lists who has inserted. The keys are theirs and the
ones from the start; a call that has inserted is quiet, and one that is neither
quiet nor at its start looked a key up that was not there at the start. -/
structure Kept (l₀ : List ι) (calls : List (Call key)) (ins : List (Nat × Call key))
    (s : List ι × List (Prog (Op κ ι) Op.Reply Bool)) : Prop where
  length : s.2.length = calls.length
  nodup : (ins.map Prod.fst).Nodup
  keys : s.1.map key = ins.map (fun e => e.2.name) ++ l₀.map key
  inserted : ∀ e ∈ ins, calls[e.1]? = some e.2 ∧ e.2.Fresh l₀ ∧
    ∀ p, s.2[e.1]? = some p → Quiet key p
  stage : ∀ (i : Nat) (c : Call key) (p : Prog (Op κ ι) Op.Reply Bool),
    calls[i]? = some c → s.2[i]? = some p →
    p = c.program ∨ Quiet key p ∨ c.Fresh l₀ ∧ Inserts key c.name p

section Step

variable {l₀ l' : List ι} {calls : List (Call key)} {ins : List (Nat × Call key)}
  {s : List ι × List (Prog (Op κ ι) Op.Reply Bool)} {i : Nat} {c : Call key}
  {p p' : Prog (Op κ ι) Op.Reply Bool}

omit [DecidableEq κ] in
/-- A section that inserts nothing. -/
theorem Kept.keep (h : Kept l₀ calls ins s) (hc : calls[i]? = some c) (hp : s.2[i]? = some p)
    (hkeys : l'.map key = s.1.map key) (hquiet : Quiet key p → Quiet key p')
    (hstage : Quiet key p' ∨ c.Fresh l₀ ∧ Inserts key c.name p') :
    Kept l₀ calls ins (l', s.2.set i p') := by
  have hi := (List.getElem?_eq_some_iff.mp hp).1
  refine ⟨List.length_set.trans h.length, h.nodup, hkeys.trans h.keys, fun e he => ?_,
    fun j d q hd hq => ?_⟩
  · obtain ⟨hcall, hfresh, hq⟩ := h.inserted e he
    refine ⟨hcall, hfresh, fun q hqe => ?_⟩
    by_cases hie : i = e.1
    · rw [← hie, List.getElem?_set_self hi, Option.some.injEq] at hqe
      exact hqe ▸ hquiet (hq p (hie ▸ hp))
    · rw [List.getElem?_set_ne hie] at hqe
      exact hq q hqe
  · by_cases hij : i = j
    · rw [← hij, List.getElem?_set_self hi, Option.some.injEq] at hq
      rw [← hij, hc, Option.some.injEq] at hd
      rw [← hq, ← hd]
      exact .inr hstage
    · rw [List.getElem?_set_ne hij] at hq
      exact h.stage j d q hd hq

omit [DecidableEq κ] in
/-- The section that inserts. -/
theorem Kept.insert (h : Kept l₀ calls ins s) (hc : calls[i]? = some c) (hp : s.2[i]? = some p)
    (hnot : ¬ Quiet key p) (hfresh : c.Fresh l₀) (hkeys : l'.map key = c.name :: s.1.map key)
    (hquiet : Quiet key p') : Kept l₀ calls ((i, c) :: ins) (l', s.2.set i p') := by
  have hi := (List.getElem?_eq_some_iff.mp hp).1
  have hkeep : Kept l₀ calls ins (s.1, s.2.set i p') :=
    h.keep hc hp rfl (fun _ => hquiet) (.inl hquiet)
  refine ⟨hkeep.length, ?_, by rw [hkeys, h.keys]; rfl, fun e he => ?_, hkeep.stage⟩
  · rw [List.map_cons, List.nodup_cons]
    refine ⟨fun hmem => ?_, h.nodup⟩
    obtain ⟨e, he, hei⟩ := List.mem_map.mp hmem
    exact hnot ((h.inserted e he).2.2 p (hei ▸ hp))
  · rcases List.mem_cons.mp he with rfl | he
    · refine ⟨hc, hfresh, fun q hq => ?_⟩
      rw [List.getElem?_set_self hi, Option.some.injEq] at hq
      exact hq ▸ hquiet
    · exact hkeep.inserted e he

/-- **A section never fails, and keeps the invariant**, whichever call makes it. -/
theorem kept_step (h : Kept l₀ calls ins s) (i : Nat) :
    ∃ s' o ins', interleave (handle key) s i = some (s', o) ∧ Kept l₀ calls ins' s' := by
  rcases interleave_cases (handle key) s.1 s.2 i with hstep | ⟨o, next, l', r, hp, hop, hstep⟩
  · exact ⟨s, [], ins, hstep, h⟩
  · obtain ⟨c, hc⟩ : ∃ c, calls[i]? = some c :=
      ⟨_, List.getElem?_eq_getElem (h.length ▸ (List.getElem?_eq_some_iff.mp hp).1)⟩
    by_cases hq : Quiet key (.op o next)
    · -- a call that is quiet stays so
      obtain ⟨hkeys, hq'⟩ := hq.step hop
      exact ⟨_, _, ins, hstep, h.keep hc hp hkeys (fun _ => hq') (.inl hq')⟩
    rcases h.stage i c _ hc hp with hstart | hq' | ⟨hfresh, hins⟩
    · -- the lookup: what is not there now was not there at the start
      obtain ⟨next', hprog, hafter⟩ := c.program_step
      rw [hprog] at hstart
      cases hstart
      cases hop
      refine ⟨_, _, ins, hstep, h.keep hc hp rfl (fun h' => absurd h' hq) ?_⟩
      refine (hafter _).imp_right fun ⟨hnone, hsome, hins⟩ => ⟨⟨hsome, fun hmem => ?_⟩, hins⟩
      refine (find_eq_none_iff c.name s.1).mp hnone ?_
      rw [h.keys]
      exact List.mem_append_right _ hmem
    · exact absurd hq' hq
    · -- behind the lookup: on the way to the insertion, or the insertion
      rcases hins.step hop with ⟨hkeys, hins'⟩ | ⟨hkeys, hq'⟩
      · exact ⟨_, _, ins, hstep, h.keep hc hp hkeys (fun h' => absurd h' hq) (.inr ⟨hfresh, hins'⟩)⟩
      · exact ⟨_, _, (i, c) :: ins, hstep, h.insert hc hp hq hfresh hkeys hq'⟩

end Step

omit [DecidableEq κ] in
/-- Calls with different numbers that have inserted have different names. -/
theorem Kept.keys_nodup {l₀ : List ι} {calls : List (Call key)} {ins : List (Nat × Call key)}
    {s : List ι × List (Prog (Op κ ι) Op.Reply Bool)} (h : Kept l₀ calls ins s)
    (hl₀ : (l₀.map key).Nodup)
    (hcalls : calls.Pairwise fun c c' => c.Fresh l₀ → c'.Fresh l₀ → c.name ≠ c'.name) :
    (s.1.map key).Nodup := by
  rw [h.keys, List.nodup_append]
  refine ⟨?_, hl₀, ?_⟩
  · -- two insertions are two calls
    have hne := h.nodup
    rw [List.Nodup, List.pairwise_map] at hne ⊢
    refine hne.imp_of_mem fun {e e'} he he' hij => ?_
    obtain ⟨hcall, hfresh, -⟩ := h.inserted e he
    obtain ⟨hcall', hfresh', -⟩ := h.inserted e' he'
    obtain ⟨hi, hei⟩ := List.getElem?_eq_some_iff.mp hcall
    obtain ⟨hi', hei'⟩ := List.getElem?_eq_some_iff.mp hcall'
    rw [List.pairwise_iff_getElem] at hcalls
    rw [← hei] at hfresh ⊢
    rw [← hei'] at hfresh' ⊢
    rcases Nat.lt_or_gt_of_ne hij with hlt | hgt
    · exact hcalls _ _ hi hi' hlt hfresh hfresh'
    · exact (hcalls _ _ hi' hi hgt hfresh' hfresh).symm
  · intro k hk k' hk' heq
    obtain ⟨e, he, rfl⟩ := List.mem_map.mp hk
    exact (h.inserted e he).2.1.2 (heq ▸ hk')

/-- All that is left is to insert. -/
def inserting (κ : Type) (a : ι) : Prog (Op κ ι) Op.Reply Bool :=
  .op (.insert a) fun _ => .done true

theorem interleave_inserting (key : ι → κ) {l : List ι} {a : ι}
    {P : List (Prog (Op κ ι) Op.Reply Bool)} {i : Nat} (h : P[i]? = some (inserting κ a)) :
    interleave (handle key) (l, P) i =
      some ((a :: l, P.set i (.done true)), [(i, .insert a)]) :=
  interleave_op h rfl

/-- A fresh call can be brought to where all that is left is to insert. -/
theorem Call.Fresh.lookup {c : Call key} {l : List ι} (h : c.Fresh l)
    {P : List (Prog (Op κ ι) Op.Reply Bool)} {i : Nat} (hi : P[i]? = some c.program) :
    ∃ schedule o a, key a = c.name ∧
      run (interleave (handle key)) (l, P) schedule = some ((l, P.set i (inserting κ a)), o) := by
  obtain ⟨hitem, hnew⟩ := h
  obtain ⟨a, ha⟩ := Option.isSome_iff_exists.mp hitem
  have hlookup : handle key l (.lookup c.name) = some (l, none) := by
    rw [handle, (find_eq_none_iff c.name l).mpr hnew]
  have hafter : afterLookup c.touch c.item none = inserting κ a := by
    rw [ha]
    rfl
  have hfirst := interleave_op hi hlookup
  rw [hafter] at hfirst
  cases helse : c.elsewhere with
  | false =>
    rw [helse] at hfirst
    exact ⟨[i], _, a, c.key_item a ha, run_singleton hfirst⟩
  | true =>
    rw [helse] at hfirst
    have hsecond : interleave (handle key)
        (l, P.set i (.op .elsewhere fun _ => inserting κ a)) i =
          some ((l, P.set i (inserting κ a)), [(i, .elsewhere)]) := by
      rw [interleave_op (List.getElem?_set_self (List.getElem?_eq_some_iff.mp hi).1) rfl,
        List.set_set]
    exact ⟨[i, i], _, a, c.key_item a ha, run_cons_eq hfirst (run_singleton hsecond)⟩

/-- Two fresh calls of one name have a schedule in which both insert: both look
up before either inserts. -/
theorem exists_duplicate {l₀ : List ι} {calls : List (Call key)} {i j : Nat}
    (hi : i < calls.length) (hj : j < calls.length) (hij : i < j) (hfresh : calls[i].Fresh l₀)
    (hfresh' : calls[j].Fresh l₀) (hname : calls[i].name = calls[j].name) :
    ∃ schedule s o, run (interleave (handle key)) (l₀, calls.map Call.program) schedule =
      some (s, o) ∧ ¬ (s.1.map key).Nodup := by
  have hlen : (calls.map Call.program).length = calls.length := List.length_map ..
  obtain ⟨schedule, o, a, ha, hrun⟩ := hfresh.lookup (P := calls.map Call.program) (i := i)
    (by rw [List.getElem?_map, List.getElem?_eq_getElem hi, Option.map_some])
  obtain ⟨schedule', o', a', ha', hrun'⟩ := hfresh'.lookup (i := j)
    (P := (calls.map Call.program).set i (inserting κ a))
    (by rw [List.getElem?_set_ne hij.ne, List.getElem?_map, List.getElem?_eq_getElem hj,
      Option.map_some])
  have hboth := run_append hrun hrun'
  have hfirst := interleave_inserting key (l := l₀) (i := i) (a := a)
    (P := ((calls.map Call.program).set i (inserting κ a)).set j (inserting κ a'))
    (by rw [List.getElem?_set_ne hij.ne', List.getElem?_set_self (hlen.symm ▸ hi)])
  have hsecond := interleave_inserting key (l := a :: l₀) (i := j) (a := a')
    (P := (((calls.map Call.program).set i (inserting κ a)).set j (inserting κ a')).set i
      (.done true))
    (by rw [List.getElem?_set_ne hij.ne, List.getElem?_set_self (by rwa [List.length_set, hlen])])
  refine ⟨_, _, _, run_append hboth (run_cons_eq hfirst (run_singleton hsecond)), fun hnodup => ?_⟩
  rw [List.map_cons, List.map_cons, List.nodup_cons, ha, ha', hname] at hnodup
  exact hnodup.1 List.mem_cons_self

/-- Every schedule ends with the invariant. -/
theorem run_kept (l₀ : List ι) (calls : List (Call key)) (schedule : List Nat) :
    ∃ s o ins, run (interleave (handle key)) (l₀, calls.map Call.program) schedule =
      some (s, o) ∧ Kept l₀ calls ins s := by
  have hinit : Kept l₀ calls [] (l₀, calls.map Call.program) :=
    ⟨List.length_map .., List.nodup_nil, rfl, fun e he => (nomatch he), fun i c p hc hp => by
      rw [List.getElem?_map, hc, Option.map_some, Option.some.injEq] at hp
      exact .inl hp.symm⟩
  obtain ⟨s, o, hrun, ins, hkept⟩ := run_invariant' (I := fun _ _ s => ∃ ins, Kept l₀ calls ins s)
    (fun _ _ s i ⟨ins, hkept⟩ => by
      obtain ⟨s', o, ins', hs, hkept'⟩ := kept_step hkept i
      exact ⟨s', o, hs, ins', hkept'⟩)
    ⟨[], hinit⟩ schedule
  exact ⟨s, o, ins, hrun, hkept⟩

/-- **Keys stay apart.** A list without duplicate keys keeps it so in every
schedule of the calls exactly when no two of them make items with one new key. -/
theorem nodup_iff {l₀ : List ι} (hl₀ : (l₀.map key).Nodup) (calls : List (Call key)) :
    (∀ schedule s o,
      run (interleave (handle key)) (l₀, calls.map Call.program) schedule = some (s, o) →
        (s.1.map key).Nodup) ↔
      calls.Pairwise fun c c' => c.Fresh l₀ → c'.Fresh l₀ → c.name ≠ c'.name := by
  constructor
  · intro h
    rw [List.pairwise_iff_getElem]
    intro i j hi hj hij hfresh hfresh' hname
    obtain ⟨schedule, s, o, hrun, hdup⟩ := exists_duplicate hi hj hij hfresh hfresh' hname
    exact hdup (h schedule s o hrun)
  · intro h schedule s o hrun
    obtain ⟨s', o', ins, hrun', hkept⟩ := run_kept l₀ calls schedule
    rw [hrun, Option.some.injEq, Prod.mk.injEq] at hrun'
    rw [hrun'.1]
    exact hkept.keys_nodup hl₀ h

end Race

end Lidbg.Machine.Registry
