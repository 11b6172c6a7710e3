import Lidbg.Machine.CInt
import Lidbg.Machine.CStr
import Lidbg.Machine.Registry
import Mathlib.Algebra.Group.Nat.Defs

/-!
# Wakelock bookkeeping (`core/lidbg_wakelock_stat.c`)

Every wakelock anybody takes is an item of `lidbg_wakelock_list`, found by its
name. A counted wakelock is released as often as it was taken, an uncounted one
at once; an item is never removed. What is looked up in `waklelock_detail_list`
only decides what is logged.

- `addLock`, `dropLock` and `newWakelockItem` are what the requests do to an item.
- `Counts` says what an item counts, in terms of the requests so far.
- `Consistent` is the invariant of the list, `consistent_step` one request and
  `run_consistent` any number.
-/

namespace Lidbg.WakelockStat

open Machine

/-- `struct wakelock_item`. -/
structure WakelockItem where
  name : CStr
  packageName : CStr
  cunt : Int32
  cuntMax : Int32
  isCountWakelock : Bool
  pid : Int32
  uid : Int32
deriving DecidableEq

/-- The arguments of `register_wakelock`. -/
structure Lock where
  cntWakelock : Bool
  name : CStr
  packageName : Option CStr
  pid : UInt32
  uid : UInt32
deriving DecidableEq

/-- `"null"`. -/
def nullName : CStr := ⟨ascii "null", by decide⟩

/-- `get_wakelock_item`: the item, as the number of items behind it. -/
def getWakelockItem (clientList : List WakelockItem) (name : CStr) : Option Nat :=
  Registry.find WakelockItem.name name clientList

/-- `new_wakelock_item`, up to where the item goes to the head of the list;
`allocated` says whether all of `kmalloc` succeeded. -/
def newWakelockItem (allocated : Bool) (a : Lock) : Option WakelockItem :=
  if allocated then
    some
      { name := a.name
        packageName := a.packageName.getD nullName
        cunt := 1
        cuntMax := 1
        isCountWakelock := a.cntWakelock
        pid := a.pid.toInt32
        uid := a.uid.toInt32 }
  else none

/-- What `register_wakelock` does to an item. -/
def addLock (pos : WakelockItem) : WakelockItem :=
  { pos with cunt := pos.cunt + 1, cuntMax := pos.cuntMax + 1 }

/-- What `unregister_wakelock` does to an item. -/
def dropLock (pos : WakelockItem) : WakelockItem :=
  if pos.isCountWakelock then
    if 0 < pos.cunt then { pos with cunt := pos.cunt - 1 } else pos
  else { pos with cunt := 0 }

/-- `register_wakelock`. -/
def registerWakelock (allocated : Bool) (clientList : List WakelockItem) (a : Lock) :
    List WakelockItem × Bool :=
  match getWakelockItem clientList a.name with
  | some pos => (Registry.update addLock pos clientList, true)
  | none =>
    match newWakelockItem allocated a with
    | some item => (item :: clientList, true)
    | none => (clientList, false)

/-- `unregister_wakelock`. -/
def unregisterWakelock (clientList : List WakelockItem) (name : CStr) : List WakelockItem × Bool :=
  match getWakelockItem clientList name with
  | some pos => (Registry.update dropLock pos clientList, true)
  | none => (clientList, false)

@[simp] theorem addLock_name (pos : WakelockItem) : (addLock pos).name = pos.name := rfl

@[simp] theorem dropLock_name (pos : WakelockItem) : (dropLock pos).name = pos.name := by
  unfold dropLock
  split_ifs <;> rfl

@[simp] theorem dropLock_cuntMax (pos : WakelockItem) :
    (dropLock pos).cuntMax = pos.cuntMax := by
  unfold dropLock
  split_ifs <;> rfl

@[simp] theorem dropLock_isCountWakelock (pos : WakelockItem) :
    (dropLock pos).isCountWakelock = pos.isCountWakelock := by
  unfold dropLock
  split_ifs <;> rfl

/-! ## Requests -/

inductive Request where
  | lock (a : Lock)
  | unlock (name : CStr)
deriving DecidableEq

def Request.name : Request → CStr
  | .lock a => a.name
  | .unlock name => name

/-- One request, with memory for a new item; the outside sees what is returned. -/
def step : Step (List WakelockItem) Request Bool := fun clientList r =>
  match r with
  | .lock a =>
    let (clientList, ok) := registerWakelock true clientList a
    some (clientList, [ok])
  | .unlock name =>
    let (clientList, ok) := unregisterWakelock clientList name
    some (clientList, [ok])

/-! ## What the requests say -/

def isLockOf (name : CStr) : Request → Bool
  | .lock a => a.name = name
  | .unlock _ => false

def isUnlockOf (name : CStr) : Request → Bool
  | .lock _ => false
  | .unlock name' => name' = name

/-- How often a name was locked. -/
def locks (name : CStr) (reqs : List Request) : Nat :=
  reqs.countP (isLockOf name)

/-- The type a lock of a name asks for. -/
def lockType (name : CStr) : Request → Option Bool
  | .lock a => if a.name = name then some a.cntWakelock else none
  | .unlock _ => none

/-- The type its first lock asked for. -/
def firstType (name : CStr) (reqs : List Request) : Option Bool :=
  reqs.findSome? (lockType name)

/-- Locks less unlocks, as the requests come, and never below zero. -/
def balance (name : CStr) (reqs : List Request) : Nat :=
  reqs.foldl
    (fun n r => if isLockOf name r then n + 1 else if isUnlockOf name r then n - 1 else n) 0

/-- Locks behind the last unlock. -/
def locksSinceUnlock (name : CStr) (reqs : List Request) : Nat :=
  (reqs.reverse.takeWhile fun r => !isUnlockOf name r).countP (isLockOf name)

section Requests

variable (name : CStr) (reqs : List Request) (r : Request)

/-- The locks of a name, one request later. -/
theorem locks_snoc :
    locks name (reqs ++ [r]) = locks name reqs + if isLockOf name r then 1 else 0 := by
  rw [locks, List.countP_append, List.countP_singleton, locks]

/-- The locks that are not unlocked yet, one request later. -/
theorem balance_snoc :
    balance name (reqs ++ [r]) =
      if isLockOf name r then balance name reqs + 1
      else if isUnlockOf name r then balance name reqs - 1 else balance name reqs := by
  rw [balance, List.foldl_append, List.foldl_cons, List.foldl_nil, balance]

/-- The locks since the last unlock, one request later. -/
theorem locksSinceUnlock_snoc :
    locksSinceUnlock name (reqs ++ [r]) =
      if isUnlockOf name r then 0
      else locksSinceUnlock name reqs + if isLockOf name r then 1 else 0 := by
  rw [locksSinceUnlock, List.reverse_append, List.reverse_singleton, List.singleton_append,
    List.takeWhile_cons, locksSinceUnlock]
  cases isUnlockOf name r with
  | true => rfl
  | false => exact List.countP_cons

/-- No more are open than were made. -/
theorem balance_le_locks : balance name reqs ≤ locks name reqs := by
  induction reqs using List.reverseRecOn with
  | nil => exact Nat.le_refl 0
  | append_singleton reqs r ih =>
    rw [balance_snoc, locks_snoc]
    split_ifs <;> omega

/-- No more came since the last unlock than came at all. -/
theorem locksSinceUnlock_le_locks : locksSinceUnlock name reqs ≤ locks name reqs := by
  induction reqs using List.reverseRecOn with
  | nil => exact Nat.le_refl 0
  | append_singleton reqs r ih =>
    rw [locksSinceUnlock_snoc, locks_snoc]
    split_ifs <;> omega

/-- No more locks than requests. -/
theorem locks_le_length : locks name reqs ≤ reqs.length :=
  List.countP_le_length

/-- The first lock of a name says what kind it is. -/
theorem firstType_snoc :
    firstType name (reqs ++ [r]) = (firstType name reqs).or (lockType name r) := by
  rw [firstType, List.findSome?_append, firstType, List.findSome?_singleton]

/-- A name that was never locked has no kind. -/
theorem firstType_of_locks_eq_zero (h : locks name reqs = 0) : firstType name reqs = none := by
  rw [locks, List.countP_eq_zero] at h
  rw [firstType, List.findSome?_eq_none_iff]
  intro r hr
  cases r with
  | lock a => exact if_neg fun ha => h _ hr (decide_eq_true ha)
  | unlock name' => rfl

end Requests

/-! ## What an item counts -/

/-- How many locks of an item are held. -/
def held (reqs : List Request) (pos : WakelockItem) : Nat :=
  if pos.isCountWakelock then balance pos.name reqs else locksSinceUnlock pos.name reqs

/-- The item says what the requests so far say. -/
structure Counts (reqs : List Request) (pos : WakelockItem) : Prop where
  cuntMax : pos.cuntMax.toInt = locks pos.name reqs
  cunt : pos.cunt.toInt = held reqs pos
  type : firstType pos.name reqs = some pos.isCountWakelock

section Item

variable {reqs : List Request} {pos : WakelockItem}

/-- No more are held than were made. -/
theorem held_le_locks (reqs : List Request) (pos : WakelockItem) :
    held reqs pos ≤ locks pos.name reqs := by
  unfold held
  split
  · exact balance_le_locks pos.name reqs
  · exact locksSinceUnlock_le_locks pos.name reqs

/-- The counter of an item is between zero and its maximum. -/
theorem Counts.range (h : Counts reqs pos) :
    0 ≤ pos.cunt.toInt ∧ pos.cunt.toInt ≤ pos.cuntMax.toInt := by
  have hle := held_le_locks reqs pos
  rw [h.cunt, h.cuntMax]
  exact ⟨Int.natCast_nonneg _, Int.ofNat_le.mpr hle⟩

/-- A request for another name. -/
theorem Counts.other (h : Counts reqs pos) {r : Request} (hne : r.name ≠ pos.name) :
    Counts (reqs ++ [r]) pos := by
  have hlock : isLockOf pos.name r = false := by
    cases r with
    | lock a => exact decide_eq_false hne
    | unlock name => rfl
  have hunlock : isUnlockOf pos.name r = false := by
    cases r with
    | lock a => rfl
    | unlock name => exact decide_eq_false hne
  have htype : lockType pos.name r = none := by
    cases r with
    | lock a => exact if_neg hne
    | unlock name => rfl
  refine ⟨?_, ?_, ?_⟩
  · rw [h.cuntMax, locks_snoc, hlock]
    rfl
  · rw [h.cunt, held, held, balance_snoc, locksSinceUnlock_snoc, hlock, hunlock]
    rfl
  · rw [firstType_snoc, htype, h.type]
    rfl

/-- A new item. -/
theorem counts_newWakelockItem {a : Lock} (h : locks a.name reqs = 0)
    (hnew : newWakelockItem true a = some pos) : Counts (reqs ++ [.lock a]) pos := by
  cases hnew
  have hlock : isLockOf a.name (.lock a) = true := decide_eq_true rfl
  -- unlocks before the first lock leave nothing to count
  have hbalance : balance a.name reqs = 0 := by
    have := balance_le_locks a.name reqs
    omega
  have hsince : locksSinceUnlock a.name reqs = 0 := by
    have := locksSinceUnlock_le_locks a.name reqs
    omega
  refine ⟨?_, ?_, ?_⟩
  · rw [locks_snoc, hlock, h]
    rfl
  · rw [held]
    dsimp only
    rw [balance_snoc, locksSinceUnlock_snoc, hlock, hbalance, hsince]
    cases a.cntWakelock <;> rfl
  · rw [firstType_snoc, firstType_of_locks_eq_zero _ _ h]
    exact if_pos rfl

/-- One more lock. -/
theorem Counts.lock (h : Counts reqs pos) (hlen : reqs.length < 2147483647) {a : Lock}
    (ha : a.name = pos.name) : Counts (reqs ++ [.lock a]) (addLock pos) := by
  have hlock : isLockOf pos.name (.lock a) = true := decide_eq_true ha
  -- neither counter can be at `INT_MAX` yet
  have hlocks := locks_le_length pos.name reqs
  have hheld := held_le_locks reqs pos
  refine ⟨?_, ?_, ?_⟩
  · show (pos.cuntMax + 1).toInt = _
    rw [toInt_add_one (by rw [h.cuntMax]; omega) (by rw [h.cuntMax]; omega), h.cuntMax,
      addLock_name, locks_snoc, hlock]
    rfl
  · show (pos.cunt + 1).toInt = _
    rw [toInt_add_one (by rw [h.cunt]; omega) (by rw [h.cunt]; omega), h.cunt, held, held,
      addLock_name, balance_snoc, locksSinceUnlock_snoc, hlock]
    show _ = ((if pos.isCountWakelock then _ else _ : Nat) : Int)
    cases pos.isCountWakelock <;> rfl
  · rw [addLock_name, firstType_snoc, h.type]
    rfl

/-- An unlock. -/
theorem Counts.unlock (h : Counts reqs pos) :
    Counts (reqs ++ [.unlock pos.name]) (dropLock pos) := by
  have hunlock : isUnlockOf pos.name (.unlock pos.name) = true := decide_eq_true rfl
  refine ⟨?_, ?_, ?_⟩
  · rw [dropLock_cuntMax, dropLock_name, h.cuntMax, locks_snoc]
    rfl
  · have hcunt := h.cunt
    rw [held, dropLock_isCountWakelock, dropLock_name, balance_snoc, locksSinceUnlock_snoc, hunlock]
    rw [held] at hcunt
    unfold dropLock
    cases hcount : pos.isCountWakelock with
    | false => rfl
    | true =>
      -- the code stops at zero, as subtraction on `Nat` does
      rw [hcount, if_pos rfl] at hcunt
      rw [if_pos rfl, if_pos rfl]
      show _ = ((balance pos.name reqs - 1 : Nat) : Int)
      split
      · next hpos =>
        have hpos : 0 < pos.cunt.toInt := Int32.lt_iff_toInt_lt.mp hpos
        show (pos.cunt - 1).toInt = _
        rw [toInt_sub_one hpos]
        omega
      · next hpos =>
        have hpos : ¬ 0 < pos.cunt.toInt := fun h => hpos (Int32.lt_iff_toInt_lt.mpr h)
        omega
  · rw [dropLock_name, dropLock_isCountWakelock, firstType_snoc, h.type]
    rfl

end Item

/-! ## The list -/

/-- One item for each name ever locked, and each counts its own locks. -/
structure Consistent (reqs : List Request) (l : List WakelockItem) : Prop where
  nodup : (l.map WakelockItem.name).Nodup
  mem_iff : ∀ name, name ∈ l.map WakelockItem.name ↔ 0 < locks name reqs
  counts : ∀ pos ∈ l, Counts reqs pos

section List

variable {reqs : List Request} {l : List WakelockItem}

/-- The empty list, before any request. -/
theorem consistent_nil : Consistent [] [] :=
  ⟨List.nodup_nil, fun _ => ⟨fun h => (nomatch h), fun h => (nomatch h)⟩, fun _ h => nomatch h⟩

/-- A request for another name. -/
theorem locks_snoc_of_ne {name : CStr} {r : Request} (h : r.name ≠ name) :
    locks name (reqs ++ [r]) = locks name reqs := by
  rw [locks_snoc]
  cases r with
  | lock a =>
    have hlock : isLockOf name (.lock a) = false := decide_eq_false h
    rw [hlock]
    rfl
  | unlock name' => rfl

/-- The item of the request is updated. -/
theorem Consistent.update (h : Consistent reqs l) {r : Request} {f : WakelockItem → WakelockItem}
    (hname : ∀ pos, (f pos).name = pos.name) {p : Nat} (hp : getWakelockItem l r.name = some p)
    (hf : ∀ pos, Counts reqs pos → r.name = pos.name → Counts (reqs ++ [r]) (f pos)) :
    Consistent (reqs ++ [r]) (Registry.update f p l) := by
  have hkeys := Registry.map_key_update hname p l
  refine ⟨hkeys ▸ h.nodup, fun name => ?_, fun pos hpos => ?_⟩
  · rw [hkeys]
    by_cases hr : r.name = name
    · -- the name was found, so it was locked before
      have hmem : name ∈ l.map WakelockItem.name := by
        by_contra hnot
        rw [← hr, ← Registry.find_eq_none_iff] at hnot
        cases hp.symm.trans hnot
      have := (h.mem_iff name).mp hmem
      rw [locks_snoc]
      exact iff_of_true hmem (by omega)
    · rw [locks_snoc_of_ne hr]
      exact h.mem_iff name
  · rw [Registry.update_of_find f h.nodup hp] at hpos
    obtain ⟨pos, hmem, rfl⟩ := List.mem_map.mp hpos
    split
    · next heq => exact hf pos (h.counts pos hmem) heq.symm
    · next hne => exact (h.counts pos hmem).other (Ne.symm hne)

/-- A name without an item was never locked. -/
theorem Consistent.locks_eq_zero (h : Consistent reqs l) {name : CStr}
    (hnone : getWakelockItem l name = none) : locks name reqs = 0 := by
  have hnot : name ∉ l.map WakelockItem.name := (Registry.find_eq_none_iff name l).mp hnone
  rw [h.mem_iff] at hnot
  omega

/-- A name locked for the first time. -/
theorem Consistent.insert (h : Consistent reqs l) {a : Lock} {item : WakelockItem}
    (hnone : getWakelockItem l a.name = none) (hnew : newWakelockItem true a = some item) :
    Consistent (reqs ++ [.lock a]) (item :: l) := by
  have hname : item.name = a.name := by
    cases hnew
    rfl
  have hnot : a.name ∉ l.map WakelockItem.name := (Registry.find_eq_none_iff a.name l).mp hnone
  refine ⟨?_, fun name => ?_, fun pos hpos => ?_⟩
  · rw [List.map_cons, hname]
    exact List.nodup_cons.mpr ⟨hnot, h.nodup⟩
  · rw [List.map_cons, hname, List.mem_cons]
    by_cases hr : a.name = name
    · have hlock : isLockOf name (.lock a) = true := decide_eq_true hr
      rw [locks_snoc, hlock]
      exact iff_of_true (.inl hr.symm) (Nat.succ_pos _)
    · rw [locks_snoc_of_ne (r := .lock a) hr, h.mem_iff]
      exact or_iff_right (Ne.symm hr)
  · rcases List.mem_cons.mp hpos with rfl | hpos
    · exact counts_newWakelockItem (h.locks_eq_zero hnone) hnew
    · refine (h.counts pos hpos).other fun hr : a.name = pos.name => hnot ?_
      exact hr ▸ List.mem_map_of_mem hpos

/-- A name that was never locked is unlocked. -/
theorem Consistent.unknown (h : Consistent reqs l) {name : CStr}
    (hnone : getWakelockItem l name = none) : Consistent (reqs ++ [.unlock name]) l := by
  have hnot : name ∉ l.map WakelockItem.name := (Registry.find_eq_none_iff name l).mp hnone
  refine ⟨h.nodup, fun name' => ?_, fun pos hpos => ?_⟩
  · rw [locks_snoc]
    exact h.mem_iff name'
  · refine (h.counts pos hpos).other fun hr : name = pos.name => hnot ?_
    exact hr ▸ List.mem_map_of_mem hpos

/-- **A request keeps the list consistent** with the requests so far. -/
theorem consistent_step (h : Consistent reqs l) (hlen : reqs.length < 2147483647) (r : Request) :
    ∃ l' o, step l r = some (l', o) ∧ Consistent (reqs ++ [r]) l' := by
  cases r with
  | lock a =>
    refine ⟨_, _, rfl, ?_⟩
    show Consistent _ (registerWakelock true l a).1
    cases hfind : getWakelockItem l a.name with
    | some p =>
      rw [registerWakelock, hfind]
      exact h.update addLock_name hfind fun pos hpos ha => hpos.lock hlen ha
    | none =>
      rw [registerWakelock, hfind]
      exact h.insert hfind rfl
  | unlock name =>
    refine ⟨_, _, rfl, ?_⟩
    show Consistent _ (unregisterWakelock l name).1
    cases hfind : getWakelockItem l name with
    | some p =>
      rw [unregisterWakelock, hfind]
      refine h.update dropLock_name hfind fun pos hpos hname => ?_
      cases (hname : name = pos.name)
      exact hpos.unlock
    | none =>
      rw [unregisterWakelock, hfind]
      exact h.unknown hfind

/-- **Any number of requests.** -/
theorem run_consistent (reqs : List Request) (hlen : reqs.length < 2147483648) :
    ∃ l o, run step [] reqs = some (l, o) ∧ Consistent reqs l := by
  have hmeet : StepsMeet step (fun h _ _ _ => h.length < 2147483647) [] reqs := by
    intro pre r hpre _ _ _
    have hle := hpre.length_le
    rw [List.length_append, List.length_singleton] at hle
    omega
  exact run_invariant (I := fun h _ l => Consistent h l)
    (fun _ _ _ r hI hP => consistent_step hI hP r) consistent_nil hmeet

end List

/-- A request changes no item of another name. -/
theorem step_frame {l l' : List WakelockItem} {r : Request} {o : List Bool}
    (h : step l r = some (l', o)) :
    l'.filter (fun pos => pos.name ≠ r.name) = l.filter fun pos => pos.name ≠ r.name := by
  cases r with
  | lock a =>
    cases h
    show (registerWakelock true l a).1.filter _ = _
    cases hfind : getWakelockItem l a.name with
    | some p =>
      rw [registerWakelock, hfind]
      exact Registry.filter_update_of_find addLock_name hfind
    | none =>
      rw [registerWakelock, hfind]
      exact List.filter_cons_of_neg (by simp [Request.name])
  | unlock name =>
    cases h
    show (unregisterWakelock l name).1.filter _ = _
    cases hfind : getWakelockItem l name with
    | some p =>
      rw [unregisterWakelock, hfind]
      exact Registry.filter_update_of_find dropLock_name hfind
    | none => rw [unregisterWakelock, hfind]

/-- An unlock of a name without an item does nothing. -/
theorem step_unlock_of_notMem {l : List WakelockItem} {name : CStr}
    (h : name ∉ l.map WakelockItem.name) : step l (.unlock name) = some (l, [false]) := by
  have hfind : getWakelockItem l name = none := (Registry.find_eq_none_iff name l).mpr h
  rw [step, unregisterWakelock, hfind]

/-- **Bookkeeping.** After any requests the list has one item for each name ever
locked, and the item says how often, how many of these are held and of which
type they are. An unlock of another name leaves it as it is, and so does every
request for the items of other names. -/
theorem wakelocks_counted (reqs : List Request) (hlen : reqs.length < 2 ^ 31) :
    ∃ l o, run step [] reqs = some (l, o) ∧ (l.map WakelockItem.name).Nodup ∧
      (∀ name, name ∈ l.map WakelockItem.name ↔ 0 < locks name reqs) ∧
      (∀ pos ∈ l, pos.cuntMax.toInt = locks pos.name reqs ∧
        0 ≤ pos.cunt.toInt ∧ pos.cunt.toInt ≤ pos.cuntMax.toInt ∧
        firstType pos.name reqs = some pos.isCountWakelock ∧
        pos.cunt.toInt = (if pos.isCountWakelock then balance pos.name reqs
          else locksSinceUnlock pos.name reqs : Nat)) ∧
      (∀ name ∉ l.map WakelockItem.name, step l (.unlock name) = some (l, [false])) ∧
      ∀ r l' o', step l r = some (l', o') →
        l'.filter (fun pos => pos.name ≠ r.name) = l.filter fun pos => pos.name ≠ r.name := by
  obtain ⟨l, o, hrun, h⟩ := run_consistent reqs hlen
  refine ⟨l, o, hrun, h.nodup, h.mem_iff, fun pos hpos => ?_,
    fun name hname => step_unlock_of_notMem hname, fun r l' o' hstep => step_frame hstep⟩
  have hcounts := h.counts pos hpos
  exact ⟨hcounts.cuntMax, hcounts.range.1, hcounts.range.2, hcounts.type, hcounts.cunt⟩

/-- A lock `a`, taken twice and released once. -/
def lockA : Lock := ⟨true, ⟨ascii "a", by decide⟩, none, 1, 1⟩

/-- Twice taken, once released. -/
theorem wakelocks_counted_twice :
    ∃ l o, run step [] [.lock lockA, .lock lockA, .unlock lockA.name] = some (l, o) ∧
      lockA.name ∈ l.map WakelockItem.name ∧
      ∀ pos ∈ l, pos.name = lockA.name → pos.cuntMax.toInt = 2 ∧ pos.cunt.toInt = 1 := by
  obtain ⟨l, o, hrun, -, hmem, hcounts, -⟩ :=
    wakelocks_counted [.lock lockA, .lock lockA, .unlock lockA.name] (by decide)
  refine ⟨l, o, hrun, (hmem lockA.name).mpr (by decide), fun pos hpos hname => ?_⟩
  obtain ⟨hmax, -, -, htype, hcunt⟩ := hcounts pos hpos
  rw [hname] at hmax htype hcunt
  have hcount : pos.isCountWakelock = true := (Option.some.inj htype).symm
  rw [hcount] at hcunt
  exact ⟨hmax, hcunt⟩

end Lidbg.WakelockStat
