import Lidbg.Machine.Prog
import Mathlib.Data.List.Basic
import Mathlib.Logic.Function.Basic

/-!
# The keys of an input device

An input device is told that a key goes down or up. It passes this on if it has the key and
the key is not so already.

- `run_clicks`: keys that are told down and up, one after the other, are passed on as they are.
- `down_pending`: where several programs tell the device, and each tells the up of what it tells
  the down of, a key that is down is one that some program goes on to tell the up of.
-/

namespace Lidbg.Machine

/-- A key, and whether it goes down. -/
abbrev KeyReport : Type := UInt32 × Bool

/-- A device: the keys it has, and those that are down. -/
structure KeyDev where
  keybit : UInt32 → Bool
  down : UInt32 → Bool

namespace KeyDev

/-- `input_report_key`. -/
def reportKey (dev : KeyDev) (r : KeyReport) : KeyDev :=
  if dev.keybit r.1 then { dev with down := Function.update dev.down r.1 r.2 } else dev

/-- What is passed on of it. -/
def passes (dev : KeyDev) (r : KeyReport) : List KeyReport :=
  if dev.keybit r.1 ∧ dev.down r.1 ≠ r.2 then [r] else []

/-- The device, a report at a time. -/
def keyStep : Step KeyDev KeyReport KeyReport := fun dev r =>
  some (dev.reportKey r, dev.passes r)

/-- The same for programs that do not look at it. -/
def keyHandler : Handler KeyDev KeyReport (fun _ => Unit) := fun dev r =>
  some (dev.reportKey r, ())

/-- A key goes down and up. -/
def click (code : UInt32) : List KeyReport := [(code, true), (code, false)]

variable {dev : KeyDev}

@[simp] theorem keybit_reportKey (dev : KeyDev) (r : KeyReport) :
    (dev.reportKey r).keybit = dev.keybit := by
  unfold reportKey
  split <;> rfl

theorem down_reportKey_of_ne {r : KeyReport} {code : UInt32} (h : code ≠ r.1) :
    (dev.reportKey r).down code = dev.down code := by
  unfold reportKey
  split
  · exact Function.update_of_ne h _ _
  · rfl

/-- A key that is told up is up, also if the device does not have it. -/
theorem down_reportKey_up {code : UInt32} (h : dev.keybit code = false → dev.down code = false) :
    (dev.reportKey (code, false)).down code = false := by
  unfold reportKey
  split
  · exact Function.update_self _ _ _
  · next hbit => exact h (Bool.eq_false_iff.mpr hbit)

/-- One key, on a device with no key down. -/
theorem run_click (hup : ∀ code, dev.down code = false) (code : UInt32) :
    run keyStep dev (click code) = some (dev, if dev.keybit code then click code else []) := by
  cases hbit : dev.keybit code with
  | false =>
    have hreport (value : Bool) : dev.reportKey (code, value) = dev := if_neg (by simp [hbit])
    have hpasses (value : Bool) : dev.passes (code, value) = [] := if_neg (by simp [hbit])
    simp [click, run, keyStep, hreport, hpasses]
  | true =>
    have hback : Function.update (Function.update dev.down code true) code false = dev.down := by
      rw [Function.update_idem, ← hup code, Function.update_eq_self]
    simp [click, run, keyStep, reportKey, passes, hbit, hup, hback]

/-- **Keys, one after the other.** -/
theorem run_clicks (hup : ∀ code, dev.down code = false) (codes : List UInt32) :
    run keyStep dev (codes.flatMap click) =
      some (dev, (codes.filter dev.keybit).flatMap click) := by
  induction codes with
  | nil => rfl
  | cons code codes ih =>
    rw [List.flatMap_cons, run_append (run_click hup code) ih]
    cases hbit : dev.keybit code with
    | false => simp [hbit]
    | true => simp [hbit, click]

/-! ## Several programs -/

/-- A program that tells the device these. -/
def reports : List KeyReport → Prog KeyReport (fun _ => Unit) Unit
  | [] => .done ()
  | r :: rest => .op r fun _ => reports rest

/-- Behind each down there is an up of the same key. -/
def Released (rs : List KeyReport) : Prop :=
  ∀ pre code post, rs = pre ++ (code, true) :: post → (code, false) ∈ post

theorem released_nil : Released [] := by
  intro pre code post h
  cases pre <;> cases h

theorem Released.of_cons {r : KeyReport} {rs : List KeyReport} (h : Released (r :: rs)) :
    Released rs := by
  intro pre code post hrs
  exact h (r :: pre) code post (by rw [hrs, List.cons_append])

theorem released_cons {r : KeyReport} {rs : List KeyReport}
    (hr : r.2 = true → (r.1, false) ∈ rs) (h : Released rs) : Released (r :: rs) := by
  intro pre code post heq
  cases pre with
  | nil =>
    obtain ⟨rfl, rfl⟩ := List.cons_eq_cons.mp heq
    exact hr rfl
  | cons r' pre =>
    obtain ⟨-, hrs⟩ := List.cons_eq_cons.mp heq
    exact h pre code post hrs

/-- A key that is down is one that the device has, and that a program tells the up of. -/
def Pending (dev : KeyDev) (threads : List (List KeyReport)) : Prop :=
  ∀ code, dev.down code = true → dev.keybit code = true ∧ ∃ rs ∈ threads, (code, false) ∈ rs

theorem Pending.report {threads : List (List KeyReport)} {i : Nat} {r : KeyReport}
    {rest : List KeyReport} (h : Pending dev threads) (hi : threads[i]? = some (r :: rest))
    (hreleased : Released (r :: rest)) :
    Pending (dev.reportKey r) (threads.set i rest) := by
  obtain ⟨hlt, hget⟩ := List.getElem?_eq_some_iff.mp hi
  have hmem : rest ∈ threads.set i rest := List.mem_set hlt rest
  intro code hdown
  rw [keybit_reportKey]
  by_cases hcode : code = r.1
  · subst hcode
    cases hvalue : r.2 with
    | true =>
      have hbit : dev.keybit r.1 = true := by
        by_contra hbit
        rw [reportKey, if_neg hbit] at hdown
        exact hbit (h _ hdown).1
      refine ⟨hbit, rest, hmem, hreleased [] r.1 rest ?_⟩
      rw [← hvalue]
      rfl
    | false =>
      rw [show r = (r.1, false) from Prod.ext rfl hvalue] at hdown
      have hup : dev.keybit r.1 = false → dev.down r.1 = false := by
        intro hbit
        by_contra hne
        rw [(h _ (Bool.not_eq_false _ ▸ hne)).1] at hbit
        cases hbit
      rw [down_reportKey_up hup] at hdown
      cases hdown
  · rw [down_reportKey_of_ne hcode] at hdown
    obtain ⟨hbit, rs, hrs, hin⟩ := h code hdown
    refine ⟨hbit, ?_⟩
    -- the program that tells the up of it is another one, or tells it later
    obtain ⟨j, hj⟩ := List.mem_iff_getElem?.mp hrs
    by_cases hij : i = j
    · subst hij
      cases hi.symm.trans hj
      obtain heq | htail := List.mem_cons.mp hin
      · exact absurd (congrArg Prod.fst heq) hcode
      · exact ⟨rest, hmem, htail⟩
    · refine ⟨rs, List.mem_iff_getElem?.mpr ⟨j, ?_⟩, hin⟩
      rw [List.getElem?_set_ne hij, hj]

/-- **A key that is down goes up again.** -/
theorem down_pending {threads : List (List KeyReport)} (hup : ∀ code, dev.down code = false)
    (hreleased : ∀ rs ∈ threads, Released rs) {schedule : List Nat}
    {s : KeyDev × List (Prog KeyReport (fun _ => Unit) Unit)} {o : List (Nat × KeyReport)}
    (hrun : run (interleave keyHandler) (dev, threads.map reports) schedule = some (s, o)) :
    ∃ rests, s.2 = rests.map reports ∧ Pending s.1 rests := by
  have hI := run_preserves (I := fun s => ∃ rests : List (List KeyReport),
    s.2 = rests.map reports ∧ (∀ rs ∈ rests, Released rs) ∧ Pending s.1 rests)
    (fun s i s' p hI hs => ?_) ⟨threads, rfl, hreleased, fun code hdown => ?_⟩ hrun
  · obtain ⟨rests, hrests, -, hpending⟩ := hI
    exact ⟨rests, hrests, hpending⟩
  · obtain ⟨rests, hrests, hrel, hpending⟩ := hI
    rcases interleave_cases keyHandler s.1 s.2 i with hstep | ⟨r, next, d, u, hp, hr, hstep⟩
    · cases hstep.symm.trans hs
      exact ⟨rests, hrests, hrel, hpending⟩
    · cases hstep.symm.trans hs
      cases hr
      rw [hrests, List.getElem?_map] at hp
      obtain ⟨rs, hrs, hprog⟩ := Option.map_eq_some_iff.mp hp
      cases rs with
      | nil => cases hprog
      | cons r' rest =>
        cases hprog
        have hall : Released (r :: rest) := hrel _ (List.mem_of_getElem? hrs)
        refine ⟨rests.set i rest, ?_, fun rs' hrs' => ?_, hpending.report hrs hall⟩
        · rw [hrests, List.map_set]
        · obtain hold | rfl := List.mem_or_eq_of_mem_set hrs'
          · exact hrel rs' hold
          · exact hall.of_cons
  · rw [hup] at hdown
    cases hdown

end KeyDev

end Lidbg.Machine
