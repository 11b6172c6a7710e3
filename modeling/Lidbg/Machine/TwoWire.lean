import Lidbg.Machine.Run

/-!
# Two-wire signalling

What a receiver makes of the levels of a clock and a data line. While the clock
is high, a falling data line is a START and a rising one a STOP. A bit is the
data line at a rising clock, and counts when the clock falls again with nothing
in between.
-/

namespace Lidbg.Machine

/-- The levels of the two lines. -/
structure Level where
  scl : Bool
  sda : Bool

inductive Symbol where
  | start
  | stop
  | bit (b : Bool)
deriving DecidableEq

/-- The last levels and the bit of the clock pulse under way. -/
structure Receiver where
  last : Level
  pending : Option Bool

/-- The next levels. -/
def receive : Step Receiver Level Symbol := fun r l =>
  match r.last.scl, l.scl with
  | true, true =>
    if r.last.sda = l.sda then some (⟨l, r.pending⟩, [])
    else some (⟨l, none⟩, [if l.sda then .stop else .start])
  | false, true => some (⟨l, some l.sda⟩, [])
  | true, false => some (⟨l, none⟩, r.pending.toList.map .bit)
  | false, false => some (⟨l, r.pending⟩, [])

/-- The symbols a line shows, from rest. -/
def symbols (levels : List Level) : Option (List Symbol) :=
  (run receive ⟨⟨true, true⟩, none⟩ levels).map Prod.snd

/-! ## Every change counts -/

/-- How often the data line changes while the clock is high. -/
def changesHigh : Level → List Level → Nat
  | _, [] => 0
  | l, l' :: rest =>
    (if l.scl && l'.scl && l.sda != l'.sda then 1 else 0) + changesHigh l' rest

/-- A START or a STOP. -/
def Symbol.isCondition : Symbol → Bool
  | .start => true
  | .stop => true
  | .bit _ => false

/-- One change of levels. -/
theorem receive_conditions {r r' : Receiver} {l : Level} {syms : List Symbol}
    (h : receive r l = some (r', syms)) :
    r'.last = l ∧ syms.countP Symbol.isCondition =
      if r.last.scl && l.scl && r.last.sda != l.sda then 1 else 0 := by
  obtain ⟨⟨scl, sda⟩, pending⟩ := r
  obtain ⟨scl', sda'⟩ := l
  cases scl <;> cases scl' <;> cases sda <;> cases sda' <;> cases pending <;>
    simp_all [receive, Symbol.isCondition] <;> simp [← h, Symbol.isCondition]

/-- **The data line changes under a high clock only at a START or a STOP.** -/
theorem changesHigh_eq {r r' : Receiver} {levels : List Level} {syms : List Symbol}
    (h : run receive r levels = some (r', syms)) :
    changesHigh r.last levels = syms.countP Symbol.isCondition := by
  induction levels generalizing r syms with
  | nil =>
    cases h
    rfl
  | cons l levels ih =>
    obtain ⟨r₁, s₁, s₂, hstep, hrest, rfl⟩ := run_cons_inv h
    obtain ⟨hlast, hcount⟩ := receive_conditions hstep
    rw [changesHigh, List.countP_append, hcount, ← ih hrest, hlast]

end Lidbg.Machine
