import Lidbg.Machine.Run
import Lidbg.Drivers.Enter

/-!
# The ignition driver (`drivers/acc/lidbg_acc.c`)

Ignition and power come from user space through `acc_write`; the kernel calls
`acc_early_suspend`, `acc_late_resume`, `acc_suspend` and `acc_resume`, and the
notifier chain `lidbg_acc_state`. After a power-off `thread_acc_suspend` counts
the seconds the system stays in early suspend; from the 120th on it forces the
suspend by `ignore_wakelock`. The thread looks at `suspend_state` only, which
`acc_on` leaves as it is.

`respectsWakelocks_iff`: no suspend is forced with the ignition on exactly when
the thread makes no such step while `acc_flag` is set.
-/

namespace Lidbg.Acc

open Machine Drivers

/-- Where `thread_acc_suspend` stands: in `wait_for_completion`, in the seconds of
`msleep(5000)`, or in its loop with `time_count`. -/
inductive ThreadPc where
  | wait
  | sleep (seconds : Nat)
  | loop (timeCount : Nat)
deriving DecidableEq

/-- The module's variables and what it uses of `g_var` and `plidbg_acc`;
`suspendStart` counts the completions of `suspend_start`. -/
structure State where
  accFlag : Bool
  fakeSuspend : Bool
  ignoreWakelock : Bool
  suspendState : PmStatus
  suspendStart : Nat
  mdpFlag : Bool
  resumeCount : UInt32
  poweroffCount : UInt32
  accoffCount : UInt32
  thread : ThreadPc

/-- `power` carries `g_var.is_fly`, `earlySuspend` what `find_unsafe_clk` finds:
whether a clock blocks suspend and whether it switched the mdp pipe off. -/
inductive Event where
  | accOn
  | accOff
  | power (isFly : Bool)
  | earlySuspend (unsafeClk mdpOff : Bool)
  | lateResume
  | suspend
  | resume
  | systemOff
  | systemOn
  | tick

/-- What the driver does outside of its variables. -/
inductive Action where
  | servicer (cmd : Nat)
  | notify (event : AccEvent)
  | accStatusCorrect
  | quickResume
  | killExclude
  | showWakelock (fileLog : Bool)
  | mdpPipeOn

/-- `acc_write`, by the word written. -/
def accOn (s : State) : State × List Action :=
  ({ s with ignoreWakelock := false, accFlag := true, fakeSuspend := true },
    [.accStatusCorrect, .servicer cmdAccOn, .notify .accOn])

@[inherit_doc accOn]
def accOff (s : State) : State × List Action :=
  ({ s with accFlag := false, fakeSuspend := true, accoffCount := s.accoffCount + 1 },
    [.accStatusCorrect, .servicer cmdAccOff, .notify .accOff])

@[inherit_doc accOn]
def power (s : State) (isFly : Bool) : State × List Action :=
  ({ s with
      fakeSuspend := false
      poweroffCount := s.poweroffCount + 1
      suspendStart := s.suspendStart + 1 },
    [.notify .powerOff, .servicer cmdFlyPowerOff] ++
      if isFly then [] else [.servicer logLogcat])

/-- `acc_early_suspend`. -/
def accEarlySuspend (s : State) (unsafeClk mdpOff : Bool) : State × List Action :=
  let s := { s with suspendState := .earlySuspendPending }
  if !s.fakeSuspend && !s.accFlag then
    ({ s with mdpFlag := s.mdpFlag || mdpOff },
      (if unsafeClk then [.quickResume] else []) ++ [.killExclude])
  else (s, [])

/-- `acc_late_resume`. -/
def accLateResume (s : State) : State × List Action :=
  ({ s with mdpFlag := false, suspendState := .lateResumeOk },
    if s.mdpFlag then [.mdpPipeOn] else [])

/-- `acc_suspend`. -/
def accSuspend (s : State) : State × List Action :=
  ({ s with suspendState := .suspendPending }, [])

/-- `acc_resume`. -/
def accResume (s : State) : State × List Action :=
  ({ s with
      ignoreWakelock := false
      suspendState := .resumeOk
      resumeCount := s.resumeCount + 1 }, [])

/-- The body of the thread's loop, in early suspend. -/
def waitSuspend (s : State) (timeCount : Nat) : State × List Action :=
  if 10 ≤ timeCount then
    ({ s with ignoreWakelock := s.ignoreWakelock || decide (120 ≤ timeCount) },
      (if timeCount % 5 = 0 then [.showWakelock false] else []) ++
      (if timeCount % 10 = 0 then [.killExclude] else []) ++
      (if timeCount = 115 then [.servicer cmdIgnoreWakelock] else []) ++
      (if 120 ≤ timeCount then [.showWakelock true] else []))
  else (s, [])

/-- One second of `thread_acc_suspend`. -/
def threadAccSuspend (s : State) : State × List Action :=
  match s.thread with
  | .wait =>
    if 0 < s.suspendStart then
      ({ s with suspendStart := s.suspendStart - 1, thread := .sleep 5 }, [])
    else (s, [])
  | .sleep seconds =>
    ({ s with thread := if seconds ≤ 1 then .loop 0 else .sleep (seconds - 1) }, [])
  | .loop timeCount =>
    if s.suspendState = .earlySuspendPending then
      waitSuspend { s with thread := .loop (timeCount + 1) } (timeCount + 1)
    else ({ s with thread := .wait }, [])

def accEvent (s : State) (e : Event) : State × List Action :=
  match e with
  | .accOn => accOn s
  | .accOff => accOff s
  | .power isFly => power s isFly
  | .earlySuspend unsafeClk mdpOff => accEarlySuspend s unsafeClk mdpOff
  | .lateResume => accLateResume s
  | .suspend => accSuspend s
  | .resume => accResume s
  | .systemOff => ({ s with suspendState := .earlySuspendPending }, [])
  | .systemOn => ({ s with suspendState := .lateResumeOk }, [])
  | .tick => threadAccSuspend s

def accStep : Step State Event Action := fun s e => some (accEvent s e)

/-- `acc_probe`. -/
def accProbe : State where
  accFlag := true
  fakeSuspend := true
  ignoreWakelock := false
  suspendState := .lateResumeOk
  suspendStart := 0
  mdpFlag := false
  resumeCount := 0
  poweroffCount := 0
  accoffCount := 0
  thread := .wait

/-! ## No forced suspend with the ignition on -/

/-- With the ignition on, wakelocks are respected. -/
def RespectsWakelocks (s : State) : Prop := s.accFlag = true → s.ignoreWakelock = false

/-- The step in which the thread forces the suspend. -/
def forces (s : State) (e : Event) : Bool :=
  match e, s.thread with
  | .tick, .loop timeCount => s.suspendState = .earlySuspendPending ∧ 120 ≤ timeCount + 1
  | _, _ => false

/-- The condition of one step: a suspend is forced only with the ignition off. -/
def ForcesOnlyOff (s : State) (e : Event) : Prop := forces s e → s.accFlag = false

instance (s : State) (e : Event) : Decidable (ForcesOnlyOff s e) := by
  unfold ForcesOnlyOff
  infer_instance

@[simp] theorem waitSuspend_accFlag (s : State) (timeCount : Nat) :
    (waitSuspend s timeCount).1.accFlag = s.accFlag := by
  unfold waitSuspend
  split <;> rfl

@[simp] theorem waitSuspend_ignoreWakelock (s : State) (timeCount : Nat) :
    (waitSuspend s timeCount).1.ignoreWakelock =
      (s.ignoreWakelock || decide (120 ≤ timeCount)) := by
  unfold waitSuspend
  split
  · rfl
  · simp
    omega

/-- A tick changes `ignore_wakelock` only by forcing the suspend. -/
theorem respects_tick {s : State} (h : RespectsWakelocks s) :
    RespectsWakelocks (threadAccSuspend s).1 ↔ ForcesOnlyOff s .tick := by
  unfold RespectsWakelocks at h ⊢
  unfold threadAccSuspend ForcesOnlyOff forces
  cases hthread : s.thread with
  | wait =>
    simp only [Bool.false_eq_true, false_implies, iff_true]
    split <;> exact h
  | sleep seconds => simpa using h
  | loop timeCount =>
    dsimp only
    split
    · next hpending =>
      simp only [waitSuspend_accFlag, waitSuspend_ignoreWakelock, Bool.or_eq_false_iff,
        decide_eq_false_iff_not, decide_eq_true_eq]
      cases hflag : s.accFlag with
      | false => simp
      | true => simp [hpending, h hflag]
    · next hnot => simpa [hnot] using h

/-- **One event.** The other handlers never set `ignore_wakelock`, and the one
that sets `acc_flag` clears it. -/
theorem respects_step (s : State) (e : Event) (h : RespectsWakelocks s) :
    RespectsWakelocks (accEvent s e).1 ↔ ForcesOnlyOff s e := by
  cases e with
  | tick => exact respects_tick h
  | earlySuspend unsafeClk mdpOff =>
    refine iff_of_true ?_ (fun hf => nomatch hf)
    simp only [accEvent, accEarlySuspend]
    split <;> exact h
  | accOn => exact iff_of_true (fun _ => rfl) (fun hf => nomatch hf)
  | accOff => exact iff_of_true (fun hf => nomatch hf) (fun hf => nomatch hf)
  | resume => exact iff_of_true (fun _ => rfl) (fun hf => nomatch hf)
  | power isFly | lateResume | suspend | systemOff | systemOn =>
    exact iff_of_true h (fun hf => nomatch hf)

/-- **No suspend is forced with the ignition on** exactly when no tick of the
thread forces one while `acc_flag` is set. -/
theorem respectsWakelocks_iff (events : List Event) :
    Throughout accStep RespectsWakelocks accProbe events ↔
      StepsMeet accStep (fun _ _ s e => ForcesOnlyOff s e) accProbe events :=
  throughout_iff (fun s e h => ⟨_, _, rfl, respects_step s e h⟩) (fun _ => rfl) events

/-- Ignition off and power off; 119 seconds of early suspend later the ignition
goes on, and the thread wakes before the late resume. -/
def lateIgnition : List Event :=
  [.accOff, .power true, .earlySuspend false false] ++ List.replicate (1 + 5 + 119) .tick ++
    [.accOn, .tick]

theorem lateIgnition_ignored :
    (run accStep accProbe lateIgnition).map (fun r => (r.1.accFlag, r.1.ignoreWakelock)) =
      some (true, true) ∧
    ¬ Throughout accStep RespectsWakelocks accProbe lateIgnition := by
  have hrun : (run accStep accProbe lateIgnition).map
      (fun r => (r.1.accFlag, r.1.ignoreWakelock)) = some (true, true) := by
    decide +kernel
  refine ⟨hrun, fun h => ?_⟩
  obtain ⟨⟨s, o⟩, hso, hs⟩ := Option.map_eq_some_iff.mp hrun
  have hok := h lateIgnition List.prefix_rfl s o hso
  simp only [Prod.mk.injEq] at hs
  rw [hok hs.1] at hs
  exact absurd hs.2 (by decide)

end Lidbg.Acc
