import Lidbg.Machine.Run
import Lidbg.Drivers.Enter

/-!
# Fast boot (`drivers/fastboot/lidbg_fastboot.c`)

While the system is up the driver holds the wakelock `flywakelock`, so that only
a requested power-off suspends it. The lock is taken at probe and when the
system comes back from suspend, dropped in early suspend, and taken in late
resume if the resume was a quick one. A resume that is not, before the system
ever suspended, leaves it dropped. The status is also set from outside of the
module, by `SOC_PWR_SetStatus`.

`holdsLock_iff`: the lock is held whenever the status is
`PM_STATUS_LATE_RESUME_OK` exactly when every step that could break this finds
the lock, or the flags of a quick resume, as it needs them.
-/

namespace Lidbg.Fastboot

open Machine Drivers

/-- What configuration files set. -/
structure Config where
  killTaskEn : Int32
  haslockResumeTimes : Int32
  maxWaitUnlockTime : Int32

/-- Where `thread_fastboot_suspend` stands: in `wait_for_completion`, in its loop
with `time_count`, or writing logs before it forces the suspend. -/
inductive SuspendPc where
  | wait
  | loop (timeCount : Nat)
  | force
deriving DecidableEq

/-- Where `thread_fastboot_resume` stands: in `wait_for_completion`, in
`msleep(3000)`, or in `msleep(1000)`. -/
inductive ResumePc where
  | wait
  | powerOn
  | settle
deriving DecidableEq

/-- `fb_data` and the module's variables. `suspendStart`, `resumeOk` and
`lateSuspendStart` count completions. -/
structure State where
  suspendPending : PmStatus
  resumeCount : UInt32
  config : Config
  clkBlockSuspend : Bool
  hasWakelockCanNotIgnore : Bool
  isQuickResume : Bool
  flywakelock : Bool
  ignoreWakelock : Bool
  wakelockOccurCount : Int32
  lockResumeLastTime : UInt32
  suspendStart : Nat
  resumeOk : Nat
  lateSuspendStart : Nat
  suspendTask : SuspendPc
  resumeTask : ResumePc

/-- A step of `thread_fastboot_suspend` carries whether the wakelock `adsp` is
active and the two values it reads from `GetTickCount`. -/
inductive Event where
  | earlySuspend
  | lateResume
  | resume
  | suspendThread (adsp : Bool) (now now' : UInt32)
  | resumeThread
  | setStatus (status : PmStatus)
  | setConfig (config : Config)

/-- What the driver does outside of its variables. -/
inductive Action where
  | setCpuGovernor (state : Nat)
  | killExclude
  | setPowerState (state : Nat)
  | showWakelock
  | dumpKmsg
  | saveState

/-- `fastboot_task_kill_exclude`, if it is enabled. -/
def killTasks (s : State) : List Action :=
  if s.config.killTaskEn ≠ 0 then [.killExclude] else []

/-- `fastboot_early_suspend`. -/
def earlySuspend (s : State) : State × List Action :=
  ({ s with clkBlockSuspend := false, flywakelock := false, suspendStart := s.suspendStart + 1 },
    [.setCpuGovernor 1] ++ killTasks s ++ [.setCpuGovernor 0])

/-- `fastboot_late_resume`. -/
def lateResume (s : State) : State × List Action :=
  let s :=
    if s.isQuickResume then
      { s with
        flywakelock := s.flywakelock || !s.clkBlockSuspend
        hasWakelockCanNotIgnore := false
        clkBlockSuspend := false
        isQuickResume := false }
    else s
  ({ s with suspendPending := .lateResumeOk }, [])

/-- `fastboot_resume`. -/
def resume (s : State) : State × List Action :=
  ({ s with
      resumeCount := s.resumeCount + 1
      suspendPending := .resumeOk
      flywakelock := true
      resumeOk := s.resumeOk + 1
      ignoreWakelock := false
      wakelockOccurCount := 0 }, [])

/-- A quick resume: the thread powers the system on again and waits. -/
def quickResume (s : State) : State × List Action :=
  ({ s with isQuickResume := true, suspendTask := .wait }, [.setPowerState 1])

/-- The thread has waited long enough for the suspend. -/
def suspendTimeout (s : State) (now now' : UInt32) : State × List Action :=
  let occurCount :=
    (if now - s.lockResumeLastTime > 600 * 1000 then 0 else s.wakelockOccurCount) + 1
  let s := { s with wakelockOccurCount := occurCount, lockResumeLastTime := now' }
  if occurCount ≤ s.config.haslockResumeTimes then
    ((quickResume s).1, [.showWakelock, .setPowerState 1])
  else ({ s with suspendTask := .force }, [.showWakelock, .dumpKmsg])

/-- `list_active_locks`. -/
def listActiveLocks (s : State) (adsp : Bool) : State :=
  { s with hasWakelockCanNotIgnore := s.hasWakelockCanNotIgnore || adsp }

/-- The loop after its check of the clocks. -/
def suspendWait (boardV1V2 : Bool) (s : State) (timeCount : Nat) (adsp : Bool)
    (now now' : UInt32) : State × List Action :=
  let s := if boardV1V2 then s else listActiveLocks s adsp
  if !boardV1V2 ∧ s.hasWakelockCanNotIgnore ∧ s.wakelockOccurCount < 5 then
    quickResume { s with wakelockOccurCount := s.wakelockOccurCount + 1 }
  else if s.config.maxWaitUnlockTime.toInt ≤ timeCount then suspendTimeout s now now'
  else ({ s with suspendTask := .loop timeCount }, [])

/-- The suspend comes, or the early suspend is over. -/
def suspendExit (s : State) : State × List Action :=
  ({ s with lateSuspendStart := s.lateSuspendStart + 1, suspendTask := .wait }, [])

/-- A step of `thread_fastboot_suspend`. -/
def threadFastbootSuspend (boardV1V2 : Bool) (s : State) (adsp : Bool) (now now' : UInt32) :
    State × List Action :=
  match s.suspendTask with
  | .wait =>
    if 0 < s.suspendStart then
      ({ s with suspendStart := s.suspendStart - 1, suspendTask := .loop 0 }, [])
    else (s, [])
  | .loop timeCount =>
    if s.suspendPending = .earlySuspendPending then
      let r :=
        if s.clkBlockSuspend ∧ s.wakelockOccurCount < 5 then
          quickResume { s with wakelockOccurCount := s.wakelockOccurCount + 1 }
        else suspendWait boardV1V2 s (timeCount + 1) adsp now now'
      (r.1, killTasks s ++ r.2)
    else suspendExit { s with wakelockOccurCount := 0 }
  | .force =>
    let s := { s with wakelockOccurCount := 0 }
    if s.suspendPending = .earlySuspendPending then
      -- `wake_lock` and `wake_unlock`, for the suspend to start
      ({ s with ignoreWakelock := true, flywakelock := false, suspendTask := .wait }, [])
    else suspendExit s

/-- A step of `thread_fastboot_resume`. -/
def threadFastbootResume (s : State) : State × List Action :=
  match s.resumeTask with
  | .wait =>
    if 0 < s.resumeOk then ({ s with resumeOk := s.resumeOk - 1, resumeTask := .powerOn }, [])
    else (s, [])
  | .powerOn => ({ s with resumeTask := .settle }, [.setPowerState 1])
  | .settle =>
    ({ s with suspendPending := .lateResumeOk, resumeTask := .wait },
      if s.resumeCount % 5 = 0 then [.saveState] else [])

/-- One event; `boardV1V2` is the build for these boards. -/
def fastbootEvent (boardV1V2 : Bool) (s : State) (e : Event) : State × List Action :=
  match e with
  | .earlySuspend => earlySuspend s
  | .lateResume => lateResume s
  | .resume => resume s
  | .suspendThread adsp now now' => threadFastbootSuspend boardV1V2 s adsp now now'
  | .resumeThread => threadFastbootResume s
  | .setStatus status => ({ s with suspendPending := status }, [])
  | .setConfig config => ({ s with config }, [])

def fastbootStep (boardV1V2 : Bool) : Step State Event Action := fun s e =>
  some (fastbootEvent boardV1V2 s e)

/-- `fastboot_probe`. -/
def fastbootProbe : State where
  suspendPending := .lateResumeOk
  resumeCount := 0
  config := ⟨1, 0, 5⟩
  clkBlockSuspend := false
  hasWakelockCanNotIgnore := false
  isQuickResume := false
  flywakelock := true
  ignoreWakelock := false
  wakelockOccurCount := 0
  lockResumeLastTime := 0
  suspendStart := 0
  resumeOk := 0
  lateSuspendStart := 0
  suspendTask := .wait
  resumeTask := .wait

/-! ## The lock -/

/-- When the system is up, the lock is held. -/
def HoldsLock (s : State) : Prop := s.suspendPending = .lateResumeOk → s.flywakelock = true

/-- The condition of one step: early suspend comes after the status was changed,
and a step that sets the status to `PM_STATUS_LATE_RESUME_OK` finds the lock held
or, in late resume, takes it for a quick one. -/
def KeepsLock (s : State) (e : Event) : Prop :=
  match e with
  | .earlySuspend => s.suspendPending ≠ .lateResumeOk
  | .lateResume => s.flywakelock ∨ s.isQuickResume ∧ ¬ s.clkBlockSuspend
  | .resumeThread => s.resumeTask = .settle → s.flywakelock
  | .setStatus status => status = .lateResumeOk → s.flywakelock
  | .resume | .suspendThread _ _ _ | .setConfig _ => True

instance (s : State) (e : Event) : Decidable (KeepsLock s e) := by
  cases e <;> unfold KeepsLock <;> infer_instance

/-! ## Where the lock and the status change -/

@[simp] theorem suspendPending_suspendWait (boardV1V2 : Bool) (s : State) (timeCount : Nat)
    (adsp : Bool) (now now' : UInt32) :
    (suspendWait boardV1V2 s timeCount adsp now now').1.suspendPending = s.suspendPending := by
  unfold suspendWait suspendTimeout quickResume listActiveLocks
  cases boardV1V2 <;> simp <;> split_ifs <;> rfl

/-- The suspend thread never sets the status. -/
theorem suspendPending_threadFastbootSuspend (boardV1V2 : Bool) (s : State) (adsp : Bool)
    (now now' : UInt32) :
    (threadFastbootSuspend boardV1V2 s adsp now now').1.suspendPending = s.suspendPending := by
  unfold threadFastbootSuspend
  cases s.suspendTask with
  | wait => dsimp only; split <;> rfl
  | force => dsimp only; split <;> rfl
  | loop timeCount =>
    dsimp only
    split
    · split
      · rfl
      · exact suspendPending_suspendWait boardV1V2 s _ adsp now now'
    · rfl

/-- It drops the lock only in early suspend. -/
theorem flywakelock_threadFastbootSuspend {boardV1V2 : Bool} {s : State} {adsp : Bool}
    {now now' : UInt32} (h : s.suspendPending ≠ .earlySuspendPending) :
    (threadFastbootSuspend boardV1V2 s adsp now now').1.flywakelock = s.flywakelock := by
  unfold threadFastbootSuspend
  cases s.suspendTask with
  | wait => dsimp only; split <;> rfl
  | force | loop timeCount => dsimp only; rw [if_neg h]; rfl

theorem holdsLock_suspendThread {boardV1V2 : Bool} {s : State} (adsp : Bool) (now now' : UInt32)
    (h : HoldsLock s) : HoldsLock (threadFastbootSuspend boardV1V2 s adsp now now').1 := by
  intro hstatus
  rw [suspendPending_threadFastbootSuspend] at hstatus
  rw [flywakelock_threadFastbootSuspend (by rw [hstatus]; decide)]
  exact h hstatus

theorem holdsLock_lateResume (s : State) :
    HoldsLock (lateResume s).1 ↔ s.flywakelock ∨ s.isQuickResume ∧ ¬ s.clkBlockSuspend := by
  unfold HoldsLock lateResume
  cases s.isQuickResume <;> cases s.clkBlockSuspend <;> simp

theorem holdsLock_resumeThread {s : State} (h : HoldsLock s) :
    HoldsLock (threadFastbootResume s).1 ↔ (s.resumeTask = .settle → s.flywakelock) := by
  unfold HoldsLock at h ⊢
  unfold threadFastbootResume
  cases s.resumeTask with
  | wait =>
    refine iff_of_true ?_ (fun hne => nomatch hne)
    dsimp only
    split <;> exact h
  | powerOn => exact iff_of_true h (fun hne => nomatch hne)
  | settle => simp

/-- **An event keeps the lock held while the system is up** exactly under `KeepsLock`. -/
theorem holdsLock_step (boardV1V2 : Bool) (s : State) (e : Event) (h : HoldsLock s) :
    HoldsLock (fastbootEvent boardV1V2 s e).1 ↔ KeepsLock s e := by
  cases e with
  | earlySuspend =>
    show (s.suspendPending = .lateResumeOk → false = true) ↔ s.suspendPending ≠ .lateResumeOk
    simp
  | lateResume => exact holdsLock_lateResume s
  | resume => exact iff_of_true (fun _ => rfl) trivial
  | suspendThread adsp now now' =>
    exact iff_of_true (holdsLock_suspendThread adsp now now' h) trivial
  | resumeThread => exact holdsLock_resumeThread h
  | setStatus status => exact Iff.rfl
  | setConfig config => exact iff_of_true h trivial

/-- **The lock is held whenever the system is up** exactly when every step meets
`KeepsLock`. -/
theorem holdsLock_iff (boardV1V2 : Bool) (events : List Event) :
    Throughout (fastbootStep boardV1V2) HoldsLock fastbootProbe events ↔
      StepsMeet (fastbootStep boardV1V2) (fun _ _ s e => KeepsLock s e) fastbootProbe events :=
  throughout_iff (fun s e h => ⟨_, _, rfl, holdsLock_step boardV1V2 s e h⟩) (fun _ => rfl) events

/-- The system wakes up again before it ever suspended. -/
def abortedSuspend : List Event :=
  [.setStatus .earlySuspendPending, .earlySuspend, .suspendThread false 0 0, .lateResume]

/-- The status is back and the lock is not, also without the status set from
outside. -/
theorem abortedSuspend_unlocked :
    (run (fastbootStep false) fastbootProbe abortedSuspend).map
      (fun r => (r.1.suspendPending, r.1.flywakelock)) = some (.lateResumeOk, false) ∧
    ¬ Throughout (fastbootStep false) HoldsLock fastbootProbe abortedSuspend ∧
    ¬ Throughout (fastbootStep false) HoldsLock fastbootProbe [.earlySuspend, .lateResume] := by
  refine ⟨by decide, fun h => ?_, fun h => ?_⟩
  · exact absurd (h abortedSuspend List.prefix_rfl _ _ rfl rfl) (by decide)
  · exact absurd (h [.earlySuspend, .lateResume] List.prefix_rfl _ _ rfl rfl) (by decide)

end Lidbg.Fastboot
