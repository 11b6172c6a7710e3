/-!
# What the drivers share (`drivers/inc/lidbg_enter.h`, `drivers/inc/tw9912.h`)

The states of suspend and resume, the commands to the user-space servicer and
the events of the notifier chain, as far as the power drivers use them, and the
channels and formats of the video drivers.
-/

namespace Lidbg.Drivers

/-- `LIDBG_FAST_PWROFF_STATUS`. -/
inductive PmStatus where
  | earlySuspendPending
  | suspendPending
  | resumeOk
  | lateResumeOk
  | readyToPwroff
  | readyToFakePwroff
deriving DecidableEq

/-- `LOG_LOGCAT`. -/
abbrev logLogcat : Nat := 2

/-- `CMD_ACC_OFF`. -/
abbrev cmdAccOff : Nat := 93

/-- `CMD_ACC_ON`. -/
abbrev cmdAccOn : Nat := 94

/-- `CMD_IGNORE_WAKELOCK`. -/
abbrev cmdIgnoreWakelock : Nat := 95

/-- `CMD_FLY_POWER_OFF`. -/
abbrev cmdFlyPowerOff : Nat := 101

/-- `NOTIFIER_VALUE(major, minor)` for the events of `NOTIFIER_MAJOR_ACC_EVENT`
(111): `ACC_ON`, `ACC_OFF`, `POWER_OFF`. -/
inductive AccEvent where
  | accOn
  | accOff
  | powerOff
deriving DecidableEq

/-- `vedio_channel_t`: `YIN2` and `SEPARATION` are the DVD, `YIN3` is AUX and the
reversing camera. -/
inductive VedioChannel where
  | yin0
  | yin1
  | yin2
  | yin3
  | separation
  | notone
deriving DecidableEq

/-- `vedio_format_t`. -/
inductive VedioFormat where
  | ntscI
  | palI
  | ntscP
  | palP
  | stopVideo
  | colorbar
  | other
deriving DecidableEq

end Lidbg.Drivers
