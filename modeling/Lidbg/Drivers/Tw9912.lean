import Lidbg.Drivers.Enter
import Lidbg.Drivers.I2cIo
import Lidbg.Machine.LockDiscipline

/-!
# The TW9912 video decoder (`drivers/videoin/tw9912.c`)

Functions of the driver are programs of operations: on `lock_com_chipe_config`, and
on the registers of the chip, which are read and written over I2C and may not
answer. The driver's variables are the state of the programs.

`tw9912_config_array` and what it calls lock and unlock by turns, with early ways
out. `lock_discipline`: they lock only when the lock is free, unlock only when it is
held, and return with the lock free, whatever the chip replies. There is one lemma a
function, put together from those of what it calls: `quiet_..` for one that leaves
the lock alone, `keeps_..` for one that does not. The tables of registers come in by
their end marks (`Terminated`).
-/

namespace Lidbg.Tw9912

open Machine Drivers

/-- `i2c_ack`. -/
abbrev Ack : Type := I2cIo.Ack

/-- What a program does. -/
inductive Op where
  | mutexLock
  | mutexUnlock
  | msleep (ms : Nat)
  | usleep (us : Nat)
  | tw9912Read (subAddr : UInt8)
  | tw9912Write (addr valu : UInt8)
  | uninitialised
deriving DecidableEq

/-- A structure of type `tw9912_input_info_t`, by the values of its registers. -/
structure InputInfo where
  chipStatus1 : UInt8
  componentVideoFormat : UInt8
  macrovisionDetection : UInt8
  inputDetection : UInt8

/-- A read replies with what is in the buffer afterwards, also when the chip does not
answer; `uninitialised` with what a local variable holds. -/
abbrev Op.Reply : Op → Type
  | .tw9912Read _ => Ack × UInt8
  | .tw9912Write _ _ => Ack
  | .uninitialised => InputInfo
  | _ => Unit

/-- What an operation does to `lock_com_chipe_config`. -/
def Op.lockOp : Op → Option LockOp
  | .mutexLock => some .lock
  | .mutexUnlock => some .unlock
  | _ => none

/-- `Source_in`. -/
inductive SourceIn where
  | source60Hz
  | source50Hz
  | sourceOther

/-- `tw9912_signal_t`. -/
structure Signal where
  channel : VedioChannel
  format : VedioFormat
  vedioSource : SourceIn

/-- `tw9912_initall_status_t`; the flag is for `TW9912_initall_yes`. -/
structure InitallStatus where
  flag : Bool
  channel : VedioChannel
  format : VedioFormat

/-- `last_config_t`. -/
structure LastConfig where
  channel : VedioChannel
  format : VedioFormat

/-- The variables of the driver. For `NOTONE`, `signalIsHow` is what stands behind
the array. -/
structure Globals where
  theLastConfig : LastConfig
  tw9912Status : InitallStatus
  signalIsHow : VedioChannel → Signal
  inputInformation : InputInfo
  signalUnstabitilyFlag : UInt8
  carBackingTimesCnt : UInt32
  runSotpFormat : VedioFormat

abbrev Tw (α : Type) : Type := StateT Globals (Prog Op Op.Reply) α

def perform (o : Op) : Tw o.Reply := invoke o

def mutexLock : Tw Unit := perform .mutexLock

def mutexUnlock : Tw Unit := perform .mutexUnlock

def msleep (ms : Nat) : Tw Unit := perform (.msleep ms)

def usleep (us : Nat) : Tw Unit := perform (.usleep us)

def tw9912Read (subAddr : UInt8) : Tw (Ack × UInt8) := perform (.tw9912Read subAddr)

def tw9912Write (addr valu : UInt8) : Tw Ack := perform (.tw9912Write addr valu)

/-! ## Tables of registers -/

/-- `TW9912_INIT_AGAIN`. -/
def initAgain : List UInt8 :=
  [0x02, 0x4c, 0x03, 0x20, 0x06, 0x03, 0xc0, 0x01, 0xe6, 0x00, 0xe8, 0x3f, 0xfe]

/-- `TW9912_INIT_NTSC_Interlaced_input`. -/
def initNtscInterlacedInput : List UInt8 :=
  [0x02, 0x4c, 0x03, 0x20, 0x05, 0x1e, 0x06, 0x03, 0x07, 0x02, 0x08, 0x17, 0x09, 0xf9,
   0x0a, 0x25, 0x0b, 0xec, 0x0c, 0xcc, 0x12, 0x33, 0x15, 0x00, 0x17, 0x34, 0x1c, 0x07,
   0x1e, 0x08, 0x24, 0xbc, 0x27, 0x38, 0x29, 0xe0, 0x2a, 0x78, 0x2c, 0x40, 0x2f, 0x24,
   0x30, 0x00, 0x35, 0x00, 0x36, 0xe8, 0x37, 0x2d, 0x38, 0x01, 0xc0, 0x01, 0xc1, 0xc7,
   0xc2, 0x01, 0xcb, 0x30, 0xd0, 0x00, 0xd1, 0xf0, 0xd2, 0xf0, 0xd3, 0xf0, 0xe1, 0x49,
   0xe8, 0x3f, 0xe9, 0x61, 0xfe]

/-- `TW9912_INIT_NTSC_Progressive_input`. -/
def initNtscProgressiveInput : List UInt8 :=
  [0x02, 0x70, 0x03, 0x20, 0x05, 0x20, 0x06, 0x00, 0x07, 0x11, 0x08, 0x1e, 0x09, 0xee,
   0x0a, 0x0b, 0x0b, 0x92, 0x0c, 0xdc, 0x0d, 0xff, 0x10, 0x00, 0x12, 0x34, 0x17, 0x33,
   0x1c, 0x07, 0x1e, 0x22, 0x24, 0x3c, 0x27, 0x3c, 0x29, 0xe0, 0x2a, 0x78, 0x2c, 0x30,
   0x2d, 0x00, 0x2f, 0xe6, 0x35, 0xff, 0x36, 0xe2, 0x37, 0x2a, 0x38, 0x5d, 0xc0, 0x10,
   0xc2, 0xc2, 0xc3, 0x06, 0xc4, 0xb5, 0xc5, 0x10, 0xc6, 0x26, 0xc9, 0x01, 0xcb, 0xf0,
   0xcc, 0x40, 0xd0, 0x07, 0xd1, 0x88, 0xd2, 0x88, 0xd3, 0x88, 0xd7, 0x50, 0xd9, 0x07,
   0xe1, 0x49, 0xe2, 0xda, 0xe6, 0x02, 0xe8, 0x30, 0xe9, 0xa0, 0xfe]

/-- `TW9912_INIT_PAL_Interlaced_input`. -/
def initPalInterlacedInput : List UInt8 :=
  [0x02, 0x4c, 0x03, 0x20, 0x05, 0x1e, 0x06, 0x03, 0x07, 0x22, 0x08, 0x17, 0x09, 0x40,
   0x0a, 0x17, 0x0b, 0xe0, 0x0c, 0xcc, 0x0d, 0x15, 0x12, 0xf3, 0x15, 0x00, 0x17, 0x33,
   0x1c, 0x17, 0x1e, 0x18, 0x24, 0xbc, 0x27, 0x38, 0x29, 0xe0, 0x2a, 0x78, 0x2c, 0x30,
   0x2f, 0x24, 0x30, 0x00, 0x35, 0x00, 0x36, 0xe8, 0x37, 0x2d, 0x38, 0x01, 0xc0, 0x01,
   0xc1, 0xc7, 0xc2, 0x01, 0xcb, 0x30, 0xd0, 0x00, 0xd1, 0xf0, 0xd2, 0xf0, 0xd3, 0xf0,
   0xe1, 0x49, 0xe8, 0x3f, 0xe9, 0x61, 0xfe]

/-- `TW9912_INIT_PAL_Progressive_input`. -/
def initPalProgressiveInput : List UInt8 :=
  [0x02, 0x60, 0x03, 0x20, 0x04, 0x00, 0x05, 0x20, 0x06, 0x00, 0x07, 0x21, 0x08, 0x18,
   0x09, 0x40, 0x0a, 0x00, 0x0b, 0x70, 0x0d, 0x15, 0x12, 0x1e, 0x10, 0xfc, 0x13, 0x80,
   0x14, 0x80, 0x15, 0x00, 0x17, 0x34, 0x18, 0x44, 0x1a, 0x10, 0x1b, 0x00, 0x1e, 0x22,
   0x20, 0x50, 0x21, 0x42, 0x22, 0xf0, 0x23, 0xd8, 0x24, 0xbc, 0x25, 0xb8, 0x26, 0x44,
   0x27, 0x38, 0x28, 0x00, 0x29, 0x80, 0x2a, 0x78, 0x2b, 0x44, 0x2c, 0x30, 0x2f, 0x24,
   0x34, 0x1a, 0x36, 0xe2, 0x37, 0x2a, 0x38, 0x5d, 0x40, 0x00, 0x41, 0x80, 0x42, 0x00,
   0xc0, 0x10, 0xc2, 0xc2, 0xc3, 0x06, 0xc4, 0xb4, 0xc5, 0x10, 0xc6, 0x26, 0xc9, 0x01,
   0xcb, 0xf0, 0xcc, 0x40, 0xcd, 0x54, 0xd0, 0x00, 0xd1, 0xf0, 0xd2, 0xf0, 0xd3, 0xf0,
   0xd4, 0x00, 0xd7, 0x50, 0xd8, 0x00, 0xd9, 0x10, 0xda, 0x80, 0xdb, 0x80, 0xe1, 0x49,
   0xe2, 0xda, 0xe3, 0x00, 0xe4, 0x00, 0xe5, 0x00, 0xe6, 0x02, 0xe7, 0x2a, 0xe8, 0x00,
   0xe9, 0xa0, 0xfe]

/-- The loop over a table, up to its mark; `pause` is for `usleep(100)` behind a
register. The table is left when it has no mark. -/
def writeArray (pause : UInt8 → Bool) : List UInt8 → Tw Ack
  | addr :: rest =>
    if addr = 0xfe then pure .ack
    else
      match rest with
      | [] => fun _ => .stuck
      | valu :: rest => do
        let ret ← tw9912Write addr valu
        if ret = .nack then pure .nack
        else if pause addr then do
          usleep 100
          writeArray pause rest
        else writeArray pause rest
  | [] => fun _ => .stuck

/-- One of the functions that write a table: 1, or -1 when the chip does not answer. -/
def writeTable (channel : VedioChannel) (format : VedioFormat) (table : List UInt8) : Tw Int := do
  modify fun g => { g with theLastConfig := ⟨channel, format⟩ }
  let ret ← writeArray (fun _ => false) table
  pure (if ret = .nack then -1 else 1)

/-- `tw9912_config_array_agin`. -/
def tw9912ConfigArrayAgin : Tw Int := writeTable .yin3 .ntscI initAgain

/-- `tw9912_get_chip_id`. -/
def tw9912GetChipId : Tw Unit := do
  let _ ← tw9912Read 0x00
  pure ()

/-- `tw9912_config_array_PALi`. -/
def tw9912ConfigArrayPalI : Tw Int := do
  tw9912GetChipId
  writeTable .yin3 .palI initPalInterlacedInput

/-! ## Input signals -/

/-- `tw9912_get_input_info`. -/
def tw9912GetInputInfo (info : InputInfo) : Tw InputInfo := do
  let r ← tw9912Read 0x01
  let info := { info with chipStatus1 := r.2 }
  if r.1 = .nack then pure info
  else do
    let r ← tw9912Read 0x1e
    let info := { info with componentVideoFormat := r.2 }
    if r.1 = .nack then pure info
    else do
      let r ← tw9912Read 0x30
      pure { info with macrovisionDetection := r.2 }

/-- Bits 4..6 of register 0x1e. -/
def componentFormat (valu : UInt8) : VedioFormat :=
  if valu &&& 0x70 = 0x00 then .ntscI
  else if valu &&& 0x70 = 0x10 then .palI
  else if valu &&& 0x70 = 0x20 then .ntscP
  else if valu &&& 0x70 = 0x30 then .palP
  else .other

def setSignal (channel : VedioChannel) (signal : Signal) : Tw Unit :=
  modify fun g =>
    { g with signalIsHow := fun c => if c = channel then signal else g.signalIsHow c }

def setFormat (channel : VedioChannel) (format : VedioFormat) : Tw Unit := do
  let g ← get
  setSignal channel { g.signalIsHow channel with format := format }

/-- `tw9912_analysis_input_signal`. -/
def tw9912AnalysisInputSignal (info : InputInfo) (channel : VedioChannel) : Tw Unit :=
  if channel = .notone then pure ()
  else do
    setSignal channel ⟨channel, .other, .sourceOther⟩
    if info.chipStatus1 &&& 0x08 ≠ 0 then do
      let _ ← tw9912Read 0x02
      if channel ≠ .separation then setFormat channel (componentFormat info.componentVideoFormat)
      else if info.inputDetection &&& 0x07 = 0x2 then setFormat channel .ntscP
      else if info.inputDetection &&& 0x07 = 0x3 then setFormat channel .palP
      else pure ()
    else setSignal channel ⟨channel, .other, .sourceOther⟩

/-- The registers that select an input pin. -/
def inputPinSelet : VedioChannel → List (UInt8 × UInt8)
  | .yin0 => [(0x02, 0x40)]
  | .yin1 => [(0x02, 0x44)]
  | .yin2 => [(0x02, 0x48)]
  | .yin3 => [(0x02, 0x4c), (0xe8, 0x3f)]
  | .separation => [(0x02, 0x70), (0xe8, 0x30)]
  | .notone => []

/-- Up to the first that is not answered. -/
def writeAll : List (UInt8 × UInt8) → Tw Ack
  | [] => pure .ack
  | (addr, valu) :: regs => do
    let ret ← tw9912Write addr valu
    if ret = .nack then pure .nack else writeAll regs

def setLastChannel (channel : VedioChannel) : Tw Unit :=
  modify fun g => { g with theLastConfig := { g.theLastConfig with channel := channel } }

/-- `tw9912_channel_choeces_again`. -/
def tw9912ChannelChoecesAgain (channel : VedioChannel) : Tw Int := do
  setLastChannel channel
  let ret ← writeAll (inputPinSelet channel)
  pure (if ret = .nack then -1 else 0)

/-! ## `tw9912_testing_channal_signal` -/

/-- `for(i = 0; i < 20; i++)`, with `turns` to go: where it ends, unless a signal is
found. -/
def testingLoop : Nat → UInt8 → Tw (Option UInt8)
  | 0, i => pure (some i)
  | turns + 1, i => do
    let r ← tw9912Read 0x01
    if r.2 &&& 0x80 ≠ 0 then do
      -- no signal: others may have the chip for a while
      mutexUnlock
      msleep 50
      mutexLock
      testingLoop turns (i + 1)
    else pure none

/-- `STDNOW`, bits 4..6 of register 0x1c. -/
def stdnow (signal : UInt8) : VedioFormat :=
  if signal &&& 0x70 = 0 then .ntscI
  else if signal &&& 0x70 = 0x10 then .palI
  else if signal &&& 0x70 = 0x20 then .other
  else if signal &&& 0x70 = 0x30 then .ntscI
  else if signal &&& 0x70 = 0x40 then .palI
  else if signal &&& 0x70 = 0x50 then .palI
  else if signal &&& 0x70 = 0x60 then .palI
  else .other

/-- Register 0xc1, whose bit 3 is the detection of a composite sync. -/
def compositeFormat (valu : UInt8) (ret : VedioFormat) : VedioFormat :=
  if valu &&& 0x08 ≠ 0 then
    if valu &&& 0x7 = 0 then .ntscI
    else if valu &&& 0x7 = 1 then .palI
    else if valu &&& 0x7 = 2 then .ntscP
    else if valu &&& 0x7 = 3 then .palP
    else .other
  else ret

/-- From `break_for` on. -/
def testingFound (channel : VedioChannel) : Tw VedioFormat := do
  let _ ← tw9912Write 0x1c 0x07
  mutexUnlock
  msleep 40
  mutexLock
  let r ← tw9912Read 0x1c
  if channel = .yin2 ∨ channel = .separation then do
    let c ← tw9912Read 0xc1
    mutexUnlock
    pure (compositeFormat c.2 (stdnow r.2))
  else do
    mutexUnlock
    pure (stdnow r.2)

/-- `tw9912_testing_channal_signal`. -/
def tw9912TestingChannalSignal (channel : VedioChannel) : Tw VedioFormat :=
  if channel = .yin2 ∨ channel = .separation then pure .ntscP
  else do
    mutexLock
    let g ← get
    let _ ←
      (if g.theLastConfig.channel ≠ channel then tw9912ChannelChoecesAgain channel else pure 0)
    let i ← testingLoop 20 0
    -- the loop ends at 20, so that this way out is not taken
    if i = some 2 then do
      mutexUnlock
      pure .other
    else testingFound channel

/-! ## `tw9912_cvbs_signal_tsting` -/

/-- `tw9912_cvbs_signal_tsting`. -/
def tw9912CvbsSignalTsting (channel : VedioChannel) : Tw VedioFormat := do
  mutexLock
  let g ← get
  let _ ← (if g.theLastConfig.channel ≠ channel then tw9912ConfigArrayAgin else pure 0)
  if channel = .notone then do
    mutexUnlock
    pure .other
  else do
    let info ← perform .uninitialised
    let info ← tw9912GetInputInfo info
    mutexUnlock
    if info.chipStatus1 &&& 0x08 ≠ 0 ∧ info.chipStatus1 &&& 0x80 = 0 then
      pure (componentFormat info.componentVideoFormat)
    else pure .other

/-! ## `Tw9912_appoint_pin_tw9912_cvbs_signal_tsting` -/

def setStatus (flag : Bool) (channel : VedioChannel) (format : VedioFormat) : Tw Unit :=
  modify fun g => { g with tw9912Status := ⟨flag, channel, format⟩ }

/-- The channel that register 0x02 has, as a number. -/
def pinOf (valu : UInt8) : UInt8 :=
  (valu &&& 0x0c) >>> 2

/-- `vedio_channel_t` as a number. -/
def channelNumber : VedioChannel → UInt8
  | .yin0 => 0
  | .yin1 => 1
  | .yin2 => 2
  | .yin3 => 3
  | .separation => 4
  | .notone => 5

/-- `vedio_format_t` as an `int`. -/
def formatNumber : VedioFormat → Int
  | .ntscI => 1
  | .palI => 2
  | .ntscP => 3
  | .palP => 4
  | .stopVideo => 5
  | .colorbar => 6
  | .other => 7

/-- The first initialisation. -/
def firstInitall (channel : VedioChannel) : Tw Int := do
  setStatus true channel .palI
  -- with the lock held: this one does not lock
  tw9912ConfigArrayPalI

/-- The pin is selected, behind the first initialisation if that is to be done. -/
def appointPin (channel : VedioChannel) : Tw Ack := do
  let r ← tw9912Read 0x02
  let g ← get
  if (pinOf r.2 ≠ channelNumber channel ∧ channel ≠ .notone) ∨ g.tw9912Status.flag = false then do
    let _ ← (if g.tw9912Status.flag = false then firstInitall channel else pure 0)
    setLastChannel channel
    writeAll (inputPinSelet channel)
  else pure .ack

/-- The signal is looked at. -/
def appointTest (channel : VedioChannel) : Tw Int := do
  let _ ← tw9912Write 0x1d 0xff
  let g ← get
  let info ← tw9912GetInputInfo g.inputInformation
  modify fun g => { g with inputInformation := info }
  tw9912AnalysisInputSignal info channel
  let g ← get
  pure (match (g.signalIsHow channel).format with
    | .ntscI => 1
    | .palI => 2
    | .ntscP => 3
    | .palP => 4
    | _ => 5)

/-- `Tw9912_appoint_pin_tw9912_cvbs_signal_tsting`. -/
def tw9912AppointPinTw9912CvbsSignalTsting (channel : VedioChannel) : Tw Int := do
  mutexLock
  if channel ≠ .separation then do
    let pin ← appointPin channel
    if pin = .nack then do
      mutexUnlock
      pure (-1)
    else do
      let ret ← appointTest channel
      mutexUnlock
      pure ret
  else do
    -- `TEST_NTSCp`: the DVD is not tested
    setStatus true .separation .ntscP
    setFormat .separation .ntscP
    mutexUnlock
    pure 3

/-! ## `tw9912_config_array` -/

/-- `SIGNAL_DELTE_AGAIN`, with so many jumps to it left. -/
def signalDelteAgain (channel : VedioChannel) : Nat → Tw Int
  | 0 => tw9912AppointPinTw9912CvbsSignalTsting channel
  | again + 1 => do
    let ret ← tw9912AppointPinTw9912CvbsSignalTsting channel
    if ret = formatNumber .stopVideo then signalDelteAgain channel again else pure ret

/-- The other test, when the first finds no signal; it may find none either. -/
def tryAnother (channel : VedioChannel) : Tw (Option Int) := do
  modify fun g => { g with signalUnstabitilyFlag := 0 }
  -- both tests lock for themselves
  mutexUnlock
  let retFormat ← tw9912TestingChannalSignal channel
  mutexLock
  if retFormat = .other then pure none
  else do
    mutexUnlock
    let ret ← tw9912CvbsSignalTsting channel
    mutexLock
    setFormat channel ret
    pure (some (formatNumber ret))

/-- The table of a format. -/
def configPramat : VedioFormat → Option (List UInt8)
  | .ntscI => some initNtscInterlacedInput
  | .palI => some initPalInterlacedInput
  | .ntscP => some initNtscProgressiveInput
  | .palP => some initPalProgressiveInput
  | _ => none

/-- `CONFIG_not_ack_fail`. -/
def configNotAckFail : Tw Int := do
  mutexUnlock
  pure (-2)

/-- `NOT_signal_input`. -/
def notSignalInput : Tw Int := do
  mutexUnlock
  pure (-1)

/-- The loop over the table of the format that was found. -/
def configFormat (channel : VedioChannel) (format : VedioFormat) (table : List UInt8) : Tw Int := do
  setStatus true channel format
  modify fun g =>
    if format = .ntscI then { g with carBackingTimesCnt := g.carBackingTimesCnt + 1 } else g
  modify fun g => { g with theLastConfig := ⟨channel, format⟩ }
  let written ← writeArray (fun addr => format = .ntscP ∧ 0x24 < addr ∧ addr < 0x2d) table
  if written = .nack then configNotAckFail
  else do
    modify fun g => { g with runSotpFormat := format }
    mutexUnlock
    pure 1

/-- What is done with the result of the tests. -/
def configSignal (channel : VedioChannel) (ret : Int) : Tw Int :=
  if ret = -1 then configNotAckFail
  else do
    let g ← get
    let format := (g.signalIsHow channel).format
    match configPramat format with
    | none => do
      setStatus false .notone g.tw9912Status.format
      notSignalInput
    | some table => configFormat channel format table

/-- `tw9912_config_array`. -/
def tw9912ConfigArray (channel : VedioChannel) : Tw Int := do
  mutexLock
  tw9912GetChipId
  -- whether the channel could be chosen is not looked at
  let _ ← tw9912ChannelChoecesAgain channel
  mutexUnlock
  let ret ← signalDelteAgain channel 1
  mutexLock
  if ret = formatNumber .stopVideo then do
    let found ← tryAnother channel
    match found with
    | none => notSignalInput
    | some ret => configSignal channel ret
  else configSignal channel ret

/-! ## The lock -/

variable {α β : Type}

/-- From `held` to `held'`. -/
abbrev Keeps (held held' : Bool) (p : Tw α) : Prop := KeepsLock Op.lockOp held held' p

/-- The lock is left alone. -/
def Quiet (p : Tw α) : Prop := ∀ held, Keeps held held p

/-- Taking the lock, from outside it. -/
theorem keeps_mutexLock : Keeps false true mutexLock := keepsLock_invoke rfl

/-- Giving it back, from inside. -/
theorem keeps_mutexUnlock : Keeps true false mutexUnlock := keepsLock_invoke rfl

/-- An operation that is not on the lock leaves it as it is. -/
theorem quiet_perform {o : Op} (ho : o.lockOp = none) : Quiet (perform o) := by
  intro held
  refine keepsLock_invoke ?_
  rw [heldAfter, ho]

theorem quiet_pure (a : α) : Quiet (pure a : Tw α) := fun _ => keepsLock_pure a

theorem quiet_get : Quiet (get : Tw Globals) := fun _ => keepsLock_get

theorem quiet_modify (f : Globals → Globals) : Quiet (modify f : Tw Unit) :=
  fun _ => keepsLock_modify f

/-- Two programs that leave the lock alone, one behind the other. -/
theorem Quiet.bind {p : Tw α} {k : α → Tw β} (hp : Quiet p) (hk : ∀ a, Quiet (k a)) :
    Quiet (p >>= k) := fun held => (hp held).bind fun a => hk a held

theorem quiet_ite {c : Prop} [Decidable c] {p q : Tw α} (hp : Quiet p) (hq : Quiet q) :
    Quiet (if c then p else q) := by
  split_ifs
  · exact hp
  · exact hq

theorem quiet_read (subAddr : UInt8) : Quiet (tw9912Read subAddr) := quiet_perform rfl

theorem quiet_write (addr valu : UInt8) : Quiet (tw9912Write addr valu) := quiet_perform rfl

/-- The table has its mark where an address stands. -/
def Terminated : List UInt8 → Bool
  | addr :: rest =>
    if addr = 0xfe then true
    else
      match rest with
      | [] => false
      | _ :: rest => Terminated rest
  | [] => false

/-- The loop over a table with an end mark leaves the lock alone. -/
theorem quiet_writeArray (pause : UInt8 → Bool) {table : List UInt8}
    (h : Terminated table = true) : Quiet (writeArray pause table) := by
  fun_induction writeArray pause table with
  | case1 rest => exact quiet_pure _
  | case2 addr hmark =>
    rw [Terminated, if_neg hmark] at h
    cases h
  | case3 addr hmark valu rest ih =>
    rw [Terminated, if_neg hmark] at h
    refine (quiet_write addr valu).bind fun ret => ?_
    refine quiet_ite (quiet_pure _) (quiet_ite ?_ (ih h))
    exact (quiet_perform rfl).bind fun _ => ih h
  | case4 => cases h

/-- So does the loop over the table of a format. -/
theorem quiet_writeTable (channel : VedioChannel) (format : VedioFormat) {table : List UInt8}
    (h : Terminated table = true) : Quiet (writeTable channel format table) := by
  refine (quiet_modify _).bind fun _ => ?_
  exact (quiet_writeArray _ h).bind fun _ => quiet_pure _

theorem quiet_configArrayAgin : Quiet tw9912ConfigArrayAgin :=
  quiet_writeTable _ _ (by decide)

theorem quiet_getChipId : Quiet tw9912GetChipId :=
  (quiet_read _).bind fun _ => quiet_pure _

theorem quiet_configArrayPalI : Quiet tw9912ConfigArrayPalI :=
  quiet_getChipId.bind fun _ => quiet_writeTable _ _ (by decide)

theorem quiet_getInputInfo (info : InputInfo) : Quiet (tw9912GetInputInfo info) := by
  refine (quiet_read _).bind fun r => quiet_ite (quiet_pure _) ?_
  refine (quiet_read _).bind fun r => quiet_ite (quiet_pure _) ?_
  exact (quiet_read _).bind fun r => quiet_pure _

theorem quiet_setFormat (channel : VedioChannel) (format : VedioFormat) :
    Quiet (setFormat channel format) :=
  quiet_get.bind fun _ => quiet_modify _

/-- What a signal is taken for has nothing to do with the lock. -/
theorem quiet_analysisInputSignal (info : InputInfo) (channel : VedioChannel) :
    Quiet (tw9912AnalysisInputSignal info channel) := by
  refine quiet_ite (quiet_pure _) ((quiet_modify _).bind fun _ => ?_)
  refine quiet_ite ((quiet_read _).bind fun _ => ?_) (quiet_modify _)
  refine quiet_ite (quiet_setFormat _ _) (quiet_ite (quiet_setFormat _ _) ?_)
  exact quiet_ite (quiet_setFormat _ _) (quiet_pure _)

theorem quiet_writeAll (regs : List (UInt8 × UInt8)) : Quiet (writeAll regs) := by
  induction regs with
  | nil => exact quiet_pure _
  | cons reg regs ih => exact (quiet_write _ _).bind fun ret => quiet_ite (quiet_pure _) ih

theorem quiet_channelChoecesAgain (channel : VedioChannel) :
    Quiet (tw9912ChannelChoecesAgain channel) := by
  refine (quiet_modify _).bind fun _ => ?_
  exact (quiet_writeAll _).bind fun _ => quiet_pure _

theorem quiet_firstInitall (channel : VedioChannel) : Quiet (firstInitall channel) :=
  (quiet_modify _).bind fun _ => quiet_configArrayPalI

theorem quiet_appointPin (channel : VedioChannel) : Quiet (appointPin channel) := by
  refine (quiet_read _).bind fun r => quiet_get.bind fun g => quiet_ite ?_ (quiet_pure _)
  refine Quiet.bind ?_ fun _ => ?_
  · exact quiet_ite (quiet_firstInitall channel) (quiet_pure _)
  · exact (quiet_modify _).bind fun _ => quiet_writeAll _

theorem quiet_appointTest (channel : VedioChannel) : Quiet (appointTest channel) := by
  refine (quiet_write _ _).bind fun _ => quiet_get.bind fun g => ?_
  refine (quiet_getInputInfo _).bind fun info => (quiet_modify _).bind fun _ => ?_
  refine (quiet_analysisInputSignal _ _).bind fun _ => quiet_get.bind fun g => ?_
  exact quiet_pure _

/-! ## Lock and unlock -/

/-- A way out. -/
theorem keeps_unlock_pure (a : α) : Keeps true false (do mutexUnlock; pure a) :=
  keeps_mutexUnlock.bind fun _ => keepsLock_pure a

/-- Each turn that goes on gives the lock away and takes it back. -/
theorem keeps_testingLoop (turns : Nat) (i : UInt8) : Keeps true true (testingLoop turns i) := by
  induction turns generalizing i with
  | zero => exact keepsLock_pure _
  | succ turns ih =>
    refine (quiet_read _ true).bind fun r => ?_
    split_ifs
    · refine keeps_mutexUnlock.bind fun _ => (quiet_perform rfl false).bind fun _ => ?_
      exact keeps_mutexLock.bind fun _ => ih (i + 1)
    · exact keepsLock_pure _

/-- A test that has found a signal gives the lock back. -/
theorem keeps_testingFound (channel : VedioChannel) : Keeps true false (testingFound channel) := by
  refine (quiet_write _ _ true).bind fun _ => keeps_mutexUnlock.bind fun _ => ?_
  refine (quiet_perform rfl false).bind fun _ => keeps_mutexLock.bind fun _ => ?_
  refine (quiet_read _ true).bind fun r => ?_
  split_ifs
  · exact (quiet_read _ true).bind fun c => keeps_unlock_pure _
  · exact keeps_unlock_pure _

/-- A test of a channel takes the lock and gives it back, whatever it finds. -/
theorem keeps_testingChannalSignal (channel : VedioChannel) :
    Keeps false false (tw9912TestingChannalSignal channel) := by
  unfold tw9912TestingChannalSignal
  split_ifs
  · exact keepsLock_pure _
  · refine keeps_mutexLock.bind fun _ => (quiet_get true).bind fun g => ?_
    refine KeepsLock.bind (?_ : Keeps true true _) fun _ =>
      (keeps_testingLoop 20 0).bind fun i => ?_
    · exact quiet_ite (quiet_channelChoecesAgain _) (quiet_pure _) true
    · split_ifs
      · exact keeps_unlock_pure _
      · exact keeps_testingFound channel

/-- So does a whole test of a CVBS signal. -/
theorem keeps_cvbsSignalTsting (channel : VedioChannel) :
    Keeps false false (tw9912CvbsSignalTsting channel) := by
  refine keeps_mutexLock.bind fun _ => (quiet_get true).bind fun g => ?_
  refine KeepsLock.bind (?_ : Keeps true true _) fun _ => ?_
  · exact quiet_ite quiet_configArrayAgin (quiet_pure _) true
  · split_ifs
    · exact keeps_unlock_pure _
    · refine (quiet_perform rfl true).bind fun info => ?_
      refine (quiet_getInputInfo _ true).bind fun info => keeps_mutexUnlock.bind fun _ => ?_
      exact quiet_ite (quiet_pure _) (quiet_pure _) false

/-- So does one of an appointed pin. -/
theorem keeps_appointPinCvbsSignalTsting (channel : VedioChannel) :
    Keeps false false (tw9912AppointPinTw9912CvbsSignalTsting channel) := by
  refine keeps_mutexLock.bind fun _ => ?_
  split_ifs
  · refine (quiet_appointPin _ true).bind fun pin => ?_
    split_ifs
    · exact keeps_unlock_pure _
    · exact (quiet_appointTest _ true).bind fun ret => keeps_unlock_pure _
  · refine (quiet_modify _ true).bind fun _ => (quiet_setFormat _ _ true).bind fun _ => ?_
    exact keeps_unlock_pure _

/-- The repeated tests do so each time. -/
theorem keeps_signalDelteAgain (channel : VedioChannel) (again : Nat) :
    Keeps false false (signalDelteAgain channel again) := by
  induction again with
  | zero => exact keeps_appointPinCvbsSignalTsting channel
  | succ again ih =>
    refine (keeps_appointPinCvbsSignalTsting channel).bind fun ret => ?_
    split_ifs
    · exact ih
    · exact keepsLock_pure _

/-- The other functions are called with the lock given away. -/
theorem keeps_tryAnother (channel : VedioChannel) : Keeps true true (tryAnother channel) := by
  refine (quiet_modify _ true).bind fun _ => keeps_mutexUnlock.bind fun _ => ?_
  refine (keeps_testingChannalSignal _).bind fun retFormat => keeps_mutexLock.bind fun _ => ?_
  split_ifs
  · exact keepsLock_pure _
  · refine keeps_mutexUnlock.bind fun _ => (keeps_cvbsSignalTsting _).bind fun ret => ?_
    refine keeps_mutexLock.bind fun _ => (quiet_setFormat _ _ true).bind fun _ => ?_
    exact keepsLock_pure _

/-- Every table of a format has its end mark. -/
theorem terminated_configPramat {format : VedioFormat} {table : List UInt8}
    (h : configPramat format = some table) : Terminated table = true := by
  cases format with
  | ntscI | palI | ntscP | palP =>
    cases h
    decide
  | stopVideo | colorbar | other => cases h

/-- A configuration by a format gives the lock back on each of its ways out. -/
theorem keeps_configFormat (channel : VedioChannel) (format : VedioFormat) {table : List UInt8}
    (h : Terminated table = true) : Keeps true false (configFormat channel format table) := by
  refine (quiet_modify _ true).bind fun _ => ?_
  refine (quiet_modify _ true).bind fun _ => (quiet_modify _ true).bind fun _ => ?_
  refine (quiet_writeArray _ h true).bind fun written => ?_
  split_ifs
  · exact keeps_unlock_pure _
  · exact (quiet_modify _ true).bind fun _ => keeps_unlock_pure _

/-- So does one without a format. -/
theorem keeps_configSignal (channel : VedioChannel) (ret : Int) :
    Keeps true false (configSignal channel ret) := by
  unfold configSignal
  split_ifs
  · exact keeps_unlock_pure _
  · refine (quiet_get true).bind fun g => ?_
    dsimp only
    split
    · exact (quiet_modify _ true).bind fun _ => keeps_unlock_pure _
    · next table h => exact keeps_configFormat channel _ (terminated_configPramat h)

/-- `tw9912_config_array` takes the lock once and gives it back. -/
theorem keeps_configArray (channel : VedioChannel) :
    Keeps false false (tw9912ConfigArray channel) := by
  refine keeps_mutexLock.bind fun _ => (quiet_getChipId true).bind fun _ => ?_
  refine (quiet_channelChoecesAgain _ true).bind fun _ => keeps_mutexUnlock.bind fun _ => ?_
  refine (keeps_signalDelteAgain _ _).bind fun ret => keeps_mutexLock.bind fun _ => ?_
  split_ifs
  · refine (keeps_tryAnother _).bind fun found => ?_
    cases found with
    | none => exact keeps_unlock_pure _
    | some ret => exact keeps_configSignal channel ret
  · exact keeps_configSignal channel ret

/-- **The driver keeps to its lock**: `tw9912_config_array` and the functions it calls
while the lock is free, each from any state of the driver's variables. -/
theorem lock_discipline (channel : VedioChannel) (g : Globals) :
    Disciplined Op.lockOp false false ((tw9912ConfigArray channel).run g) ∧
    Disciplined Op.lockOp false false ((tw9912TestingChannalSignal channel).run g) ∧
    Disciplined Op.lockOp false false ((tw9912CvbsSignalTsting channel).run g) ∧
    Disciplined Op.lockOp false false
      ((tw9912AppointPinTw9912CvbsSignalTsting channel).run g) := by
  refine ⟨?_, ?_, ?_, ?_⟩
  · exact keeps_configArray channel g
  · exact keeps_testingChannalSignal channel g
  · exact keeps_cvbsSignalTsting channel g
  · exact keeps_appointPinCvbsSignalTsting channel g

end Lidbg.Tw9912
