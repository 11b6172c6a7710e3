import Lidbg.Drivers.Tw9912
import Lidbg.Machine.Triple
import Mathlib.Logic.Function.Basic

/-!
# The TW9912 and what its driver believes (`drivers/videoin/tw9912.c`)

The driver remembers in `the_last_config` which input the chip was set to, and chooses the
channel again only if it is another one. Here the chip is there, as the registers that were
written; what it answers, and whether it acknowledges, is left open.

- `configArray_configured`: when `tw9912_config_array` returns 1, the registers are those of the
  table of the format, and the driver's variables say so.
- `believes_iff`: with a chip that acknowledges, what the driver believes is true throughout a
  run exactly if each `tw9912_config_array` that returns 1 is for an input that the table of the
  format selects. The tables of the interlaced formats select YIN3, whatever the channel.
-/

namespace Lidbg.Tw9912

open Machine Drivers

/-! ## More of the driver -/

/-- `TW9912_YIN3ToYUV_INIT_AGAIN`. -/
def yin3ToYuvInitAgain : List UInt8 :=
  [0x02, 0x70, 0x03, 0x20, 0x06, 0x00, 0x07, 0x11, 0x08, 0x1e, 0x09, 0xee, 0x0a, 0x0b,
   0x0b, 0x92, 0x0c, 0xdc, 0xc0, 0x10, 0xc2, 0xc2, 0xc3, 0x06, 0xc4, 0xb5, 0xc5, 0x10,
   0xc6, 0x26, 0xc9, 0x01, 0xcb, 0xf0, 0xe6, 0x02, 0xe8, 0x30, 0xfe]

/-- `Tw9912_YIN3ToYUV_init_agin`. -/
def tw9912Yin3ToYuvInitAgin : Tw Int := writeTable .separation .ntscP yin3ToYuvInitAgain

/-- `tw9912_yuv_signal_testing`. -/
def tw9912YuvSignalTesting : Tw VedioFormat := do
  let g ← get
  let _ ←
    (if g.theLastConfig.channel ≠ .separation then tw9912Yin3ToYuvInitAgin else pure 0)
  let r ← tw9912Read 0xc1
  pure (compositeFormat r.2 .other)

/-- `tw9912_config_array_NTSCp`, behind its reset of the chip. -/
def tw9912ConfigArrayNtscP : Tw Int := do
  tw9912GetChipId
  writeTable .separation .ntscP initNtscProgressiveInput

/-- `camera_open_video_signal_test_in_2`. -/
def cameraOpenVideoSignalTestIn2 : Tw VedioFormat := do
  let info ← perform .uninitialised
  let info ← tw9912GetInputInfo info
  if info.chipStatus1 &&& 0x08 ≠ 0 then do
    let r ← tw9912Read 0x02
    let g ← get
    pure
      (if pinOf r.2 = channelNumber g.tw9912Status.channel then
        componentFormat info.componentVideoFormat
      else .other)
  else pure .other

/-! ## The chip -/

abbrev Registers : Type := UInt8 → UInt8

/-- A write that is acknowledged. -/
def registersAfter (reg : Registers) : (o : Op) → o.Reply → Registers
  | .tw9912Write addr valu, .ack => Function.update reg addr valu
  | _, _ => reg

section Chip

variable {τ : Type} {α β : Type} {env : τ → (o : Op) → τ × o.Reply}

/-- The surroundings `env` of the driver, with the registers. -/
def withRegisters (env : τ → (o : Op) → τ × o.Reply) (s : Registers × τ) (o : Op) :
    (Registers × τ) × o.Reply :=
  ((registersAfter s.1 o (env s.2 o).2, (env s.2 o).1), (env s.2 o).2)

/-- Nothing waits: the lock is left aside. -/
def chip (env : τ → (o : Op) → τ × o.Reply) : Handler (Registers × τ) Op Op.Reply := fun s o =>
  some (withRegisters env s o)

/-- Every write is acknowledged. -/
def Acks (env : τ → (o : Op) → τ × o.Reply) : Prop :=
  ∀ t addr valu, (env t (.tw9912Write addr valu)).2 = .ack

/-- The registers that a table sets, in its order. -/
def tableRegs : List UInt8 → List (UInt8 × UInt8)
  | addr :: valu :: rest => if addr = 0xfe then [] else (addr, valu) :: tableRegs rest
  | _ => []

def writeRegs (reg : Registers) (regs : List (UInt8 × UInt8)) : Registers :=
  regs.foldl (fun reg p => Function.update reg p.1 p.2) reg

/-- The last write to a register stays. -/
theorem writeRegs_apply (reg : Registers) (regs : List (UInt8 × UInt8)) (addr : UInt8) :
    writeRegs reg regs addr = (regs.reverse.lookup addr).getD (reg addr) := by
  induction regs using List.reverseRecOn with
  | nil => rfl
  | append_singleton regs p ih =>
    have hlast : writeRegs reg (regs ++ [p]) = Function.update (writeRegs reg regs) p.1 p.2 := by
      simp [writeRegs]
    rw [hlast, List.reverse_append, List.reverse_singleton, List.singleton_append,
      List.lookup_cons]
    by_cases haddr : addr = p.1
    · subst haddr
      simp
    · rw [Function.update_of_ne haddr, ih, beq_false_of_ne haddr]

/-! ## What the operations do to the registers -/

/-- A triple about the driver's variables and the registers. -/
abbrev Spec (env : τ → (o : Op) → τ × o.Reply) (P : Globals → Registers → Prop) (p : Tw α)
    (Q : α → Globals → Registers → Prop) : Prop :=
  Triple (chip env) (fun g s => P g s.1) p (fun a g s => Q a g s.1)

variable {P : Globals → Registers → Prop} {Q : α → Globals → Registers → Prop}

/-- All but a write leaves the registers alone. -/
theorem spec_perform {o : Op} (ho : ∀ reg r, registersAfter reg o r = reg)
    {Q : o.Reply → Globals → Registers → Prop} (h : ∀ r g reg, P g reg → Q r g reg) :
    Spec env P (perform o) Q := by
  refine triple_invoke fun g s hP => ⟨_, _, rfl, ?_⟩
  show Q _ g (registersAfter s.1 o (env s.2 o).2)
  rw [ho]
  exact h _ g s.1 hP

/-- A read leaves the variables and the registers. -/
theorem spec_read (subAddr : UInt8) {Q : Ack × UInt8 → Globals → Registers → Prop}
    (h : ∀ r g reg, P g reg → Q r g reg) : Spec env P (tw9912Read subAddr) Q :=
  spec_perform (fun _ _ => rfl) h

/-- A write sets its register, or is refused by a chip that does not always acknowledge. -/
theorem spec_write (addr valu : UInt8) {Q : Ack → Globals → Registers → Prop}
    (hack : ∀ g reg, P g reg → Q .ack g (Function.update reg addr valu))
    (hnack : ¬ Acks env → ∀ g reg, P g reg → Q .nack g reg) :
    Spec env P (tw9912Write addr valu) Q := by
  refine triple_invoke fun g s hP => ⟨_, _, rfl, ?_⟩
  show Q (env s.2 (.tw9912Write addr valu)).2 g
    (registersAfter s.1 (.tw9912Write addr valu) (env s.2 (.tw9912Write addr valu)).2)
  cases hr : (env s.2 (.tw9912Write addr valu)).2 with
  | ack => exact hack g s.1 hP
  | nack =>
    refine hnack (fun h => ?_) g s.1 hP
    cases (h s.2 addr valu).symm.trans hr

/-- What is known behind writes: all of them were done, or one was not acknowledged. -/
def Written (env : τ → (o : Op) → τ × o.Reply) (P : Globals → Registers → Prop)
    (regs : List (UInt8 × UInt8)) (ret : Ack) (g : Globals) (reg : Registers) : Prop :=
  match ret with
  | .ack => ∃ reg₀, P g reg₀ ∧ reg = writeRegs reg₀ regs
  | .nack => ¬ Acks env

/-- One write and those behind it. -/
theorem Written.cons {regs : List (UInt8 × UInt8)} {addr valu : UInt8} {ret : Ack} {g : Globals}
    {reg : Registers} (h : Written env (Written env P [(addr, valu)] .ack) regs ret g reg) :
    Written env P ((addr, valu) :: regs) ret g reg := by
  cases ret with
  | ack =>
    obtain ⟨-, ⟨reg₀, hP, rfl⟩, hreg⟩ := h
    exact ⟨reg₀, hP, hreg⟩
  | nack => exact h

/-- A write is a list of one register that is written. -/
theorem spec_write_written (addr valu : UInt8) :
    Spec env P (tw9912Write addr valu) (Written env P [(addr, valu)]) :=
  spec_write addr valu (fun _ reg hP => ⟨reg, hP, rfl⟩) (fun h _ _ _ => h)

/-- A table writes its registers up to the first that is refused. -/
theorem spec_writeArray (pause : UInt8 → Bool) {table : List UInt8}
    (h : Terminated table = true) :
    Spec env P (writeArray pause table) (Written env P (tableRegs table)) := by
  fun_induction writeArray pause table generalizing P with
  | case1 rest =>
    refine triple_pure fun g s hP => ?_
    cases rest with
    | nil => exact ⟨s.1, hP, rfl⟩
    | cons => exact ⟨s.1, hP, rfl⟩
  | case2 addr hmark =>
    rw [Terminated, if_neg hmark] at h
    cases h
  | case3 addr hmark valu rest ih =>
    rw [Terminated, if_neg hmark] at h
    rw [tableRegs, if_neg hmark]
    refine (spec_write_written addr valu).bind fun ret => triple_ite ?_ ?_
    · rintro rfl
      exact triple_pure fun g s hnack => hnack
    · intro hret
      have hrest : Spec env (Written env P [(addr, valu)] ret) (writeArray pause rest)
          (Written env P ((addr, valu) :: tableRegs rest)) := by
        refine (ih h).post fun ret' g s hw => ?_
        cases ret with
        | ack => exact hw.cons
        | nack => exact absurd rfl hret
      refine triple_ite (fun _ => ?_) (fun _ => hrest)
      exact Triple.bind (spec_perform (fun _ _ => rfl) fun _ _ _ hP => hP) fun _ => hrest
  | case4 => cases h

/-- So does a list of registers. -/
theorem spec_writeAll (regs : List (UInt8 × UInt8)) :
    Spec env P (writeAll regs) (Written env P regs) := by
  induction regs generalizing P with
  | nil => exact triple_pure fun g s hP => ⟨s.1, hP, rfl⟩
  | cons p regs ih =>
    refine (spec_write_written p.1 p.2).bind fun ret => triple_ite ?_ ?_
    · rintro rfl
      exact triple_pure fun g s hnack => hnack
    · intro hret
      refine ih.post fun ret' g s hw => ?_
      cases ret with
      | ack => exact hw.cons
      | nack => exact absurd rfl hret

/-! ## What the driver believes -/

/-- What register 0x02 is for a channel. -/
def selects (channel : VedioChannel) : Option UInt8 := (inputPinSelet channel).lookup 0x02

/-- The chip is set to the channel that `the_last_config` says. -/
def Believes (g : Globals) (reg : Registers) : Prop :=
  ∀ valu, selects g.theLastConfig.channel = some valu → reg 0x02 = valu

/-- The same, of a chip that acknowledges. -/
def Agrees (env : τ → (o : Op) → τ × o.Reply) (g : Globals) (reg : Registers) : Prop :=
  Acks env → Believes g reg

/-- The belief is kept. -/
abbrev Retains (env : τ → (o : Op) → τ × o.Reply) (p : Tw α) : Prop :=
  Spec env (Agrees env) p (fun _ => Agrees env)

theorem retains_pure (a : α) : Retains env (pure a : Tw α) := triple_pure fun _ _ h => h

/-- Two programs that leave the channel, one behind the other. -/
theorem Retains.bind {p : Tw α} {k : α → Tw β} (hp : Retains env p)
    (hk : ∀ a, Retains env (k a)) : Retains env (p >>= k) := Triple.bind hp hk

theorem retains_ite {c : Prop} [Decidable c] {p q : Tw α} (hp : Retains env p)
    (hq : Retains env q) : Retains env (if c then p else q) :=
  triple_ite (fun _ => hp) (fun _ => hq)

theorem retains_get : Retains env (get : Tw Globals) := fun g s h => ⟨g, g, s, [], rfl, h⟩

/-- An assignment to another variable leaves the channel. -/
theorem retains_modify {f : Globals → Globals}
    (hf : ∀ g, (f g).theLastConfig.channel = g.theLastConfig.channel) :
    Retains env (modify f : Tw Unit) := by
  refine triple_modify fun g s h hack valu hvalu => ?_
  rw [hf] at hvalu
  exact h hack valu hvalu

/-- An operation that writes no register leaves the channel and register 0x02. -/
theorem retains_perform {o : Op} (ho : ∀ reg r, registersAfter reg o r = reg) :
    Retains env (perform o) := spec_perform ho fun _ _ _ h => h

theorem retains_read (subAddr : UInt8) : Retains env (tw9912Read subAddr) :=
  retains_perform fun _ _ => rfl

/-- A write to another register. -/
theorem retains_write {addr : UInt8} (haddr : 0x02 ≠ addr) (valu : UInt8) :
    Retains env (tw9912Write addr valu) := by
  refine spec_write addr valu (fun g reg h hack valu' hvalu => ?_) (fun _ g reg h => h)
  rw [Function.update_of_ne haddr]
  exact h hack valu' hvalu

/-- What is remembered is the channel that is set. -/
theorem spec_setLastChannel (channel : VedioChannel) :
    Spec env P (setLastChannel channel) (fun _ g _ => g.theLastConfig.channel = channel) :=
  triple_modify fun _ _ _ => rfl

/-- The channel is chosen. -/
theorem spec_choose (channel : VedioChannel) :
    Spec env (fun g _ => g.theLastConfig.channel = channel) (writeAll (inputPinSelet channel))
      (fun _ => Agrees env) := by
  refine Triple.post (spec_writeAll (P := fun g _ => g.theLastConfig.channel = channel) _)
    fun ret g s hw => ?_
  intro hack valu hvalu
  cases ret with
  | nack => exact absurd hack hw
  | ack =>
    obtain ⟨reg₀, rfl, hreg⟩ := hw
    rw [hreg, writeRegs_apply]
    revert hvalu
    cases g.theLastConfig.channel <;> intro hvalu <;> cases hvalu <;> rfl

/-- A table is written that selects the channel. -/
theorem spec_writeTable {channel : VedioChannel} (format : VedioFormat) {table : List UInt8}
    (h : Terminated table = true)
    (hselects : (tableRegs table).reverse.lookup 0x02 = selects channel) :
    Spec env P (writeTable channel format table) (fun _ => Agrees env) := by
  refine (triple_modify (Q := fun _ g _ => g.theLastConfig.channel = channel) fun _ _ _ => rfl).bind
    fun _ => ?_
  refine Triple.bind (spec_writeArray (P := fun g _ => g.theLastConfig.channel = channel) _ h)
    fun ret => ?_
  refine triple_pure fun g s hw hack valu hvalu => ?_
  cases ret with
  | nack => exact absurd hack hw
  | ack =>
    obtain ⟨reg₀, rfl, hreg⟩ := hw
    rw [hreg, writeRegs_apply, hselects, hvalu]
    rfl

/-- The configuration without a signal ends with what it remembers selected. -/
theorem spec_configArrayAgin : Spec env P tw9912ConfigArrayAgin (fun _ => Agrees env) :=
  spec_writeTable .ntscI (by decide) (by decide)

/-- The table for YUV on YIN3 ends with what it remembers selected. -/
theorem spec_yin3ToYuvInitAgin : Spec env P tw9912Yin3ToYuvInitAgin (fun _ => Agrees env) :=
  spec_writeTable .ntscP (by decide) (by decide)

/-- Reading the chip's number changes nothing. -/
theorem spec_getChipId : Spec env P tw9912GetChipId (fun _ => P) :=
  Triple.bind (Q := fun _ g s => P g s.1) (spec_read _ fun _ _ _ h => h) fun _ =>
    triple_pure fun _ _ h => h

theorem spec_configArrayPalI : Retains env tw9912ConfigArrayPalI :=
  spec_getChipId.bind fun _ => spec_writeTable .palI (by decide) (by decide)

/-! ## Each function -/

/-- That in NTSC remembers what it selects, whatever was before. -/
theorem spec_configArrayNtscP : Spec env P tw9912ConfigArrayNtscP (fun _ => Agrees env) :=
  spec_getChipId.bind fun _ => spec_writeTable .ntscP (by decide) (by decide)

/-- The choice of a channel remembers what it selects. -/
theorem spec_channelChoecesAgain (channel : VedioChannel) :
    Spec env P (tw9912ChannelChoecesAgain channel) (fun _ => Agrees env) :=
  (spec_setLastChannel channel).bind fun _ => (spec_choose channel).bind fun _ => retains_pure _

theorem retains_getInputInfo (info : InputInfo) : Retains env (tw9912GetInputInfo info) := by
  refine (retains_read _).bind fun r => retains_ite (retains_pure _) ?_
  refine (retains_read _).bind fun r => retains_ite (retains_pure _) ?_
  exact (retains_read _).bind fun r => retains_pure _

theorem retains_setSignal (channel : VedioChannel) (signal : Signal) :
    Retains env (setSignal channel signal) := retains_modify fun _ => rfl

theorem retains_setStatus (flag : Bool) (channel : VedioChannel) (format : VedioFormat) :
    Retains env (setStatus flag channel format) := retains_modify fun _ => rfl

theorem retains_setFormat (channel : VedioChannel) (format : VedioFormat) :
    Retains env (setFormat channel format) :=
  retains_get.bind fun _ => retains_setSignal _ _

/-- What a signal is taken for leaves the channel and register 0x02. -/
theorem retains_analysisInputSignal (info : InputInfo) (channel : VedioChannel) :
    Retains env (tw9912AnalysisInputSignal info channel) := by
  refine retains_ite (retains_pure _) ((retains_setSignal _ _).bind fun _ => ?_)
  refine retains_ite ((retains_read _).bind fun _ => ?_) (retains_setSignal _ _)
  refine retains_ite (retains_setFormat _ _) (retains_ite (retains_setFormat _ _) ?_)
  exact retains_ite (retains_setFormat _ _) (retains_pure _)

theorem retains_firstInitall (channel : VedioChannel) : Retains env (firstInitall channel) :=
  (retains_setStatus _ _ _).bind fun _ => spec_configArrayPalI

theorem retains_appointPin (channel : VedioChannel) : Retains env (appointPin channel) := by
  refine (retains_read _).bind fun r => retains_get.bind fun g => retains_ite ?_ (retains_pure _)
  refine (retains_ite (retains_firstInitall _) (retains_pure _)).bind fun _ => ?_
  exact (spec_setLastChannel channel).bind fun _ => spec_choose channel

theorem retains_appointTest (channel : VedioChannel) : Retains env (appointTest channel) := by
  refine (retains_write (by decide) _).bind fun _ => retains_get.bind fun g => ?_
  refine (retains_getInputInfo _).bind fun info => Retains.bind ?_ fun _ => ?_
  · exact retains_modify fun _ => rfl
  · refine (retains_analysisInputSignal _ _).bind fun _ => retains_get.bind fun g => ?_
    exact retains_pure _

theorem spec_lock : Spec env P mutexLock (fun _ => P) :=
  spec_perform (fun _ _ => rfl) fun _ _ _ h => h

theorem retains_unlock_pure (a : α) : Retains env (do mutexUnlock; pure a) :=
  Retains.bind (retains_perform fun _ _ => rfl) fun _ => retains_pure a

/-- A test of an appointed pin selects it, and leaves what is remembered. -/
theorem retains_appointPinCvbsSignalTsting (channel : VedioChannel) :
    Retains env (tw9912AppointPinTw9912CvbsSignalTsting channel) := by
  refine Triple.bind spec_lock fun _ => retains_ite ?_ ?_
  · refine (retains_appointPin channel).bind fun pin => retains_ite (retains_unlock_pure _) ?_
    exact (retains_appointTest channel).bind fun ret => retains_unlock_pure _
  · refine (retains_setStatus _ _ _).bind fun _ => (retains_setFormat _ _).bind fun _ => ?_
    exact retains_unlock_pure _

/-- The turns of a signal test leave the channel and register 0x02. -/
theorem retains_testingLoop (turns : Nat) (i : UInt8) : Retains env (testingLoop turns i) := by
  induction turns generalizing i with
  | zero => exact retains_pure _
  | succ turns ih =>
    refine (retains_read _).bind fun r => retains_ite ?_ (retains_pure _)
    refine Retains.bind (retains_perform fun _ _ => rfl) fun _ => ?_
    refine Retains.bind (retains_perform fun _ _ => rfl) fun _ => ?_
    exact Triple.bind spec_lock fun _ => ih (i + 1)

theorem retains_testingFound (channel : VedioChannel) : Retains env (testingFound channel) := by
  refine (retains_write (by decide) _).bind fun _ => ?_
  refine Retains.bind (retains_perform fun _ _ => rfl) fun _ => ?_
  refine Retains.bind (retains_perform fun _ _ => rfl) fun _ => Triple.bind spec_lock fun _ => ?_
  refine (retains_read _).bind fun r => retains_ite ?_ (retains_unlock_pure _)
  exact (retains_read _).bind fun c => retains_unlock_pure _

theorem retains_testingChannalSignal (channel : VedioChannel) :
    Retains env (tw9912TestingChannalSignal channel) := by
  refine retains_ite (retains_pure _) (Triple.bind spec_lock fun _ => retains_get.bind fun g => ?_)
  refine (retains_ite (spec_channelChoecesAgain channel) (retains_pure _)).bind fun _ => ?_
  refine (retains_testingLoop 20 0).bind fun i => ?_
  exact retains_ite (retains_unlock_pure _) (retains_testingFound channel)

/-- A whole test of a CVBS signal leaves the channel and register 0x02. -/
theorem retains_cvbsSignalTsting (channel : VedioChannel) :
    Retains env (tw9912CvbsSignalTsting channel) := by
  refine Triple.bind spec_lock fun _ => retains_get.bind fun g => ?_
  refine (retains_ite spec_configArrayAgin (retains_pure _)).bind fun _ => ?_
  refine retains_ite (retains_unlock_pure _) ?_
  refine Retains.bind (retains_perform fun _ _ => rfl) fun info => ?_
  refine (retains_getInputInfo _).bind fun info => ?_
  refine Retains.bind (retains_perform fun _ _ => rfl) fun _ => ?_
  exact retains_ite (retains_pure _) (retains_pure _)

/-- A test of the YUV signal leaves the channel and register 0x02. -/
theorem retains_yuvSignalTesting : Retains env tw9912YuvSignalTesting := by
  refine retains_get.bind fun g => ?_
  refine (retains_ite spec_yin3ToYuvInitAgin (retains_pure _)).bind fun _ => ?_
  exact (retains_read _).bind fun r => retains_pure _

/-- The test when the camera is opened leaves the channel and register 0x02. -/
theorem retains_cameraOpenVideoSignalTestIn2 : Retains env cameraOpenVideoSignalTestIn2 := by
  refine Retains.bind (retains_perform fun _ _ => rfl) fun info => ?_
  refine (retains_getInputInfo info).bind fun info => retains_ite ?_ (retains_pure _)
  exact (retains_read _).bind fun r => retains_get.bind fun g => retains_pure _

/-! ## `tw9912_config_array` -/

/-- The registers that the table of a format sets. -/
def formatRegs (format : VedioFormat) : List (UInt8 × UInt8) :=
  ((configPramat format).map tableRegs).getD []

/-- The chip and the driver's variables, when a channel is configured. -/
structure Configured (channel : VedioChannel) (g : Globals) (reg : Registers) : Prop where
  format : (configPramat g.theLastConfig.format).isSome
  regs : ∀ p ∈ formatRegs g.theLastConfig.format, reg p.1 = p.2
  chosen : g.theLastConfig.channel = channel
  status : g.tw9912Status = ⟨true, channel, g.theLastConfig.format⟩
  runSotp : g.runSotpFormat = g.theLastConfig.format

/-- No table sets a register twice. -/
theorem lookup_formatRegs (format : VedioFormat) :
    ∀ p ∈ formatRegs format, (formatRegs format).reverse.lookup p.1 = some p.2 := by
  have hall : (formatRegs format).all
      fun p => (formatRegs format).reverse.lookup p.1 == some p.2 := by
    cases format <;> decide +kernel
  intro p hp
  exact eq_of_beq (List.all_eq_true.mp hall p hp)

/-- The table of a format leaves each register with the value it writes there. -/
theorem writeRegs_formatRegs (reg : Registers) (format : VedioFormat) :
    ∀ p ∈ formatRegs format, writeRegs reg (formatRegs format) p.1 = p.2 := by
  intro p hp
  rw [writeRegs_apply, lookup_formatRegs format p hp]
  rfl

/-- Where `tw9912_config_array` ends: configured, or as the driver believes. -/
def Ends (env : τ → (o : Op) → τ × o.Reply) (channel : VedioChannel) (ret : Int) (g : Globals)
    (reg : Registers) : Prop :=
  (ret = 1 → Configured channel g reg) ∧ (ret ≠ 1 → Agrees env g reg)

/-- A call that returns anything but 1 promises nothing about the channel. -/
theorem ends_unlock_pure (channel : VedioChannel) {ret : Int} (hret : ret ≠ 1) :
    Spec env (Agrees env) (do mutexUnlock; pure ret) (Ends env channel) := by
  refine Triple.bind (Q := fun _ => fun g s => Agrees env g s.1) ?_ fun _ => ?_
  · exact retains_perform fun _ _ => rfl
  · exact triple_pure fun g s h => ⟨fun heq => absurd heq hret, fun _ => h⟩

/-- The variables as they are set before the table is written. -/
def FormatSet (channel : VedioChannel) (format : VedioFormat) (g : Globals) : Prop :=
  g.theLastConfig = ⟨channel, format⟩ ∧ g.tw9912Status = ⟨true, channel, format⟩

/-- A table that was written whole has configured the channel. -/
theorem spec_configFormat (channel : VedioChannel) {format : VedioFormat} {table : List UInt8}
    (h : configPramat format = some table) :
    Spec env P (configFormat channel format table) (Ends env channel) := by
  have hregs : tableRegs table = formatRegs format := by
    rw [formatRegs, h]
    rfl
  refine Triple.bind (triple_modify
    (Q := fun _ g _ => g.tw9912Status = ⟨true, channel, format⟩) fun _ _ _ => rfl) fun _ => ?_
  refine Triple.bind (triple_modify
    (Q := fun _ g _ => g.tw9912Status = ⟨true, channel, format⟩) fun g _ hg => ?_) fun _ => ?_
  · split_ifs
    · exact hg
    · exact hg
  refine Triple.bind (triple_modify
    (Q := fun _ g _ => FormatSet channel format g) fun g _ hg => ⟨rfl, hg⟩) fun _ => ?_
  refine Triple.bind (spec_writeArray (P := fun g _ => FormatSet channel format g) _
    (terminated_configPramat h)) fun written => triple_ite ?_ fun hwritten => ?_
  · rintro rfl
    refine Triple.pre (ends_unlock_pure channel (by decide)) fun g s hw => ?_
    exact fun hack => absurd hack hw
  · refine Triple.bind (triple_modify (Q := fun _ g s => Configured channel g s.1)
      fun g s hw => ?_) fun _ => ?_
    · cases written with
      | nack => exact absurd rfl hwritten
      | ack =>
        obtain ⟨reg₀, ⟨hlast, hstatus⟩, hreg⟩ := hw
        refine ⟨?_, ?_, ?_, ?_, ?_⟩
        · show (configPramat g.theLastConfig.format).isSome
          rw [hlast, h]
          rfl
        · show ∀ p ∈ formatRegs g.theLastConfig.format, s.1 p.1 = p.2
          rw [hlast, hreg, hregs]
          exact writeRegs_formatRegs reg₀ format
        · exact congrArg LastConfig.channel hlast
        · show g.tw9912Status = ⟨true, channel, g.theLastConfig.format⟩
          rw [hlast, hstatus]
        · exact (congrArg LastConfig.format hlast).symm
    · refine Triple.bind (Q := fun _ g s => Configured channel g s.1) ?_ fun _ => ?_
      · exact spec_perform (fun _ _ => rfl) fun _ _ _ hc => hc
      · exact triple_pure fun g s hc => ⟨fun _ => hc, fun hne => absurd rfl hne⟩

/-- What is done without a format of its own returns anything but 1. -/
theorem spec_configSignal (channel : VedioChannel) (ret : Int) :
    Spec env (Agrees env) (configSignal channel ret) (Ends env channel) := by
  refine triple_ite (fun _ => ends_unlock_pure channel (by decide)) fun _ => ?_
  refine Triple.bind retains_get fun g => ?_
  dsimp only
  split
  · refine Triple.bind (retains_setStatus _ _ _) fun _ => ?_
    exact ends_unlock_pure channel (by decide)
  · next table h => exact spec_configFormat channel h

theorem retains_signalDelteAgain (channel : VedioChannel) (again : Nat) :
    Retains env (signalDelteAgain channel again) := by
  induction again with
  | zero => exact retains_appointPinCvbsSignalTsting channel
  | succ again ih =>
    refine (retains_appointPinCvbsSignalTsting channel).bind fun ret => ?_
    exact retains_ite ih (retains_pure _)

theorem retains_tryAnother (channel : VedioChannel) : Retains env (tryAnother channel) := by
  refine Retains.bind (retains_modify fun _ => rfl) fun _ => ?_
  refine Retains.bind (retains_perform fun _ _ => rfl) fun _ => ?_
  refine (retains_testingChannalSignal _).bind fun retFormat => Triple.bind spec_lock fun _ => ?_
  refine retains_ite (retains_pure _) ?_
  refine Retains.bind (retains_perform fun _ _ => rfl) fun _ => ?_
  refine (retains_cvbsSignalTsting _).bind fun ret => Triple.bind spec_lock fun _ => ?_
  exact (retains_setFormat _ _).bind fun _ => retains_pure _

/-- Every way through `tw9912_config_array`, which chooses the channel first. -/
theorem spec_configArray (channel : VedioChannel) :
    Spec env P (tw9912ConfigArray channel) (Ends env channel) := by
  refine Triple.bind spec_lock fun _ => Triple.bind spec_getChipId fun _ => ?_
  refine Triple.bind (spec_channelChoecesAgain channel) fun _ => ?_
  refine Triple.bind (retains_perform fun _ _ => rfl) fun _ => ?_
  refine Triple.bind (retains_signalDelteAgain channel 1) fun ret => ?_
  refine Triple.bind spec_lock fun _ => triple_ite (fun _ => ?_) fun _ => ?_
  · refine Triple.bind (retains_tryAnother channel) fun found => ?_
    cases found with
    | none => exact ends_unlock_pure channel (by decide)
    | some ret => exact spec_configSignal channel ret
  · exact spec_configSignal channel ret

/-- **When `tw9912_config_array` returns 1, the chip is configured**, whatever it was before, with
the table of the format that the driver's variables name. When it does not, and the chip
acknowledges, the chip is still set to the channel that the driver believes. The lock is free
again in any case. -/
theorem configArray_configured (env : τ → (o : Op) → τ × o.Reply) (channel : VedioChannel)
    (g : Globals) (s : Registers × τ) :
    ∃ ret g' s' trace,
      ((tw9912ConfigArray channel).run g).exec (guarded Op.lockOp (withRegisters env)) (false, s) =
        some ((ret, g'), (false, s'), trace) ∧
      (ret = 1 → Configured channel g' s'.1) ∧ (ret ≠ 1 → Acks env → Believes g' s'.1) := by
  have hspec : Spec env (fun _ _ => True) (tw9912ConfigArray channel) (Ends env channel) :=
    spec_configArray channel
  obtain ⟨ret, g', ⟨held, s'⟩, trace, hrun, rfl, hends⟩ :=
    hspec.guarded (keeps_configArray channel) g (false, s) ⟨rfl, trivial⟩
  exact ⟨ret, g', s', trace, hrun, hends⟩

/-! ## Runs of calls -/

/-- What the driver is called for. Before the tables for the DVD the chip may have been reset,
to registers of its own. -/
inductive Call where
  | configArray (channel : VedioChannel)
  | testingChannalSignal (channel : VedioChannel)
  | cvbsSignalTsting (channel : VedioChannel)
  | appointPin (channel : VedioChannel)
  | yuvSignalTesting
  | cameraOpenVideoSignalTest
  | configArrayNtscP (reset : Option Registers)

/-- The function, and its result as an `int`. -/
def Call.prog : Call → Tw Int
  | .configArray channel => tw9912ConfigArray channel
  | .testingChannalSignal channel => do
    let format ← tw9912TestingChannalSignal channel
    pure (formatNumber format)
  | .cvbsSignalTsting channel => do
    let format ← tw9912CvbsSignalTsting channel
    pure (formatNumber format)
  | .appointPin channel => tw9912AppointPinTw9912CvbsSignalTsting channel
  | .yuvSignalTesting => do
    let format ← tw9912YuvSignalTesting
    pure (formatNumber format)
  | .cameraOpenVideoSignalTest => do
    let format ← cameraOpenVideoSignalTestIn2
    pure (formatNumber format)
  | .configArrayNtscP _ => tw9912ConfigArrayNtscP

def Call.start (call : Call) (reg : Registers) : Registers :=
  match call with
  | .configArrayNtscP (some reset) => reset
  | _ => reg

/-- A call that returned, and the format the driver remembers. -/
structure Returned where
  call : Call
  ret : Int
  format : VedioFormat

/-- The driver and the chip, a call at a time. -/
def callStep (env : τ → (o : Op) → τ × o.Reply) :
    Step (Globals × Registers × τ) Call Returned := fun (g, reg, t) call =>
  (call.prog.run g).exec (chip env) (call.start reg, t) |>.map fun r =>
    ((r.1.2, r.2.1), [⟨call, r.1.1, r.1.2.theLastConfig.format⟩])

/-- The channel is the one that the table of the format selects. -/
def Fits (channel : VedioChannel) (format : VedioFormat) : Prop :=
  channel = .notone ∨ channel = .yin3 ∧ (format = .ntscI ∨ format = .palI) ∨
    channel = .separation ∧ format = .ntscP

instance (channel : VedioChannel) (format : VedioFormat) : Decidable (Fits channel format) := by
  unfold Fits
  infer_instance

/-- Where `tw9912_config_array` returns 1, it was for such a channel. -/
def Returned.Fits (r : Returned) : Prop :=
  match r.call with
  | .configArray channel => r.ret = 1 → Tw9912.Fits channel r.format
  | _ => True

instance (r : Returned) : Decidable r.Fits := by
  unfold Returned.Fits
  split <;> infer_instance

/-- A channel fits a format exactly if the table of the format writes what selects it. -/
theorem fits_iff {channel : VedioChannel} {format : VedioFormat}
    (h : (configPramat format).isSome) :
    Fits channel format ↔
      ∀ valu, selects channel = some valu → (0x02, valu) ∈ formatRegs format := by
  have hsome : ∀ valu, selects channel = some valu →
      (Fits channel format ↔ (0x02, valu) ∈ formatRegs format) := by
    intro valu hvalu
    revert h hvalu
    cases channel <;> intro h hvalu <;> cases hvalu <;> revert h <;> cases format <;> decide
  cases hselects : selects channel with
  | none =>
    refine iff_of_true (.inl ?_) fun valu hvalu => by cases hvalu
    cases channel <;> first | rfl | cases hselects
  | some valu =>
    rw [hsome valu hselects]
    exact ⟨fun hmem valu' hvalu => by cases hvalu; exact hmem, fun hall => hall valu rfl⟩

/-- Each table selects an input. -/
theorem exists_mem_formatRegs {format : VedioFormat} (h : (configPramat format).isSome) :
    ∃ valu, (0x02, valu) ∈ formatRegs format := by
  cases format with
  | ntscI | palI => exact ⟨0x4c, by decide⟩
  | ntscP => exact ⟨0x70, by decide⟩
  | palP => exact ⟨0x60, by decide⟩
  | stopVideo | colorbar | other => cases h

/-- After a configuration the belief is true exactly if the channel fits the format. -/
theorem Configured.format_fits_iff {channel : VedioChannel} {g : Globals} {reg : Registers}
    (h : Configured channel g reg) : Believes g reg ↔ Fits channel g.theLastConfig.format := by
  rw [fits_iff h.format, Believes, h.chosen]
  refine forall_congr' fun valu => imp_congr_right fun _ => ?_
  constructor
  · intro hreg
    obtain ⟨valu', hmem⟩ := exists_mem_formatRegs h.format
    have hreg' : reg 0x02 = valu' := h.regs _ hmem
    rwa [← hreg, hreg']
  · intro hmem
    exact h.regs _ hmem

/-- A call of a function that is not `tw9912_config_array`. -/
theorem callStep_agrees (hack : Acks env) {s : Globals × Registers × τ} {call : Call}
    (hcall : ∀ channel, call ≠ .configArray channel)
    (hspec : Spec env P call.prog (fun _ => Agrees env)) (hP : P s.1 (call.start s.2.1)) :
    ∃ s' r, callStep env s call = some (s', [r]) ∧ (Believes s'.1 s'.2.1 ↔ r.Fits) := by
  obtain ⟨ret, g', s', trace, hrun, hagrees⟩ := hspec s.1 (call.start s.2.1, s.2.2) hP
  refine ⟨(g', s'), ⟨call, ret, g'.theLastConfig.format⟩, ?_, iff_of_true (hagrees hack) ?_⟩
  · rw [callStep, hrun]
    rfl
  · unfold Returned.Fits
    dsimp only
    split
    · next channel => exact absurd rfl (hcall channel)
    · trivial

/-- The result of a test, as an `int`. -/
theorem Retains.format {p : Tw VedioFormat} (h : Retains env p) :
    Retains env (do let format ← p; pure (formatNumber format)) := h.bind fun _ => retains_pure _

/-- **A call keeps the belief true** exactly if what it returned fits. -/
theorem callStep_believes (hack : Acks env) (s : Globals × Registers × τ) (call : Call)
    (h : Believes s.1 s.2.1) :
    ∃ s' r, callStep env s call = some (s', [r]) ∧ (Believes s'.1 s'.2.1 ↔ r.Fits) := by
  have hagrees : Agrees env s.1 s.2.1 := fun _ => h
  cases call with
  | configArray channel =>
    obtain ⟨ret, g', s', trace, hrun, hone, hne⟩ :=
      spec_configArray (P := fun _ _ => True) channel s.1 s.2 trivial
    refine ⟨(g', s'), ⟨.configArray channel, ret, g'.theLastConfig.format⟩, ?_, ?_⟩
    · show Option.map _ (((tw9912ConfigArray channel).run s.1).exec (chip env) s.2) = _
      rw [hrun]
      rfl
    · by_cases hret : ret = 1
      · rw [(hone hret).format_fits_iff]
        exact ⟨fun hfits _ => hfits, fun hfits => hfits hret⟩
      · exact iff_of_true (hne hret hack) fun heq => absurd heq hret
  | testingChannalSignal channel =>
    refine callStep_agrees hack (fun c hc => by cases hc) ?_ hagrees
    exact (retains_testingChannalSignal channel).format
  | cvbsSignalTsting channel =>
    refine callStep_agrees hack (fun c hc => by cases hc) ?_ hagrees
    exact (retains_cvbsSignalTsting channel).format
  | appointPin channel =>
    refine callStep_agrees hack (fun c hc => by cases hc) ?_ hagrees
    exact retains_appointPinCvbsSignalTsting channel
  | yuvSignalTesting =>
    refine callStep_agrees hack (fun c hc => by cases hc) ?_ hagrees
    exact retains_yuvSignalTesting.format
  | cameraOpenVideoSignalTest =>
    refine callStep_agrees hack (fun c hc => by cases hc) ?_ hagrees
    exact retains_cameraOpenVideoSignalTestIn2.format
  | configArrayNtscP reset =>
    -- whatever the registers are behind the reset, the table sets them
    exact callStep_agrees (P := fun _ _ => True) hack (fun c hc => by cases hc)
      spec_configArrayNtscP trivial

/-- **What the driver believes is true throughout a run**, from its probe on and with a chip that
acknowledges, exactly if `tw9912_config_array` returns 1 only for the channels that the tables
select. -/
theorem believes_iff (hack : Acks env) {g : Globals} {reg : Registers} {t : τ}
    (hprobe : g.theLastConfig.channel = .notone) {calls : List Call}
    {s' : Globals × Registers × τ} {o : List Returned}
    (hrun : run (callStep env) (g, reg, t) calls = some (s', o)) :
    Throughout (callStep env) (fun s => Believes s.1 s.2.1) (g, reg, t) calls ↔
      ∀ r ∈ o, r.Fits := by
  have hinit : Believes g reg := by
    intro valu hvalu
    rw [hprobe] at hvalu
    cases hvalu
  have hfits (s : Globals × Registers × τ) (call : Call) (h : Believes s.1 s.2.1) :
      ∃ s' r, callStep env s call = some (s', [r]) ∧ (Believes s'.1 s'.2.1 ↔
        ∀ t p, callStep env s call = some (t, p) → ∀ r ∈ p, r.Fits) := by
    obtain ⟨s', r, hs, hiff⟩ := callStep_believes hack s call h
    refine ⟨s', r, hs, hiff.trans ⟨fun hr t p ht => ?_, fun hall => ?_⟩⟩
    · cases hs.symm.trans ht
      exact List.forall_mem_singleton.mpr hr
    · exact hall s' [r] hs r List.mem_cons_self
  rw [throughout_iff (P := fun s call => ∀ t p, callStep env s call = some (t, p) →
    ∀ r ∈ p, r.Fits) (fun s call h => ?_) hinit]
  · refine (observed_iff (I := fun s => Believes s.1 s.2.1) (fun s call s' o h hs => ?_)
      hinit hrun).symm
    obtain ⟨s₁, r, hs₁, hiff⟩ := hfits s call h
    cases hs.symm.trans hs₁
    refine ⟨⟨fun hall t p ht => ?_, fun hall => hall _ _ hs⟩, hiff.mpr⟩
    cases hs.symm.trans ht
    exact hall
  · obtain ⟨s₁, r, hs₁, hiff⟩ := hfits s call h
    exact ⟨s₁, [r], hs₁, hiff⟩

end Chip

/-- The driver's variables at its probe. -/
def probe : Globals where
  theLastConfig := ⟨.notone, .other⟩
  tw9912Status := ⟨false, .notone, .other⟩
  signalIsHow := fun _ => ⟨.notone, .other, .sourceOther⟩
  inputInformation := ⟨0, 0, 0, 0⟩
  signalUnstabitilyFlag := 0
  carBackingTimesCnt := 0
  runSotpFormat := .other

/-- A chip that acknowledges, and sees an NTSC signal on every input. -/
def ntscEnv (t : Unit) : (o : Op) → Unit × o.Reply
  | .tw9912Read 0x01 => (t, .ack, 0x08)
  | .tw9912Read _ => (t, .ack, 0)
  | .tw9912Write _ _ => (t, .ack)
  | .uninitialised => (t, ⟨0, 0, 0, 0⟩)
  | .mutexLock | .mutexUnlock | .msleep _ | .usleep _ => (t, ())

/-- A run on YIN3, and one that ends on YIN0: there the belief is wrong. -/
theorem believes_iff_ntsc :
    Throughout (callStep ntscEnv) (fun s => Believes s.1 s.2.1) (probe, fun _ => 0, ())
      [.configArray .yin3, .cvbsSignalTsting .yin3, .configArray .yin3] ∧
    ¬ Throughout (callStep ntscEnv) (fun s => Believes s.1 s.2.1) (probe, fun _ => 0, ())
      [.configArray .yin3, .configArray .yin0] := by
  have hack : Acks ntscEnv := fun _ _ _ => rfl
  have hyin3 : (run (callStep ntscEnv) (probe, fun _ => 0, ())
      [.configArray .yin3, .cvbsSignalTsting .yin3, .configArray .yin3]).map
        (fun r => decide (∀ w ∈ r.2, w.Fits)) = some true := by
    decide +kernel
  have hyin0 : (run (callStep ntscEnv) (probe, fun _ => 0, ())
      [.configArray .yin3, .configArray .yin0]).map
        (fun r => decide (∀ w ∈ r.2, w.Fits)) = some false := by
    decide +kernel
  obtain ⟨⟨s, o⟩, hrun, hfits⟩ := Option.map_eq_some_iff.mp hyin3
  obtain ⟨⟨s', o'⟩, hrun', hfits'⟩ := Option.map_eq_some_iff.mp hyin0
  constructor
  · exact (believes_iff hack rfl hrun).mpr (of_decide_eq_true hfits)
  · intro h
    exact of_decide_eq_false hfits' ((believes_iff hack rfl hrun').mp h)

end Lidbg.Tw9912
