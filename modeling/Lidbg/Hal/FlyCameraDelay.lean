import Lidbg.Hal.FlyCamera
import Lidbg.Drivers.Enter
import Lidbg.Machine.Run

/-!
# The search for the black line (`hal/8x25q_camera/FlyCamera.cpp`,
`drivers/videoin/lidbg_videoin_main.c`)

While the reversing camera is on, the HAL moves the picture down line by line until the
first row is black. It takes a record from the driver, lowers the delay in it and gives it
back; the driver keeps the record and writes the delay to register 0x08 of the chip.

Both sides ask for a delay above 0x10, the HAL before it lowers the delay and the driver
after. `record_inStep_iff`: the delay stays in 0x10 to 0x17, and chip and record differ
after a write exactly from the step on that goes from 0x11 to 0x10.
-/

namespace Lidbg.FlyCamera

open Lidbg.Drivers Machine

/-! ## The driver -/

/-- `tw9912info_t`, which the HAL calls `TW9912Info`. -/
structure TW9912Info where
  reg : UInt8
  regVal : UInt8
  sta : Bool
  flag : Bool
  thisIsFirstOpen : Bool

/-- The records of the driver, `info_com_top_Channel`, the format of the channel in use,
and what each register of the chip was last written with. -/
structure Tw9912Node where
  forNtscI : TW9912Info
  forPalI : TW9912Info
  topChannel : VedioChannel
  format : VedioFormat
  chip : UInt8 → Option UInt8

/-- `video_dev_resume`. -/
def Tw9912Node.videoDevResume (d : Tw9912Node) : Tw9912Node :=
  { d with
    forNtscI := { d.forNtscI with flag := true, regVal := 0x17, thisIsFirstOpen := true }
    forPalI := { d.forPalI with flag := true, regVal := 0x12, thisIsFirstOpen := true } }

/-- `tw9912_node_read`, where no `ioctl` has asked for the state of the signal. -/
def Tw9912Node.read (d : Tw9912Node) : TW9912Info :=
  if d.format = .ntscI then d.forNtscI else d.forPalI

/-- The registers after `tw9912_write(para)`, where the record asks for it. -/
def Tw9912Node.configure (d : Tw9912Node) (info : TW9912Info) : UInt8 → Option UInt8 :=
  if info.regVal > 0x10 ∧ info.reg = 0x8 ∧ d.topChannel ≠ .separation ∧ d.topChannel ≠ .yin2 then
    Function.update d.chip info.reg (some info.regVal)
  else d.chip

/-- `tw9912_node_write`. -/
def Tw9912Node.write (d : Tw9912Node) (info : TW9912Info) : Tw9912Node :=
  if d.format = .ntscI then { d with forNtscI := info, chip := d.configure info }
  else if d.format = .palI then { d with forPalI := info, chip := d.configure info }
  else { d with forPalI := { d.forPalI with thisIsFirstOpen := info.thisIsFirstOpen } }

/-! ## The HAL -/

/-- The variables of the search, and the driver behind `/dev/tw9912config`. -/
structure Astern where
  tw9912FileFd : Int
  openDevFailCount : UInt32
  isOk : Bool
  doNotOrYes : Bool
  node : Tw9912Node

/-- A record written: the one that is stored then, and register 0x08 of the chip. -/
structure Written where
  stored : TW9912Info
  register8 : Option UInt8

/-- `write(global_tw9912_file_fd, &tw9912_info, sizeof(TW9912Info))`. -/
def Astern.write (s : Astern) (info : TW9912Info) : Astern × List Written :=
  let node := s.node.write info
  ({ s with node }, [⟨node.read, node.chip 0x08⟩])

/-- Where the node could not be opened: the failure is noted at the first frame and at
every sixtieth. -/
def Astern.openErr (s : Astern) : Astern :=
  if s.openDevFailCount = 0 then
    { s with doNotOrYes := false, openDevFailCount := s.openDevFailCount + 1 }
  else if s.openDevFailCount > 60 then { s with openDevFailCount := 1, doNotOrYes := false }
  else { s with openDevFailCount := s.openDevFailCount + 1 }

/-- `ToFindBlackLineAndSetTheTw9912VerticalDelayRegister`. -/
def Astern.toFindBlackLineAndSetTheTw9912VerticalDelayRegister (s : Astern) (frame : Frame) :
    Int × Astern × List Written :=
  if s.tw9912FileFd = -1 then (0, s.openErr, [])
  else
    let info := s.node.read
    if info.flag = true then
      if toFindBlackLine frame = true then
        let (s, written) := s.write { info with sta := true, flag := false }
        (0, { s with isOk := true, doNotOrYes := true }, written)
      else if info.regVal > 0x10 ∧ info.regVal ≤ 0x17 then
        (1, s.write { info with reg := 0x08, regVal := info.regVal - 1 })
      else (1, { s with isOk := true, doNotOrYes := false }, [])
    else (0, { s with isOk := true }, [])

/-- A frame of the camera, and the format that the channel has then. -/
structure AsternFrame where
  frame : Frame
  format : VedioFormat
  interlaced : format = .ntscI ∨ format = .palI

/-- One frame, observed by the records that are written. -/
def asternStep : Step Astern AsternFrame Written := fun s i =>
  let s := { s with node := { s.node with format := i.format } }
  some (s.toFindBlackLineAndSetTheTw9912VerticalDelayRegister i.frame).2

/-- Register 0x08 was last written with the delay that is stored. -/
def Written.InStep (w : Written) : Prop :=
  w.stored.reg = 0x08 → w.register8 = some w.stored.regVal

/-- The record of a format. -/
def Tw9912Node.record (d : Tw9912Node) (format : VedioFormat) : TW9912Info :=
  if format = .ntscI then d.forNtscI else d.forPalI

/-- The delay is in its range. -/
def TW9912Info.InRange (info : TW9912Info) : Prop :=
  0x10 ≤ info.regVal ∧ info.regVal ≤ 0x17

/-- The last line the picture could move: the record is to be searched for, its delay is
0x11 and the first row is not black. -/
def LastLine (s : Astern) (i : AsternFrame) : Prop :=
  (s.node.record i.format).flag = true ∧ (s.node.record i.format).regVal = 0x11 ∧
    toFindBlackLine i.frame = false

/-! ## One record written -/

/-- What a write of `info` does to the driver. -/
structure Writes (d : Tw9912Node) (info : TW9912Info) (d' : Tw9912Node)
    (written : List Written) : Prop where
  record : ∀ format, d'.record format = info ∨ d'.record format = d.record format
  register8 : d'.chip 0x08 =
    if info.regVal > 0x10 ∧ info.reg = 0x08 then some info.regVal else d.chip 0x08
  topChannel : d'.topChannel = d.topChannel
  written : written = [⟨info, d'.chip 0x08⟩]

theorem Tw9912Node.configure_register8 {d : Tw9912Node} (htop : d.topChannel = .yin3)
    (info : TW9912Info) :
    d.configure info 0x08 =
      if info.regVal > 0x10 ∧ info.reg = 0x08 then some info.regVal else d.chip 0x08 := by
  have hseparation : d.topChannel ≠ .separation := by
    rw [htop]
    exact fun h => nomatch h
  have hyin2 : d.topChannel ≠ .yin2 := by
    rw [htop]
    exact fun h => nomatch h
  unfold configure
  split_ifs with hasks hval hval
  · rw [hasks.2.1]
    exact Function.update_self ..
  · exact absurd ⟨hasks.1, hasks.2.1⟩ hval
  · exact absurd ⟨hval.1, hval.2, hseparation, hyin2⟩ hasks
  · rfl

theorem Astern.write_spec {s : Astern} (htop : s.node.topChannel = .yin3)
    (hformat : s.node.format = .ntscI ∨ s.node.format = .palI) (info : TW9912Info) :
    Writes s.node info (s.write info).1.node (s.write info).2 := by
  have hregister := Tw9912Node.configure_register8 htop info
  unfold write Tw9912Node.write Tw9912Node.read
  by_cases hntsc : s.node.format = .ntscI
  · rw [if_pos hntsc]
    refine ⟨fun format => ?_, hregister, rfl, ?_⟩
    · exact (Decidable.em (format = .ntscI)).imp (fun h => if_pos h)
        fun h => (if_neg h).trans (if_neg h).symm
    · dsimp only
      rw [if_pos hntsc]
  · rw [if_neg hntsc, if_pos (hformat.resolve_left hntsc)]
    refine ⟨fun format => ?_, hregister, rfl, ?_⟩
    · exact (Decidable.em (format = .ntscI)).symm.imp (fun h => if_neg h)
        fun h => (if_pos h).trans (if_pos h).symm
    · dsimp only
      rw [if_neg hntsc]

/-! ## One frame -/

/-- The record with the black line found. -/
def TW9912Info.found (info : TW9912Info) : TW9912Info :=
  { info with sta := true, flag := false }

/-- The record with the picture moved by a line. -/
def TW9912Info.moved (info : TW9912Info) : TW9912Info :=
  { info with reg := 0x08, regVal := info.regVal - 1 }

/-- **All that a frame can do** while the node is open. -/
theorem asternStep_cases {s s' : Astern} {i : AsternFrame} {written : List Written}
    (hopen : s.tw9912FileFd ≠ -1) (htop : s.node.topChannel = .yin3)
    (h : asternStep s i = some (s', written)) :
    s'.tw9912FileFd = s.tw9912FileFd ∧ s'.node.topChannel = .yin3 ∧
    ((written = [] ∧ s'.node.record = s.node.record ∧ s'.node.chip = s.node.chip ∧
        ((s.node.record i.format).flag = false ∨ ¬ ((s.node.record i.format).regVal > 0x10 ∧
          (s.node.record i.format).regVal ≤ 0x17))) ∨
      (toFindBlackLine i.frame = true ∧
        Writes s.node (s.node.record i.format).found s'.node written) ∨
      ((s.node.record i.format).flag = true ∧ toFindBlackLine i.frame = false ∧
        (s.node.record i.format).regVal > 0x10 ∧
        Writes s.node (s.node.record i.format).moved s'.node written)) := by
  have hread : ({ s.node with format := i.format } : Tw9912Node).read = s.node.record i.format :=
    rfl
  have hwrite := fun info => Astern.write_spec
    (s := { s with node := { s.node with format := i.format } }) htop i.interlaced info
  unfold asternStep Astern.toFindBlackLineAndSetTheTw9912VerticalDelayRegister at h
  dsimp only at h
  rw [if_neg hopen, hread] at h
  split_ifs at h with hflag hblack hval
  · cases h
    have hw := hwrite (s.node.record i.format).found
    exact ⟨rfl, hw.topChannel.trans htop, .inr (.inl ⟨hblack,
      ⟨hw.record, hw.register8, hw.topChannel, hw.written⟩⟩)⟩
  · cases h
    have hw := hwrite (s.node.record i.format).moved
    exact ⟨rfl, hw.topChannel.trans htop, .inr (.inr ⟨hflag, Bool.eq_false_iff.mpr hblack, hval.1,
      ⟨hw.record, hw.register8, hw.topChannel, hw.written⟩⟩)⟩
  · cases h
    exact ⟨rfl, htop, .inl ⟨rfl, rfl, rfl, .inr hval⟩⟩
  · cases h
    exact ⟨rfl, htop, .inl ⟨rfl, rfl, rfl, .inl (Bool.eq_false_iff.mpr hflag)⟩⟩

/-! ## Runs -/

/-- What every frame keeps. -/
structure Opened (s : Astern) : Prop where
  fd_ne : s.tw9912FileFd ≠ -1
  topChannel : s.node.topChannel = .yin3
  inRange : ∀ format, (s.node.record format).InRange

theorem regVal_sub_one {v : UInt8} (h : 0x10 < v) : (v - 1).toNat = v.toNat - 1 := by
  have hlt : 0x10 < v.toNat := UInt8.lt_iff_toNat_lt.mp h
  exact UInt8.toNat_sub_of_le v 1 (UInt8.le_iff_toNat_le.mpr (show 1 ≤ v.toNat by omega))

theorem TW9912Info.InRange.moved {info : TW9912Info} (h : info.InRange)
    (hval : 0x10 < info.regVal) : info.moved.InRange := by
  have hsub := regVal_sub_one hval
  have hlt : 0x10 < info.regVal.toNat := UInt8.lt_iff_toNat_lt.mp hval
  have hle : info.regVal.toNat ≤ 0x17 := UInt8.le_iff_toNat_le.mp h.2
  constructor
  · rw [UInt8.le_iff_toNat_le]
    show 0x10 ≤ (info.regVal - 1).toNat
    omega
  · rw [UInt8.le_iff_toNat_le]
    show (info.regVal - 1).toNat ≤ 0x17
    omega

theorem Opened.step {s s' : Astern} {i : AsternFrame} {written : List Written}
    (h : Opened s) (hs : asternStep s i = some (s', written)) : Opened s' := by
  obtain ⟨hfd, htop, hcases⟩ := asternStep_cases h.fd_ne h.topChannel hs
  refine ⟨hfd ▸ h.fd_ne, htop, fun format => ?_⟩
  rcases hcases with ⟨-, hrecord, -, -⟩ | ⟨-, hw⟩ | ⟨-, -, hval, hw⟩
  · rw [hrecord]
    exact h.inRange format
  · rcases hw.record format with hrecord | hrecord
    · rw [hrecord]
      exact h.inRange i.format
    · rw [hrecord]
      exact h.inRange format
  · rcases hw.record format with hrecord | hrecord
    · rw [hrecord]
      exact (h.inRange i.format).moved hval
    · rw [hrecord]
      exact h.inRange format

/-- What holds as long as no delay has gone down to 0x10. A delay of 0x11 is one that the
chip was written with, so the chip has not got 0x10 from before. -/
structure Above (s : Astern) : Prop where
  opened : Opened s
  lt_regVal : ∀ format, 0x10 < (s.node.record format).regVal
  register8_ne : ∀ format, (s.node.record format).regVal = 0x11 → s.node.chip 0x08 ≠ some 0x10

/-- A frame that writes a delay above 0x10 stays above, and chip and record agree. -/
theorem Above.writes {s s' : Astern} {info : TW9912Info} {written : List Written}
    (h : Above s) (hopened : Opened s') (hw : Writes s.node info s'.node written)
    (hval : 0x10 < info.regVal)
    (hold : info.reg ≠ 0x08 → info.regVal = 0x11 → s.node.chip 0x08 ≠ some 0x10) :
    (∀ w ∈ written, w.InStep) ∧ Above s' := by
  refine ⟨fun w hmem => ?_, hopened, fun format => ?_, fun format hlast => ?_⟩
  · obtain rfl := List.mem_singleton.mp (hw.written ▸ hmem)
    intro hreg
    exact hw.register8.trans (if_pos ⟨hval, hreg⟩)
  · rcases hw.record format with hrecord | hrecord
    · rwa [hrecord]
    · rw [hrecord]
      exact h.lt_regVal format
  · rw [hw.register8]
    split_ifs with hreg
    · intro heq
      exact absurd (Option.some.inj heq ▸ hval) (by decide)
    · rcases hw.record format with hrecord | hrecord
      · exact hold (fun hr => hreg ⟨hval, hr⟩) (hrecord ▸ hlast)
      · exact h.register8_ne format (hrecord ▸ hlast)

/-- Above 0x10, what a frame writes is in step exactly if it does not move the picture by
the last line. -/
theorem Above.step {s s' : Astern} {i : AsternFrame} {written : List Written} (h : Above s)
    (hs : asternStep s i = some (s', written)) :
    ((∀ w ∈ written, w.InStep) ↔ ¬ LastLine s i) ∧ (¬ LastLine s i → Above s') := by
  have hopened := h.opened.step hs
  have habove := h.lt_regVal i.format
  obtain ⟨-, -, ⟨rfl, hrecord, hchip, hnot⟩ | ⟨hblack, hw⟩ | ⟨hflag, hblack, -, hw⟩⟩ :=
    asternStep_cases h.opened.fd_ne h.opened.topChannel hs
  · -- nothing is written
    have hquiet : ¬ LastLine s i := by
      rintro ⟨hflag, -, -⟩
      rcases hnot with hnot | hnot
      · exact Bool.false_ne_true (hnot.symm.trans hflag)
      · exact hnot ⟨habove, (h.opened.inRange i.format).2⟩
    refine ⟨iff_of_true (fun w hmem => absurd hmem List.not_mem_nil) hquiet, fun _ =>
      ⟨hopened, ?_, ?_⟩⟩
    · rw [hrecord]
      exact h.lt_regVal
    · rw [hrecord, hchip]
      exact h.register8_ne
  · -- a black line is found, and the value written once more
    obtain ⟨hin, hkeep⟩ := h.writes hopened hw habove fun _ => h.register8_ne i.format
    refine ⟨iff_of_true hin ?_, fun _ => hkeep⟩
    rintro ⟨-, -, hnot⟩
    exact Bool.false_ne_true (hnot.symm.trans hblack)
  · have hsub := regVal_sub_one habove
    have hlt : 0x10 < (s.node.record i.format).regVal.toNat := UInt8.lt_iff_toNat_lt.mp habove
    by_cases hlast : (s.node.record i.format).regVal = 0x11
    · -- the driver does not take the last line
      have hline : LastLine s i := ⟨hflag, hlast, hblack⟩
      refine ⟨iff_of_false (fun hin => ?_) (not_not_intro hline), fun hnot => absurd hline hnot⟩
      have hmoved : (s.node.record i.format).moved.regVal = 0x10 := by
        show (s.node.record i.format).regVal - 1 = 0x10
        rw [hlast]
        rfl
      have hstays := hw.register8
      rw [hmoved, if_neg fun hboth => absurd hboth.1 (by decide)] at hstays
      have hagree := hin _ (hw.written ▸ List.mem_singleton_self _) rfl
      exact h.register8_ne i.format hlast (hstays.symm.trans (hagree.trans (congrArg some hmoved)))
    · have hne : (s.node.record i.format).regVal.toNat ≠ 0x11 := fun heq =>
        hlast (UInt8.toNat_inj.mp heq)
      have hval : 0x10 < (s.node.record i.format).moved.regVal := by
        rw [UInt8.lt_iff_toNat_lt]
        show 0x10 < ((s.node.record i.format).regVal - 1).toNat
        omega
      obtain ⟨hin, hkeep⟩ := h.writes hopened hw hval fun hreg => absurd rfl hreg
      exact ⟨iff_of_true hin fun hline => hlast hline.2.1, fun _ => hkeep⟩

/-- After `video_dev_resume`. -/
def Astern.resumed (s : Astern) : Astern :=
  { s with node := s.node.videoDevResume }

theorem Astern.resumed_above {s : Astern} (hopen : s.tw9912FileFd ≠ -1)
    (htop : s.node.topChannel = .yin3) : Above s.resumed := by
  have hrecord : ∀ format, (s.resumed.node.record format).regVal = 0x17 ∨
      (s.resumed.node.record format).regVal = 0x12 := fun format =>
    (Decidable.em (format = .ntscI)).imp (fun h => congrArg TW9912Info.regVal (if_pos h))
      fun h => congrArg TW9912Info.regVal (if_neg h)
  refine ⟨⟨hopen, htop, fun format => ?_⟩, fun format => ?_, fun format => ?_⟩
  · unfold TW9912Info.InRange
    rcases hrecord format with h | h <;> rw [h] <;> decide
  · rcases hrecord format with h | h <;> rw [h] <;> decide
  · rcases hrecord format with h | h <;> rw [h] <;> exact fun h => absurd h (by decide)

/-- **Chip and record**: after `video_dev_resume`, on the channel of the reversing camera
and with its node open, the delays stay in 0x10 to 0x17 whatever frames come, and register
0x08 was last written with the delay that is stored, after every record written for it,
exactly if no frame moves the picture by the last line. -/
theorem record_inStep_iff (s : Astern) (hopen : s.tw9912FileFd ≠ -1)
    (htop : s.node.topChannel = .yin3) (frames : List AsternFrame) :
    ∃ s' written, run asternStep s.resumed frames = some (s', written) ∧
      (∀ format, (s'.node.record format).InRange) ∧
      ((∀ w ∈ written, w.InStep) ↔
        StepsMeet asternStep (fun _ _ s i => ¬ LastLine s i) s.resumed frames) := by
  have habove := Astern.resumed_above hopen htop
  have hopened : ∃ s' written, run asternStep s.resumed frames = some (s', written) ∧ Opened s' :=
    run_invariant' (I := fun _ _ s => Opened s) (fun _ _ s i h => ⟨_, _, rfl, h.step rfl⟩)
      habove.opened frames
  obtain ⟨s', written, hrun, hopened⟩ := hopened
  exact ⟨s', written, hrun, hopened.inRange, observed_iff (I := Above)
    (fun s i s' written h hs => h.step hs) habove hrun⟩

/-- The variables as they are initialised, with the node open on the channel of the
reversing camera. -/
def astern : Astern :=
  ⟨3, 0, false, true, ⟨⟨0x08, 0x17, false, true, true⟩, ⟨0x08, 0x17, false, true, true⟩,
    .yin3, .palI, fun _ => none⟩⟩

/-- A frame of one brightness. -/
def plainFrame (y : UInt8) : AsternFrame := ⟨⟨fun _ => y⟩, .palI, .inr rfl⟩

/-- A black frame, with which the search is over for its format, between bright ones. -/
theorem record_inStep_search :
    ∃ s' written, run asternStep astern.resumed
        [plainFrame 0xff, plainFrame 0x10, plainFrame 0xff, plainFrame 0xff] =
          some (s', written) ∧
      (∀ format, (s'.node.record format).InRange) ∧
      ((∀ w ∈ written, w.InStep) ↔
        StepsMeet asternStep (fun _ _ s i => ¬ LastLine s i) astern.resumed
          [plainFrame 0xff, plainFrame 0x10, plainFrame 0xff, plainFrame 0xff]) :=
  record_inStep_iff astern (by decide) rfl _

theorem toFindBlackLine_bright : toFindBlackLine (plainFrame 0xff).frame = false := by
  rw [← Bool.not_eq_true, toFindBlackLine_iff]
  have hbright : ¬ (0xff : UInt8) ≤ bcarBlackValueUperrLimit := by decide
  have hnone : (plainFrame 0xff).frame.darkInRow bcarBlackValueUperrLimit 0 719 = 0 :=
    Nat.count_of_forall_not fun n _ => hbright
  omega

theorem asternStep_moved {s : Astern} {i : AsternFrame} (hopen : s.tw9912FileFd ≠ -1)
    (hflag : (s.node.record i.format).flag = true) (hblack : toFindBlackLine i.frame = false)
    (hval : (s.node.record i.format).regVal > 0x10 ∧ (s.node.record i.format).regVal ≤ 0x17) :
    asternStep s i = some (Astern.write { s with node := { s.node with format := i.format } }
      (s.node.record i.format).moved) := by
  have hnot : ¬ toFindBlackLine i.frame = true := Bool.eq_false_iff.mp hblack
  unfold asternStep Astern.toFindBlackLineAndSetTheTw9912VerticalDelayRegister
  dsimp only
  rw [if_neg hopen]
  exact congrArg (fun r : Int × Astern × List Written => some r.2)
    ((if_pos hflag).trans ((if_neg hnot).trans (if_pos hval)))

/-- The second frame of a PAL picture with a bright first row moves the delay to 0x10,
and the chip stays at 0x11. -/
theorem record_last_line :
    ¬ ∀ s : Astern, s.tw9912FileFd ≠ -1 → s.node.topChannel = .yin3 →
      ∀ frames s' written, run asternStep s.resumed frames = some (s', written) →
        (∀ format, (s'.node.record format).InRange) ∧ ∀ w ∈ written, w.InStep := by
  intro h
  have hopen : astern.resumed.tw9912FileFd ≠ -1 := by decide
  have hfirst := asternStep_moved (i := plainFrame 0xff) hopen rfl toFindBlackLine_bright
    (by decide)
  have hsecond := asternStep_moved (i := plainFrame 0xff)
    (s := (astern.resumed.write ⟨0x08, 0x11, false, true, true⟩).1) hopen rfl
    toFindBlackLine_bright (by decide)
  have hrun := run_cons_eq hfirst (run_singleton hsecond)
  have hin := (h astern hopen rfl _ _ _ hrun).2 ⟨⟨0x08, 0x10, false, true, true⟩, some 0x11⟩
    (List.mem_append_right _ (List.mem_singleton_self _)) rfl
  exact absurd (Option.some.inj hin) (by decide)

end Lidbg.FlyCamera
