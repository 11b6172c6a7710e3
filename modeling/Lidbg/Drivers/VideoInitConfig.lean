import Lidbg.Drivers.Enter
import Lidbg.Machine.Loop
import Lidbg.Machine.Run

/-!
# Image quality of the video input (`drivers/videoin/video_init_config.c`)

The six parameters of the picture are kept for all channels alike. When the
brightness is set, `video_image_config_parameter_buffer` looks the values of five
registers up in the tables of `video_init_config_tab.h`, by columns which it
computes from the parameters: 0..10 for AUX and DVD, 240..250 for the reversing
camera, of which 0xF1 as the contrast is to mean the New Teana.

`tables_used_iff`: in a run of calls the columns are in the tables, and the New
Teana has its own, exactly if at every setting of the brightness the parameters
are in the range of the channel and the contrast is not 0xF1.

The tables are those of boards from V3 on: the others have none for the
reversing camera.
-/

namespace Lidbg.Video

open Machine Drivers

/-- `Vedio_Effect`. -/
inductive VedioEffect where
  | brightness
  | contrast
  | sharpness
  | chromaU
  | chromaV
  | hue
deriving DecidableEq

/-- `for (i = BRIGHTNESS; i <= HUE; i++)`. -/
def effects : List VedioEffect :=
  [.brightness, .contrast, .sharpness, .chromaU, .chromaV, .hue]

/-- `Image_Config_AUX_BACK`, `Image_Config_CarBacking_Normal`,
`Image_Config_CarBacking_NewTeana`, `Image_Config_AUX_BACK_PAL_I` and
`Image_Config_separation`. -/
inductive ImageConfig where
  | auxBack
  | carBackingNormal
  | carBackingNewTeana
  | auxBackPalI
  | separation
deriving DecidableEq

def ImageConfig.rows : ImageConfig → List (List UInt8)
  | .auxBack =>
    [[0x2f, 0x20, 0x15, 0x0f, 0x09, 0x00, 0xfa, 0xf0, 0xe9, 0xe0, 0xc9],
     [0x33, 0x35, 0x39, 0x40, 0x45, 0x6a, 0x92, 0xaa, 0xb2, 0xc2, 0xd2],
     [0xa9, 0xb5, 0xc5, 0xe0, 0xf1, 0x00, 0x20, 0x30, 0x40, 0x50, 0x60],
     [0x00, 0x44, 0x66, 0x88, 0xa5, 0xf0, 0xbf, 0xc5, 0xcf, 0xdf, 0xff],
     [0x00, 0x44, 0x66, 0x88, 0xa5, 0xf0, 0xbf, 0xc5, 0xcf, 0xdf, 0xff]]
  | .carBackingNormal =>
    [[0x2f, 0x20, 0x15, 0x0f, 0x09, 0x00, 0xfa, 0xf0, 0xe9, 0xe0, 0xc9],
     [0x33, 0x35, 0x39, 0x40, 0x45, 0x61, 0x92, 0xaa, 0xb2, 0xc2, 0xd2],
     [0xa9, 0xb5, 0xc5, 0xe0, 0xf1, 0x00, 0x20, 0x30, 0x40, 0x50, 0x60],
     [0x00, 0x19, 0x32, 0x4b, 0x64, 0x7d, 0x96, 0xaf, 0xc8, 0xe1, 0xff],
     [0x00, 0x19, 0x32, 0x4b, 0x64, 0x7d, 0x96, 0xaf, 0xc8, 0xe1, 0xff]]
  | .carBackingNewTeana =>
    [[0x2f, 0x20, 0x15, 0x0f, 0x09, 0x15, 0xfa, 0xf0, 0xe9, 0xe0, 0xc9],
     [0x33, 0x35, 0x39, 0x40, 0x45, 0x61, 0x92, 0xaa, 0xb2, 0xc2, 0xd2],
     [0xa9, 0xb5, 0xc5, 0xe0, 0xf1, 0x00, 0x20, 0x30, 0x40, 0x50, 0x60],
     [0x00, 0x19, 0x32, 0x4b, 0x64, 0x7d, 0x96, 0xaf, 0xc8, 0xe1, 0xff],
     [0x00, 0x19, 0x32, 0x4b, 0x64, 0x7d, 0x96, 0xaf, 0xc8, 0xe1, 0xff]]
  | .auxBackPalI =>
    [[0x2f, 0x20, 0x15, 0x0f, 0x09, 0x00, 0xfa, 0xf0, 0xe9, 0xe0, 0xc9],
     [0x33, 0x35, 0x39, 0x40, 0x45, 0x58, 0x92, 0xaa, 0xb2, 0xc2, 0xd2],
     [0xa9, 0xb5, 0xc5, 0xe0, 0xf1, 0x00, 0x20, 0x30, 0x40, 0x50, 0x60],
     [0x00, 0x44, 0x66, 0x88, 0xa5, 0xb0, 0xbf, 0xc5, 0xcf, 0xdf, 0xff],
     [0x00, 0x44, 0x66, 0x88, 0xa5, 0xb0, 0xbf, 0xc5, 0xcf, 0xdf, 0xff]]
  | .separation =>
    [[0x01, 0x02, 0x03, 0x04, 0x06, 0x07, 0x0e, 0x0f, 0x10, 0x11, 0x12],
     [0x55, 0x59, 0x5a, 0x60, 0x6a, 0x71, 0x7f, 0x85, 0x89, 0x8f, 0x95],
     [0xb9, 0xe0, 0xf0, 0xf5, 0xf9, 0x00, 0x05, 0x10, 0x1f, 0x2f, 0x3f],
     [0x00, 0x22, 0x5f, 0x6f, 0x8f, 0x9e, 0xaf, 0xbf, 0xdf, 0xcf, 0xff],
     [0x00, 0x22, 0x5f, 0x6f, 0x8f, 0x9e, 0xaf, 0xbf, 0xdf, 0xcf, 0xff]]

/-- An entry of a table. The column is an `int`, as it is computed. -/
structure Entry where
  table : ImageConfig
  row : Fin 5
  col : Int

/-- A table has eleven columns. -/
def IsColumn (col : Int) : Prop :=
  0 ≤ col ∧ col ≤ 10

def Entry.InTable (e : Entry) : Prop :=
  IsColumn e.col

def Entry.valu (e : Entry) : Option UInt8 :=
  if 0 ≤ e.col then (e.table.rows.getD e.row [])[e.col.toNat]? else none

/-- Five registers of the chip, and what they are to hold. -/
abbrev Image := Fin 5 → UInt8 × UInt8

def setValu (image : Image) (row : Fin 5) (valu : UInt8) : Image :=
  fun k => if k = row then ((image k).1, valu) else image k

/-- The entries are looked up one after the other, each for its row. -/
def fill (image : Image) (entries : List Entry) : Option Image :=
  entries.foldlM (fun image e => e.valu.map (setValu image e.row)) image

/-- `Tw9912_image_global_AUX_BACK`, `Tw9912_image_global_AUX_BACK_PAL_I` and
`Tw9912_image_global_separation`. -/
inductive ImageGlobal where
  | auxBack
  | auxBackPalI
  | separation
deriving DecidableEq

/-- What `flag_now_config_channal_AUX_or_Astren` says. -/
inductive NowConfig where
  | astern
  | aux
  | dvd
deriving DecidableEq

structure State where
  /-- `TW9912_Image_Parameter_fly[..].valu`. -/
  imageParameterFly : VedioEffect → UInt8
  infoComTopChannel : VedioChannel
  nowConfig : NowConfig
  imageGlobal : ImageGlobal → Image

def init : State where
  imageParameterFly _ := 5
  infoComTopChannel := .yin2
  nowConfig := .astern
  imageGlobal
    | .separation =>
      fun k => [(0xd9, 0x07), (0x11, 0x71), (0x15, 0x00), (0x13, 0x9e), (0x14, 0x9e)].get k
    | _ => fun k => [(0x10, 0x00), (0x11, 0x58), (0x15, 0x00), (0x13, 0xb0), (0x14, 0xb0)].get k

/-! ## `video_image_config_parameter_buffer` -/

/-- The loop over the effects; `arms` are its cases, by row and column. -/
def entriesOf (table : ImageConfig) (arms : VedioEffect → List (Fin 5 × Int)) : List Entry :=
  effects.flatMap fun i => (arms i).map fun arm => ⟨table, arm.1, arm.2⟩

/-- The cases for NTSC_I: the saturation stands under `HUE`, and the hue under
`CHROMA_U`. -/
def ntscArms (brightness contrast hue chromaU : Int) : VedioEffect → List (Fin 5 × Int)
  | .brightness => [(0, brightness)]
  | .contrast => [(1, contrast)]
  | .hue => [(3, chromaU), (4, chromaU)]
  | .chromaU => [(2, hue)]
  | _ => []

/-- The cases for PAL_I. -/
def palArms (brightness contrast hue chromaU : Int) : VedioEffect → List (Fin 5 × Int)
  | .brightness => [(0, brightness)]
  | .contrast => [(1, contrast)]
  | .chromaU => [(3, chromaU), (4, chromaU)]
  | .hue => [(2, hue)]
  | _ => []

/-- The cases for the DVD: the brightness stands under `CONTRAST`, and the contrast
under `BRIGHTNESS`. -/
def dvdArms (brightness contrast hue chromaU : Int) : VedioEffect → List (Fin 5 × Int)
  | .contrast => [(0, brightness)]
  | .brightness => [(1, contrast)]
  | .hue => [(2, hue)]
  | .chromaU => [(3, chromaU), (4, chromaU)]
  | _ => []

/-- A branch: what the flag becomes, what is filled, and from which entries. -/
structure Branch where
  nowConfig : NowConfig
  target : ImageGlobal
  entries : List Entry

/-- A branch behind channel YIN3; `table` is for NTSC_I. -/
def backBranch (nowConfig : NowConfig) (table : ImageConfig) (format : VedioFormat)
    (brightness contrast hue chromaU : Int) : Branch :=
  if format = .ntscI then
    ⟨nowConfig, .auxBack, entriesOf table (ntscArms brightness contrast hue chromaU)⟩
  else
    ⟨nowConfig, .auxBackPalI, entriesOf .auxBackPalI (palArms brightness contrast hue chromaU)⟩

def State.valu (s : State) (i : VedioEffect) : Int :=
  (s.imageParameterFly i).toNat

/-- The branch that is taken, if any. `format` is `signal_is_how[YIN3].Format`. -/
def branchOf (format : VedioFormat) (s : State) : Option Branch :=
  if s.infoComTopChannel = .yin3 then
    if 10 < s.valu .contrast then
      some (backBranch .astern .carBackingNormal format 5 (s.valu .contrast - 240)
        (10 - (s.valu .hue - 240)) (s.valu .chromaU - 240))
    -- not reached: 0xF1 is above ten, as is all above 250
    else if s.valu .contrast = 0xF1 then
      some (backBranch .astern .carBackingNewTeana format 5 (s.valu .contrast - 240)
        (10 - (s.valu .hue - 240)) (s.valu .chromaU - 240))
    else if 250 < s.valu .contrast then none
    else
      some (backBranch .aux .auxBack format (10 - s.valu .brightness) (s.valu .contrast)
        (10 - s.valu .hue) (s.valu .chromaU))
  else
    some ⟨.dvd, .separation, entriesOf .separation (dvdArms (s.valu .brightness) (s.valu .contrast)
      (s.valu .hue) (s.valu .chromaU))⟩

def State.take (s : State) (b : Branch) (image : Image) : State :=
  { s with
    nowConfig := b.nowConfig
    imageGlobal := fun g => if g = b.target then image else s.imageGlobal g }

/-- `video_image_config_parameter_buffer`, and the entries it reads. -/
def videoImageConfigParameterBuffer (format : VedioFormat) (s : State) :
    Option (State × List Entry) :=
  match branchOf format s with
  | none => some (s, [])
  | some b => (fill (s.imageGlobal b.target) b.entries).map fun image => (s.take b image, b.entries)

/-! ## The calls -/

/-- `signal_is_how[YIN3].Format` and the `reg_val` of `global_tw9912_info_for_NTSC_I`
and `global_tw9912_info_for_PAL_I`. -/
structure Signal where
  format : VedioFormat
  regValNtscI : UInt8
  regValPalI : UInt8

/-- An entry of a table that is read, or a register of the chip that is written. -/
inductive Access where
  | read (e : Entry)
  | write (reg : UInt8 × UInt8)

/-- What `video_image_config_begin` writes behind the buffer. -/
def imageWrites (signal : Signal) (s : State) : List (UInt8 × UInt8) :=
  let image :=
    if s.infoComTopChannel = .yin3 then
      if signal.format = .ntscI then s.imageGlobal .auxBack else s.imageGlobal .auxBackPalI
    else s.imageGlobal .separation
  -- only the picture of the reversing camera is moved
  let offset :=
    if s.nowConfig = .astern then
      if signal.format = .ntscI then [(0x12, 0x1f), (0x08, signal.regValNtscI)]
      else [(0x12, 0xff), (0x08, signal.regValPalI)]
    else []
  List.ofFn image ++ offset

/-- `video_image_config_begin`. -/
def videoImageConfigBegin (signal : Signal) (s : State) : Option (State × List Access) :=
  (videoImageConfigParameterBuffer signal.format s).map fun r =>
    (r.1, r.2.map .read ++ (imageWrites signal r.1).map .write)

/-- `TW9912_Image_Parameter_fly[cmd - 1].valu = valu`. -/
def State.setParameter (s : State) (cmd : VedioEffect) (valu : UInt8) : State :=
  { s with imageParameterFly := fun i => if i = cmd then valu else s.imageParameterFly i }

/-- `flyVideoImageQualityConfig_in`; `none` is for a `cmd` that is no `Vedio_Effect`. -/
def flyVideoImageQualityConfigIn (s : State) (cmd : Option VedioEffect) (valu : UInt8)
    (signal : Signal) : Option (State × List Access) :=
  match cmd with
  | none => some (s, [])
  -- the brightness comes last of the settings
  | some .brightness => videoImageConfigBegin signal (s.setParameter .brightness valu)
  | some cmd => some (s.setParameter cmd valu, [])

/-- The `vedio_channel_t` of a number. -/
def channelOf (n : UInt8) : Option VedioChannel :=
  [.yin0, .yin1, .yin2, .yin3, .separation, .notone][n.toNat]?

/-- `flyVideoInitall_in`. -/
def flyVideoInitallIn (s : State) (channel : UInt8) : State :=
  match channelOf channel with
  | none => s
  | some .yin2 => { s with infoComTopChannel := .separation }
  | some channel => { s with infoComTopChannel := channel }

inductive VideoCall where
  | quality (cmd : Option VedioEffect) (valu : UInt8) (signal : Signal)
  | initall (channel : UInt8)

def step : Step State VideoCall Access
  | s, .quality cmd valu signal => flyVideoImageQualityConfigIn s cmd valu signal
  | s, .initall channel => some (flyVideoInitallIn s channel, [])

/-! ## Columns -/

theorem length_row (table : ImageConfig) (row : Fin 5) : (table.rows.getD row []).length = 11 := by
  revert row
  cases table <;> decide

theorem Entry.isSome_valu_iff (e : Entry) : e.valu.isSome ↔ e.InTable := by
  unfold Entry.valu Entry.InTable IsColumn
  have hlen := length_row e.table e.row
  split_ifs with hcol
  · rw [isSome_getElem?, hlen]
    omega
  · simp [hcol]

/-- **The tables are left** by the entries that are not in them, and by no other. -/
theorem fill_isSome_iff (image : Image) (entries : List Entry) :
    (fill image entries).isSome ↔ ∀ e ∈ entries, e.InTable := by
  refine isSome_foldlM (fun image e => ?_) entries image
  rw [Option.isSome_map, e.isSome_valu_iff]

/-- The entries that the buffer reads. -/
def readsOf (format : VedioFormat) (s : State) : List Entry :=
  match branchOf format s with
  | none => []
  | some b => b.entries

theorem parameterBuffer_isSome_iff (format : VedioFormat) (s : State) :
    (videoImageConfigParameterBuffer format s).isSome ↔ ∀ e ∈ readsOf format s, e.InTable := by
  unfold videoImageConfigParameterBuffer readsOf
  cases branchOf format s with
  | none => simp
  | some b =>
    dsimp only
    rw [Option.isSome_map, fill_isSome_iff]

/-- The buffer changes neither the parameters nor the channel. -/
theorem parameterBuffer_eq_some {format : VedioFormat} {s s' : State} {entries : List Entry}
    (h : videoImageConfigParameterBuffer format s = some (s', entries)) :
    entries = readsOf format s ∧ s'.infoComTopChannel = s.infoComTopChannel ∧
      s'.imageParameterFly = s.imageParameterFly := by
  unfold videoImageConfigParameterBuffer at h
  unfold readsOf
  cases hb : branchOf format s with
  | none =>
    rw [hb] at h
    cases h
    exact ⟨rfl, rfl, rfl⟩
  | some b =>
    rw [hb] at h
    obtain ⟨image, -, hs'⟩ := Option.map_eq_some_iff.mp h
    cases hs'
    exact ⟨rfl, rfl, rfl⟩

theorem inTable_backBranch_iff (nowConfig : NowConfig) (table : ImageConfig)
    (format : VedioFormat) (brightness contrast hue chromaU : Int) :
    (∀ e ∈ (backBranch nowConfig table format brightness contrast hue chromaU).entries,
      e.InTable) ↔
      IsColumn brightness ∧ IsColumn contrast ∧ IsColumn hue ∧ IsColumn chromaU := by
  unfold backBranch
  split_ifs
  · simp [entriesOf, effects, ntscArms, Entry.InTable]
  · simp [entriesOf, effects, palArms, Entry.InTable]
    tauto

theorem inTable_dvd_iff (brightness contrast hue chromaU : Int) :
    (∀ e ∈ entriesOf .separation (dvdArms brightness contrast hue chromaU), e.InTable) ↔
      IsColumn brightness ∧ IsColumn contrast ∧ IsColumn hue ∧ IsColumn chromaU := by
  simp [entriesOf, effects, dvdArms, Entry.InTable]
  tauto

/-- The brightness is looked up first, in the table of the branch. -/
theorem exists_mem_backBranch (nowConfig : NowConfig) (table : ImageConfig)
    (format : VedioFormat) (brightness contrast hue chromaU : Int) :
    ∃ e ∈ (backBranch nowConfig table format brightness contrast hue chromaU).entries,
      e.table = if format = .ntscI then table else .auxBackPalI := by
  unfold backBranch
  split_ifs
  · exact ⟨⟨table, 0, brightness⟩, List.mem_cons_self, rfl⟩
  · exact ⟨⟨.auxBackPalI, 0, brightness⟩, List.mem_cons_self, rfl⟩

/-! ## Ranges -/

/-- Any contrast above ten is that of the usual reversing camera. -/
theorem readsOf_astern {s : State} (htop : s.infoComTopChannel = .yin3)
    (hcontrast : 10 < s.valu .contrast) (format : VedioFormat) :
    readsOf format s = (backBranch .astern .carBackingNormal format 5
      (s.valu .contrast - 240) (10 - (s.valu .hue - 240)) (s.valu .chromaU - 240)).entries := by
  rw [readsOf, branchOf, if_pos htop, if_pos hcontrast]

theorem readsOf_aux {s : State} (htop : s.infoComTopChannel = .yin3)
    (hcontrast : s.valu .contrast ≤ 10) (format : VedioFormat) :
    readsOf format s = (backBranch .aux .auxBack format (10 - s.valu .brightness)
      (s.valu .contrast) (10 - s.valu .hue) (s.valu .chromaU)).entries := by
  have hastern : ¬ 10 < s.valu .contrast := by omega
  have hteana : ¬ s.valu .contrast = 0xF1 := by omega
  have herror : ¬ 250 < s.valu .contrast := by omega
  rw [readsOf, branchOf, if_pos htop, if_neg hastern, if_neg hteana, if_neg herror]

theorem readsOf_dvd {s : State} (htop : s.infoComTopChannel ≠ .yin3) (format : VedioFormat) :
    readsOf format s = entriesOf .separation (dvdArms (s.valu .brightness) (s.valu .contrast)
      (s.valu .hue) (s.valu .chromaU)) := by
  rw [readsOf, branchOf, if_neg htop]

/-- The parameters are in the range of the channel; AUX and the reversing camera are
told apart by the contrast. -/
def InRange (s : State) : Prop :=
  if s.infoComTopChannel = .yin3 ∧ 10 < s.valu .contrast then
    ∀ i ∈ [VedioEffect.contrast, .hue, .chromaU], 240 ≤ s.valu i ∧ s.valu i ≤ 250
  else ∀ i ∈ [VedioEffect.brightness, .contrast, .hue, .chromaU], s.valu i ≤ 10

theorem valu_nonneg (s : State) (i : VedioEffect) : 0 ≤ s.valu i :=
  Int.natCast_nonneg _

/-- **Columns.** -/
theorem inTable_readsOf_iff (format : VedioFormat) (s : State) :
    (∀ e ∈ readsOf format s, e.InTable) ↔ InRange s := by
  have hb := valu_nonneg s .brightness
  have hc := valu_nonneg s .contrast
  have hh := valu_nonneg s .hue
  have hu := valu_nonneg s .chromaU
  unfold InRange
  -- the reversing camera, AUX and the DVD
  by_cases htop : s.infoComTopChannel = .yin3
  · by_cases hcontrast : 10 < s.valu .contrast
    · rw [readsOf_astern htop hcontrast, inTable_backBranch_iff, if_pos ⟨htop, hcontrast⟩]
      simp [IsColumn]
      omega
    · rw [readsOf_aux htop (Int.not_lt.mp hcontrast), inTable_backBranch_iff,
        if_neg fun h => hcontrast h.2]
      simp [IsColumn]
      omega
  · rw [readsOf_dvd htop, inTable_dvd_iff, if_neg fun h => htop h.1]
    simp [IsColumn]
    omega

/-- The table of the New Teana is out of reach: its contrast is above ten as well. -/
theorem not_newTeana {s : State} (htop : s.infoComTopChannel = .yin3)
    (hcontrast : 10 < s.valu .contrast) (format : VedioFormat) :
    ¬ ∀ e ∈ readsOf format s, e.table = .carBackingNewTeana := by
  intro hall
  obtain ⟨e, he, htable⟩ := exists_mem_backBranch .astern .carBackingNormal format 5
    (s.valu .contrast - 240) (10 - (s.valu .hue - 240)) (s.valu .chromaU - 240)
  rw [← readsOf_astern htop hcontrast] at he
  rw [hall e he] at htable
  split_ifs at htable

/-- The entries read for the parameters are in the tables, and in those of the New
Teana if it is one. -/
def EntriesRight (s : State) (entries : List Entry) : Prop :=
  (∀ e ∈ entries, e.InTable) ∧
    (s.infoComTopChannel = .yin3 → s.valu .contrast = 0xF1 →
      ∀ e ∈ entries, e.table = .carBackingNewTeana)

def ParametersFit (s : State) : Prop :=
  InRange s ∧ (s.infoComTopChannel = .yin3 → s.valu .contrast ≠ 0xF1)

theorem entriesRight_readsOf_iff (format : VedioFormat) (s : State) :
    EntriesRight s (readsOf format s) ↔ ParametersFit s := by
  refine and_congr (inTable_readsOf_iff format s) (imp_congr_right fun htop => ?_)
  refine imp_congr_right fun hteana => iff_false_intro ?_
  exact not_newTeana htop (by rw [hteana]; decide) format

/-! ## Calls -/

def Access.entry : Access → Option Entry
  | .read e => some e
  | .write _ => none

/-- What a call reads is right, for the parameters and the channel that it leaves. -/
def TablesRight (s : State) (c : VideoCall) : Prop :=
  ∃ s' accesses, step s c = some (s', accesses) ∧ EntriesRight s' (accesses.filterMap Access.entry)

/-- Only a setting of the brightness reads. -/
def CallFits (s : State) : VideoCall → Prop
  | .quality (some .brightness) valu _ => ParametersFit (s.setParameter .brightness valu)
  | _ => True

theorem entriesRight_nil (s : State) : EntriesRight s [] := by
  refine ⟨fun e he => ?_, fun _ _ e he => ?_⟩
  · cases he
  · cases he

theorem entriesRight_congr {s s' : State} (htop : s'.infoComTopChannel = s.infoComTopChannel)
    (hvalu : s'.imageParameterFly = s.imageParameterFly) (entries : List Entry) :
    EntriesRight s' entries ↔ EntriesRight s entries := by
  unfold EntriesRight State.valu
  rw [htop, hvalu]

theorem filterMap_entry (entries : List Entry) (writes : List (UInt8 × UInt8)) :
    (entries.map Access.read ++ writes.map Access.write).filterMap Access.entry = entries := by
  have hwrites : (writes.map Access.write).filterMap Access.entry = [] := by
    rw [List.filterMap_map]
    exact List.filterMap_eq_nil_iff.mpr fun _ _ => rfl
  rw [List.filterMap_append, hwrites, List.append_nil, List.filterMap_map]
  exact List.filterMap_some

/-- **A setting of the brightness** reads rightly exactly if the parameters fit. -/
theorem begin_right_iff (signal : Signal) (s : State) :
    (∃ s' accesses, videoImageConfigBegin signal s = some (s', accesses) ∧
      EntriesRight s' (accesses.filterMap Access.entry)) ↔ ParametersFit s := by
  rw [← entriesRight_readsOf_iff signal.format s, videoImageConfigBegin]
  constructor
  · rintro ⟨s', accesses, hbegin, hright⟩
    obtain ⟨⟨s₁, entries⟩, hbuf, hr⟩ := Option.map_eq_some_iff.mp hbegin
    obtain ⟨rfl, htop, hvalu⟩ := parameterBuffer_eq_some hbuf
    cases hr
    rw [filterMap_entry] at hright
    exact (entriesRight_congr htop hvalu _).mp hright
  · intro hright
    have hsome := (parameterBuffer_isSome_iff signal.format s).mpr hright.1
    obtain ⟨⟨s', entries⟩, hbuf⟩ := Option.isSome_iff_exists.mp hsome
    obtain ⟨rfl, htop, hvalu⟩ := parameterBuffer_eq_some hbuf
    refine ⟨s', _, by rw [hbuf]; rfl, ?_⟩
    rw [filterMap_entry]
    exact (entriesRight_congr htop hvalu _).mpr hright

theorem tablesRight_iff (s : State) (c : VideoCall) : TablesRight s c ↔ CallFits s c := by
  have hidle : ∀ s', step s c = some (s', []) → TablesRight s c := fun s' hs =>
    ⟨s', [], hs, entriesRight_nil s'⟩
  cases c with
  | initall channel => exact iff_of_true (hidle _ rfl) trivial
  | quality cmd valu signal =>
    cases cmd with
    | none => exact iff_of_true (hidle _ rfl) trivial
    | some cmd =>
      cases cmd with
      | brightness => exact begin_right_iff signal (s.setParameter .brightness valu)
      | contrast | sharpness | chromaU | chromaV | hue =>
        exact iff_of_true (hidle _ rfl) trivial

/-- **The tables are used rightly throughout a run** exactly if the parameters fit
wherever the brightness is set. -/
theorem tables_used_iff (calls : List VideoCall) :
    StepsMeet step (fun _ _ s c => TablesRight s c) init calls ↔
      StepsMeet step (fun _ _ s c => CallFits s c) init calls :=
  stepsMeet_congr (fun _ _ _ _ _ _ => trivial) (fun s c _ => tablesRight_iff s c)
    (trivial : True) calls

def ntscSignal : Signal := ⟨.ntscI, 0x15, 0x17⟩

/-- The contrast of the New Teana on channel YIN3, with a hue and a saturation in
its range; and a brightness above ten on the first channel. -/
theorem tables_misused :
    ¬ StepsMeet step (fun _ _ s c => TablesRight s c) init
      [.initall 3, .quality (some .contrast) 0xF1 ntscSignal,
        .quality (some .chromaU) 240 ntscSignal, .quality (some .hue) 240 ntscSignal,
        .quality (some .brightness) 5 ntscSignal] ∧
    ¬ StepsMeet step (fun _ _ s c => TablesRight s c) init
      [.quality (some .brightness) 11 ntscSignal] := by
  constructor
  · intro h
    have hfits := (tablesRight_iff _ _).mp (h
      [.initall 3, .quality (some .contrast) 0xF1 ntscSignal,
        .quality (some .chromaU) 240 ntscSignal, .quality (some .hue) 240 ntscSignal]
      (.quality (some .brightness) 5 ntscSignal) List.prefix_rfl _ _ rfl)
    exact hfits.2 rfl rfl
  · intro h
    have hfits := (tablesRight_iff _ _).mp
      (h [] (.quality (some .brightness) 11 ntscSignal) List.prefix_rfl _ _ rfl)
    have hrange := hfits.1
    unfold InRange at hrange
    rw [if_neg (by decide)] at hrange
    exact absurd (hrange .brightness List.mem_cons_self) (by decide)

end Lidbg.Video
