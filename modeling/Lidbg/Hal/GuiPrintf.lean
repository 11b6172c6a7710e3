import Lidbg.Machine.Run
import Mathlib.Data.List.Range
import Mathlib.Data.UInt
import Mathlib.Tactic.SplitIfs

/-!
# The log on the screen (`hal/lidbg_gui/debug_lcd_io.c`, `hal/lidbg_gui/FONT8_8.c`)

`GUI_Printf` puts one byte after the other on a screen of 1024 by 600, in cells of 8 by 8
that stand 7 apart, and starts over with a clean screen below the last line. It wraps once
the cursor has passed the right edge, while `GUI_PutChar8_8` refuses a cell that does not
end before it: the 147th byte of a line falls between the two.

`guiPrintf_drawn_iff`: whatever is printed, the cursor stays on the screen, and every byte
is drawn exactly if no line has more than 146.
-/

namespace Lidbg.Gui

open Machine

/-! ## The code -/

/-- `GUI_LCM_XMAX`. -/
def guiLcmXmax : Nat := 1024

/-- `GUI_LCM_YMAX`. -/
def guiLcmYmax : Nat := 600

/-- `AREA_NUM`. -/
def areaNum : Nat := 1

/-- `AREA_WIDTH`. -/
def areaWidth : Nat := 1024 / areaNum

/-- `AREA_HEIGHT`. -/
def areaHeight : Nat := 600

/-- `'\r'`. -/
def cr : UInt8 := 13

/-- `'\n'`. -/
def lf : UInt8 := 10

/-- A call `GUI_Point(x, y, color)`. -/
structure Point where
  x : Nat
  y : Nat
  color : UInt32

/-- `FONT8x8ASCII`, with `disp_color` and `back_color`. -/
structure Font where
  row : UInt8 → Nat → UInt8
  dispColor : UInt32
  backColor : UInt32

/-- `DCB2HEX_TAB`. -/
def dcb2hexTab : List UInt8 := [0x80, 0x40, 0x20, 0x10, 0x08, 0x04, 0x02, 0x01]

/-- The character whose cell is drawn for `ch`. -/
def glyph (ch : UInt8) : UInt8 :=
  (if ch < 0x20 ∨ ch > 0x7f then 0x20 else ch) - 0x20

/-- The two loops of `GUI_PutChar8_8`. -/
def cellPoints (font : Font) (x y : Nat) (ch : UInt8) : List Point :=
  (List.range 8).flatMap fun i => (List.range 8).map fun j =>
    { x := x + j
      y := y + i
      color := if font.row ch i &&& dcb2hexTab.getD j 0 = 0 then font.backColor
        else font.dispColor }

/-- `GUI_PutChar8_8`: what it returns, and the points it draws. -/
def guiPutChar8_8 (font : Font) (x y : Nat) (ch : UInt8) : UInt8 × List Point :=
  if x > guiLcmXmax - 8 then (0, [])
  else if y > guiLcmYmax - 8 then (0, [])
  else (1, cellPoints font x y (glyph ch))

/-- `lcd_x`, `lcd_y` and `cur_area`. They start at 0 and are only raised or set back. -/
structure Cursor where
  lcdX : Nat
  lcdY : Nat
  curArea : Nat

/-- Their initial values. -/
def Cursor.init : Cursor := ⟨0, 0, 0⟩

/-- What is done to the screen: it is cleaned, or `GUI_PutChar8_8` is called. -/
inductive Drawn where
  | clean (points : List Point)
  | char (x y : Nat) (ch ret : UInt8) (points : List Point)

/-- The loops of `GUI_Clean`, with `SCREEN_CLEAN_COLOR`. -/
def cleanPoints : List Point :=
  (List.range guiLcmYmax).flatMap fun y =>
    (List.range guiLcmXmax).map fun x => ⟨x, y, 0xff000000⟩

/-- `GUI_Clean`. -/
def guiClean : Cursor × List Drawn := (⟨0, 0, 0⟩, [.clean cleanPoints])

/-- The first part of `GUI_Printf`: the end of a line and the end of an area. -/
def Cursor.place (s : Cursor) : Cursor × List Drawn :=
  let s :=
    if s.lcdX > (s.curArea + 1) * areaWidth then
      { s with lcdX := s.curArea * areaWidth, lcdY := s.lcdY + 8 }
    else s
  if s.lcdY ≥ areaHeight then
    let s := { s with curArea := s.curArea + 1, lcdX := (s.curArea + 1) * areaWidth, lcdY := 0 }
    if areaNum = s.curArea then guiClean else (s, [])
  else (s, [])

/-- `GUI_Printf`. -/
def guiPrintf (font : Font) (s : Cursor) (ch : UInt8) : Cursor × List Drawn :=
  let (s, drawn) := s.place
  if ch = cr then (s, drawn)
  else if ch = lf then ({ s with lcdY := s.lcdY + 8, lcdX := s.curArea * areaWidth }, drawn)
  else
    let (ret, points) := guiPutChar8_8 font s.lcdX s.lcdY ch
    ({ s with lcdX := s.lcdX + 7 }, drawn ++ [.char s.lcdX s.lcdY ch ret points])

/-- One byte. -/
def guiStep (font : Font) : Step Cursor UInt8 Drawn := fun s ch => some (guiPrintf font s ch)

/-! ## What is to be seen -/

/-- The points are those of a cell that is on the screen. -/
structure IsCell (x y : Nat) (points : List Point) : Prop where
  right : x + 8 ≤ guiLcmXmax
  bottom : y + 8 ≤ guiLcmYmax
  points : ∀ a b, (∃ p ∈ points, p.x = a ∧ p.y = b) ↔ (x ≤ a ∧ a < x + 8) ∧ y ≤ b ∧ b < y + 8

/-- A character is drawn if the call returns 1 and its cell is on the screen. -/
def Drawn.Seen : Drawn → Prop
  | .clean _ => True
  | .char x y _ ret points => ret = 1 ∧ IsCell x y points

/-- The byte that a call is made for. -/
def Drawn.ch? : Drawn → Option UInt8
  | .clean _ => none
  | .char _ _ ch _ _ => some ch

/-- The bytes that are not for the cursor. -/
def isText (ch : UInt8) : Bool := ch ≠ cr && ch ≠ lf

theorem isCell_cellPoints {x y : Nat} (hx : x + 8 ≤ guiLcmXmax) (hy : y + 8 ≤ guiLcmYmax)
    (font : Font) (ch : UInt8) : IsCell x y (cellPoints font x y ch) := by
  refine ⟨hx, hy, fun a b => ⟨?_, ?_⟩⟩
  · rintro ⟨p, hp, rfl, rfl⟩
    obtain ⟨i, hi, hp⟩ := List.mem_flatMap.mp hp
    obtain ⟨j, hj, rfl⟩ := List.mem_map.mp hp
    rw [List.mem_range] at hi hj
    exact ⟨⟨Nat.le_add_right x j, Nat.add_lt_add_left hj x⟩,
      Nat.le_add_right y i, Nat.add_lt_add_left hi y⟩
  · rintro ⟨⟨hxa, hax⟩, hyb, hby⟩
    refine ⟨_, List.mem_flatMap.mpr ⟨b - y, List.mem_range.mpr (by omega),
      List.mem_map.mpr ⟨a - x, List.mem_range.mpr (by omega), rfl⟩⟩, ?_, ?_⟩
    · exact Nat.add_sub_of_le hxa
    · exact Nat.add_sub_of_le hyb

/-- A call draws its byte exactly if there is room for the cell. -/
theorem putChar_seen_iff (font : Font) {x y : Nat} (hy : y + 8 ≤ guiLcmYmax) (ch : UInt8) :
    (Drawn.char x y ch (guiPutChar8_8 font x y ch).1 (guiPutChar8_8 font x y ch).2).Seen ↔
      x + 8 ≤ guiLcmXmax := by
  have hlow : ¬ y > guiLcmYmax - 8 := by omega
  refine ⟨fun h => h.2.right, fun hx => ?_⟩
  have hroom : ¬ x > guiLcmXmax - 8 := by omega
  have hput : guiPutChar8_8 font x y ch = (1, cellPoints font x y (glyph ch)) :=
    (if_neg hroom).trans (if_neg hlow)
  rw [hput]
  exact ⟨rfl, isCell_cellPoints hx hy font (glyph ch)⟩

/-! ## One byte -/

/-- Where the cursor can be between two calls. -/
structure OnScreen (s : Cursor) : Prop where
  area : s.curArea = 0
  x_le : s.lcdX ≤ 1029
  x_seven : 7 ∣ s.lcdX
  y_le : s.lcdY ≤ guiLcmYmax
  y_eight : 8 ∣ s.lcdY
  below : s.lcdY = guiLcmYmax → s.lcdX = 0

theorem onScreen_init : OnScreen .init :=
  ⟨rfl, Nat.zero_le _, Nat.dvd_zero 7, Nat.zero_le _, Nat.dvd_zero 8, fun _ => rfl⟩

/-- Where it is put before a byte is looked at. -/
structure Placed (s : Cursor) : Prop where
  area : s.curArea = 0
  x_le : s.lcdX ≤ 1022
  x_seven : 7 ∣ s.lcdX
  y_le : s.lcdY + 8 ≤ guiLcmYmax
  y_eight : 8 ∣ s.lcdY

/-- It stays where it was unless the line is over, and nothing but a clean screen is
drawn. -/
theorem OnScreen.place {s : Cursor} (h : OnScreen s) :
    Placed s.place.1 ∧ (s.lcdX ≤ 1022 → s.place.1.lcdX = s.lcdX) ∧
      ∀ d ∈ s.place.2, d = .clean cleanPoints := by
  obtain ⟨x, y, area⟩ := s
  obtain ⟨rfl, hx, hseven, hy, height, hbelow⟩ := h
  have htop : Placed guiClean.1 :=
    ⟨rfl, Nat.zero_le _, Nat.dvd_zero 7, by decide, Nat.dvd_zero 8⟩
  have hwidth : (0 + 1) * areaWidth = 1024 := rfl
  simp only [guiLcmYmax] at hy hbelow height hx hseven
  unfold Cursor.place
  simp only [hwidth, Nat.zero_mul, areaHeight]
  by_cases hwrap : x > 1024
  · have hpast : ¬ x ≤ 1022 := by omega
    rw [if_pos hwrap]
    by_cases hend : y + 8 ≥ 600
    · rw [if_pos hend]
      exact ⟨htop, fun hle => absurd hle hpast, fun d hd => List.mem_singleton.mp hd⟩
    · rw [if_neg hend]
      refine ⟨⟨rfl, Nat.zero_le _, Nat.dvd_zero 7, ?_, Nat.dvd_add height (Nat.dvd_refl 8)⟩,
        fun hle => absurd hle hpast, fun d hd => absurd hd List.not_mem_nil⟩
      show y + 8 + 8 ≤ 600
      omega
  · rw [if_neg hwrap]
    by_cases hend : y ≥ 600
    · rw [if_pos hend]
      exact ⟨htop, fun _ => (hbelow (by omega)).symm, fun d hd => List.mem_singleton.mp hd⟩
    · rw [if_neg hend]
      refine ⟨⟨rfl, ?_, hseven, ?_, height⟩, fun _ => rfl, fun d hd => absurd hd List.not_mem_nil⟩
      · show x ≤ 1022
        omega
      · show y + 8 ≤ 600
        omega

/-- A clean screen is no call. -/
theorem quiet_of_clean {drawn : List Drawn} (h : ∀ d ∈ drawn, d = .clean cleanPoints) :
    (∀ d ∈ drawn, d.Seen) ∧ drawn.filterMap Drawn.ch? = [] :=
  ⟨fun d hd => h d hd ▸ trivial, List.filterMap_eq_nil_iff.mpr fun d hd => h d hd ▸ rfl⟩

/-- What a byte does to a cursor on the screen. As long as the line is not over, the byte
is seen exactly if its cell ends before the right edge. -/
structure Advances (s : Cursor) (ch : UInt8) (s' : Cursor) (drawn : List Drawn) : Prop where
  onScreen : OnScreen s'
  calls : drawn.filterMap Drawn.ch? = [ch].filter isText
  seen : s.lcdX ≤ 1022 → ((∀ d ∈ drawn, d.Seen) ↔ (isText ch = true → s.lcdX < 1022))
  x_eq : s.lcdX ≤ 1022 →
    s'.lcdX = if ch = lf then 0 else if ch = cr then s.lcdX else s.lcdX + 7

theorem OnScreen.printCr {s : Cursor} (h : OnScreen s) :
    Advances s cr s.place.1 s.place.2 := by
  obtain ⟨⟨harea, hx, hseven, hy, height⟩, hsame, hclean⟩ := h.place
  obtain ⟨hquiet, hnone⟩ := quiet_of_clean hclean
  exact ⟨⟨harea, by omega, hseven, by omega, height, fun hend => by omega⟩, hnone,
    fun _ => iff_of_true hquiet (fun h => nomatch h), hsame⟩

theorem OnScreen.printLf {s : Cursor} (h : OnScreen s) :
    Advances s lf
      { s.place.1 with lcdY := s.place.1.lcdY + 8, lcdX := s.place.1.curArea * areaWidth }
      s.place.2 := by
  obtain ⟨⟨harea, hx, hseven, hy, height⟩, hsame, hclean⟩ := h.place
  obtain ⟨hquiet, hnone⟩ := quiet_of_clean hclean
  have hzero : s.place.1.curArea * areaWidth = 0 := by rw [harea, Nat.zero_mul]
  refine ⟨⟨harea, ?_, ?_, hy, Nat.dvd_add height (Nat.dvd_refl 8), fun _ => hzero⟩, hnone,
    fun _ => iff_of_true hquiet (fun h => nomatch h), fun _ => hzero⟩
  · exact hzero.trans_le (Nat.zero_le _)
  · exact hzero ▸ Nat.dvd_zero 7

theorem OnScreen.printText {s : Cursor} (h : OnScreen s) (font : Font) {ch : UInt8}
    (hcr : ch ≠ cr) (hlf : ch ≠ lf) :
    Advances s ch { s.place.1 with lcdX := s.place.1.lcdX + 7 } (s.place.2 ++
      [.char s.place.1.lcdX s.place.1.lcdY ch
        (guiPutChar8_8 font s.place.1.lcdX s.place.1.lcdY ch).1
        (guiPutChar8_8 font s.place.1.lcdX s.place.1.lcdY ch).2]) := by
  obtain ⟨⟨harea, hx, hseven, hy, height⟩, hsame, hclean⟩ := h.place
  obtain ⟨hquiet, hnone⟩ := quiet_of_clean hclean
  have htext : isText ch = true := by
    unfold isText
    rw [decide_eq_true hcr, decide_eq_true hlf]
    rfl
  refine ⟨⟨harea, ?_, ?_, Nat.le_of_add_right_le hy, height, fun hend => ?_⟩, ?_,
    fun hle => ?_, fun hle => ?_⟩
  · show s.place.1.lcdX + 7 ≤ 1029
    omega
  · exact Nat.dvd_add hseven (Nat.dvd_refl 7)
  · have hend' : s.place.1.lcdY = guiLcmYmax := hend
    omega
  · rw [List.filterMap_append, hnone, List.filter_cons_of_pos htext]
    rfl
  · rw [hsame hle] at hseven
    have hroom : s.place.1.lcdX + 8 ≤ guiLcmXmax ↔ s.lcdX < 1022 := by
      rw [hsame hle]
      show s.lcdX + 8 ≤ 1024 ↔ _
      omega
    rw [List.forall_mem_append, and_iff_right hquiet, List.forall_mem_singleton,
      putChar_seen_iff font hy, hroom]
    exact ⟨fun hlt _ => hlt, fun hlt => hlt htext⟩
  · rw [if_neg hlf, if_neg hcr]
    exact congrArg (· + 7) (hsame hle)

/-- **All that a byte can do.** -/
theorem OnScreen.guiPrintf {s : Cursor} (h : OnScreen s) (font : Font) (ch : UInt8) :
    Advances s ch (guiPrintf font s ch).1 (guiPrintf font s ch).2 := by
  have hdef : Gui.guiPrintf font s ch =
      if ch = cr then s.place
      else if ch = lf then
        ({ s.place.1 with lcdY := s.place.1.lcdY + 8, lcdX := s.place.1.curArea * areaWidth },
          s.place.2)
      else ({ s.place.1 with lcdX := s.place.1.lcdX + 7 }, s.place.2 ++
        [.char s.place.1.lcdX s.place.1.lcdY ch
          (guiPutChar8_8 font s.place.1.lcdX s.place.1.lcdY ch).1
          (guiPutChar8_8 font s.place.1.lcdX s.place.1.lcdY ch).2]) := rfl
  rw [hdef]
  by_cases hcr : ch = cr
  · rw [if_pos hcr, hcr]
    exact h.printCr
  · by_cases hlf : ch = lf
    · rw [if_neg hcr, if_pos hlf, hlf]
      exact h.printLf
    · rw [if_neg hcr, if_neg hlf]
      exact h.printText font hcr hlf

/-! ## Lines -/

/-- The bytes other than CR since the last LF. -/
def lineLength (bytes : List UInt8) : Nat :=
  bytes.foldl (fun n ch => if ch = lf then 0 else if ch = cr then n else n + 1) 0

theorem lineLength_snoc (bytes : List UInt8) (ch : UInt8) :
    lineLength (bytes ++ [ch]) = if ch = lf then 0 else
      if ch = cr then lineLength bytes else lineLength bytes + 1 := by
  rw [lineLength, List.foldl_append]
  rfl

/-- `lineLength` is the length of the line that the bytes end with. -/
theorem lineLength_spec (bytes : List UInt8) :
    (∀ part, part <:+ bytes → lf ∉ part → part.countP (· ≠ cr) ≤ lineLength bytes) ∧
      ∃ part, part <:+ bytes ∧ lf ∉ part ∧ part.countP (· ≠ cr) = lineLength bytes := by
  induction bytes using List.reverseRecOn with
  | nil =>
    refine ⟨fun part hpart _ => ?_, [], List.suffix_rfl, List.not_mem_nil, rfl⟩
    rw [List.suffix_nil.mp hpart]
    exact Nat.zero_le _
  | append_singleton bytes ch ih =>
    obtain ⟨hle, part₀, hsuffix, hno, heq⟩ := ih
    have hcount : ∀ part : List UInt8, (part ++ [ch]).countP (· ≠ cr) =
        part.countP (· ≠ cr) + if ch = cr then 0 else 1 := by
      intro part
      rw [List.countP_append, List.countP_singleton]
      by_cases hcr : ch = cr <;> simp [hcr]
    rw [lineLength_snoc]
    constructor
    · intro part hpart hnolf
      rcases List.suffix_concat_iff.mp hpart with rfl | ⟨part, rfl, hrest⟩
      · exact Nat.zero_le _
      · have hlf : ¬ ch = lf := fun h =>
          hnolf (h ▸ List.mem_append_right _ (List.mem_singleton_self ch))
        have hold := hle part hrest fun h => hnolf (List.mem_append_left _ h)
        rw [hcount, if_neg hlf]
        split_ifs <;> omega
    · by_cases hlf : ch = lf
      · rw [if_pos hlf]
        exact ⟨[], List.nil_suffix, List.not_mem_nil, rfl⟩
      · obtain ⟨before, rfl⟩ := hsuffix
        refine ⟨part₀ ++ [ch], ⟨before, (List.append_assoc ..).symm⟩, ?_, ?_⟩
        · rw [List.mem_append, List.mem_singleton]
          exact fun h => h.elim hno fun h => hlf h.symm
        · rw [hcount, if_neg hlf, heq]
          split_ifs <;> rfl

/-- No line has more than 146 bytes besides CR. -/
def Fits (bytes : List UInt8) : Prop :=
  ∀ part, part <:+: bytes → lf ∉ part → part.countP (· ≠ cr) ≤ 146

theorem fits_snoc (bytes : List UInt8) (ch : UInt8) :
    Fits (bytes ++ [ch]) ↔ Fits bytes ∧ lineLength (bytes ++ [ch]) ≤ 146 := by
  obtain ⟨hle, part₀, hsuffix, hno, heq⟩ := lineLength_spec (bytes ++ [ch])
  constructor
  · intro h
    exact ⟨fun part hpart => h part (hpart.trans (List.prefix_append bytes [ch]).isInfix),
      heq ▸ h part₀ hsuffix.isInfix hno⟩
  · rintro ⟨hfits, hlast⟩ part hpart hnolf
    rcases List.infix_concat_iff.mp hpart with hpart | hpart
    · exact Nat.le_trans (hle part hpart hnolf) hlast
    · exact hfits part hpart hnolf

/-! ## Streams -/

/-- What holds after every byte. -/
structure Printed (bytes : List UInt8) (drawn : List Drawn) (s : Cursor) : Prop where
  onScreen : OnScreen s
  calls : drawn.filterMap Drawn.ch? = bytes.filter isText
  line : Fits bytes → s.lcdX = 7 * lineLength bytes ∧ lineLength bytes ≤ 146
  seen : (∀ d ∈ drawn, d.Seen) ↔ Fits bytes

theorem printed_nil : Printed [] [] .init := by
  refine ⟨onScreen_init, rfl, fun _ => ⟨rfl, Nat.zero_le _⟩, ?_⟩
  refine iff_of_true (fun d hd => absurd hd List.not_mem_nil) fun part hpart _ => ?_
  rw [List.infix_nil.mp hpart]
  exact Nat.zero_le _

theorem Printed.step {bytes : List UInt8} {drawn : List Drawn} {s : Cursor}
    (h : Printed bytes drawn s) (font : Font) (ch : UInt8) :
    Printed (bytes ++ [ch]) (drawn ++ (guiPrintf font s ch).2) (guiPrintf font s ch).1 := by
  have hnext := h.onScreen.guiPrintf font ch
  refine ⟨hnext.onScreen, ?_, ?_, ?_⟩
  · rw [List.filterMap_append, h.calls, hnext.calls, List.filter_append]
  · rw [fits_snoc]
    rintro ⟨hfits, hle⟩
    obtain ⟨hx, hold⟩ := h.line hfits
    refine ⟨?_, hle⟩
    rw [hnext.x_eq (by omega), lineLength_snoc]
    split_ifs <;> omega
  · rw [List.forall_mem_append, h.seen, fits_snoc]
    refine and_congr_right fun hfits => ?_
    obtain ⟨hx, hold⟩ := h.line hfits
    rw [hnext.seen (by omega), lineLength_snoc, isText]
    by_cases hlf : ch = lf
    · simp [hlf]
    · by_cases hcr : ch = cr
      · rw [if_neg hlf, if_pos hcr, hcr]
        exact iff_of_true (fun h => nomatch h) hold
      · simp only [ne_eq, hcr, hlf, not_false_eq_true, decide_true, Bool.and_self, forall_const,
          if_false]
        omega

theorem run_printed (font : Font) (bytes : List UInt8) :
    ∃ s drawn, run (guiStep font) .init bytes = some (s, drawn) ∧ Printed bytes drawn s :=
  run_invariant' (fun _ _ _ ch h => ⟨_, _, rfl, h.step font ch⟩) printed_nil bytes

/-- **What is printed is seen**: whatever bytes come, the cursor stays on the screen and a
call is made for every byte but CR and LF, in order; all of them are drawn exactly if no
part of the bytes without LF has more than 146 besides CR. -/
theorem guiPrintf_drawn_iff (font : Font) (bytes : List UInt8) :
    ∃ s drawn, run (guiStep font) .init bytes = some (s, drawn) ∧
      (8 ∣ s.lcdY ∧ s.lcdY ≤ guiLcmYmax) ∧
      drawn.filterMap Drawn.ch? = bytes.filter isText ∧
      ((∀ d ∈ drawn, d.Seen) ↔
        ∀ part, part <:+: bytes → lf ∉ part → part.countP (· ≠ cr) ≤ 146) := by
  obtain ⟨s, drawn, hrun, h⟩ := run_printed font bytes
  exact ⟨s, drawn, hrun, ⟨h.onScreen.y_eight, h.onScreen.y_le⟩, h.calls, h.seen⟩

/-- The 147th byte of a line is lost. -/
theorem guiPrintf_loses_byte :
    ¬ ∀ (font : Font) (bytes : List UInt8) (s : Cursor) (drawn : List Drawn),
      run (guiStep font) .init bytes = some (s, drawn) →
      (8 ∣ s.lcdY ∧ s.lcdY ≤ guiLcmYmax) ∧ ∀ d ∈ drawn, d.Seen := by
  intro h
  obtain ⟨s, drawn, hrun, hprinted⟩ := run_printed ⟨fun _ _ => 0, 0, 0⟩ (List.replicate 147 0x61)
  have hfits := hprinted.seen.mp (h _ _ s drawn hrun).2
  have hle := hfits (List.replicate 147 0x61) List.infix_rfl fun hmem =>
    absurd (List.eq_of_mem_replicate hmem) (by decide)
  rw [List.countP_replicate] at hle
  exact absurd hle (by decide)

end Lidbg.Gui
