import Lidbg.Hal.GuiPixel
import Lidbg.Machine.Loop

/-!
# Lines (`hal/lidbg_gui/lidbg_gui.c`, `hal/lidbg_gui/debug_gui.c`)

A horizontal line should be that of its pixels. But the inner loop of `GUI_DrawHline` has
no test and its outer loop none of `GUI_DrawVline`, and `GUI_HLine` gives the end of the
line as its row, and the row as its end.

`lines_agree_iff`: `GUI_HLine` does what it should exactly if its loop is never entered and
the line is there already, and `GUI_RLine` never does.
-/

namespace Lidbg.Gui

open Machine

variable {vinfo : FbVarScreeninfo}

/-! ## The code -/

/-- At the test of the outer loop, or in the inner one. -/
inductive LineAt where
  | outer (x : Nat)
  | inner (x y : Nat)

/-- A turn of `GUI_DrawHline`; it leaves with `none` where it stores outside. -/
def drawHline (y0 x1 : UInt8) (color : UInt32) :
    LineAt × GuiInfo vinfo → (LineAt × GuiInfo vinfo) ⊕ Option (GuiInfo vinfo)
  | (.outer x, guiInfo) =>
    if x < x1.toNat then .inl (.inner x y0.toNat, guiInfo) else .inr (some guiInfo)
  | (.inner x y, guiInfo) =>
    let location := UInt32.ofNat x * 4 + UInt32.ofNat y * vinfo.xres * 4
    match storeAt guiInfo.outBuff location.toNat (le32 color) with
    | none => .inr none
    | some outBuff => .inl (.inner x y, { guiInfo with outBuff })

/-- A turn of `GUI_DrawVline`. -/
def drawVline (y0 y1 : UInt8) (color : UInt32) :
    LineAt × GuiInfo vinfo → (LineAt × GuiInfo vinfo) ⊕ Option (GuiInfo vinfo)
  | (.outer x, guiInfo) => .inl (.inner x y0.toNat, guiInfo)
  | (.inner x y, guiInfo) =>
    if y < y1.toNat then
      let location := UInt32.ofNat x + UInt32.ofNat y * vinfo.xres
      match storeAt guiInfo.outBuff location.toNat (le32 color) with
      | none => .inr none
      | some outBuff => .inl (.inner x (y + 1), { guiInfo with outBuff })
    else .inl (.outer x, guiInfo)

/-- `GUI_DrawHline`, for so many turns. -/
def guiDrawHline (turns : Nat) (guiInfo : GuiInfo vinfo) (x0 y0 x1 : UInt8) (color : UInt32) :
    Option (Option (GuiInfo vinfo)) :=
  loop (drawHline y0 x1 color) turns (.outer x0.toNat, guiInfo)

/-- `GUI_DrawVline`, for so many turns. -/
def guiDrawVline (turns : Nat) (guiInfo : GuiInfo vinfo) (x0 y0 y1 : UInt8) (color : UInt32) :
    Option (Option (GuiInfo vinfo)) :=
  loop (drawVline y0 y1 color) turns (.outer x0.toNat, guiInfo)

/-- `GUI_HLine`. -/
def guiHLine (turns : Nat) (guiInfo : GuiInfo vinfo) (x0 y0 x1 : UInt8) (color : UInt32) :
    Option (Option (GuiInfo vinfo)) :=
  guiDrawHline turns guiInfo x0 x1 y0 color

/-- `GUI_RLine`. -/
def guiRLine (turns : Nat) (guiInfo : GuiInfo vinfo) (x0 y0 y1 : UInt8) (color : UInt32) :
    Option (Option (GuiInfo vinfo)) :=
  guiDrawVline turns guiInfo x0 y0 y1 color

/-! ## What is to be drawn -/

/-- The pixels of a horizontal line. -/
def hPixels (x0 y0 x1 : UInt8) : List (UInt32 × UInt32) :=
  (List.range' x0.toNat (x1.toNat - x0.toNat)).map fun x => (UInt32.ofNat x, y0.toUInt32)

/-- The pixels of a vertical line. -/
def vPixels (x0 y0 y1 : UInt8) : List (UInt32 × UInt32) :=
  (List.range' y0.toNat (y1.toNat - y0.toNat)).map fun y => (x0.toUInt32, UInt32.ofNat y)

/-- `GUI_PutPixel` for each of them. -/
def putPixels (guiInfo : GuiInfo vinfo) (pixels : List (UInt32 × UInt32)) (color : UInt32) :
    Option (GuiInfo vinfo) :=
  pixels.foldlM (fun guiInfo p => guiPutPixel guiInfo p.1 p.2 color) guiInfo

/-- The drawing ends, and `outBuff` is what the pixels make of it. -/
def Agrees (draw : Nat → Option (Option (GuiInfo vinfo))) (drawn : Option (GuiInfo vinfo)) :
    Prop :=
  ∃ turns guiInfo guiInfo', draw turns = some (some guiInfo) ∧ drawn = some guiInfo' ∧
    guiInfo.outBuff = guiInfo'.outBuff

/-- `GUI_HLine` agrees with `GUI_PutPixel`. -/
def HLineAgrees (guiInfo : GuiInfo vinfo) (x0 y0 x1 : UInt8) (color : UInt32) : Prop :=
  Agrees (fun turns => guiHLine turns guiInfo x0 y0 x1 color)
    (putPixels guiInfo (hPixels x0 y0 x1) color)

/-- `GUI_RLine` agrees with `GUI_PutPixel`. -/
def RLineAgrees (guiInfo : GuiInfo vinfo) (x0 y0 y1 : UInt8) (color : UInt32) : Prop :=
  Agrees (fun turns => guiRLine turns guiInfo x0 y0 y1 color)
    (putPixels guiInfo (vPixels x0 y0 y1) color)

/-- Where a pixel of 32 bits is stored. -/
def pixelOffset (vinfo : FbVarScreeninfo) (p : UInt32 × UInt32) : Nat :=
  (p.1 * 4 + p.2 * vinfo.xres * 4).toNat

/-! ## The loops -/

theorem drawHline_again {x : Nat} {x1 : UInt8} (h : x < x1.toNat) (y0 : UInt8) (color : UInt32)
    (guiInfo : GuiInfo vinfo) :
    drawHline y0 x1 color (.outer x, guiInfo) = .inl (.inner x y0.toNat, guiInfo) :=
  if_pos h

theorem drawHline_leave {x : Nat} {x1 : UInt8} (h : ¬ x < x1.toNat) (y0 : UInt8)
    (color : UInt32) (guiInfo : GuiInfo vinfo) :
    drawHline y0 x1 color (.outer x, guiInfo) = .inr (some guiInfo) :=
  if_neg h

/-- The inner loop of `GUI_DrawHline` is only left where it stores outside. -/
theorem eq_none_of_inner {y0 x1 : UInt8} {color : UInt32} {turns x y : Nat}
    {guiInfo : GuiInfo vinfo} {r : Option (GuiInfo vinfo)}
    (h : loop (drawHline y0 x1 color) turns (.inner x y, guiInfo) = some r) : r = none := by
  refine loop_spec (I := fun s => s.1 = .inner x y) (Q := fun r => r = none) ?_ ?_ rfl h
  · rintro ⟨at', guiInfo⟩ s' hat hbody
    subst hat
    rw [drawHline] at hbody
    split at hbody
    · cases hbody
    · cases hbody
      rfl
  · rintro ⟨at', guiInfo⟩ r hat hbody
    subst hat
    rw [drawHline] at hbody
    split at hbody
    · cases hbody
      rfl
    · cases hbody

/-- `GUI_DrawHline` draws nothing, or does not end. -/
theorem guiDrawHline_eq_some_iff {guiInfo guiInfo' : GuiInfo vinfo} {x0 y0 x1 : UInt8}
    {color : UInt32} :
    (∃ turns, guiDrawHline turns guiInfo x0 y0 x1 color = some (some guiInfo')) ↔
      x1 ≤ x0 ∧ guiInfo' = guiInfo := by
  constructor
  · rintro ⟨turns, hturns⟩
    cases turns with
    | zero => cases hturns
    | succ turns =>
      rw [guiDrawHline] at hturns
      by_cases hlt : x0.toNat < x1.toNat
      · rw [loop_again (drawHline_again hlt y0 color guiInfo)] at hturns
        cases eq_none_of_inner hturns
      · rw [loop_leave (drawHline_leave hlt y0 color guiInfo)] at hturns
        cases hturns
        exact ⟨UInt8.le_iff_toNat_le.mpr (Nat.not_lt.mp hlt), rfl⟩
  · rintro ⟨hle, rfl⟩
    have hnot := Nat.not_lt.mpr (UInt8.le_iff_toNat_le.mp hle)
    exact ⟨1, loop_leave (drawHline_leave hnot y0 color guiInfo') 0⟩

/-- `GUI_DrawVline` is only left where it stores outside. -/
theorem guiDrawVline_ne_some {turns : Nat} {guiInfo guiInfo' : GuiInfo vinfo} {x0 y0 y1 : UInt8}
    {color : UInt32} : guiDrawVline turns guiInfo x0 y0 y1 color ≠ some (some guiInfo') := by
  intro h
  refine absurd (loop_spec (I := fun _ => True) (Q := fun r => r = none) ?_ ?_ trivial h)
    (Option.some_ne_none _)
  · exact fun _ _ _ _ => trivial
  · rintro ⟨_ | ⟨x, y⟩, guiInfo⟩ r - hbody
    · cases hbody
    · rw [drawVline] at hbody
      dsimp only at hbody
      split at hbody
      · split at hbody
        · cases hbody
          rfl
        · cases hbody
      · cases hbody

/-! ## The pixels -/

theorem guiPutPixel_eq (h32 : vinfo.bitsPerPixel = 32) {color : UInt32}
    (hcolor : color ≠ screenCleanColor) (guiInfo : GuiInfo vinfo) (p : UInt32 × UInt32) :
    guiPutPixel guiInfo p.1 p.2 color =
      (storeAt guiInfo.outBuff (pixelOffset vinfo p) (le32 color)).map fun outBuff =>
        { guiInfo with outBuff } := by
  rw [guiPutPixel, if_pos h32, if_neg hcolor, Option.bind_eq_bind, Option.bind_some, pixelOffset]
  cases storeAt guiInfo.outBuff (p.1 * 4 + p.2 * vinfo.xres * 4).toNat (le32 color) <;> rfl

theorem putPixels_eq (h32 : vinfo.bitsPerPixel = 32) {color : UInt32}
    (hcolor : color ≠ screenCleanColor) (guiInfo : GuiInfo vinfo)
    (pixels : List (UInt32 × UInt32)) :
    putPixels guiInfo pixels color =
      ((pixels.map (pixelOffset vinfo)).foldlM
        (fun outBuff off => storeAt outBuff off (le32 color)) guiInfo.outBuff).map
        fun outBuff => { guiInfo with outBuff } := by
  induction pixels generalizing guiInfo with
  | nil => rfl
  | cons p pixels ih =>
    rw [putPixels, List.foldlM_cons, guiPutPixel_eq h32 hcolor, List.map_cons, List.foldlM_cons]
    cases storeAt guiInfo.outBuff (pixelOffset vinfo p) (le32 color) with
    | none => rfl
    | some outBuff => exact ih { guiInfo with outBuff }

theorem dvd_pixelOffset (p : UInt32 × UInt32) : 4 ∣ pixelOffset vinfo p := by
  rw [pixelOffset, toNat_location]
  exact (Nat.dvd_mod_iff (by decide)).mpr (Nat.dvd_mul_right 4 _)

/-- Pixels leave the buffer as it is exactly if all of them are there already. -/
theorem putPixels_self_iff (h32 : vinfo.bitsPerPixel = 32) {color : UInt32}
    (hcolor : color ≠ screenCleanColor) {guiInfo : GuiInfo vinfo}
    {pixels : List (UInt32 × UInt32)} :
    (∃ guiInfo', putPixels guiInfo pixels color = some guiInfo' ∧
        guiInfo.outBuff = guiInfo'.outBuff) ↔
      ∀ p ∈ pixels, Holds guiInfo.outBuff (pixelOffset vinfo p) (le32 color) := by
  have halign : ∀ off ∈ pixels.map (pixelOffset vinfo), (le32 color).length ∣ off := by
    intro off hoff
    obtain ⟨p, -, rfl⟩ := List.mem_map.mp hoff
    exact dvd_pixelOffset p
  have hall : _ ↔ ∀ p ∈ pixels, Holds guiInfo.outBuff (pixelOffset vinfo p) (le32 color) :=
    (foldlM_storeAt_self_iff halign).trans List.forall_mem_map
  rw [putPixels_eq h32 hcolor, ← hall]
  constructor
  · rintro ⟨guiInfo', hsome, hsame⟩
    obtain ⟨outBuff, hrun, rfl⟩ := Option.map_eq_some_iff.mp hsome
    exact hrun.trans (congrArg some hsame.symm)
  · intro hrun
    rw [hrun]
    exact ⟨guiInfo, rfl, rfl⟩

/-! ## The lines -/

/-- **Lines are those of their pixels** exactly where there is nothing left to draw:
`GUI_HLine` if its row is not to the right of its start and all its pixels have the colour,
`GUI_RLine` never. -/
theorem lines_agree_iff (h32 : vinfo.bitsPerPixel = 32) {color : UInt32}
    (hcolor : color ≠ screenCleanColor) (guiInfo : GuiInfo vinfo) (x0 y0 x1 y1 : UInt8) :
    (HLineAgrees guiInfo x0 y0 x1 color ↔
      y0 ≤ x0 ∧ ∀ p ∈ hPixels x0 y0 x1,
        Holds guiInfo.outBuff (pixelOffset vinfo p) (le32 color)) ∧
    ¬ RLineAgrees guiInfo x0 y0 y1 color := by
  constructor
  · rw [← putPixels_self_iff h32 hcolor]
    constructor
    · rintro ⟨turns, guiInfo₁, guiInfo', hdraw, hdrawn, hsame⟩
      obtain ⟨hle, rfl⟩ := guiDrawHline_eq_some_iff.mp ⟨turns, hdraw⟩
      exact ⟨hle, guiInfo', hdrawn, hsame⟩
    · rintro ⟨hle, guiInfo', hdrawn, hsame⟩
      obtain ⟨turns, hdraw⟩ := guiDrawHline_eq_some_iff.mpr ⟨hle, rfl⟩
      exact ⟨turns, guiInfo, guiInfo', hdraw, hdrawn, hsame⟩
  · rintro ⟨turns, guiInfo₁, guiInfo', hdraw, -⟩
    exact guiDrawVline_ne_some hdraw

/-- `DISP_COLOR`. -/
def dispColor : UInt32 := 0x0000ff00

/-- A screen of two by three pixels with 32 bits. -/
def sixPixels : FbVarScreeninfo := ⟨2, 3, 32⟩

/-- The screen before anything is drawn. -/
def sixBlack : GuiInfo sixPixels := ⟨Vector.replicate _ 0, Vector.replicate _ 0⟩

/-- A row of it, and a column. -/
theorem lines_agree_sixBlack :
    (HLineAgrees sixBlack 0 1 2 dispColor ↔
      (1 : UInt8) ≤ 0 ∧ ∀ p ∈ hPixels 0 1 2,
        Holds sixBlack.outBuff (pixelOffset sixPixels p) (le32 dispColor)) ∧
    ¬ RLineAgrees sixBlack 0 1 3 dispColor :=
  lines_agree_iff rfl (by decide) sixBlack 0 1 2 3

/-- The row is never finished. -/
theorem not_lines_agree :
    ¬ ∀ (vinfo : FbVarScreeninfo) (guiInfo : GuiInfo vinfo) (x0 y0 x1 y1 : UInt8)
      (color : UInt32), vinfo.bitsPerPixel = 32 →
        vinfo.xres.toNat * vinfo.yres.toNat * 4 < 2 ^ 32 → color ≠ screenCleanColor →
        x0 < x1 → x1.toNat ≤ vinfo.xres.toNat → y0 < y1 → y1.toNat ≤ vinfo.yres.toNat →
        HLineAgrees guiInfo x0 y0 x1 color ∧ RLineAgrees guiInfo x0 y0 y1 color := by
  intro h
  obtain ⟨⟨turns, guiInfo₁, guiInfo', hdraw, -⟩, -⟩ := h sixPixels sixBlack 0 1 2 3 dispColor rfl
    (by decide) (by decide) (by decide) (by decide) (by decide) (by decide)
  exact absurd (guiDrawHline_eq_some_iff.mp ⟨turns, hdraw⟩).1 (by decide)

end Lidbg.Gui
