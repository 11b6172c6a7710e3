import Lidbg.Machine.BitField
import Lidbg.Machine.Store
import Mathlib.Tactic.IntervalCases

/-!
# Pixels (`hal/lidbg_gui/lidbg_gui.c`)

`GUI_PutPixel` stores a colour in `outBuff`, as it is or, with 16 bits for a pixel, with
five bits of red, six of green and five of blue. It shifts the components to their places
and cuts each to a byte, which is more than there is room for: the lowest bits of red and
green stay in the components below.

`draws565_iff`: a pixel gets its colour exactly if those bits are set there anyhow.
-/

namespace Lidbg.Gui

open Machine

/-! ## The code -/

/-- `SYS_FB_NUM`. -/
def sysFbNum : Nat := 3

/-- `SCREEN_CLEAN_COLOR`, where the whole screen is cleaned. -/
def screenCleanColor : UInt32 := 0xff000000

/-- `struct fb_var_screeninfo`, of which these are read. -/
structure FbVarScreeninfo where
  xres : UInt32
  yres : UInt32
  bitsPerPixel : UInt32

/-- `outBuffSize`. -/
def FbVarScreeninfo.outBuffSize (vinfo : FbVarScreeninfo) : UInt32 :=
  vinfo.xres * vinfo.yres * (vinfo.bitsPerPixel / 8)

/-- `screensize`. -/
def FbVarScreeninfo.screensize (vinfo : FbVarScreeninfo) : UInt32 :=
  vinfo.outBuffSize * UInt32.ofNat sysFbNum

/-- `struct gui_info`: the memory that `main` gets for `outBuff` and `sysFbBaseAddr`. -/
structure GuiInfo (vinfo : FbVarScreeninfo) where
  outBuff : Vector UInt8 vinfo.outBuffSize.toNat
  sysFb : Vector UInt8 vinfo.screensize.toNat

variable {vinfo : FbVarScreeninfo}

/-- The loop over the system's framebuffers; addresses have 32 bits. -/
def cleanSysFb (sysFb : Vector UInt8 vinfo.screensize.toNat) (location color : UInt32) :
    Option (Vector UInt8 vinfo.screensize.toNat) :=
  (List.range sysFbNum).foldlM
    (fun sysFb i =>
      storeAt sysFb (vinfo.outBuffSize * UInt32.ofNat i + location).toNat (le32 color))
    sysFb

/-- The colour that is stored in 16 bits, through `r`, `g` and `b`. -/
def shortColor (color : UInt32) : UInt16 :=
  let r : UInt8 := ((color >>> 19) &&& 0xff).toUInt8
  let g : UInt8 := ((color >>> 10) &&& 0xff).toUInt8
  let b : UInt8 := ((color >>> 3) &&& 0xff).toUInt8
  (r.toUInt32 <<< 11 ||| g.toUInt32 <<< 5 ||| b.toUInt32).toUInt16

/-- `GUI_PutPixel`; `none` stores outside of a buffer. -/
def guiPutPixel (guiInfo : GuiInfo vinfo) (x y color : UInt32) : Option (GuiInfo vinfo) :=
  if vinfo.bitsPerPixel = 32 then
    let location := x * 4 + y * vinfo.xres * 4
    do
      let sysFb ←
        if color = screenCleanColor then cleanSysFb guiInfo.sysFb location color
        else some guiInfo.sysFb
      let outBuff ← storeAt guiInfo.outBuff location.toNat (le32 color)
      some ⟨outBuff, sysFb⟩
  else if vinfo.bitsPerPixel = 16 then
    let location := x * 2 + y * vinfo.xres * 2
    (storeAt guiInfo.outBuff location.toNat (le16 (shortColor color))).map fun outBuff =>
      { guiInfo with outBuff }
  else some guiInfo

/-! ## What is to be drawn -/

def red (color : UInt32) : UInt8 := ((color >>> 16) &&& 0xff).toUInt8

def green (color : UInt32) : UInt8 := ((color >>> 8) &&& 0xff).toUInt8

def blue (color : UInt32) : UInt8 := (color &&& 0xff).toUInt8

/-- The highest five, six and five bits of the components. -/
def rgb565 (color : UInt32) : UInt16 :=
  (red color >>> 3).toUInt16 <<< 11 ||| (green color >>> 2).toUInt16 <<< 5 |||
    (blue color >>> 3).toUInt16

/-- The pixel gets its colour, and no other byte changes. -/
def Draws565 (guiInfo : GuiInfo vinfo) (x y color : UInt32) : Prop :=
  ∃ guiInfo', guiPutPixel guiInfo x y color = some guiInfo' ∧
    Stored guiInfo.outBuff (2 * (x.toNat + y.toNat * vinfo.xres.toNat)) (le16 (rgb565 color))
      guiInfo'.outBuff

/-- A bit of the lowest two of red is only set with the one three above it, and one of the
lowest three of green with the one two above it. -/
def SetAbove (color : UInt32) : Prop :=
  (∀ i, 16 ≤ i → i < 18 → color.toBitVec.getLsbD i → color.toBitVec.getLsbD (i + 3)) ∧
    ∀ i, 8 ≤ i → i < 11 → color.toBitVec.getLsbD i → color.toBitVec.getLsbD (i + 2)

/-! ## Colours -/

theorem getLsbD_byte (v : UInt32) (j : Nat) :
    (v &&& 0xff).toUInt8.toBitVec.getLsbD j = (decide (j < 8) && v.toBitVec.getLsbD j) := by
  have hmask : (0xff : UInt32).toBitVec = lowMask 32 8 := rfl
  rw [UInt32.toBitVec_toUInt8, UInt32.toBitVec_and, hmask, BitVec.getLsbD_setWidth,
    BitVec.getLsbD_and, getLsbD_lowMask]
  grind

theorem getLsbD_shiftRight (v : UInt32) {k : UInt32} (hk : k < 32) (j : Nat) :
    (v >>> k).toBitVec.getLsbD j = v.toBitVec.getLsbD (k.toNat + j) := by
  have hmod : (k.toBitVec % 32).toNat = k.toNat := Nat.mod_eq_of_lt hk
  rw [UInt32.toBitVec_shiftRight, BitVec.ushiftRight_eq', BitVec.getLsbD_ushiftRight, hmod]

/-- Red has its five bits, green eight of ten and blue eight of five. -/
theorem getLsbD_shortColor (color : UInt32) {i : Nat} (hi : i < 16) :
    (shortColor color).toBitVec.getLsbD i =
      (decide (11 ≤ i) && color.toBitVec.getLsbD (i + 8) ||
        decide (5 ≤ i ∧ i < 13) && color.toBitVec.getLsbD (i + 5) ||
        decide (i < 8) && color.toBitVec.getLsbD (i + 3)) := by
  have h19 (j : Nat) : (color >>> 19).toBitVec.getLsbD j = color.toBitVec.getLsbD (19 + j) :=
    getLsbD_shiftRight color (by decide) j
  have h10 (j : Nat) : (color >>> 10).toBitVec.getLsbD j = color.toBitVec.getLsbD (10 + j) :=
    getLsbD_shiftRight color (by decide) j
  have h3 (j : Nat) : (color >>> 3).toBitVec.getLsbD j = color.toBitVec.getLsbD (3 + j) :=
    getLsbD_shiftRight color (by decide) j
  have h11 : (UInt32.toBitVec 11 % 32).toNat = 11 := rfl
  have h5 : (UInt32.toBitVec 5 % 32).toNat = 5 := rfl
  simp only [shortColor, UInt32.toBitVec_toUInt16, UInt32.toBitVec_or, UInt32.toBitVec_shiftLeft,
    UInt8.toBitVec_toUInt32, BitVec.getLsbD_setWidth, BitVec.getLsbD_or, BitVec.shiftLeft_eq',
    BitVec.getLsbD_shiftLeft, getLsbD_byte, h19, h10, h3, h11, h5]
  interval_cases i <;> simp

theorem getLsbD_rgb565 (color : UInt32) {i : Nat} (hi : i < 16) :
    (rgb565 color).toBitVec.getLsbD i =
      (decide (11 ≤ i) && color.toBitVec.getLsbD (i + 8) ||
        decide (5 ≤ i ∧ i < 11) && color.toBitVec.getLsbD (i + 5) ||
        decide (i < 5) && color.toBitVec.getLsbD (i + 3)) := by
  have h16 (j : Nat) : (color >>> 16).toBitVec.getLsbD j = color.toBitVec.getLsbD (16 + j) :=
    getLsbD_shiftRight color (by decide) j
  have h8 (j : Nat) : (color >>> 8).toBitVec.getLsbD j = color.toBitVec.getLsbD (8 + j) :=
    getLsbD_shiftRight color (by decide) j
  have h11 : (UInt16.toBitVec 11 % 16).toNat = 11 := rfl
  have h5 : (UInt16.toBitVec 5 % 16).toNat = 5 := rfl
  have h3 : (UInt8.toBitVec 3 % 8).toNat = 3 := rfl
  have h2 : (UInt8.toBitVec 2 % 8).toNat = 2 := rfl
  simp only [rgb565, red, green, blue, UInt16.toBitVec_or, UInt16.toBitVec_shiftLeft,
    UInt8.toBitVec_shiftRight, UInt8.toBitVec_toUInt16, BitVec.getLsbD_setWidth, BitVec.getLsbD_or,
    BitVec.shiftLeft_eq', BitVec.ushiftRight_eq', BitVec.getLsbD_ushiftRight,
    BitVec.getLsbD_shiftLeft, getLsbD_byte, h16, h8, h11, h5, h3, h2]
  interval_cases i <;> simp

/-- The two colours differ where a low bit of red is stored with green, or one of green with
blue, and the bit of its place is not set. -/
theorem shortColor_eq_iff (color : UInt32) :
    shortColor color = rgb565 color ↔ SetAbove color := by
  have hbits : shortColor color = rgb565 color ↔
      ∀ i < 16, (shortColor color).toBitVec.getLsbD i = (rgb565 color).toBitVec.getLsbD i := by
    rw [← UInt16.toBitVec_inj]
    exact ⟨fun h i _ => by rw [h], BitVec.eq_of_getLsbD_eq⟩
  rw [hbits]
  constructor
  · intro h
    constructor
    · intro i hi hi' hbit
      have hsame := h (i - 5) (by omega)
      rw [getLsbD_shortColor _ (by omega), getLsbD_rgb565 _ (by omega),
        show i - 5 + 5 = i by omega, hbit] at hsame
      grind
    · intro i hi hi' hbit
      have hsame := h (i - 3) (by omega)
      rw [getLsbD_shortColor _ (by omega), getLsbD_rgb565 _ (by omega),
        show i - 3 + 3 = i by omega, hbit] at hsame
      grind
  · rintro ⟨hred, hgreen⟩ i hi
    have hred := hred (i + 5)
    have hgreen := hgreen (i + 3)
    rw [getLsbD_shortColor _ hi, getLsbD_rgb565 _ hi]
    grind

/-! ## Pixels -/

/-- The offset of a pixel, as far as 32 bits go. -/
theorem toNat_location (x y w : UInt32) :
    (x * w + y * vinfo.xres * w).toNat =
      w.toNat * (x.toNat + y.toNat * vinfo.xres.toNat) % 2 ^ 32 := by
  rw [← UInt32.add_mul, UInt32.mul_comm, UInt32.toNat_mul, UInt32.toNat_add, UInt32.toNat_mul,
    Nat.add_mod_mod, Nat.mul_mod_mod]

/-- The pixels of a screen are in its buffer, unless its size has been cut. -/
theorem pixel_fits {x y : UInt32} (h16 : vinfo.bitsPerPixel = 16) (hx : x < vinfo.xres)
    (hy : y < vinfo.yres) (hsize : vinfo.xres.toNat * vinfo.yres.toNat * 2 < 2 ^ 32) :
    2 * (x.toNat + y.toNat * vinfo.xres.toNat) + 2 ≤ vinfo.outBuffSize.toNat := by
  have hout : vinfo.outBuffSize.toNat = vinfo.xres.toNat * vinfo.yres.toNat * 2 := by
    rw [FbVarScreeninfo.outBuffSize, h16, UInt32.toNat_mul, UInt32.toNat_mul, Nat.mod_mul_mod]
    exact Nat.mod_eq_of_lt hsize
  rw [UInt32.lt_iff_toNat_lt] at hx hy
  have hrow := Nat.mul_le_mul_right vinfo.xres.toNat (Nat.succ_le_of_lt hy)
  rw [Nat.succ_mul, Nat.mul_comm vinfo.yres.toNat] at hrow
  rw [hout]
  omega

/-- **A pixel gets its colour** exactly if the bits that stay in other components are set
there anyhow, and its bytes are in the buffer. -/
theorem draws565_iff (h16 : vinfo.bitsPerPixel = 16) (guiInfo : GuiInfo vinfo)
    (x y color : UInt32) :
    Draws565 guiInfo x y color ↔
      SetAbove color ∧
        2 * (x.toNat + y.toNat * vinfo.xres.toNat) + 2 ≤ vinfo.outBuffSize.toNat := by
  have h32 : vinfo.bitsPerPixel ≠ 32 := by
    rw [h16]
    decide
  have hput : guiPutPixel guiInfo x y color =
      (storeAt guiInfo.outBuff (2 * (x.toNat + y.toNat * vinfo.xres.toNat) % 2 ^ 32)
        (le16 (shortColor color))).map fun outBuff => { guiInfo with outBuff } := by
    rw [guiPutPixel, if_neg h32, if_pos h16]
    dsimp only
    rw [toNat_location]
    rfl
  rw [Draws565, hput, ← shortColor_eq_iff]
  constructor
  · rintro ⟨guiInfo', hsome, hstored⟩
    have hfits : 2 * (x.toNat + y.toNat * vinfo.xres.toNat) + 2 ≤ vinfo.outBuffSize.toNat :=
      hstored.fits
    have hlt := vinfo.outBuffSize.toNat_lt
    rw [Nat.mod_eq_of_lt (by omega), Option.map_eq_some_iff] at hsome
    obtain ⟨outBuff, hstore, rfl⟩ := hsome
    have hbytes := (storeAt_iff.mp hstore).holds.unique hstored.holds rfl
    exact ⟨le16_inj.mp hbytes, hfits⟩
  · rintro ⟨hcolor, hfits⟩
    have hlt := vinfo.outBuffSize.toNat_lt
    obtain ⟨outBuff, hstore⟩ : ∃ outBuff, storeAt guiInfo.outBuff
        (2 * (x.toNat + y.toNat * vinfo.xres.toNat)) (le16 (shortColor color)) = some outBuff :=
      exists_storeAt guiInfo.outBuff hfits
    rw [Nat.mod_eq_of_lt (by omega), hstore]
    exact ⟨_, rfl, hcolor ▸ storeAt_iff.mp hstore⟩

/-- A screen of one pixel with 16 bits. -/
def onePixel : FbVarScreeninfo := ⟨1, 1, 16⟩

/-- The pixel before anything is drawn. -/
def oneBlack : GuiInfo onePixel := ⟨Vector.replicate _ 0, Vector.replicate _ 0⟩

/-- White, which has all bits. -/
theorem draws565_white :
    Draws565 oneBlack 0 0 0x00ffffff ↔
      SetAbove 0x00ffffff ∧ 2 * (0 + 0 * 1) + 2 ≤ onePixel.outBuffSize.toNat :=
  draws565_iff rfl oneBlack 0 0 0x00ffffff

/-- A red of 3, of which five bits have nothing, is stored as 3. -/
theorem not_draws565 :
    ¬ ∀ (vinfo : FbVarScreeninfo) (guiInfo : GuiInfo vinfo) (x y color : UInt32),
      vinfo.bitsPerPixel = 16 → vinfo.xres.toNat * vinfo.yres.toNat * 2 < 2 ^ 32 →
        x < vinfo.xres → y < vinfo.yres → Draws565 guiInfo x y color := by
  intro h
  obtain ⟨guiInfo', hput, hstored⟩ := h onePixel oneBlack 0 0 0x00030000 rfl (by decide)
    (by decide) (by decide)
  have hrun : guiPutPixel oneBlack 0 0 0x00030000 =
      some { oneBlack with outBuff := #v[0x00, 0x18] } := rfl
  cases hrun.symm.trans hput
  have hbyte : (0x18 : UInt8) = (le16 (rgb565 0x00030000))[1] :=
    hstored.holds.getElem_eq 1 (by decide)
  exact absurd hbyte (by decide)

end Lidbg.Gui
