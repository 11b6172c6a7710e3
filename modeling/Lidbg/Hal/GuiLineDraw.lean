import Lidbg.Hal.GuiLine
import Lidbg.Machine.DigitalLine
import Mathlib.Algebra.Order.Ring.Abs
import Mathlib.Data.List.Range

/-!
# Oblique lines (`hal/lidbg_gui/GUI_BASIC.c`)

`GUI_Line` goes along the axis on which the line is longer, one pixel a turn, and goes one
aside where a decision variable says so. Horizontal and vertical lines are left to
`GUI_HLine` and `GUI_RLine`.

`guiLine_draws`: an oblique line is drawn from one end to the other, without a gap, and no
pixel of it is further than half a pixel from the line.
-/

namespace Lidbg.Gui

open Machine

variable {vinfo : FbVarScreeninfo}

/-! ## The code -/

/-- A value of type `int32`; there is none where the computation overflows. -/
def int32 (z : Int) : Option Int := if -2 ^ 31 ≤ z ∧ z < 2 ^ 31 then some z else none

/-- `dx_sym` and `dy_sym`. -/
def sym (d : Int) : Int := if 0 < d then 1 else -1

/-- A turn of the loop along one axis: `p` is the coordinate on it, `q` the other one,
`a2` and `b2` are twice the differences. -/
def lineTurn (put : GuiInfo vinfo → UInt32 → UInt32 → Option (GuiInfo vinfo)) (stop : UInt32)
    (pSym qSym a2 b2 : Int) :
    GuiInfo vinfo × UInt32 × UInt32 × Int →
      (GuiInfo vinfo × UInt32 × UInt32 × Int) ⊕ Option (GuiInfo vinfo)
  | (guiInfo, p, q, di) =>
    if p ≠ stop then
      match put guiInfo p q with
      | none => .inr none
      | some guiInfo =>
        let p := p + UInt32.ofInt pSym
        if di < 0 then
          match int32 (di + b2) with
          | none => .inr none
          | some di => .inl (guiInfo, p, q, di)
        else
          match (int32 (b2 - a2)).bind fun d => int32 (di + d) with
          | none => .inr none
          | some di => .inl (guiInfo, p, q + UInt32.ofInt qSym, di)
    else .inr (put guiInfo p q)

/-- The differences without their signs, and twice these. -/
def sides (dx dy : Int) : Option (Int × Int × Int × Int) := do
  let dx ← int32 dx
  let dy ← int32 dy
  let dx2 ← int32 (dx * 2)
  let dy2 ← int32 (dy * 2)
  some (dx, dy, dx2, dy2)

/-- `GUI_Line`, for so many turns; `some none` is a store outside the buffer, or a difference
that overflows. The latter depends on the coordinates alone, and not on the buffer. -/
def guiLine (turns : Nat) (guiInfo : GuiInfo vinfo) (x0 y0 x1 y1 color : UInt32) :
    Option (Option (GuiInfo vinfo)) :=
  let dx := (x1 - x0).toInt32.toInt
  let dy := (y1 - y0).toInt32.toInt
  if dx = 0 then guiRLine turns guiInfo x0.toUInt8 y0.toUInt8 y1.toUInt8 color
  else if dy = 0 then guiHLine turns guiInfo x0.toUInt8 y0.toUInt8 x1.toUInt8 color
  else
    let xSym := sym dx
    let ySym := sym dy
    match sides (xSym * dx) (ySym * dy) with
    | none => some none
    | some (dx, dy, dx2, dy2) =>
      if dx ≥ dy then
        match int32 (dy2 - dx) with
        | none => some none
        | some di =>
          loop (lineTurn (fun guiInfo p q => guiPutPixel guiInfo p q color) x1 xSym ySym dx2 dy2)
            turns (guiInfo, x0, y0, di)
      else
        match int32 (dx2 - dy) with
        | none => some none
        | some di =>
          loop (lineTurn (fun guiInfo p q => guiPutPixel guiInfo q p color) y1 ySym xSym dy2 dx2)
            turns (guiInfo, y0, x0, di)

/-! ## Coordinates -/

theorem int32_eq {z : Int} (h : -2 ^ 31 ≤ z) (h' : z < 2 ^ 31) : int32 z = some z :=
  if_pos ⟨h, h'⟩

theorem toNat_ofInt {z : Int} (h : 0 ≤ z) (h' : z < 2 ^ 32) : ((UInt32.ofInt z).toNat : Int) = z := by
  have hmod : z % 2 ^ 32 = z := Int.emod_eq_of_lt h h'
  have hlt : z.toNat < 2 ^ 32 := by omega
  rw [UInt32.ofInt, hmod, UInt32.toNat_ofNat_of_lt' hlt, Int.toNat_of_nonneg h]

theorem ofInt_toNat (x : UInt32) : UInt32.ofInt x.toNat = x := by
  rw [← UInt32.toNat_inj]
  exact_mod_cast toNat_ofInt (Int.natCast_nonneg _) (by exact_mod_cast x.toNat_lt)

/-- The difference of two coordinates, as an `int32`. -/
theorem toInt_sub {x0 x1 : UInt32} (h0 : x0.toNat < 2 ^ 30) (h1 : x1.toNat < 2 ^ 30) :
    (x1 - x0).toInt32.toInt = x1.toNat - x0.toNat := by
  have hpos : ∀ x : UInt32, x.toNat < 2 ^ 30 → x.toBitVec.toInt = x.toNat := by
    intro x hx
    exact BitVec.toInt_eq_toNat_of_lt (by rw [UInt32.toNat_toBitVec]; omega)
  rw [← Int32.toInt_toBitVec, UInt32.toBitVec_toInt32, UInt32.toBitVec_sub, BitVec.toInt_sub,
    hpos x1 h1, hpos x0 h0, Int.bmod_eq_of_le] <;> omega

theorem sides_eq {a b : Nat} (ha : a < 2 ^ 30) (hb : b < 2 ^ 30) :
    sides a b = some ((a : Int), (b : Int), (a * 2 : Int), (b * 2 : Int)) := by
  have ha31 : int32 a = some (a : Int) := int32_eq (by omega) (by omega)
  have hb31 : int32 b = some (b : Int) := int32_eq (by omega) (by omega)
  have ha32 : int32 (a * 2) = some (a * 2 : Int) := int32_eq (by omega) (by omega)
  have hb32 : int32 (b * 2) = some (b * 2 : Int) := int32_eq (by omega) (by omega)
  unfold sides
  exact Option.bind_eq_some_iff.mpr ⟨_, ha31, Option.bind_eq_some_iff.mpr ⟨_, hb31,
    Option.bind_eq_some_iff.mpr ⟨_, ha32, Option.bind_eq_some_iff.mpr ⟨_, hb32, rfl⟩⟩⟩⟩

theorem sym_mul (d : Int) : sym d * d = |d| := by
  unfold sym
  split
  · next h => rw [one_mul, abs_of_pos h]
  · next h => rw [neg_one_mul, abs_of_nonpos (not_lt.mp h)]

theorem sym_mul_abs (d : Int) : sym d * |d| = d := by
  unfold sym
  split
  · next h => rw [one_mul, abs_of_pos h]
  · next h => rw [neg_one_mul, abs_of_nonpos (not_lt.mp h), neg_neg]

theorem sym_cases (d : Int) : sym d = 1 ∨ sym d = -1 := by
  unfold sym
  split
  · exact .inl rfl
  · exact .inr rfl

/-! ## The loop -/

/-- The points of a line along one axis: `a` columns, in each the row nearest to a line
that goes `b` aside. -/
def linePoint (p0 q0 pSym qSym : Int) (a b k : Nat) : UInt32 × UInt32 :=
  (UInt32.ofInt (p0 + pSym * k), UInt32.ofInt (q0 + qSym * nearest a b k))

section Loop

variable {a b : Nat} {p0 q0 pSym qSym : Int}
  {put : GuiInfo vinfo → UInt32 → UInt32 → Option (GuiInfo vinfo)}

/-- The next point, by the decision variable. -/
theorem linePoint_succ (ha : 0 < a) (hb : b ≤ a) (k : Nat) :
    linePoint p0 q0 pSym qSym a b (k + 1) =
      ((linePoint p0 q0 pSym qSym a b k).1 + UInt32.ofInt pSym,
        if decision a b k < 0 then (linePoint p0 q0 pSym qSym a b k).2
        else (linePoint p0 q0 pSym qSym a b k).2 + UInt32.ofInt qSym) := by
  have hp : p0 + pSym * ((k + 1 : Nat) : Int) = p0 + pSym * k + pSym := by push_cast; ring
  rw [linePoint, nearest_succ ha hb, hp, UInt32.ofInt_add (p0 + pSym * k)]
  split
  · rfl
  · have hq : q0 + qSym * ((nearest a b k + 1 : Nat) : Int) = q0 + qSym * nearest a b k + qSym := by
      push_cast
      ring
    rw [hq, UInt32.ofInt_add (q0 + qSym * nearest a b k)]
    rfl

variable (put) in
/-- A turn before the last column. -/
theorem lineTurn_point (ha : 0 < a) (hb : b ≤ a) (ha30 : a < 2 ^ 30) {stop : UInt32} {k : Nat}
    (hstop : (linePoint p0 q0 pSym qSym a b k).1 ≠ stop) (guiInfo : GuiInfo vinfo) :
    lineTurn put stop pSym qSym (a * 2) (b * 2)
        (guiInfo, (linePoint p0 q0 pSym qSym a b k).1, (linePoint p0 q0 pSym qSym a b k).2,
          decision a b k) =
      match put guiInfo (linePoint p0 q0 pSym qSym a b k).1
          (linePoint p0 q0 pSym qSym a b k).2 with
      | none => .inr none
      | some guiInfo =>
        .inl (guiInfo, (linePoint p0 q0 pSym qSym a b (k + 1)).1,
          (linePoint p0 q0 pSym qSym a b (k + 1)).2, decision a b (k + 1)) := by
  obtain ⟨hlow, hhigh⟩ := decision_bounds (b := b) ha k
  have hnext := decision_succ ha hb k
  rw [lineTurn, if_pos hstop, linePoint_succ ha hb]
  cases put guiInfo (linePoint p0 q0 pSym qSym a b k).1 (linePoint p0 q0 pSym qSym a b k).2 with
  | none => rfl
  | some guiInfo =>
    dsimp only
    split
    · next hneg =>
      rw [if_pos hneg] at hnext
      rw [int32_eq (by omega) (by omega)]
      rw [hnext, mul_comm (b : Int)]
    · next hneg =>
      rw [if_neg hneg] at hnext
      rw [int32_eq (by omega) (by omega), Option.bind_some, int32_eq (by omega) (by omega)]
      rw [hnext, mul_comm (b : Int), mul_comm (a : Int)]

variable (put) in
/-- **The loop draws the points** that are left. -/
theorem lineTurn_draws (ha : 0 < a) (hb : b ≤ a) (ha30 : a < 2 ^ 30) {stop : UInt32}
    (hstop : ∀ k, k ≤ a → ((linePoint p0 q0 pSym qSym a b k).1 = stop ↔ k = a)) (n : Nat) :
    ∀ k, k + n = a → ∀ guiInfo : GuiInfo vinfo,
      LoopEnds (lineTurn put stop pSym qSym (a * 2) (b * 2))
        (guiInfo, (linePoint p0 q0 pSym qSym a b k).1, (linePoint p0 q0 pSym qSym a b k).2,
          decision a b k)
        (· = ((List.range' k (n + 1)).map (linePoint p0 q0 pSym qSym a b)).foldlM
          (fun guiInfo p => put guiInfo p.1 p.2) guiInfo) := by
  induction n with
  | zero =>
    intro k hk guiInfo
    have hlast : (linePoint p0 q0 pSym qSym a b k).1 = stop := (hstop k (by omega)).mpr hk
    have hleave : lineTurn put stop pSym qSym (a * 2) (b * 2)
        (guiInfo, (linePoint p0 q0 pSym qSym a b k).1, (linePoint p0 q0 pSym qSym a b k).2,
          decision a b k) = .inr (put guiInfo (linePoint p0 q0 pSym qSym a b k).1
            (linePoint p0 q0 pSym qSym a b k).2) := by
      rw [lineTurn, if_neg (not_not.mpr hlast)]
    rw [loopEnds_leave hleave]
    simp
  | succ n ih =>
    intro k hk guiInfo
    have hmore : (linePoint p0 q0 pSym qSym a b k).1 ≠ stop := by
      rw [Ne, hstop k (by omega)]
      omega
    have hturn := lineTurn_point put ha hb ha30 hmore guiInfo
    rw [List.range'_succ, List.map_cons, List.foldlM_cons]
    cases hput : put guiInfo (linePoint p0 q0 pSym qSym a b k).1
        (linePoint p0 q0 pSym qSym a b k).2 with
    | none =>
      rw [hput] at hturn
      rw [loopEnds_leave hturn]
      rfl
    | some guiInfo' =>
      rw [hput] at hturn
      rw [loopEnds_again hturn]
      exact ih (k + 1) (by omega) guiInfo'

end Loop

/-! ## What is to be drawn -/

/-- Two pixels without a gap. -/
def Touches (u v : UInt32 × UInt32) : Prop :=
  |(u.1.toNat - v.1.toNat : Int)| ≤ 1 ∧ |(u.2.toNat - v.2.toNat : Int)| ≤ 1

/-- A pixel no further than half a pixel from the line, along the shorter axis. -/
def Near (x0 y0 x1 y1 : UInt32) (p : UInt32 × UInt32) : Prop :=
  |2 * ((p.1.toNat - x0.toNat) * (y1.toNat - y0.toNat) -
      (p.2.toNat - y0.toNat) * (x1.toNat - x0.toNat) : Int)| ≤
    max |(x1.toNat - x0.toNat : Int)| |(y1.toNat - y0.toNat : Int)|

/-- The pixels of a line: from one end to the other, as few as can be without a gap. -/
structure LineDrawn (x0 y0 x1 y1 : UInt32) (pixels : List (UInt32 × UInt32)) : Prop where
  first : pixels.head? = some (x0, y0)
  last : pixels.getLast? = some (x1, y1)
  length : (pixels.length : Int) =
    max |(x1.toNat - x0.toNat : Int)| |(y1.toNat - y0.toNat : Int)| + 1
  touches : pixels.IsChain Touches
  near : ∀ p ∈ pixels, Near x0 y0 x1 y1 p

/-- Columns and rows exchanged. -/
theorem LineDrawn.swap {x0 y0 x1 y1 : UInt32} {pixels : List (UInt32 × UInt32)}
    (h : LineDrawn y0 x0 y1 x1 pixels) : LineDrawn x0 y0 x1 y1 (pixels.map Prod.swap) where
  first := by simp [h.first]
  last := by simp [h.last]
  length := by rw [List.length_map, h.length, max_comm]
  touches := by
    rw [List.isChain_map]
    exact h.touches.imp fun u v huv => ⟨huv.2, huv.1⟩
  near p hp := by
    obtain ⟨q, hq, rfl⟩ := List.mem_map.mp hp
    have hnear := h.near q hq
    unfold Near at hnear ⊢
    rw [max_comm, ← abs_neg]
    convert hnear using 2
    simp only [Prod.fst_swap, Prod.snd_swap]
    ring

section Points

variable {a b : Nat} {pSym qSym : Int} {x0 y0 x1 y1 : UInt32}

/-- The ends of a line along the first axis. -/
structure Along (a b : Nat) (pSym qSym : Int) (x0 y0 x1 y1 : UInt32) : Prop where
  pos : 0 < a
  le : b ≤ a
  pSym_cases : pSym = 1 ∨ pSym = -1
  qSym_cases : qSym = 1 ∨ qSym = -1
  x1_eq : (x1.toNat : Int) = x0.toNat + pSym * a
  y1_eq : (y1.toNat : Int) = y0.toNat + qSym * b

/-- No coordinate between the ends is cut. -/
theorem Along.toNat_point (h : Along a b pSym qSym x0 y0 x1 y1) {k : Nat} (hk : k ≤ a) :
    ((linePoint x0.toNat y0.toNat pSym qSym a b k).1.toNat : Int) = x0.toNat + pSym * k ∧
      ((linePoint x0.toNat y0.toNat pSym qSym a b k).2.toNat : Int) =
        y0.toNat + qSym * nearest a b k := by
  have hb := nearest_le (b := b) h.pos hk
  have hx0 := x0.toNat_lt
  have hx1 := x1.toNat_lt
  have hy0 := y0.toNat_lt
  have hy1 := y1.toNat_lt
  have hx1' := h.x1_eq
  have hy1' := h.y1_eq
  constructor
  · refine toNat_ofInt ?_ ?_ <;> rcases h.pSym_cases with rfl | rfl <;> omega
  · refine toNat_ofInt ?_ ?_ <;> rcases h.qSym_cases with rfl | rfl <;> omega

/-- The first coordinate is that of the end in the last column only. -/
theorem Along.stop_iff (h : Along a b pSym qSym x0 y0 x1 y1) {k : Nat} (hk : k ≤ a) :
    (linePoint x0.toNat y0.toNat pSym qSym a b k).1 = x1 ↔ k = a := by
  have hx1 := h.x1_eq
  rw [← UInt32.toNat_inj, ← Int.natCast_inj, (h.toNat_point hk).1, hx1]
  rcases h.pSym_cases with rfl | rfl <;> omega

theorem Along.point_zero (h : Along a b pSym qSym x0 y0 x1 y1) :
    linePoint x0.toNat y0.toNat pSym qSym a b 0 = (x0, y0) := by
  rw [linePoint, nearest_zero h.pos]
  simp [ofInt_toNat]

theorem Along.point_last (h : Along a b pSym qSym x0 y0 x1 y1) :
    linePoint x0.toNat y0.toNat pSym qSym a b a = (x1, y1) := by
  rw [linePoint, nearest_self h.pos, ← h.x1_eq, ← h.y1_eq, ofInt_toNat, ofInt_toNat]

theorem Along.abs_eq (h : Along a b pSym qSym x0 y0 x1 y1) :
    |(x1.toNat - x0.toNat : Int)| = a ∧ |(y1.toNat - y0.toNat : Int)| = b := by
  rw [h.x1_eq, h.y1_eq, add_sub_cancel_left, add_sub_cancel_left]
  constructor
  · rcases h.pSym_cases with hs | hs <;> rw [hs] <;> simp
  · rcases h.qSym_cases with hs | hs <;> rw [hs] <;> simp

/-- **The points are the line.** -/
theorem Along.lineDrawn (h : Along a b pSym qSym x0 y0 x1 y1) :
    LineDrawn x0 y0 x1 y1
      ((List.range (a + 1)).map (linePoint x0.toNat y0.toNat pSym qSym a b)) where
  first := by
    rw [List.range_succ_eq_map, List.map_cons, h.point_zero]
    rfl
  last := by
    rw [List.range_succ, List.map_append, List.map_singleton, List.getLast?_concat, h.point_last]
  length := by
    obtain ⟨hx, hy⟩ := h.abs_eq
    have hle : (b : Int) ≤ a := by exact_mod_cast h.le
    rw [List.length_map, List.length_range, hx, hy, max_eq_left hle]
    rfl
  touches := by
    rw [List.isChain_map, List.isChain_range_succ]
    intro k hk
    obtain ⟨hp, hq⟩ := h.toNat_point (Nat.le_of_lt hk)
    obtain ⟨hp', hq'⟩ := h.toNat_point (show k + 1 ≤ a from hk)
    -- along the axis it is one step, across it none or one
    have hnext := nearest_succ h.pos h.le k
    show Touches _ (linePoint _ _ pSym qSym a b (k + 1))
    rw [Touches, hp, hq, hp', hq', abs_le, abs_le]
    push_cast
    constructor
    · rcases h.pSym_cases with rfl | rfl <;> omega
    · split at hnext <;> rcases h.qSym_cases with rfl | rfl <;> omega
  near p hp := by
    obtain ⟨k, hk, rfl⟩ := List.mem_map.mp hp
    obtain ⟨hp, hq⟩ := h.toNat_point (Nat.le_of_lt_succ (List.mem_range.mp hk))
    obtain ⟨hx, hy⟩ := h.abs_eq
    have hle : (b : Int) ≤ a := by exact_mod_cast h.le
    have hclose := nearest_close (b := b) h.pos k
    -- the signs of the two directions do not matter for the distance
    have hcross : ∀ s t : Int, (s = 1 ∨ s = -1) → (t = 1 ∨ t = -1) →
        |2 * (s * k * (t * b) - t * nearest a b k * (s * a))| =
          |2 * (k * b - a * nearest a b k : Int)| := by
      intro s t hs ht
      have hst : |s * t| = 1 := by
        rcases hs with rfl | rfl <;> rcases ht with rfl | rfl <;> rfl
      calc |2 * (s * k * (t * b) - t * nearest a b k * (s * a))|
          = |s * t * (2 * (k * b - a * nearest a b k : Int))| := by congr 1; ring
        _ = |2 * (k * b - a * nearest a b k : Int)| := by rw [abs_mul, hst, one_mul]
    rw [Near, hx, hy, max_eq_left hle, hp, hq, h.x1_eq, h.y1_eq]
    simp only [add_sub_cancel_left]
    rw [hcross pSym qSym h.pSym_cases h.qSym_cases]
    exact hclose

end Points

theorem putPixels_swap (guiInfo : GuiInfo vinfo) (pixels : List (UInt32 × UInt32))
    (color : UInt32) :
    putPixels guiInfo (pixels.map Prod.swap) color =
      pixels.foldlM (fun guiInfo p => guiPutPixel guiInfo p.2 p.1 color) guiInfo := by
  rw [putPixels, List.foldlM_map]
  rfl

/-- The loop along the first axis, from the start. -/
theorem Along.draws {a b : Nat} {pSym qSym : Int} {x0 y0 x1 y1 : UInt32}
    (h : Along a b pSym qSym x0 y0 x1 y1) (ha30 : a < 2 ^ 30)
    (put : GuiInfo vinfo → UInt32 → UInt32 → Option (GuiInfo vinfo)) (guiInfo : GuiInfo vinfo) :
    LoopEnds (lineTurn put x1 pSym qSym (a * 2) (b * 2)) (guiInfo, x0, y0, b * 2 - a)
      (· = ((List.range (a + 1)).map
        (linePoint x0.toNat y0.toNat pSym qSym a b)).foldlM
          (fun guiInfo p => put guiInfo p.1 p.2) guiInfo) := by
  have hloop := lineTurn_draws put h.pos h.le ha30 (fun k hk => h.stop_iff hk) a 0
    (Nat.zero_add a) guiInfo
  rw [h.point_zero, decision_zero h.pos, mul_comm (2 : Int), ← List.range_eq_range'] at hloop
  exact hloop

/-- `GUI_Line` for differences that are not zero and do not overflow. -/
theorem guiLine_eq {x0 y0 x1 y1 : UInt32} {a b : Nat} {dx dy : Int}
    (hdx : (x1 - x0).toInt32.toInt = dx) (hdy : (y1 - y0).toInt32.toInt = dy) (hdx0 : dx ≠ 0)
    (hdy0 : dy ≠ 0) (ha : |dx| = a) (hb : |dy| = b) (ha30 : a < 2 ^ 30) (hb30 : b < 2 ^ 30)
    (turns : Nat) (guiInfo : GuiInfo vinfo) (color : UInt32) :
    guiLine turns guiInfo x0 y0 x1 y1 color =
      if b ≤ a then
        loop (lineTurn (fun guiInfo p q => guiPutPixel guiInfo p q color) x1 (sym dx) (sym dy)
          (a * 2) (b * 2)) turns (guiInfo, x0, y0, b * 2 - a)
      else
        loop (lineTurn (fun guiInfo p q => guiPutPixel guiInfo q p color) y1 (sym dy) (sym dx)
          (b * 2) (a * 2)) turns (guiInfo, y0, x0, a * 2 - b) := by
  have hcast : (a : Int) ≥ b ↔ b ≤ a := Int.ofNat_le
  have hab : int32 (b * 2 - a) = some (b * 2 - a : Int) := int32_eq (by omega) (by omega)
  have hba : int32 (a * 2 - b) = some (a * 2 - b : Int) := int32_eq (by omega) (by omega)
  unfold guiLine
  rw [hdx, hdy]
  dsimp only
  rw [if_neg hdx0, if_neg hdy0, sym_mul, sym_mul, ha, hb, sides_eq ha30 hb30]
  simp only [hab, hba, hcast]

/-- The difference of two coordinates as its length. -/
theorem exists_abs_eq {x0 x1 : UInt32} (h0 : x0.toNat < 2 ^ 30) (h1 : x1.toNat < 2 ^ 30)
    (hne : x0 ≠ x1) :
    ∃ a : Nat, |(x1.toNat - x0.toNat : Int)| = a ∧ 0 < a ∧ a < 2 ^ 30 ∧
      (x1.toNat - x0.toNat : Int) ≠ 0 ∧
      (x1.toNat : Int) = x0.toNat + sym (x1.toNat - x0.toNat) * a := by
  have hne' : x0.toNat ≠ x1.toNat := fun h => hne (UInt32.toNat_inj.mp h)
  refine ⟨(x1.toNat - x0.toNat : Int).natAbs, Int.abs_eq_natAbs _, by omega, by omega, by omega, ?_⟩
  rw [← Int.abs_eq_natAbs, sym_mul_abs]
  omega

/-- **An oblique line is drawn**: `GUI_Line` ends, and has put the pixels of the line. -/
theorem guiLine_draws {x0 y0 x1 y1 : UInt32} (hx0 : x0.toNat < 2 ^ 30) (hy0 : y0.toNat < 2 ^ 30)
    (hx1 : x1.toNat < 2 ^ 30) (hy1 : y1.toNat < 2 ^ 30) (hx : x0 ≠ x1) (hy : y0 ≠ y1)
    (guiInfo : GuiInfo vinfo) (color : UInt32) :
    ∃ turns pixels, guiLine turns guiInfo x0 y0 x1 y1 color =
        some (putPixels guiInfo pixels color) ∧ LineDrawn x0 y0 x1 y1 pixels := by
  obtain ⟨a, ha, hapos, ha30, hdx0, hx1'⟩ := exists_abs_eq hx0 hx1 hx
  obtain ⟨b, hb, hbpos, hb30, hdy0, hy1'⟩ := exists_abs_eq hy0 hy1 hy
  have heq := fun turns => guiLine_eq (toInt_sub hx0 hx1) (toInt_sub hy0 hy1) hdx0 hdy0 ha hb
    ha30 hb30 turns guiInfo color
  by_cases hle : b ≤ a
  · have halong : Along a b _ _ x0 y0 x1 y1 :=
      ⟨hapos, hle, sym_cases _, sym_cases _, hx1', hy1'⟩
    obtain ⟨turns, r, hloop, rfl⟩ := halong.draws ha30
      (fun guiInfo p q => guiPutPixel guiInfo p q color) guiInfo
    refine ⟨turns, _, ?_, halong.lineDrawn⟩
    rw [heq, if_pos hle]
    exact hloop
  · have halong : Along b a _ _ y0 x0 y1 x1 :=
      ⟨hbpos, Nat.le_of_not_le hle, sym_cases _, sym_cases _, hy1', hx1'⟩
    obtain ⟨turns, r, hloop, rfl⟩ := halong.draws hb30
      (fun guiInfo p q => guiPutPixel guiInfo q p color) guiInfo
    refine ⟨turns, _, ?_, halong.lineDrawn.swap⟩
    rw [heq, if_neg hle, putPixels_swap]
    exact hloop

/-- From the top right of six pixels to the bottom left. -/
theorem guiLine_draws_six :
    ∃ turns pixels, guiLine turns sixBlack 1 0 0 2 dispColor =
        some (putPixels sixBlack pixels dispColor) ∧ LineDrawn 1 0 0 2 pixels :=
  guiLine_draws (by decide) (by decide) (by decide) (by decide) (by decide) (by decide)
    sixBlack dispColor

end Lidbg.Gui
