import Mathlib.Data.Nat.Bitwise
import Mathlib.Data.UInt
import Mathlib.Tactic.Ring

/-!
# A serial line, 8N1

A sender sets the level of a line and waits; `wave` is the level that the line has at each
time then. A receiver (`Decodes`) waits for the line to go low, looks at it in the middle
of ten cells from there, the start bit, eight bits from the least significant on and the
stop bit, and waits for the next start bit from the middle of the stop bit on.

Time is counted in halves of the unit of the waits, so that the middle of a cell is a
point of time. `decodes_frames_iff`: frames are understood exactly if the stop bits last
for more than half a cell.
-/

namespace Lidbg.Machine

/-- What a sender does to the line. -/
inductive LineAct where
  | level (high : Bool)
  | wait (n : Nat)
deriving DecidableEq

/-- The level that the line is left at. -/
def lastLevel : List LineAct → Bool → Bool
  | [], high => high
  | .level high :: acts, _ => lastLevel acts high
  | .wait _ :: acts, high => lastLevel acts high

/-- The level of the line after `t` halves of a unit, when it was `high` before. -/
def wave : List LineAct → Bool → Nat → Bool
  | [], high, _ => high
  | .level high :: acts, _, t => wave acts high t
  | .wait n :: acts, high, t => if t < 2 * n then high else wave acts high (t - 2 * n)

/-- What a receiver makes of the line from time `t` on, with cells of `d` units. -/
inductive Decodes (line : Nat → Bool) (d : Nat) : Nat → List UInt8 → Prop
  | idle {t : Nat} (high : ∀ u, t ≤ u → line u = true) : Decodes line d t []
  | frame {t s : Nat} {byte : UInt8} {bytes : List UInt8} (later : t ≤ s)
      (high : ∀ u, t ≤ u → u < s → line u = true) (low : line s = false)
      (start : line (s + d) = false)
      (data : ∀ k, k < 8 → line (s + d * (2 * k + 3)) = byte.toNat.testBit k)
      (stop : line (s + d * 19) = true) (rest : Decodes line d (s + d * 19) bytes) :
      Decodes line d t (byte :: bytes)

/-! ## The receiver -/

theorem byte_eq_of_testBit {a b : UInt8}
    (h : ∀ k, k < 8 → a.toNat.testBit k = b.toNat.testBit k) : a = b := by
  refine UInt8.toNat_inj.mp (Nat.eq_of_testBit_eq fun k => ?_)
  by_cases hk : k < 8
  · exact h k hk
  · have hpow : 2 ^ 8 ≤ 2 ^ k := Nat.pow_le_pow_right (by decide) (Nat.le_of_not_lt hk)
    rw [Nat.testBit_lt_two_pow (Nat.lt_of_lt_of_le a.toNat_lt hpow),
      Nat.testBit_lt_two_pow (Nat.lt_of_lt_of_le b.toNat_lt hpow)]

/-- A receiver makes one thing of a line. -/
theorem Decodes.unique {line : Nat → Bool} {d t : Nat} {as bs : List UInt8}
    (ha : Decodes line d t as) (hb : Decodes line d t bs) : as = bs := by
  induction ha generalizing bs with
  | idle high =>
    cases hb with
    | idle => rfl
    | frame later _ low => cases (high _ later).symm.trans low
  | @frame t s byte bytes later high low start data stop rest ih =>
    cases hb with
    | idle high' => cases (high' _ later).symm.trans low
    | @frame _ s' byte' bytes' later' high' low' start' data' stop' rest' =>
      have hs : s = s' := by
        rcases Nat.lt_trichotomy s s' with hlt | heq | hgt
        · cases (high' s later hlt).symm.trans low
        · exact heq
        · cases (high s' later' hgt).symm.trans low'
      subst hs
      rw [ih rest', byte_eq_of_testBit fun k hk => (data k hk).symm.trans (data' k hk)]

/-- To be understood in one way is to be understood. -/
theorem decodes_only_iff {line : Nat → Bool} {d t : Nat} {bytes : List UInt8} :
    (∀ received, Decodes line d t received ↔ received = bytes) ↔ Decodes line d t bytes :=
  ⟨fun h => (h bytes).mpr rfl, fun h _ => ⟨fun h' => h'.unique h, fun heq => heq ▸ h⟩⟩

/-- What a receiver makes of a line does not depend on when the clock was set. -/
theorem Decodes.shift {line : Nat → Bool} {d t : Nat} {bytes : List UInt8} (n : Nat)
    (h : Decodes (fun u => line (n + u)) d t bytes) : Decodes line d (n + t) bytes := by
  induction h with
  | idle high =>
    refine .idle fun u hu => ?_
    have := high (u - n) (by omega)
    rwa [Nat.add_sub_of_le (by omega)] at this
  | @frame t s byte bytes later high low start data stop rest ih =>
    refine .frame (s := n + s) (Nat.add_le_add_left later n) (fun u hu hlt => ?_) low ?_
      (fun k hk => ?_) ?_ ?_
    · have := high (u - n) (by omega) (by omega)
      rwa [Nat.add_sub_of_le (by omega)] at this
    · rwa [Nat.add_assoc]
    · rw [Nat.add_assoc]
      exact data k hk
    · rwa [Nat.add_assoc]
    · rwa [Nat.add_assoc]

/-! ## The sender -/

/-- One level for a time. -/
def cell (n : Nat) (high : Bool) : List LineAct := [.level high, .wait n]

/-- The bits of a byte, the least significant first. -/
def bits (byte : UInt8) : List Bool := (List.range 8).map byte.toNat.testBit

/-- A byte in cells of `d` units, and a stop bit of `stop`. -/
def frame (d stop : Nat) (byte : UInt8) : List LineAct :=
  (false :: bits byte).flatMap (cell d) ++ cell stop true

theorem wave_cell (n : Nat) (high before : Bool) (acts : List LineAct) (t : Nat) :
    wave (cell n high ++ acts) before t = if t < 2 * n then high else wave acts high (t - 2 * n) :=
  rfl

/-- The line after cells of one length. -/
theorem wave_cells_add (d : Nat) (levels : List Bool) (acts : List LineAct) (before : Bool)
    (t : Nat) : wave (levels.flatMap (cell d) ++ acts) before (2 * d * levels.length + t) =
      wave acts (levels.getLastD before) t := by
  induction levels generalizing before with
  | nil => rw [List.length_nil, Nat.mul_zero, Nat.zero_add]; rfl
  | cons high levels ih =>
    have hlength : 2 * d * (high :: levels).length + t =
        2 * d + (2 * d * levels.length + t) := by
      rw [List.length_cons, Nat.mul_succ]
      omega
    rw [List.flatMap_cons, List.append_assoc, wave_cell, hlength, if_neg (by omega),
      Nat.add_sub_cancel_left, ih, List.getLastD_cons]

/-- The line within one of the cells. -/
theorem wave_cells_getElem (d : Nat) (levels : List Bool) (acts : List LineAct) (before : Bool)
    {k r : Nat} (hk : k < levels.length) (hr : r < 2 * d) :
    wave (levels.flatMap (cell d) ++ acts) before (2 * d * k + r) = levels[k] := by
  induction levels generalizing before k with
  | nil => exact absurd hk (Nat.not_lt_zero k)
  | cons high levels ih =>
    rw [List.flatMap_cons, List.append_assoc, wave_cell]
    cases k with
    | zero => rw [Nat.mul_zero, Nat.zero_add, if_pos hr, List.getElem_cons_zero]
    | succ k =>
      have hnext : 2 * d * (k + 1) + r = 2 * d + (2 * d * k + r) := by
        rw [Nat.mul_succ]
        omega
      rw [hnext, if_neg (by omega), Nat.add_sub_cancel_left, ih high (Nat.lt_of_succ_lt_succ hk),
        List.getElem_cons_succ]

/-! ## Frames -/

theorem lastLevel_append (acts acts' : List LineAct) (high : Bool) :
    lastLevel (acts ++ acts') high = lastLevel acts' (lastLevel acts high) := by
  induction acts generalizing high with
  | nil => rfl
  | cons act acts ih => cases act <;> exact ih _

/-- Frames leave the line high. -/
theorem lastLevel_frames (d stop : Nat) (bytes : List UInt8) :
    lastLevel (bytes.flatMap (frame d stop)) true = true := by
  induction bytes with
  | nil => rfl
  | cons byte bytes ih =>
    rw [List.flatMap_cons, lastLevel_append, frame, lastLevel_append]
    exact ih

theorem length_levels (byte : UInt8) : (false :: bits byte).length = 9 := by
  rw [List.length_cons, bits, List.length_map, List.length_range]

/-- The line in the start bit and in the bits of a frame. -/
theorem wave_frame_getElem (d stop : Nat) (byte : UInt8) (acts : List LineAct) (before : Bool)
    {k r : Nat} (hk : k < (false :: bits byte).length) (hr : r < 2 * d) :
    wave (frame d stop byte ++ acts) before (2 * d * k + r) = (false :: bits byte)[k] := by
  rw [frame, List.append_assoc]
  exact wave_cells_getElem d _ _ before hk hr

/-- The line in the stop bit of a frame and behind it. -/
theorem wave_frame_stop (d stop : Nat) (byte : UInt8) (acts : List LineAct) (before : Bool)
    (t : Nat) : wave (frame d stop byte ++ acts) before (2 * d * 9 + t) =
      if t < 2 * stop then true else wave acts true (t - 2 * stop) := by
  rw [frame, List.append_assoc, ← length_levels byte, wave_cells_add, wave_cell]

/-- A receiver that waits longer for the start bit makes the same of the line. -/
theorem Decodes.wait {line : Nat → Bool} {d a b : Nat} {bytes : List UInt8} (hab : a ≤ b)
    (high : ∀ u, a ≤ u → u < b → line u = true) (h : Decodes line d b bytes) :
    Decodes line d a bytes := by
  have hjoin : ∀ s u, (b ≤ u → u < s → line u = true) → a ≤ u → u < s → line u = true := by
    intro s u hlate hu hs
    rcases Nat.lt_or_ge u b with hub | hub
    · exact high u hu hub
    · exact hlate hub hs
  cases h with
  | idle high' => exact .idle fun u hu => hjoin (u + 1) u (fun h _ => high' u h) hu u.lt_succ_self
  | @frame _ s byte bytes later high' low start data stop rest =>
    exact .frame (Nat.le_trans hab later) (fun u hu hs => hjoin s u (high' u) hu hs) low start data
      stop rest

/-- **Frames are understood** when the stop bits last for more than half a cell. -/
theorem decodes_frames {d stop : Nat} (hd : 0 < d) (hstop : d < 2 * stop) (bytes : List UInt8) :
    Decodes (wave (bytes.flatMap (frame d stop)) true) d 0 bytes := by
  induction bytes with
  | nil => exact .idle fun u _ => rfl
  | cons byte bytes ih =>
    have hsample : ∀ k, (hk : k < (false :: bits byte).length) →
        wave (frame d stop byte ++ bytes.flatMap (frame d stop)) true (2 * d * k + d) =
          (false :: bits byte)[k] := fun k hk =>
      wave_frame_getElem d stop byte _ true hk (by omega)
    have hlength := length_levels byte
    rw [List.flatMap_cons]
    refine .frame (s := 0) (Nat.le_refl 0) (fun u _ hu => absurd hu (Nat.not_lt_zero u)) ?_ ?_
      (fun k hk => ?_) ?_ ?_
    · exact wave_frame_getElem d stop byte _ true (k := 0) (r := 0) (by omega) (by omega)
    · have hstart := hsample 0 (by omega)
      rwa [Nat.mul_zero] at hstart
    · have hmid : 0 + d * (2 * k + 3) = 2 * d * (k + 1) + d := by ring
      rw [hmid, hsample (k + 1) (by omega), List.getElem_cons_succ]
      unfold bits
      rw [List.getElem_map, List.getElem_range]
    · have hmid : 0 + d * 19 = 2 * d * 9 + d := by ring
      rw [hmid, wave_frame_stop, if_pos hstop]
    · -- the rest of the stop bit, and then the frames that follow
      refine Decodes.wait (b := 2 * d * 9 + 2 * stop) (by omega) (fun u hu hlt => ?_) ?_
      · obtain ⟨t, rfl⟩ : ∃ t, u = 2 * d * 9 + t := ⟨u - 2 * d * 9, by omega⟩
        rw [wave_frame_stop, if_pos (by omega)]
      · have hrest : (fun u => wave (frame d stop byte ++ bytes.flatMap (frame d stop)) true
            (2 * d * 9 + 2 * stop + u)) = wave (bytes.flatMap (frame d stop)) true := by
          funext u
          rw [Nat.add_assoc, wave_frame_stop, if_neg (by omega), Nat.add_sub_cancel_left]
        rw [← hrest] at ih
        exact ih.shift (2 * d * 9 + 2 * stop)

/-- **Frames are understood exactly** when the stop bits last for more than half a cell:
otherwise the next start bit is where the first stop bit is looked at. -/
theorem decodes_frames_iff {d stop : Nat} (hd : 0 < d) (first second : UInt8)
    (bytes : List UInt8) :
    Decodes (wave ((first :: second :: bytes).flatMap (frame d stop)) true) d 0
      (first :: second :: bytes) ↔ d < 2 * stop := by
  refine ⟨fun h => Nat.lt_of_not_le fun hshort => ?_, fun hstop => decodes_frames hd hstop _⟩
  have hlow : ∀ byte acts before r, r < 2 * d →
      wave (frame d stop byte ++ acts) before r = false := by
    intro byte acts before r hr
    have hlength := length_levels byte
    have hstart := wave_frame_getElem d stop byte acts before (k := 0) (by omega) hr
    rwa [Nat.mul_zero, Nat.zero_add] at hstart
  rw [List.flatMap_cons, List.flatMap_cons] at h
  cases h with
  | @frame _ s _ _ later high low start data stop' rest =>
    have hs : s = 0 := Nat.eq_zero_of_not_pos fun hpos => by
      have := high 0 (Nat.le_refl 0) hpos
      rw [hlow _ _ _ _ (by omega)] at this
      cases this
    have hmid : s + d * 19 = 2 * d * 9 + d := by
      rw [hs]
      ring
    rw [hmid, wave_frame_stop, if_neg (by omega), hlow _ _ _ _ (by omega)] at stop'
    cases stop'

end Lidbg.Machine
