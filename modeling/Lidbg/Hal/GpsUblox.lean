import Lidbg.Machine.Run
import Mathlib.Data.List.TakeWhile

/-!
# NMEA lines (`hal/gpslib/gps_ublox.c`)

`nmea_reader_addc` collects the bytes of a line and hands it to
`nmea_reader_parse` at its newline. A line that does not fit is to be dropped,
up to its newline; but the byte that finds the buffer full is dropped before it
is looked at, and when it is the newline itself the reader goes on dropping
through the next line.

- `run_line` says what one line does, with and without a drop under way.
- `handsOver_snoc` and `run_lines` carry it through a stream of lines.
- `addc_iff`: what is handed over are the lines that fit exactly when none of
  them follows an odd run of lines one byte too long.
-/

namespace Lidbg.GpsUblox

open Machine

/-- `NMEA_MAX_SIZE`. -/
abbrev nmeaMaxSize : Nat := 83

/-- `'\n'`. -/
abbrev newline : UInt8 := 10

/-- `NmeaReader`, as far as it collects lines. -/
structure NmeaReader where
  pos : Nat
  overflow : Bool
  inBuf : Vector UInt8 (nmeaMaxSize + 1)

/-- `nmea_reader_init`. -/
def nmeaReaderInit : NmeaReader := ⟨0, false, Vector.replicate _ 0⟩

/-- `nmea_reader_addc`, observed by what `nmea_reader_parse` gets: the bytes of
`in` before `pos`. -/
def nmeaReaderAddc : Step NmeaReader UInt8 (List UInt8) := fun r c =>
  if r.overflow then some ({ r with overflow := c ≠ newline }, [])
  else if h : nmeaMaxSize ≤ r.pos then some ({ r with overflow := true, pos := 0 }, [])
  else
    let r := { r with inBuf := r.inBuf.set r.pos c (by omega), pos := r.pos + 1 }
    if c = newline then some ({ r with pos := 0 }, [r.inBuf.toList.take r.pos])
    else some (r, [])

/-! ## Lines -/

/-- A line without its newline. -/
structure Line where
  body : List UInt8
  newline_notMem : newline ∉ body

/-- The bytes of a line, newline included. -/
def Line.bytes (l : Line) : List UInt8 := l.body ++ [newline]

/-- The line fits. -/
def Line.fits (l : Line) : Bool := l.bytes.length ≤ nmeaMaxSize

/-- The line is one byte too long: its newline finds the buffer full. -/
def Line.oneOver (l : Line) : Bool := l.bytes.length = nmeaMaxSize + 1

/-- How many of the last lines, one after the other, are one byte too long. -/
def oneOverRun (lines : List Line) : Nat := (lines.reverse.takeWhile Line.oneOver).length

/-- A drop is under way after these lines: the run is odd. -/
def dropping (lines : List Line) : Bool := oneOverRun lines % 2 = 1

/-- The lines that fit. -/
def fitting (lines : List Line) : List (List UInt8) := (lines.filter Line.fits).map Line.bytes

theorem oneOverRun_snoc (lines : List Line) (l : Line) :
    oneOverRun (lines ++ [l]) = if l.oneOver then oneOverRun lines + 1 else 0 := by
  rw [oneOverRun, List.reverse_append, List.reverse_singleton, List.singleton_append,
    List.takeWhile_cons]
  split <;> rfl

theorem dropping_snoc (lines : List Line) (l : Line) :
    dropping (lines ++ [l]) = (!dropping lines && l.oneOver) := by
  rw [dropping, dropping, oneOverRun_snoc]
  cases l.oneOver with
  | false => simp
  | true =>
    rcases Nat.mod_two_eq_zero_or_one (oneOverRun lines) with h | h
    · simp [h]
      omega
    · simp [h]
      omega

theorem fitting_snoc (lines : List Line) (l : Line) :
    fitting (lines ++ [l]) = fitting lines ++ if l.fits then [l.bytes] else [] := by
  rw [fitting, List.filter_append, List.map_append, List.filter_singleton]
  cases l.fits <;> rfl

/-! ## One line -/

/-- Between lines. -/
structure Rests (r : NmeaReader) (overflow : Bool) : Prop where
  pos : r.pos = 0
  overflow : r.overflow = overflow

/-- One more entry stored behind the first `pos`. -/
theorem take_set_succ {α : Type} {n pos : Nat} (v : Vector α n) (c : α) (h : pos < n) :
    (v.set pos c h).toList.take (pos + 1) = v.toList.take pos ++ [c] := by
  have hlen : pos < v.toList.length := by rwa [Vector.length_toList]
  rw [Vector.toList_set, List.take_set, List.take_add_one, List.getElem?_eq_getElem hlen,
    List.set_append_right _ _ (by rw [List.length_take]; omega), List.length_take_of_le hlen.le,
    Nat.sub_self]
  rfl

/-- Bytes before a newline are collected as long as there is room. -/
theorem run_collect {s : List UInt8} (hs : newline ∉ s) {r : NmeaReader}
    (hover : r.overflow = false) (hroom : r.pos + s.length ≤ nmeaMaxSize) :
    ∃ inBuf, run nmeaReaderAddc r s = some (⟨r.pos + s.length, false, inBuf⟩, []) ∧
      inBuf.toList.take (r.pos + s.length) = r.inBuf.toList.take r.pos ++ s := by
  induction s generalizing r with
  | nil =>
    obtain ⟨pos, overflow, inBuf⟩ := r
    obtain rfl : overflow = false := hover
    exact ⟨inBuf, rfl, (List.append_nil _).symm⟩
  | cons c s ih =>
    rw [List.mem_cons, not_or] at hs
    obtain ⟨hc, hs⟩ := hs
    rw [List.length_cons] at hroom
    have hpos : ¬ nmeaMaxSize ≤ r.pos := by omega
    have hstep : nmeaReaderAddc r c =
        some (⟨r.pos + 1, false, r.inBuf.set r.pos c (by omega)⟩, []) := by
      rw [nmeaReaderAddc, hover, if_neg Bool.false_ne_true, dif_neg hpos]
      exact if_neg (Ne.symm hc)
    obtain ⟨inBuf, hrun, htake⟩ := ih hs (r := ⟨r.pos + 1, false, r.inBuf.set r.pos c (by omega)⟩)
      rfl (by dsimp only; omega)
    rw [List.length_cons, Nat.add_comm s.length, ← Nat.add_assoc]
    refine ⟨inBuf, run_cons_eq hstep hrun, htake.trans ?_⟩
    rw [take_set_succ, List.append_assoc]
    rfl

/-- A drop under way goes on up to the newline. -/
theorem run_drop {s : List UInt8} (hs : newline ∉ s) {r : NmeaReader} (hover : r.overflow = true) :
    run nmeaReaderAddc r (s ++ [newline]) = some ({ r with overflow := false }, []) := by
  induction s generalizing r with
  | nil =>
    have hstep : nmeaReaderAddc r newline = some ({ r with overflow := false }, []) := by
      rw [nmeaReaderAddc, hover]
      rfl
    exact run_singleton hstep
  | cons c s ih =>
    rw [List.mem_cons, not_or] at hs
    obtain ⟨hc, hs⟩ := hs
    have hstep : nmeaReaderAddc r c = some (r, []) := by
      rw [nmeaReaderAddc, hover, if_pos rfl, decide_eq_true (Ne.symm hc), ← hover]
    exact run_cons_eq hstep (ih hs hover)

/-- A byte that finds the buffer full starts a drop, whatever it is. -/
theorem addc_full {r : NmeaReader} (hover : r.overflow = false) (hfull : nmeaMaxSize ≤ r.pos)
    (c : UInt8) :
    nmeaReaderAddc r c = some ({ r with overflow := true, pos := 0 }, []) := by
  rw [nmeaReaderAddc, hover, if_neg Bool.false_ne_true, dif_pos hfull]

/-- The newline of a line that fits hands it over. -/
theorem addc_newline {r : NmeaReader} (hover : r.overflow = false) (hroom : r.pos < nmeaMaxSize) :
    ∃ inBuf, nmeaReaderAddc r newline =
      some (⟨0, false, inBuf⟩, [r.inBuf.toList.take r.pos ++ [newline]]) := by
  refine ⟨r.inBuf.set r.pos newline (by omega), ?_⟩
  rw [nmeaReaderAddc, hover, if_neg Bool.false_ne_true, dif_neg (by omega), if_pos rfl,
    take_set_succ]

section Line

variable {l : Line} {r : NmeaReader}

/-- A line that fits is handed over, whole. -/
theorem run_of_fits (h : Rests r false) (hfits : l.bytes.length ≤ nmeaMaxSize) :
    ∃ r', run nmeaReaderAddc r l.bytes = some (r', [l.bytes]) ∧ Rests r' false := by
  have hlen : l.body.length + 1 ≤ nmeaMaxSize := by rwa [Line.bytes, List.length_append] at hfits
  obtain ⟨inBuf, hrun, htake⟩ := run_collect l.newline_notMem h.overflow (by rw [h.pos]; omega)
  obtain ⟨inBuf', hnl⟩ := addc_newline (r := ⟨r.pos + l.body.length, false, inBuf⟩) rfl
    (by dsimp only; rw [h.pos]; omega)
  refine ⟨⟨0, false, inBuf'⟩, ?_, rfl, rfl⟩
  have hall := run_snoc hrun hnl
  rwa [htake, h.pos, List.take_zero, List.nil_append, List.nil_append] at hall

/-- The newline of a line one byte too long finds the buffer full. -/
theorem run_of_oneOver (h : Rests r false) (hover : l.bytes.length = nmeaMaxSize + 1) :
    ∃ r', run nmeaReaderAddc r l.bytes = some (r', []) ∧ Rests r' true := by
  have hlen : l.body.length = nmeaMaxSize := by
    rw [Line.bytes, List.length_append, List.length_singleton] at hover
    omega
  obtain ⟨inBuf, hrun, -⟩ := run_collect l.newline_notMem h.overflow (by rw [h.pos]; omega)
  exact ⟨⟨0, true, inBuf⟩, run_snoc hrun (addc_full rfl (by dsimp only; omega) newline), rfl, rfl⟩

/-- In a longer line a byte before the newline does, and the line is dropped. -/
theorem run_of_longer (h : Rests r false) (hlong : nmeaMaxSize + 1 < l.bytes.length) :
    ∃ r', run nmeaReaderAddc r l.bytes = some (r', []) ∧ Rests r' false := by
  have hlen : nmeaMaxSize < l.body.length := by
    rw [Line.bytes, List.length_append, List.length_singleton] at hlong
    omega
  have hsplit : l.bytes = l.body.take nmeaMaxSize ++ l.body[nmeaMaxSize] ::
      (l.body.drop (nmeaMaxSize + 1) ++ [newline]) := by
    rw [← List.cons_append, ← List.drop_eq_getElem_cons hlen, ← List.append_assoc,
      List.take_append_drop, Line.bytes]
  have hpre : newline ∉ l.body.take nmeaMaxSize := fun hm =>
    l.newline_notMem (List.mem_of_mem_take hm)
  have hpost : newline ∉ l.body.drop (nmeaMaxSize + 1) := fun hm =>
    l.newline_notMem (List.mem_of_mem_drop hm)
  have htake : (l.body.take nmeaMaxSize).length = nmeaMaxSize := List.length_take_of_le hlen.le
  obtain ⟨inBuf, hrun, -⟩ := run_collect hpre h.overflow (by rw [h.pos, htake]; omega)
  have hfull := addc_full (r := ⟨r.pos + (l.body.take nmeaMaxSize).length, false, inBuf⟩) rfl
    (by dsimp only; omega) l.body[nmeaMaxSize]
  refine ⟨⟨0, false, inBuf⟩, ?_, rfl, rfl⟩
  rw [hsplit]
  exact run_append hrun (run_cons_eq hfull (run_drop hpost rfl))

/-- **One line.** It is handed over if it fits and no drop is under way; a drop
is under way afterwards if there was none and it is one byte too long. -/
theorem run_line (l : Line) {overflow : Bool} (h : Rests r overflow) :
    ∃ r', run nmeaReaderAddc r l.bytes =
        some (r', if !overflow && l.fits then [l.bytes] else []) ∧
      Rests r' (!overflow && l.oneOver) := by
  cases overflow with
  | true => exact ⟨{ r with overflow := false }, run_drop l.newline_notMem h.overflow, h.pos, rfl⟩
  | false =>
    unfold Line.fits Line.oneOver
    rcases Nat.lt_trichotomy l.bytes.length (nmeaMaxSize + 1) with hlt | heq | hgt
    · have hfits : l.bytes.length ≤ nmeaMaxSize := Nat.le_of_lt_succ hlt
      rw [decide_eq_true hfits, decide_eq_false hlt.ne]
      exact run_of_fits h hfits
    · have hfits : ¬ l.bytes.length ≤ nmeaMaxSize := by omega
      rw [decide_eq_false hfits, decide_eq_true heq]
      exact run_of_oneOver h heq
    · have hfits : ¬ l.bytes.length ≤ nmeaMaxSize := by omega
      rw [decide_eq_false hfits, decide_eq_false hgt.ne']
      exact run_of_longer h hgt

end Line

/-! ## Every stream of lines -/

/-- No line that fits follows an odd run of lines one byte too long. -/
def EvenRuns (lines : List Line) : Prop :=
  ∀ pre l, pre ++ [l] <+: lines → l.fits = true → dropping pre = false

theorem evenRuns_nil : EvenRuns [] := by
  intro pre l hpre
  simp at hpre

theorem evenRuns_snoc (lines : List Line) (l : Line) :
    EvenRuns (lines ++ [l]) ↔ EvenRuns lines ∧ (l.fits = true → dropping lines = false) := by
  constructor
  · intro h
    exact ⟨fun pre l' hpre => h pre l' (hpre.trans (List.prefix_append _ _)),
      h lines l List.prefix_rfl⟩
  · rintro ⟨h, hl⟩ pre l' hpre
    rcases List.prefix_concat_iff.mp hpre with heq | hpre
    · obtain ⟨rfl, hl'⟩ := List.append_inj' heq rfl
      rw [List.singleton_inj] at hl'
      exact hl' ▸ hl
    · exact h pre l' hpre

/-- What is handed over is never more than the lines that fit, and is all of them
exactly when no drop hits one. -/
def HandsOver (lines : List Line) (o : List (List UInt8)) : Prop :=
  o.length ≤ (fitting lines).length ∧ (o = fitting lines ↔ EvenRuns lines)

theorem handsOver_snoc {lines : List Line} {o : List (List UInt8)} (h : HandsOver lines o)
    (l : Line) :
    HandsOver (lines ++ [l]) (o ++ if !dropping lines && l.fits then [l.bytes] else []) := by
  obtain ⟨hle, hiff⟩ := h
  rw [HandsOver, fitting_snoc, evenRuns_snoc, ← hiff]
  cases hfits : l.fits with
  | false => simpa using hle
  | true =>
    cases hdrop : dropping lines with
    | false => simpa using hle
    | true =>
      -- the line that fits is missing
      constructor
      · simpa using Nat.le_succ_of_le hle
      · refine iff_of_false (fun heq => ?_) (fun h => nomatch h.2 rfl)
        have hlen := congrArg List.length heq
        simp at hlen
        omega

theorem run_lines (lines : List Line) :
    ∃ r o, run nmeaReaderAddc nmeaReaderInit (lines.flatMap Line.bytes) = some (r, o) ∧
      Rests r (dropping lines) ∧ HandsOver lines o := by
  induction lines using List.reverseRecOn with
  | nil =>
    exact ⟨nmeaReaderInit, [], rfl, ⟨rfl, rfl⟩, Nat.le_refl 0, iff_of_true rfl evenRuns_nil⟩
  | append_singleton lines l ih =>
    obtain ⟨r, o, hrun, hrest, hands⟩ := ih
    obtain ⟨r', hline, hrest'⟩ := run_line l hrest
    refine ⟨r', _, ?_, by rwa [dropping_snoc], handsOver_snoc hands l⟩
    rw [List.flatMap_append, List.flatMap_singleton]
    exact run_append hrun hline

/-- **The reader hands over exactly the lines that fit** exactly when no line
that fits follows an odd run of lines one byte too long. -/
theorem addc_iff (lines : List Line) :
    (run nmeaReaderAddc nmeaReaderInit (lines.flatMap Line.bytes)).map Prod.snd =
        some (fitting lines) ↔
      EvenRuns lines := by
  obtain ⟨r, o, hrun, -, -, hiff⟩ := run_lines lines
  rw [hrun, Option.map_some, Option.some.injEq]
  exact hiff

/-- A line of 83 `A`s and its newline, and a line that fits. -/
def overlong : List Line :=
  [⟨List.replicate nmeaMaxSize 65, by decide⟩, ⟨[36, 71, 80], by decide⟩]

/-- The line after the overlong one is dropped with it. -/
theorem overlong_drops :
    fitting overlong = [[36, 71, 80, 10]] ∧
    (run nmeaReaderAddc nmeaReaderInit (overlong.flatMap Line.bytes)).map Prod.snd = some [] ∧
    (run nmeaReaderAddc nmeaReaderInit (overlong.flatMap Line.bytes)).map Prod.snd ≠
      some (fitting overlong) := by
  refine ⟨?_, ?_, ?_⟩ <;> decide +kernel

end Lidbg.GpsUblox
