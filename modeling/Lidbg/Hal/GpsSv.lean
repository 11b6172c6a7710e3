import Lidbg.Hal.GpsUblox
import Lidbg.Machine.CStr
import Lidbg.Machine.Loop

/-!
# Satellites in view (`hal/gpslib/gps_ublox.c`)

GSV sentences come in groups. `nmea_reader_parse_gsv` puts the satellites of a
group one behind the other into `sv_list`, and sets their bits in two masks; the
first sentence of a group starts at the front again. GSA sentences set bits of the
satellites in use. Numbers are read by `str2int`, and those of a GSV sentence are
taken as they are.

- `storeSatellites_isSome_iff` has the satellites of one sentence.
- `parse_isSome_iff` has one sentence, whatever it is.
- `sv_kept_iff` carries it through a run of sentences: table and shifts are kept
  to exactly if each GSV sentence has only satellites 1..32, for which there is
  room behind those of its group.

The numbers with a fraction are of any type, as `strtod` reads them.
-/

namespace Lidbg.GpsUblox

open Machine

/-! ## Tokens -/

/-- `','`. -/
abbrev comma : UInt8 := 44

/-- `MAX_NMEA_TOKENS`. -/
abbrev maxNmeaTokens : Nat := 32

/-- A trailing newline, and a carriage return before it. -/
def dropNewline (text : List UInt8) : List UInt8 :=
  if text.getLast? = some newline then
    if text.dropLast.getLast? = some 13 then text.dropLast.dropLast else text.dropLast
  else text

/-- The checksum at the end of a sentence, behind `'*'`. -/
def dropChecksum (text : List UInt8) : List UInt8 :=
  if 3 ≤ text.length ∧ text[text.length - 3]? = some 42 then text.take (text.length - 3) else text

/-- The loop of `nmea_tokenizer_init`: it ends behind the last comma. -/
def tokensOf (text : List UInt8) : List (List UInt8) :=
  let pieces := text.splitOn comma
  if pieces.getLast? = some [] then pieces.dropLast else pieces

/-- `nmea_tokenizer_init`. -/
def nmeaTokenizerInit (text : List UInt8) : List (List UInt8) :=
  let text := if text.head? = some 36 then text.drop 1 else text
  (tokensOf (dropChecksum (dropNewline text))).take maxNmeaTokens

/-- `nmea_tokenizer_get`. -/
def nmeaTokenizerGet (t : List (List UInt8)) (index : Nat) : List UInt8 :=
  t.getD index []

/-- The loop of `str2int`; the `int` wraps. -/
def str2intFrom (result : Int32) : List UInt8 → Int32
  | [] => result
  | c :: s =>
    if 48 ≤ c ∧ c ≤ 57 then str2intFrom (result * 10 + Int32.ofNat (c.toNat - 48)) s else -1

/-- `str2int`. -/
def str2int (s : List UInt8) : Int32 :=
  str2intFrom 0 s

/-- What a `double` is here. -/
structure Floats (F : Type) where
  zero : F
  strtod : List UInt8 → F

variable {F : Type}

/-- `str2float`. -/
def str2float (fl : Floats F) (s : List UInt8) : F :=
  if 16 ≤ s.length then fl.zero else fl.strtod s

/-! ## The reader -/

/-- `GPS_MAX_SVS` of Android's `hardware/gps.h`. -/
abbrev gpsMaxSvs : Nat := 32

structure GpsSvInfo (F : Type) where
  prn : Int32
  snr : F
  elevation : F
  azimuth : F

structure GpsSvStatus (F : Type) where
  numSvs : Nat
  svList : Vector (GpsSvInfo F) gpsMaxSvs
  ephemerisMask : UInt32
  almanacMask : UInt32
  usedInFixMask : UInt32

/-- `NmeaReader`, as far as it is about satellites, and `cur_sv`; `svStatusCb` is whether
`callbacks` has one. -/
structure SvReader (F : Type) where
  sv : GpsSvStatus F
  fixMask : UInt32
  accuracy : Option F
  curSv : Nat
  svStatusCb : Bool

/-- `nmea_reader_init`. -/
def svReaderInit (fl : Floats F) : SvReader F where
  sv := ⟨0, Vector.replicate _ ⟨0, fl.zero, fl.zero, fl.zero⟩, 0, 0, 0⟩
  fixMask := 0
  accuracy := none
  curSv := 0
  svStatusCb := false

/-- `1 << amount`. -/
def bit (amount : Int32) : Option UInt32 :=
  if 0 ≤ amount ∧ amount < 32 then some (1 <<< amount.toUInt32) else none

/-- `nmea_reader_update_accuracy`. -/
def nmeaReaderUpdateAccuracy (fl : Floats F) (r : SvReader F) (hdop : List UInt8) : SvReader F :=
  if hdop = [] then r else { r with accuracy := some (str2float fl hdop) }

/-- A satellite of a GSA sentence. -/
def useSatellite (r : SvReader F) (tok : List UInt8) : Option (SvReader F) :=
  let prn := str2int tok
  -- the test for 0 behind this one is never met
  if prn ≤ 0 ∨ 32 < prn then some r
  else (bit (prn - 1)).map fun b => { r with fixMask := r.fixMask ||| b }

/-- `nmea_reader_parse_gsa`. -/
def nmeaReaderParseGsa (fl : Floats F) (r : SvReader F) (t : List (List UInt8)) :
    Option (SvReader F) :=
  let r := if 15 < t.length then nmeaReaderUpdateAccuracy fl r (nmeaTokenizerGet t 15) else r
  (t.drop 3).foldlM useSatellite r

/-- A satellite of a GSV sentence, from its token `i` on. -/
def storeSatellite (fl : Floats F) (t : List (List UInt8)) (r : SvReader F) (i : Nat) :
    Option (SvReader F) := do
  let svInfo := {
    prn := str2int (nmeaTokenizerGet t i)
    snr := str2float fl (nmeaTokenizerGet t (i + 3))
    elevation := str2float fl (nmeaTokenizerGet t (i + 1))
    azimuth := str2float fl (nmeaTokenizerGet t (i + 2)) }
  -- the tests of `prn` and `snr` are commented out in the source
  if h : r.curSv < gpsMaxSvs then
    let ephemeris ← bit (svInfo.prn - 1)
    let almanac ← bit (svInfo.prn - 1)
    some { r with
      sv := { r.sv with
        svList := r.sv.svList.set r.curSv svInfo h
        ephemerisMask := r.sv.ephemerisMask ||| ephemeris
        almanacMask := r.sv.almanacMask ||| almanac }
      curSv := r.curSv + 1 }
  else none

/-- `for (i = 4; i < t->count; i += 4)`. -/
def satelliteTokens (t : List (List UInt8)) : List Nat :=
  List.range' 4 ((t.length - 1) / 4) 4

/-- The first sentence of a group. -/
def startGroup (r : SvReader F) (which : Int32) : SvReader F :=
  if which = 1 then { r with curSv := 0, sv := { r.sv with ephemerisMask := 0, almanacMask := 0 } }
  else r

/-- The last sentence of a group, and what `sv_status_cb` gets if there is one. -/
def commitGroup (r : SvReader F) (num which : Int32) : SvReader F × List (GpsSvStatus F) :=
  if num = which then
    let sv := { r.sv with numSvs := r.curSv, usedInFixMask := r.fixMask }
    ({ r with sv := sv, fixMask := 0 }, if r.svStatusCb then [sv] else [])
  else (r, [])

/-- `nmea_reader_parse_gsv`. -/
def nmeaReaderParseGsv (fl : Floats F) (r : SvReader F) (t : List (List UInt8)) :
    Option (SvReader F × List (GpsSvStatus F)) :=
  let num := str2int (nmeaTokenizerGet t 1)
  let which := str2int (nmeaTokenizerGet t 2)
  ((satelliteTokens t).foldlM (storeSatellite fl t) (startGroup r which)).map fun r =>
    commitGroup r num which

/-- The sentence that a text is, by the three letters behind the talker. -/
def sentenceId (text : List UInt8) : Option (List UInt8) :=
  let tok := nmeaTokenizerGet (nmeaTokenizerInit text) 0
  if text.length < 9 ∨ tok.length < 5 then none else some ((tok.drop 2).take 3)

/-- `nmea_reader_parse`, for the sentences about satellites. -/
def nmeaReaderParse (fl : Floats F) : Step (SvReader F) (List UInt8) (GpsSvStatus F) :=
  fun r text =>
  if sentenceId text = some (ascii "GSA") then
    (nmeaReaderParseGsa fl r (nmeaTokenizerInit text)).map fun r => (r, [])
  else if sentenceId text = some (ascii "GSV") then
    nmeaReaderParseGsv fl r (nmeaTokenizerInit text)
  else some (r, [])

/-! ## One sentence -/

/-- The number of a satellite that has a bit in the masks. -/
def IsPrn (prn : Int32) : Prop :=
  0 < prn ∧ prn ≤ 32

/-- A shift is defined exactly for the number of a satellite. -/
theorem bit_isSome_iff (prn : Int32) : (bit (prn - 1)).isSome ↔ IsPrn prn := by
  have hlt := prn.toInt_lt
  have hle := prn.le_toInt
  have hsub : (prn - 1).toInt = (prn.toInt - 1).bmod (2 ^ 32) := Int32.toInt_sub prn 1
  rw [Int.bmod_def] at hsub
  have hbit : (bit (prn - 1)).isSome ↔ 0 ≤ prn - 1 ∧ prn - 1 < 32 := by
    unfold bit
    split_ifs with h
    · exact iff_of_true rfl h
    · exact iff_of_false Bool.false_ne_true h
  rw [hbit, IsPrn]
  simp only [Int32.le_iff_toInt_le, Int32.lt_iff_toInt_lt]
  show 0 ≤ (prn - 1).toInt ∧ (prn - 1).toInt < 32 ↔ 0 < prn.toInt ∧ prn.toInt ≤ 32
  omega

/-- **A GSA sentence** looks at the number first. -/
theorem parseGsa_isSome (fl : Floats F) (r : SvReader F) (t : List (List UInt8)) :
    (nmeaReaderParseGsa fl r t).isSome := by
  refine (isSome_foldlM (P := fun _ => True) (fun r tok => ?_) _ _).mpr fun _ _ => trivial
  unfold useSatellite
  refine iff_of_true ?_ trivial
  dsimp only
  split_ifs with h
  · rfl
  · rw [not_or, Int32.not_le, Int32.not_lt] at h
    rw [Option.isSome_map, bit_isSome_iff]
    exact h

/-- A satellite is stored exactly if there is room and its number has a bit. -/
theorem storeSatellite_isSome_iff (fl : Floats F) (t : List (List UInt8)) (r : SvReader F)
    (i : Nat) : (storeSatellite fl t r i).isSome ↔
      r.curSv < gpsMaxSvs ∧ IsPrn (str2int (nmeaTokenizerGet t i)) := by
  rw [← bit_isSome_iff]
  unfold storeSatellite
  dsimp only
  split_ifs with hroom
  · cases bit (str2int (nmeaTokenizerGet t i) - 1) with
    | none => simp
    | some b => simp [hroom]
  · exact iff_of_false Bool.false_ne_true fun h => hroom h.1

/-- It takes the next place in the table. -/
theorem storeSatellite_curSv {fl : Floats F} {t : List (List UInt8)} {r r' : SvReader F} {i : Nat}
    (h : storeSatellite fl t r i = some r') : r'.curSv = r.curSv + 1 := by
  unfold storeSatellite at h
  dsimp only at h
  split_ifs at h
  cases hb : bit (str2int (nmeaTokenizerGet t i) - 1) with
  | none => rw [hb] at h; cases h
  | some b => rw [hb] at h; cases h; rfl

/-- **The satellites of a sentence** are behind those before them, as far as there is
room. -/
theorem storeSatellites_isSome_iff (fl : Floats F) (t : List (List UInt8)) (l : List Nat)
    {r : SvReader F} (hr : r.curSv ≤ gpsMaxSvs) :
    (l.foldlM (storeSatellite fl t) r).isSome ↔
      r.curSv + l.length ≤ gpsMaxSvs ∧ ∀ i ∈ l, IsPrn (str2int (nmeaTokenizerGet t i)) := by
  -- each satellite takes the next entry, so the room shrinks by one a turn
  induction l generalizing r with
  | nil => simpa using hr
  | cons i l ih =>
    rw [List.foldlM_cons, List.length_cons, List.forall_mem_cons]
    have hone := storeSatellite_isSome_iff fl t r i
    cases hs : storeSatellite fl t r i with
    | none =>
      rw [hs] at hone
      refine iff_of_false Bool.false_ne_true fun h => ?_
      exact Bool.false_ne_true (hone.mpr ⟨by omega, h.2.1⟩)
    | some r' =>
      rw [hs] at hone
      obtain ⟨hroom, hprn⟩ := hone.mp rfl
      have hcur := storeSatellite_curSv hs
      rw [Option.bind_eq_bind, Option.bind_some, ih (by omega), hcur]
      constructor
      · rintro ⟨hlen, hall⟩
        exact ⟨by omega, hprn, hall⟩
      · rintro ⟨hlen, -, hall⟩
        exact ⟨by omega, hall⟩

/-- Those of a sentence take as many places as they are. -/
theorem storeSatellites_curSv {fl : Floats F} {t : List (List UInt8)} {l : List Nat}
    {r r' : SvReader F} (h : l.foldlM (storeSatellite fl t) r = some r') :
    r'.curSv = r.curSv + l.length := by
  induction l generalizing r with
  | nil =>
    cases h
    rfl
  | cons i l ih =>
    rw [List.foldlM_cons, Option.bind_eq_bind, Option.bind_eq_some_iff] at h
    obtain ⟨r₁, hs, hl⟩ := h
    have hcur := storeSatellite_curSv hs
    rw [ih hl, hcur, List.length_cons]
    omega

/-- A first sentence begins at the first place. -/
theorem startGroup_curSv (r : SvReader F) (which : Int32) :
    (startGroup r which).curSv = if which = 1 then 0 else r.curSv := by
  unfold startGroup
  split_ifs <;> rfl

/-- A GSV sentence has only satellites of the masks, and there is room for them
behind `curSv` others of its group. -/
def GsvFits (curSv : Nat) (t : List (List UInt8)) : Prop :=
  (if str2int (nmeaTokenizerGet t 2) = 1 then 0 else curSv) + (satelliteTokens t).length ≤
      gpsMaxSvs ∧
    ∀ i ∈ satelliteTokens t, IsPrn (str2int (nmeaTokenizerGet t i))

/-- Starting a group never leaves the table. -/
theorem startGroup_le {r : SvReader F} (hr : r.curSv ≤ gpsMaxSvs) (which : Int32) :
    (startGroup r which).curSv ≤ gpsMaxSvs := by
  rw [startGroup_curSv]
  split_ifs
  · exact Nat.zero_le _
  · exact hr

/-- A GSV sentence is stored exactly if it fits. -/
theorem parseGsv_isSome_iff (fl : Floats F) {r : SvReader F} (hr : r.curSv ≤ gpsMaxSvs)
    (t : List (List UInt8)) : (nmeaReaderParseGsv fl r t).isSome ↔ GsvFits r.curSv t := by
  unfold nmeaReaderParseGsv GsvFits
  dsimp only
  rw [Option.isSome_map, storeSatellites_isSome_iff fl t _ (startGroup_le hr _), startGroup_curSv]

/-- A report leaves the place. -/
theorem commitGroup_curSv (r : SvReader F) (num which : Int32) :
    (commitGroup r num which).1.curSv = r.curSv := by
  unfold commitGroup
  split_ifs <;> rfl

/-- A satellite in use leaves the place. -/
theorem useSatellite_curSv {r r' : SvReader F} {tok : List UInt8}
    (h : useSatellite r tok = some r') : r'.curSv = r.curSv := by
  unfold useSatellite at h
  dsimp only at h
  split_ifs at h
  · cases h
    rfl
  · obtain ⟨b, -, rfl⟩ := Option.map_eq_some_iff.mp h
    rfl

/-! ## Runs -/

/-- A sentence fits, if it is a GSV sentence. -/
def SentenceFits (r : SvReader F) (text : List UInt8) : Prop :=
  sentenceId text = some (ascii "GSV") → GsvFits r.curSv (nmeaTokenizerInit text)

/-- A sentence of any kind is dealt with exactly if it fits. -/
theorem parse_isSome_iff (fl : Floats F) {r : SvReader F} (hr : r.curSv ≤ gpsMaxSvs)
    (text : List UInt8) : (nmeaReaderParse fl r text).isSome ↔ SentenceFits r text := by
  unfold nmeaReaderParse SentenceFits
  split_ifs with hgsa hgsv
  · have hother : sentenceId text ≠ some (ascii "GSV") := by
      rw [hgsa]
      decide
    rw [Option.isSome_map]
    exact iff_of_true (parseGsa_isSome fl r _) fun h => absurd h hother
  · rw [parseGsv_isSome_iff fl hr]
    exact ⟨fun h _ => h, fun h => h hgsv⟩
  · exact iff_of_true rfl fun h => absurd h hgsv

/-- A GSA sentence leaves the place. -/
theorem parseGsa_curSv {fl : Floats F} {r r' : SvReader F} {t : List (List UInt8)}
    (h : nmeaReaderParseGsa fl r t = some r') : r'.curSv = r.curSv := by
  refine foldlM_preserves (I := fun r' : SvReader F => r'.curSv = r.curSv)
    (fun r₁ tok r₂ hr₁ hs => (useSatellite_curSv hs).trans hr₁) ?_ h
  unfold nmeaReaderUpdateAccuracy
  split_ifs <;> rfl

/-- A sentence leaves no more in the table than there is room for. -/
theorem parse_curSv_le {fl : Floats F} {r r' : SvReader F} {text : List UInt8}
    {o : List (GpsSvStatus F)} (hr : r.curSv ≤ gpsMaxSvs)
    (h : nmeaReaderParse fl r text = some (r', o)) : r'.curSv ≤ gpsMaxSvs := by
  have hfits := (parse_isSome_iff fl hr text).mp (by rw [h]; rfl)
  unfold nmeaReaderParse at h
  split_ifs at h with hgsa hgsv
  · obtain ⟨r₁, hparse, hr₁⟩ := Option.map_eq_some_iff.mp h
    cases hr₁
    exact (parseGsa_curSv hparse).trans_le hr
  · obtain ⟨r₁, hstore, hr₁⟩ := Option.map_eq_some_iff.mp h
    have hcur := storeSatellites_curSv hstore
    have hroom := (hfits hgsv).1
    rw [← startGroup_curSv, ← hcur, ← commitGroup_curSv, hr₁] at hroom
    exact hroom
  · cases h
    exact hr

/-- A satellite that is stored leaves the callback. -/
theorem storeSatellite_svStatusCb {fl : Floats F} {t : List (List UInt8)} {r r' : SvReader F}
    {i : Nat} (h : storeSatellite fl t r i = some r') : r'.svStatusCb = r.svStatusCb := by
  unfold storeSatellite at h
  dsimp only at h
  split_ifs at h
  cases hb : bit (str2int (nmeaTokenizerGet t i) - 1) with
  | none => rw [hb] at h; cases h
  | some b => rw [hb] at h; cases h; rfl

/-- So does one in use. -/
theorem useSatellite_svStatusCb {r r' : SvReader F} {tok : List UInt8}
    (h : useSatellite r tok = some r') : r'.svStatusCb = r.svStatusCb := by
  unfold useSatellite at h
  dsimp only at h
  split_ifs at h
  · cases h
    rfl
  · obtain ⟨b, -, rfl⟩ := Option.map_eq_some_iff.mp h
    rfl

/-- No sentence takes the callback away, or gives one. -/
theorem parse_svStatusCb {fl : Floats F} {r r' : SvReader F} {text : List UInt8}
    {o : List (GpsSvStatus F)} (h : nmeaReaderParse fl r text = some (r', o)) :
    r'.svStatusCb = r.svStatusCb := by
  unfold nmeaReaderParse at h
  split_ifs at h
  · obtain ⟨r₁, hparse, hr₁⟩ := Option.map_eq_some_iff.mp h
    cases hr₁
    refine foldlM_preserves (I := fun r' : SvReader F => r'.svStatusCb = r.svStatusCb)
      (fun r₁ tok r₂ hr₁ hs => (useSatellite_svStatusCb hs).trans hr₁) ?_ hparse
    unfold nmeaReaderUpdateAccuracy
    split_ifs <;> rfl
  · obtain ⟨r₁, hstore, hr₁⟩ := Option.map_eq_some_iff.mp h
    have hkept : r₁.svStatusCb = r.svStatusCb := by
      refine foldlM_preserves (I := fun r' : SvReader F => r'.svStatusCb = r.svStatusCb)
        (fun r₁ i r₂ hr₁ hs => (storeSatellite_svStatusCb hs).trans hr₁) ?_ hstore
      unfold startGroup
      split_ifs <;> rfl
    have hcommit (num which : Int32) : (commitGroup r₁ num which).1.svStatusCb = r₁.svStatusCb := by
      unfold commitGroup
      split_ifs <;> rfl
    rw [← hkept, ← hcommit, hr₁]
  · cases h
    rfl

/-- **The table and the masks are kept to** in a run of sentences exactly if every
GSV sentence of it fits. -/
theorem sv_kept_iff (fl : Floats F) (texts : List (List UInt8)) :
    (run (nmeaReaderParse fl) (svReaderInit fl) texts).isSome ↔
      StepsMeet (nmeaReaderParse fl) (fun _ _ r text => SentenceFits r text) (svReaderInit fl)
        texts :=
  run_isSome_iff (I := fun r => r.curSv ≤ gpsMaxSvs) (fun _ _ _ _ => parse_curSv_le)
    (fun _ text hr => parse_isSome_iff fl hr text) (Nat.zero_le _) texts

/-- Nothing but zeros. -/
def zeroFloats : Floats Int := ⟨0, fun _ => 0⟩

/-- A satellite without a number; and five sentences of seven satellites each, none
of which starts a group. -/
theorem sv_misused :
    ¬ (run (nmeaReaderParse zeroFloats) (svReaderInit zeroFloats)
      [ascii "$GPGSV,1,1,01,,05,029,067\n"]).isSome ∧
    ¬ (run (nmeaReaderParse zeroFloats) (svReaderInit zeroFloats)
      (List.replicate 5
        (ascii "$GPGSV,9,2,28,1,,,,2,,,,3,,,,4,,,,5,,,,6,,,,7,,,,\n"))).isSome := by
  decide

end Lidbg.GpsUblox
