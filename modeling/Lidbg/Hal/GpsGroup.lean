import Mathlib.Data.List.Indexes
import Lidbg.Hal.GpsSv
import Lidbg.Machine.Decimal

/-!
# A group of GSV sentences (`hal/gpslib/gps_ublox.c`)

A receiver reports the satellites in view in a group of numbered sentences. Here
they are written as a receiver writes them, put one behind the other as bytes, cut
into reads anywhere and given to `nmea_reader_addc`, with `nmea_reader_parse` behind
it.

- `nmeaTokenizerInit_sentence` has the tokens of a sentence: its fields, but for an
  empty one at the end.
- `foldlM_storeSatellite` has the satellites of one sentence, `parse_gsvSentence` the
  sentence.
- `group_reported`: one report, of the satellites of the group in order, if there is a
  callback for it.
-/

namespace Lidbg.GpsUblox

open Machine

/-! ## What a receiver writes -/

/-- A satellite in view, as the fields of a sentence. -/
structure Satellite where
  prn : Nat
  elevation : List UInt8
  azimuth : List UInt8
  snr : List UInt8

def twoDigits (n : Nat) : List UInt8 := [digit (n / 10), digit (n % 10)]

def Satellite.fields (s : Satellite) : List (List UInt8) :=
  [twoDigits s.prn, s.elevation, s.azimuth, s.snr]

/-- A sentence of the group: its satellites and the two characters of its
checksum. -/
structure GsvPart where
  sats : List Satellite
  checksum : UInt8 × UInt8

/-- The fields of sentence `which` of `num`; `total` is how many satellites there
are. -/
def gsvFields (num which total : Nat) (sats : List Satellite) : List (List UInt8) :=
  [ascii "GPGSV", [digit num], [digit which], twoDigits total] ++ sats.flatMap Satellite.fields

/-- `$fields*checksum` and the end of the line. -/
def sentence (fields : List (List UInt8)) (checksum : UInt8 × UInt8) : List UInt8 :=
  36 :: [comma].intercalate fields ++ [42, checksum.1, checksum.2, 13, newline]

/-- All satellites of a group. -/
def groupSats (group : List GsvPart) : List Satellite := group.flatMap GsvPart.sats

def gsvSentence (num total which : Nat) (part : GsvPart) : List UInt8 :=
  sentence (gsvFields num which total part.sats) part.checksum

/-- The sentences of a group, numbered from 1. -/
def groupSentences (group : List GsvPart) : List (List UInt8) :=
  group.mapIdx fun i part => gsvSentence group.length (groupSats group).length (i + 1) part

/-- What a field of a sentence is made of. -/
def IsField (f : List UInt8) : Prop := comma ∉ f ∧ newline ∉ f

instance : DecidablePred IsField := fun f =>
  inferInstanceAs (Decidable (comma ∉ f ∧ newline ∉ f))

/-- A group that can be written: numbers of one or two digits, satellites that have
a bit in the masks and room in the table, and sentences that fit a line and the
tokens. -/
structure GroupOk (group : List GsvPart) : Prop where
  nonempty : group ≠ []
  parts : group.length ≤ 9
  sats : (groupSats group).length ≤ gpsMaxSvs
  prn : ∀ s ∈ groupSats group, 1 ≤ s.prn ∧ s.prn ≤ 32
  field : ∀ s ∈ groupSats group, ∀ f ∈ s.fields, IsField f
  checksum : ∀ part ∈ group, part.checksum.1 ≠ newline ∧ part.checksum.2 ≠ newline
  tokens : ∀ part ∈ group, part.sats.length ≤ 7
  line : ∀ text ∈ groupSentences group, text.length ≤ nmeaMaxSize

/-! ## The tokens of a sentence -/

/-- An empty field at the end is no token. -/
def dropEmptyLast (fields : List (List UInt8)) : List (List UInt8) :=
  if fields.getLast? = some [] then fields.dropLast else fields

/-- The end of a line is cut off. -/
theorem dropNewline_crlf (text : List UInt8) : dropNewline (text ++ [13, newline]) = text := by
  have hsnoc : text ++ [13, newline] = (text ++ [13]) ++ [newline] := by simp
  rw [hsnoc, dropNewline, if_pos List.getLast?_concat, List.dropLast_concat,
    if_pos List.getLast?_concat, List.dropLast_concat]

/-- So is the checksum. -/
theorem dropChecksum_star (text : List UInt8) (c d : UInt8) :
    dropChecksum (text ++ [42, c, d]) = text := by
  have hlen : (text ++ [42, c, d]).length - 3 = text.length := by simp
  rw [dropChecksum, hlen, if_pos ⟨by simp, by simp⟩, List.take_left]

/-- The tokens of fields between commas are the fields, but for an empty last one. -/
theorem tokensOf_intercalate {fields : List (List UInt8)} (hne : fields ≠ [])
    (hcomma : ∀ f ∈ fields, comma ∉ f) :
    tokensOf ([comma].intercalate fields) = dropEmptyLast fields := by
  rw [tokensOf, List.splitOn_intercalate comma hcomma hne]
  rfl

/-- There are no more of them. -/
theorem length_dropEmptyLast_le (fields : List (List UInt8)) :
    (dropEmptyLast fields).length ≤ fields.length := by
  unfold dropEmptyLast
  split
  · rw [List.length_dropLast]
    omega
  · exact Nat.le_refl _

/-- **The tokens of a sentence** are its fields. -/
theorem nmeaTokenizerInit_sentence {fields : List (List UInt8)} (hne : fields ≠ [])
    (hcomma : ∀ f ∈ fields, comma ∉ f) (hlen : fields.length ≤ maxNmeaTokens)
    (checksum : UInt8 × UInt8) :
    nmeaTokenizerInit (sentence fields checksum) = dropEmptyLast fields := by
  have htext : (sentence fields checksum).drop 1 =
      ([comma].intercalate fields ++ [42, checksum.1, checksum.2]) ++ [13, newline] := by
    simp [sentence]
  rw [nmeaTokenizerInit, if_pos (show (sentence fields checksum).head? = some 36 from rfl), htext,
    dropNewline_crlf, dropChecksum_star, tokensOf_intercalate hne hcomma,
    List.take_of_length_le ((length_dropEmptyLast_le fields).trans hlen)]

/-- A token that is not there reads as an empty one. -/
theorem nmeaTokenizerGet_dropEmptyLast (fields : List (List UInt8)) (i : Nat) :
    nmeaTokenizerGet (dropEmptyLast fields) i = nmeaTokenizerGet fields i := by
  unfold dropEmptyLast
  split
  · next hlast =>
    obtain ⟨front, rfl⟩ := List.getLast?_eq_some_iff.mp hlast
    rw [List.dropLast_concat, nmeaTokenizerGet, nmeaTokenizerGet]
    simp only [List.getD_eq_getElem?_getD]
    rcases Nat.lt_trichotomy i front.length with h | h | h
    · rw [List.getElem?_append_left h]
    · subst h
      simp
    · rw [List.getElem?_eq_none (by omega), List.getElem?_eq_none (by simp; omega)]
  · rfl

/-! ## The satellites of a sentence -/

section Satellites

variable {F : Type} (fl : Floats F)

/-- What `sv_list` holds of a satellite. -/
def svInfo (s : Satellite) : GpsSvInfo F where
  prn := Int32.ofNat s.prn
  snr := str2float fl s.snr
  elevation := str2float fl s.elevation
  azimuth := str2float fl s.azimuth

/-- The bit of a satellite in the masks. -/
def prnBit (prn : Nat) : UInt32 := 1 <<< UInt32.ofNat (prn - 1)

def maskOf (sats : List Satellite) : UInt32 := sats.foldl (fun mask s => mask ||| prnBit s.prn) 0

/-- The reader is in a group and has these satellites of it. -/
structure Shows (r : SvReader F) (sats : List Satellite) : Prop where
  curSv : r.curSv = sats.length
  svList : r.sv.svList.toList.take sats.length = sats.map (svInfo fl)
  ephemeris : r.sv.ephemerisMask = maskOf sats
  almanac : r.sv.almanacMask = maskOf sats

/-- A satellite adds its bit. -/
theorem maskOf_snoc (sats : List Satellite) (s : Satellite) :
    maskOf (sats ++ [s]) = maskOf sats ||| prnBit s.prn := by
  rw [maskOf, List.foldl_append]
  rfl

/-- A bit of the mask is a satellite. -/
theorem maskOf_getLsbD {sats : List Satellite} (h : ∀ s ∈ sats, 1 ≤ s.prn ∧ s.prn ≤ 32)
    (i : Nat) : (maskOf sats).toBitVec.getLsbD i = true ↔ ∃ s ∈ sats, s.prn = i + 1 := by
  induction sats using List.reverseRecOn with
  | nil => simp [maskOf]
  | append_singleton sats s ih =>
    have hs := h s (List.mem_append_right _ List.mem_cons_self)
    have hbit : ∀ n : Fin 32, ∀ j : Fin 32,
        (prnBit (n + 1)).toBitVec.getLsbD j = decide (n.val = j.val) := by decide +kernel
    have hone : (prnBit s.prn).toBitVec.getLsbD i = true ↔ s.prn = i + 1 := by
      by_cases hi : i < 32
      · have hb := hbit ⟨s.prn - 1, by omega⟩ ⟨i, hi⟩
        simp only [Nat.sub_add_cancel hs.1] at hb
        rw [hb, decide_eq_true_iff]
        omega
      · rw [BitVec.getLsbD_of_ge _ _ (by omega)]
        exact iff_of_false Bool.false_ne_true (by omega)
    have ih := ih fun s hs => h s (List.mem_append_left _ hs)
    rw [maskOf_snoc, UInt32.toBitVec_or, BitVec.getLsbD_or, Bool.or_eq_true, ih, hone]
    constructor
    · rintro (⟨t, ht, htp⟩ | hp)
      · exact ⟨t, List.mem_append_left _ ht, htp⟩
      · exact ⟨s, List.mem_append_right _ List.mem_cons_self, hp⟩
    · rintro ⟨t, ht, htp⟩
      rcases List.mem_append.mp ht with ht | ht
      · exact .inl ⟨t, ht, htp⟩
      · exact .inr (List.mem_singleton.mp ht ▸ htp)

/-- A digit is its number. -/
theorem str2int_digit {n : Nat} (h : n ≤ 9) : str2int [digit n] = Int32.ofNat n := by
  have hall : ∀ n : Fin 10, str2int [digit n] = Int32.ofNat n := by decide
  exact hall ⟨n, by omega⟩

/-- The number of a satellite, as it is read and as a bit. -/
theorem prn_spec {n : Nat} (h : 1 ≤ n ∧ n ≤ 32) :
    str2int (twoDigits n) = Int32.ofNat n ∧ bit (Int32.ofNat n - 1) = some (prnBit n) := by
  have hall : ∀ n : Fin 32, str2int (twoDigits (n + 1)) = Int32.ofNat (n + 1) ∧
      bit (Int32.ofNat (n + 1) - 1) = some (prnBit (n + 1)) := by decide +kernel
  have hn := hall ⟨n - 1, by omega⟩
  simpa only [Nat.sub_add_cancel h.1] using hn

variable {fl}

/-- One satellite, with its four tokens. -/
theorem storeSatellite_spec {t : List (List UInt8)} {i : Nat} {s : Satellite}
    (hs : 1 ≤ s.prn ∧ s.prn ≤ 32) (hprn : nmeaTokenizerGet t i = twoDigits s.prn)
    (helevation : nmeaTokenizerGet t (i + 1) = s.elevation)
    (hazimuth : nmeaTokenizerGet t (i + 2) = s.azimuth) (hsnr : nmeaTokenizerGet t (i + 3) = s.snr)
    {r : SvReader F} {sats : List Satellite} (h : Shows fl r sats)
    (hroom : sats.length < gpsMaxSvs) :
    ∃ r', storeSatellite fl t r i = some r' ∧ Shows fl r' (sats ++ [s]) ∧
      r'.fixMask = r.fixMask ∧ r'.svStatusCb = r.svStatusCb := by
  obtain ⟨hint, hbit⟩ := prn_spec hs
  have hcur : r.curSv < gpsMaxSvs := by rw [h.curSv]; exact hroom
  simp only [storeSatellite, hprn, helevation, hazimuth, hsnr, hint, dif_pos hcur, hbit]
  refine ⟨_, rfl, ⟨?_, ?_, ?_, ?_⟩, rfl, rfl⟩
  · simp [h.curSv]
  · have hlist := h.svList
    rw [← h.curSv] at hlist
    rw [List.length_append, List.length_singleton, ← h.curSv, take_set_succ, hlist,
      List.map_append]
    rfl
  · simp [maskOf_snoc, h.ephemeris]
  · simp [maskOf_snoc, h.almanac]

/-- **The satellites of a sentence**, behind the fields of `front`, go behind those
the reader has. -/
theorem foldlM_storeSatellite {t : List (List UInt8)} {added : List Satellite}
    (hadded : ∀ s ∈ added, 1 ≤ s.prn ∧ s.prn ≤ 32) (front : List (List UInt8))
    (hget : ∀ i, nmeaTokenizerGet t i =
      nmeaTokenizerGet (front ++ added.flatMap Satellite.fields) i)
    {r : SvReader F} {sats : List Satellite} (h : Shows fl r sats)
    (hroom : sats.length + added.length ≤ gpsMaxSvs) :
    ∃ r', (List.range' front.length added.length 4).foldlM (storeSatellite fl t) r = some r' ∧
      Shows fl r' (sats ++ added) ∧ r'.fixMask = r.fixMask ∧ r'.svStatusCb = r.svStatusCb := by
  induction added generalizing front r sats with
  | nil => exact ⟨r, rfl, by rwa [List.append_nil], rfl, rfl⟩
  | cons s added ih =>
    have hlen : (s :: added).length = added.length + 1 := rfl
    rw [List.forall_mem_cons] at hadded
    -- the four fields of `s` stand behind `front`
    have hfield : ∀ k, nmeaTokenizerGet t (front.length + k) =
        nmeaTokenizerGet (s.fields ++ added.flatMap Satellite.fields) k := by
      intro k
      rw [hget, List.flatMap_cons, nmeaTokenizerGet, nmeaTokenizerGet,
        List.getD_eq_getElem?_getD, List.getD_eq_getElem?_getD,
        List.getElem?_append_right (Nat.le_add_right _ _), Nat.add_sub_cancel_left]
    obtain ⟨r₁, hone, hshows, hmask, hcb⟩ := storeSatellite_spec hadded.1 (hfield 0) (hfield 1)
      (hfield 2) (hfield 3) h (by omega)
    rw [Nat.add_zero] at hone
    have hget' : ∀ i, nmeaTokenizerGet t i =
        nmeaTokenizerGet ((front ++ s.fields) ++ added.flatMap Satellite.fields) i := by
      intro i
      rw [hget, List.flatMap_cons, List.append_assoc]
    obtain ⟨r', hrest, hshows', hmask', hcb'⟩ := ih hadded.2 (front ++ s.fields) hget' hshows (by
      rw [List.length_append, List.length_singleton]
      omega)
    refine ⟨r', ?_, ?_, hmask'.trans hmask, hcb'.trans hcb⟩
    · rw [hlen, List.range'_succ, List.foldlM_cons, hone, Option.bind_eq_bind, Option.bind_some]
      rwa [List.length_append, show s.fields.length = 4 from rfl] at hrest
    · rwa [List.append_assoc, List.singleton_append] at hshows'

end Satellites

/-! ## A sentence of a group -/

section Sentence

variable {F : Type} {fl : Floats F} {num which total : Nat} {sats : List Satellite}

/-- Each satellite has four fields. -/
theorem length_flatMap_fields (sats : List Satellite) :
    (sats.flatMap Satellite.fields).length = 4 * sats.length := by
  induction sats with
  | nil => rfl
  | cons s sats ih =>
    rw [List.flatMap_cons, List.length_append, ih, List.length_cons]
    show 4 + 4 * sats.length = _
    omega

/-- A sentence has four fields in front. -/
theorem length_gsvFields (num which total : Nat) (sats : List Satellite) :
    (gsvFields num which total sats).length = 4 + 4 * sats.length := by
  rw [gsvFields, List.length_append, length_flatMap_fields]
  rfl

/-- The loop over the tokens meets each satellite once, with or without its last
field. -/
theorem satelliteTokens_gsvFields (num which total : Nat) (sats : List Satellite) :
    satelliteTokens (dropEmptyLast (gsvFields num which total sats)) =
      List.range' 4 sats.length 4 := by
  have hlen := length_gsvFields num which total sats
  have hcount : ((dropEmptyLast (gsvFields num which total sats)).length - 1) / 4 =
      sats.length := by
    unfold dropEmptyLast
    split
    · next hlast =>
      -- without satellites the last field is the number of them
      have hsome : sats ≠ [] := by
        rintro rfl
        simp [gsvFields, twoDigits] at hlast
      have hpos := List.length_pos_iff.mpr hsome
      rw [List.length_dropLast, hlen]
      omega
    · rw [hlen]
      omega
  rw [satelliteTokens, hcount]

/-- A digit is no separator. -/
theorem digit_plain {n : Nat} (h : n < 10) : digit n ≠ comma ∧ digit n ≠ newline := by
  have hd := toNat_digit h
  constructor
  · intro hc
    rw [hc] at hd
    have : (comma : UInt8).toNat = 44 := rfl
    omega
  · intro hc
    rw [hc] at hd
    have : (newline : UInt8).toNat = 10 := rfl
    omega

/-- A number of two digits is a field. -/
theorem isField_twoDigits {n : Nat} (h : n < 100) : IsField (twoDigits n) := by
  obtain ⟨h₁, h₁'⟩ := digit_plain (show n / 10 < 10 by omega)
  obtain ⟨h₂, h₂'⟩ := digit_plain (show n % 10 < 10 by omega)
  constructor
  · simp [twoDigits, h₁.symm, h₂.symm]
  · simp [twoDigits, h₁'.symm, h₂'.symm]

/-- All that a sentence is made of are fields. -/
theorem isField_gsvFields (hnum : num ≤ 9) (hwhich : which ≤ 9) (htotal : total < 100)
    (hfield : ∀ s ∈ sats, ∀ f ∈ s.fields, IsField f) :
    ∀ f ∈ gsvFields num which total sats, IsField f := by
  intro f hf
  obtain ⟨h₁, h₁'⟩ := digit_plain (show num < 10 by omega)
  obtain ⟨h₂, h₂'⟩ := digit_plain (show which < 10 by omega)
  simp only [gsvFields, List.mem_append, List.mem_cons, List.not_mem_nil, or_false,
    List.mem_flatMap] at hf
  rcases hf with (rfl | rfl | rfl | rfl) | ⟨s, hs, hf⟩
  · exact ⟨by decide, by decide⟩
  · exact ⟨by simp [h₁.symm], by simp [h₁'.symm]⟩
  · exact ⟨by simp [h₂.symm], by simp [h₂'.symm]⟩
  · exact isField_twoDigits htotal
  · exact hfield s hs f hf

/-- No field ends the line. -/
theorem newline_notMem_intercalate {fields : List (List UInt8)}
    (h : ∀ f ∈ fields, newline ∉ f) : newline ∉ [comma].intercalate fields := by
  induction fields with
  | nil => simp
  | cons f fields ih =>
    rw [List.forall_mem_cons] at h
    cases fields with
    | nil =>
      rw [List.intercalate_singleton]
      exact h.1
    | cons g fields =>
      rw [List.intercalate_cons_cons, List.mem_append, List.mem_append, List.mem_singleton]
      rintro ((hmem | hmem) | hmem)
      · exact h.1 hmem
      · cases hmem
      · exact ih h.2 hmem

/-- A sentence is a line. -/
theorem exists_line {fields : List (List UInt8)} (h : ∀ f ∈ fields, newline ∉ f)
    {checksum : UInt8 × UInt8} (hc : checksum.1 ≠ newline ∧ checksum.2 ≠ newline) :
    ∃ l : Line, l.bytes = sentence fields checksum := by
  refine ⟨⟨36 :: [comma].intercalate fields ++ [42, checksum.1, checksum.2, 13], ?_⟩, ?_⟩
  · have hbody := newline_notMem_intercalate h
    simp only [List.mem_cons, List.mem_append, List.not_mem_nil, or_false]
    rintro ((hc' | hc') | hc' | hc' | hc' | hc')
    · exact absurd hc' (by decide)
    · exact hbody hc'
    · exact absurd hc' (by decide)
    · exact hc.1 hc'.symm
    · exact hc.2 hc'.symm
    · exact absurd hc' (by decide)
  · simp [Line.bytes, sentence]

/-- It is recognised by its first field. -/
theorem sentenceId_gsvSentence {fields : List (List UInt8)} {checksum : UInt8 × UInt8}
    (ht : nmeaTokenizerInit (sentence fields checksum) = dropEmptyLast fields)
    (hhead : nmeaTokenizerGet fields 0 = ascii "GPGSV") (hlen : 2 ≤ fields.length) :
    sentenceId (sentence fields checksum) = some (ascii "GSV") := by
  have htok : nmeaTokenizerGet (nmeaTokenizerInit (sentence fields checksum)) 0 =
      ascii "GPGSV" := by
    rw [ht, nmeaTokenizerGet_dropEmptyLast, hhead]
  have hlong : ¬ (sentence fields checksum).length < 9 := by
    obtain ⟨f, fs, rfl⟩ := List.exists_cons_of_length_pos (show 0 < fields.length by omega)
    obtain ⟨g, fs, rfl⟩ := List.exists_cons_of_length_pos
      (show 0 < fs.length by rw [List.length_cons] at hlen; omega)
    obtain rfl : f = ascii "GPGSV" := hhead
    simp [sentence, List.intercalate, List.intersperse, ascii]
  rw [sentenceId, htok, if_neg (not_or.mpr ⟨hlong, by decide⟩)]
  decide

/-- The first three tokens of a GSV sentence. -/
theorem nmeaTokenizerGet_gsvFields (num which total : Nat) (sats : List Satellite) :
    nmeaTokenizerGet (gsvFields num which total sats) 0 = ascii "GPGSV" ∧
      nmeaTokenizerGet (gsvFields num which total sats) 1 = [digit num] ∧
      nmeaTokenizerGet (gsvFields num which total sats) 2 = [digit which] :=
  ⟨rfl, rfl, rfl⟩

/-- **A sentence of a group** puts its satellites behind those before it; the last one
reports. -/
theorem parse_gsvSentence (total : Nat) (hnum : num ≤ 9) (hwhich : which ≤ 9) (htotal : total < 100)
    {part : GsvPart} (hprn : ∀ s ∈ part.sats, 1 ≤ s.prn ∧ s.prn ≤ 32)
    (hfield : ∀ s ∈ part.sats, ∀ f ∈ s.fields, IsField f) (htokens : part.sats.length ≤ 7)
    {r : SvReader F} {before : List Satellite}
    (hbefore : Shows fl (startGroup r (Int32.ofNat which)) before)
    (hroom : before.length + part.sats.length ≤ gpsMaxSvs) :
    ∃ r' : SvReader F, Shows fl r' (before ++ part.sats) ∧ r'.fixMask = r.fixMask ∧
      r'.svStatusCb = r.svStatusCb ∧ nmeaReaderParse fl r (gsvSentence num total which part) =
        some (commitGroup r' (Int32.ofNat num) (Int32.ofNat which)) := by
  have hlen := length_gsvFields num which total part.sats
  obtain ⟨hid, hgetNum, hgetWhich⟩ := nmeaTokenizerGet_gsvFields num which total part.sats
  have hfields := isField_gsvFields hnum hwhich htotal hfield
  have htok : nmeaTokenizerInit (gsvSentence num total which part) =
      dropEmptyLast (gsvFields num which total part.sats) :=
    nmeaTokenizerInit_sentence (by simp [gsvFields]) (fun f hf => (hfields f hf).1)
      (by rw [hlen]; show _ ≤ 32; omega) part.checksum
  have hgsv : sentenceId (gsvSentence num total which part) = some (ascii "GSV") :=
    sentenceId_gsvSentence htok hid (by omega)
  have hother : ¬ (some (ascii "GSV") = some (ascii "GSA")) := by decide
  have hget : ∀ i, nmeaTokenizerGet (dropEmptyLast (gsvFields num which total part.sats)) i =
      nmeaTokenizerGet (gsvFields num which total part.sats) i := fun i =>
    nmeaTokenizerGet_dropEmptyLast _ i
  obtain ⟨r', hfold, hshows, hmask, hcb⟩ := foldlM_storeSatellite hprn
    [ascii "GPGSV", [digit num], [digit which], twoDigits total] hget hbefore hroom
  refine ⟨r', hshows, ?_, ?_, ?_⟩
  · rw [hmask, startGroup]
    split <;> rfl
  · rw [hcb, startGroup]
    split <;> rfl
  · have hfold' : (List.range' 4 part.sats.length 4).foldlM
        (storeSatellite fl (dropEmptyLast (gsvFields num which total part.sats)))
        (startGroup r (Int32.ofNat which)) = some r' := hfold
    rw [nmeaReaderParse, hgsv, if_neg hother, if_pos rfl, htok, nmeaReaderParseGsv,
      nmeaTokenizerGet_dropEmptyLast, nmeaTokenizerGet_dropEmptyLast, hgetNum, hgetWhich,
      str2int_digit hnum, str2int_digit hwhich, satelliteTokens_gsvFields, hfold',
      Option.map_some]

end Sentence

/-! ## The group -/

section Group

variable {F : Type} {fl : Floats F}

/-- The status of these satellites, as `sv_status_cb` gets it. -/
structure Reports (fl : Floats F) (status : GpsSvStatus F) (sats : List Satellite)
    (fixMask : UInt32) : Prop where
  numSvs : status.numSvs = sats.length
  svList : status.svList.toList.take status.numSvs = sats.map (svInfo fl)
  ephemeris : status.ephemerisMask = maskOf sats
  almanac : status.almanacMask = maskOf sats
  usedInFix : status.usedInFixMask = fixMask

/-- Small numbers are told apart. -/
theorem ofNat_inj {m n : Nat} (hm : m ≤ 9) (hn : n ≤ 9) :
    Int32.ofNat m = Int32.ofNat n ↔ m = n := by
  have hall : ∀ m n : Fin 10, Int32.ofNat m = Int32.ofNat n ↔ m.val = n.val := by decide
  exact hall ⟨m, by omega⟩ ⟨n, by omega⟩

/-- The sentences from behind the first `start` on. -/
def sentencesFrom (num total start : Nat) (parts : List GsvPart) : List (List UInt8) :=
  parts.mapIdx fun i part => gsvSentence num total (start + i + 1) part

/-- The first sentence and the others. -/
theorem sentencesFrom_cons (num total start : Nat) (part : GsvPart) (parts : List GsvPart) :
    sentencesFrom num total start (part :: parts) =
      gsvSentence num total (start + 1) part :: sentencesFrom num total (start + 1) parts := by
  rw [sentencesFrom, List.mapIdx_cons, sentencesFrom]
  congr 2
  funext i part
  rw [Nat.add_assoc start 1 i, Nat.add_comm 1 i, ← Nat.add_assoc]

/-- The satellites of what is left of the group, and the report at its end, if there is a
callback for it. -/
theorem run_sentencesFrom {num : Nat} (total : Nat) (hnum : num ≤ 9) (htotal : total < 100)
    {parts : List GsvPart} (hne : parts ≠ [])
    (hprn : ∀ s ∈ groupSats parts, 1 ≤ s.prn ∧ s.prn ≤ 32)
    (hfield : ∀ s ∈ groupSats parts, ∀ f ∈ s.fields, IsField f)
    (htokens : ∀ part ∈ parts, part.sats.length ≤ 7) {start : Nat}
    (hstart : start + parts.length = num) {r : SvReader F} {before : List Satellite}
    (hbefore : Shows fl (startGroup r (Int32.ofNat (start + 1))) before)
    (hroom : before.length + (groupSats parts).length ≤ gpsMaxSvs) :
    ∃ r', run (nmeaReaderParse fl) r (sentencesFrom num total start parts) =
        some (r', if r.svStatusCb then [r'.sv] else []) ∧ r'.fixMask = 0 ∧
      r'.svStatusCb = r.svStatusCb ∧ Reports fl r'.sv (before ++ groupSats parts) r.fixMask := by
  induction parts generalizing start r before with
  | nil => exact absurd rfl hne
  | cons part parts ih =>
    have hsats : groupSats (part :: parts) = part.sats ++ groupSats parts := List.flatMap_cons
    rw [hsats, List.forall_mem_append] at hprn hfield
    rw [hsats, List.length_append] at hroom
    rw [List.forall_mem_cons] at htokens
    rw [List.length_cons] at hstart
    obtain ⟨r₁, hshows, hmask, hcb, hparse⟩ := parse_gsvSentence total hnum
      (show start + 1 ≤ 9 by omega) htotal hprn.1 hfield.1 htokens.1 hbefore (by omega)
    rw [sentencesFrom_cons]
    cases parts with
    | nil =>
      -- the last sentence has the number of sentences
      have hlast : Int32.ofNat num = Int32.ofNat (start + 1) := by
        rw [← hstart]
        rfl
      rw [commitGroup, if_pos hlast, hcb] at hparse
      refine ⟨_, run_singleton hparse, rfl, rfl, ?_⟩
      have hnil : groupSats [] = [] := rfl
      rw [hsats, hnil, List.append_nil]
      exact ⟨hshows.curSv, by rw [← hshows.svList, ← hshows.curSv], hshows.ephemeris,
        hshows.almanac, hmask⟩
    | cons next parts =>
      rw [List.length_cons] at hstart
      have hmore : ¬ Int32.ofNat num = Int32.ofNat (start + 1) := by
        rw [ofNat_inj hnum (by omega)]
        omega
      have hgoOn : startGroup r₁ (Int32.ofNat (start + 1 + 1)) = r₁ := by
        rw [startGroup, if_neg]
        rw [show (1 : Int32) = Int32.ofNat 1 from rfl, ofNat_inj (by omega) (by omega)]
        omega
      have hnext : start + 1 + (next :: parts).length = num := by
        rw [List.length_cons]
        omega
      rw [commitGroup, if_neg hmore] at hparse
      obtain ⟨r', hrun, hzero, hcb', hreports⟩ := ih (List.cons_ne_nil _ _)
        hprn.2 hfield.2 htokens.2 hnext (show Shows fl (startGroup r₁ _) _ from hgoOn ▸ hshows)
        (by rw [List.length_append]; omega)
      rw [hcb] at hrun
      refine ⟨r', run_cons_eq hparse hrun, hzero, hcb'.trans hcb, ?_⟩
      rwa [hsats, ← List.append_assoc, ← hmask]

/-- Lines that fit are handed over, one after the other. -/
theorem run_fitting {texts : List (List UInt8)}
    (hline : ∀ text ∈ texts, ∃ l : Line, l.bytes = text)
    (hfits : ∀ text ∈ texts, text.length ≤ nmeaMaxSize) {r : NmeaReader} (h : Rests r false) :
    ∃ r', run nmeaReaderAddc r texts.flatten = some (r', texts) ∧ Rests r' false := by
  induction texts generalizing r with
  | nil => exact ⟨r, rfl, h⟩
  | cons text texts ih =>
    rw [List.forall_mem_cons] at hline hfits
    obtain ⟨l, rfl⟩ := hline.1
    obtain ⟨r₁, hone, hrests⟩ := run_of_fits h hfits.1
    obtain ⟨r', hrest, hrests'⟩ := ih hline.2 hfits.2 hrests
    exact ⟨r', run_append hone hrest, hrests'⟩

/-- One byte of the stream: `nmea_reader_addc`, which calls `nmea_reader_parse`. -/
def feed (fl : Floats F) : Step (NmeaReader × SvReader F) UInt8 (GpsSvStatus F) :=
  pipe nmeaReaderAddc (nmeaReaderParse fl)

/-- The table of a reader that starts a group is empty. -/
theorem shows_startGroup (r : SvReader F) : Shows fl (startGroup r (Int32.ofNat (0 + 1))) [] :=
  ⟨rfl, rfl, rfl, rfl⟩

/-- Every sentence of a group is a line. -/
theorem exists_line_of_group {group : List GsvPart} (h : GroupOk group) :
    ∀ text ∈ groupSentences group, ∃ l : Line, l.bytes = text := by
  intro text htext
  obtain ⟨i, hi, rfl⟩ := List.mem_mapIdx.mp htext
  have hpart : group[i] ∈ group := List.getElem_mem hi
  have hparts := h.parts
  have hmem : ∀ s ∈ group[i].sats, s ∈ groupSats group := fun s hs =>
    List.mem_flatMap.mpr ⟨group[i], hpart, hs⟩
  have htotal : (groupSats group).length < 100 := lt_of_le_of_lt h.sats (by decide)
  have hfields : ∀ f ∈ gsvFields group.length (i + 1) (groupSats group).length group[i].sats,
      IsField f :=
    isField_gsvFields hparts (by omega) htotal fun s hs => h.field s (hmem s hs)
  exact exists_line (fun f hf => (hfields f hf).2) (h.checksum _ hpart)

/-- **A group of GSV sentences is reported as it was written.** Whatever the reader
holds, and however the bytes are cut into reads: its status is then that of the
satellites of the group in order, with a bit in both masks for each number, and of the
satellites in use by the GSA sentences before; and this is reported once if there is a
callback, which there is from the first `CMD_START` on. -/
theorem group_reported (fl : Floats F) {group : List GsvPart} (hgroup : GroupOk group)
    {r : NmeaReader} (hr : Rests r false) (sv : SvReader F) {reads : List (List UInt8)}
    (hreads : reads.flatten = (groupSentences group).flatten) :
    ∃ r' sv', runChunks (feed fl) (r, sv) reads =
        some ((r', sv'), if sv.svStatusCb then [sv'.sv] else []) ∧
      Rests r' false ∧ sv'.fixMask = 0 ∧ sv'.svStatusCb = sv.svStatusCb ∧
      Reports fl sv'.sv (groupSats group) sv.fixMask ∧
      ∀ i, sv'.sv.ephemerisMask.toBitVec.getLsbD i = true ↔
        ∃ s ∈ groupSats group, s.prn = i + 1 := by
  have hsents : groupSentences group =
      sentencesFrom group.length (groupSats group).length 0 group := by
    rw [groupSentences, sentencesFrom]
    congr 1
    funext i part
    rw [Nat.zero_add]
  have htotal : (groupSats group).length < 100 := lt_of_le_of_lt hgroup.sats (by decide)
  obtain ⟨r', hlines, hrests⟩ := run_fitting (exists_line_of_group hgroup) hgroup.line hr
  have hempty : Shows fl (startGroup sv (Int32.ofNat (0 + 1))) [] := shows_startGroup sv
  obtain ⟨sv', hrun, hzero, hcb, hreports⟩ := run_sentencesFrom (groupSats group).length
    hgroup.parts htotal hgroup.nonempty hgroup.prn hgroup.field hgroup.tokens (Nat.zero_add _)
    hempty (by rw [List.length_nil, Nat.zero_add]; exact hgroup.sats)
  rw [List.nil_append] at hreports
  refine ⟨r', sv', ?_, hrests, hzero, hcb, hreports, fun i => ?_⟩
  · rw [runChunks_eq, hreads]
    exact run_pipe hlines (by rw [hsents]; exact hrun)
  · rw [hreports.ephemeris]
    exact maskOf_getLsbD hgroup.prn i

/-- Five satellites in two sentences; the last has no signal strength. -/
def fiveSats : List GsvPart :=
  [⟨[⟨2, ascii "16", ascii "138", ascii "06"⟩, ⟨5, ascii "29", ascii "067", []⟩,
      ⟨9, ascii "48", ascii "088", ascii "19"⟩, ⟨15, ascii "69", ascii "348", ascii "29"⟩],
    (55, 54)⟩,
    ⟨[⟨29, ascii "37", ascii "237", []⟩], (55, 57)⟩]

theorem groupOk_fiveSats : GroupOk fiveSats where
  nonempty := by decide
  parts := by decide
  sats := by decide
  prn := by decide
  field := by decide
  checksum := by decide
  tokens := by decide
  line := by decide

/-- A reader with the callback of a session. -/
def svReaderStarted {F : Type} (fl : Floats F) : SvReader F :=
  { svReaderInit fl with svStatusCb := true }

/-- They come in two reads. -/
theorem group_reported_fiveSats :
    ∃ r' sv', runChunks (feed zeroFloats) (nmeaReaderInit, svReaderStarted zeroFloats)
        [(groupSentences fiveSats).flatten.take 50, (groupSentences fiveSats).flatten.drop 50] =
          some ((r', sv'), [sv'.sv]) ∧
      Reports zeroFloats sv'.sv (groupSats fiveSats) 0 := by
  have hreads : [(groupSentences fiveSats).flatten.take 50,
      (groupSentences fiveSats).flatten.drop 50].flatten = (groupSentences fiveSats).flatten := by
    simp
  obtain ⟨r', sv', hrun, -, -, -, hreports, -⟩ := group_reported zeroFloats groupOk_fiveSats
    (r := nmeaReaderInit) ⟨rfl, rfl⟩ (svReaderStarted zeroFloats) hreads
  exact ⟨r', sv', hrun, hreports⟩

end Group

end Lidbg.GpsUblox
