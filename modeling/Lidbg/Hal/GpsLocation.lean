import Lidbg.Hal.GpsSv

/-!
# Locations (`hal/gpslib/gps_ublox.c`)

A location is put together from the sentences of a receiver: GGA has position and
altitude, GSA the accuracy, RMC position, bearing and speed. `fix.flags` says which
of the five there are; when there are all of them `nmea_reader_parse` hands the
location to the callback and starts afresh. Between `CMD_STOP` and `CMD_START` there
is no callback, and `nmea_reader_set_callback` hands on what has been put together
in the meantime, even if it is not all.

`Collector` says this in terms of the data received since the last location, whatever
the flags and the fields of `fix`. `Tracks.start`, `Tracks.stop` and `Tracks.sentence` are
that the code does it, a command or a sentence at a time.
-/

namespace Lidbg.GpsUblox

open Machine

/-! ## The fix -/

/-- What has a flag in `GpsLocation`. -/
inductive Kind where
  | latLong
  | altitude
  | speed
  | bearing
  | accuracy
deriving DecidableEq

/-- `GPS_LOCATION_HAS_LAT_LONG` and the others of Android's `hardware/gps.h`. -/
def Kind.flag : Kind → UInt16
  | .latLong => 0x01
  | .altitude => 0x02
  | .speed => 0x04
  | .bearing => 0x08
  | .accuracy => 0x10

/-- `info` of `nmea_reader_parse`. -/
def info : UInt16 :=
  Kind.flag .latLong ||| Kind.flag .altitude ||| Kind.flag .bearing ||| Kind.flag .speed |||
    Kind.flag .accuracy

structure GpsLocation (F : Type) where
  flags : UInt16
  latitude : F
  longitude : F
  altitude : F
  speed : F
  bearing : F
  accuracy : F
  timestamp : Int64

/-- The fields of a `struct tm` that are set. -/
structure Tm where
  tmYear : Int32
  tmMon : Int32
  tmMday : Int32
  tmHour : Int32
  tmMin : Int32
  tmSec : Int32

/-- Arithmetic on `double`, `mktime`, and `utc_diff`. -/
structure Env (F : Type) extends Floats F where
  neg : F → F
  /-- `floor`, the division and the rest of `convert_from_hhmm`. -/
  dcoord : F → F
  /-- `* 0.5144`. -/
  metres : F → F
  toInt : F → Int32
  mktime : Tm → Int64
  utcDiff : Int64

/-- `NmeaReader`, as far as it is about locations; `callback` is whether there is
one. -/
structure FixReader (F : Type) where
  utcYear : Int32
  utcMon : Int32
  utcDay : Int32
  fix : GpsLocation F
  callback : Bool

variable {F : Type} (env : Env F)

/-- `nmea_reader_init`. -/
def fixReaderInit : FixReader F where
  utcYear := -1
  utcMon := -1
  utcDay := -1
  fix := ⟨0, env.zero, env.zero, env.zero, env.zero, env.zero, env.zero, 0⟩
  callback := false

/-- `nmea_reader_update_time`; `now` is the date of `time(NULL)`. -/
def nmeaReaderUpdateTime (now : Int32 × Int32 × Int32) (r : FixReader F) (tok : List UInt8) :
    FixReader F :=
  if tok.length < 6 then r
  else
    let r := if r.utcYear < 0 then
      { r with utcYear := now.1, utcMon := now.2.1, utcDay := now.2.2 } else r
    let tm := {
      tmYear := r.utcYear - 1900
      tmMon := r.utcMon - 1
      tmMday := r.utcDay
      tmHour := str2int (tok.take 2)
      tmMin := str2int ((tok.drop 2).take 2)
      tmSec := env.toInt (str2float env.toFloats (tok.drop 4)) }
    { r with fix := { r.fix with timestamp := (env.mktime tm + env.utcDiff) * 1000 } }

/-- `nmea_reader_update_date`. -/
def nmeaReaderUpdateDate (now : Int32 × Int32 × Int32) (r : FixReader F) (date time : List UInt8) :
    FixReader F :=
  if date.length ≠ 6 then r
  else
    let day := str2int (date.take 2)
    let mon := str2int ((date.drop 2).take 2)
    let year := str2int ((date.drop 4).take 2) + 2000
    if day ||| mon ||| year < 0 then r
    else nmeaReaderUpdateTime env now { r with utcYear := year, utcMon := mon, utcDay := day } time

/-- `convert_from_hhmm`. -/
def convertFromHhmm (tok : List UInt8) : F :=
  env.dcoord (str2float env.toFloats tok)

/-- `p[0]` of a token that is not empty; behind an empty one is its comma. -/
def firstIs (c : UInt8) (tok : List UInt8) : Bool := tok.head? = some c

/-- `nmea_reader_update_latlong`. -/
def nmeaReaderUpdateLatlong (r : FixReader F)
    (latitude latitudeHemi longitude longitudeHemi : List UInt8) : FixReader F :=
  if latitude.length < 6 then r
  else
    let lat := convertFromHhmm env latitude
    let lat := if firstIs 83 latitudeHemi then env.neg lat else lat
    if longitude.length < 6 then r
    else
      let lon := convertFromHhmm env longitude
      let lon := if firstIs 87 longitudeHemi then env.neg lon else lon
      { r with fix := { r.fix with
        flags := r.fix.flags ||| Kind.flag .latLong, latitude := lat, longitude := lon } }

/-- `nmea_reader_update_altitude`. -/
def nmeaReaderUpdateAltitude (r : FixReader F) (altitude : List UInt8) : FixReader F :=
  if altitude = [] then r
  else { r with fix := { r.fix with
    flags := r.fix.flags ||| Kind.flag .altitude, altitude := str2float env.toFloats altitude } }

/-- `nmea_reader_update_accuracy`, of the location. -/
def updateAccuracy (r : FixReader F) (hdop : List UInt8) : FixReader F :=
  if hdop = [] then r
  else { r with fix := { r.fix with
    flags := r.fix.flags ||| Kind.flag .accuracy, accuracy := str2float env.toFloats hdop } }

/-- `nmea_reader_update_bearing`: its test of the token never fails. -/
def nmeaReaderUpdateBearing (r : FixReader F) (bearing : List UInt8) : FixReader F :=
  { r with fix := { r.fix with
    flags := r.fix.flags ||| Kind.flag .bearing, bearing := str2float env.toFloats bearing } }

/-- `nmea_reader_update_speed`, the same. -/
def nmeaReaderUpdateSpeed (r : FixReader F) (speed : List UInt8) : FixReader F :=
  { r with fix := { r.fix with
    flags := r.fix.flags ||| Kind.flag .speed
    speed := env.metres (str2float env.toFloats speed) } }

/-- The branches of `nmea_reader_parse`, by the name of the sentence. -/
def parseFix (now : Int32 × Int32 × Int32) (r : FixReader F) (id : List UInt8)
    (tzer : List (List UInt8)) : FixReader F :=
  let tok := nmeaTokenizerGet tzer
  if id = ascii "GGA" then
    let r := nmeaReaderUpdateTime env now r (tok 1)
    let r := nmeaReaderUpdateLatlong env r (tok 2) (tok 3) (tok 4) (tok 5)
    nmeaReaderUpdateAltitude env r (tok 9)
  else if id = ascii "GSA" then
    if 15 < tzer.length then updateAccuracy env r (tok 15) else r
  else if id = ascii "RMC" then
    if firstIs 65 (tok 2) then
      let r := nmeaReaderUpdateDate env now r (tok 9) (tok 1)
      let r := nmeaReaderUpdateLatlong env r (tok 3) (tok 4) (tok 5) (tok 6)
      let r := nmeaReaderUpdateBearing env r (tok 8)
      nmeaReaderUpdateSpeed env r (tok 7)
    else r
  else r

/-- The location goes to the callback. -/
def commit (r : FixReader F) : FixReader F × List (GpsLocation F) :=
  ({ r with fix := { r.fix with flags := 0 } }, [r.fix])

/-- What `nmea_reader_parse` does to `fix`, and the location it hands on; what the same sentence
does to the list of the satellites, and whether it stays in it, is the other part of the reader. -/
def parseLocation (now : Int32 × Int32 × Int32) (r : FixReader F) (text : List UInt8) :
    FixReader F × List (GpsLocation F) :=
  match sentenceId text with
  | none => (r, [])
  | some id =>
    let r := parseFix env now r id (nmeaTokenizerInit text)
    if r.fix.flags &&& info = info ∧ r.callback = true then commit r else (r, [])

/-- `nmea_reader_set_callback`. -/
def nmeaReaderSetCallback (r : FixReader F) (cb : Bool) : FixReader F × List (GpsLocation F) :=
  let r := { r with callback := cb }
  if cb = true ∧ r.fix.flags ≠ 0 then commit r else (r, [])

/-- What reaches `gps_state_thread`. -/
inductive Input where
  | cmdStart
  | cmdStop
  | sentence (now : Int32 × Int32 × Int32) (text : List UInt8)

/-! ## What the location is for -/

/-- A piece of data for a location. -/
inductive Datum (F : Type) where
  | latLong (latitude longitude : F)
  | altitude (a : F)
  | speed (s : F)
  | bearing (b : F)
  | accuracy (a : F)

def Datum.kind : Datum F → Kind
  | .latLong _ _ => .latLong
  | .altitude _ => .altitude
  | .speed _ => .speed
  | .bearing _ => .bearing
  | .accuracy _ => .accuracy

/-- A position, if both coordinates are long enough. -/
def position (latitude latitudeHemi longitude longitudeHemi : List UInt8) : List (Datum F) :=
  if 6 ≤ latitude.length ∧ 6 ≤ longitude.length then
    let lat := convertFromHhmm env latitude
    let lon := convertFromHhmm env longitude
    [.latLong (if firstIs 83 latitudeHemi then env.neg lat else lat)
      (if firstIs 87 longitudeHemi then env.neg lon else lon)]
  else []

/-- A number, if there is one. -/
def number (of : F → Datum F) (tok : List UInt8) : List (Datum F) :=
  if tok = [] then [] else [of (str2float env.toFloats tok)]

/-- The data in a sentence. -/
def provides (text : List UInt8) : List (Datum F) :=
  let tok := nmeaTokenizerGet (nmeaTokenizerInit text)
  if sentenceId text = some (ascii "GGA") then
    position env (tok 2) (tok 3) (tok 4) (tok 5) ++ number env .altitude (tok 9)
  else if sentenceId text = some (ascii "GSA") then number env .accuracy (tok 15)
  else if sentenceId text = some (ascii "RMC") ∧ firstIs 65 (tok 2) then
    position env (tok 3) (tok 4) (tok 5) (tok 6) ++
      [.bearing (str2float env.toFloats (tok 8)),
        .speed (env.metres (str2float env.toFloats (tok 7)))]
  else []

/-- There is data of every kind. -/
def complete (received : List (Datum F)) : Bool :=
  [.latLong, .altitude, .speed, .bearing, .accuracy].all fun k =>
    received.any fun d => d.kind = k

/-- Whether the session is on, and the data received since the last location. -/
structure Collector (F : Type) where
  started : Bool
  received : List (Datum F)

/-- Locations as they should be, each as the data it is made of: a complete one at
once, and what there is when the session starts. `listens` is whether the framework
has a callback for them; without one a session is as none. -/
def collect (listens : Bool) : Step (Collector F) Input (List (Datum F)) := fun c i =>
  match i with
  | .cmdStart =>
    if listens then some (⟨true, []⟩, if c.received.isEmpty then [] else [c.received])
    else some ({ c with started := false }, [])
  | .cmdStop => some ({ c with started := false }, [])
  | .sentence _ text =>
    let received := c.received ++ provides env text
    if c.started && complete received then some ({ c with received := [] }, [received])
    else some ({ c with received := received }, [])

/-- The last data of a kind. -/
def lastOf (k : Kind) (received : List (Datum F)) : Option (Datum F) :=
  received.reverse.find? fun d => d.kind = k

/-- A location has data of this kind. -/
def GpsLocation.has (L : GpsLocation F) (k : Kind) : Prop := L.flags &&& k.flag ≠ 0

/-- The fields are those of the data. -/
def GpsLocation.holds (L : GpsLocation F) : Datum F → Prop
  | .latLong latitude longitude => L.latitude = latitude ∧ L.longitude = longitude
  | .altitude a => L.altitude = a
  | .speed s => L.speed = s
  | .bearing b => L.bearing = b
  | .accuracy a => L.accuracy = a

/-- The location made of this data: the flags say what there is, and of each kind the
last is in the fields. -/
structure Carries (L : GpsLocation F) (received : List (Datum F)) : Prop where
  flags : ∀ k, L.has k ↔ ∃ d, lastOf k received = some d
  fields : ∀ k d, lastOf k received = some d → L.holds d
  only : L.flags ||| info = info

/-! ## The flags -/

/-- The number of the bit. -/
def Kind.index : Kind → Nat
  | .latLong => 0
  | .altitude => 1
  | .speed => 2
  | .bearing => 3
  | .accuracy => 4

/-- Each kind of data has a bit of its own. -/
theorem Kind.flag_eq (k : Kind) : k.flag.toBitVec = BitVec.twoPow 16 k.index := by
  cases k <;> rfl

/-- No two kinds have the same. -/
theorem Kind.index_inj {k k' : Kind} : k.index = k'.index ↔ k = k' := by
  cases k <;> cases k' <;> decide

/-- A flag is set if its bit is. -/
theorem and_flag_ne_zero (flags : UInt16) (k : Kind) :
    flags &&& k.flag ≠ 0 ↔ flags.toBitVec.getLsbD k.index = true := by
  have hlt : k.index < 16 := by cases k <;> decide
  rw [Ne, UInt16.eq_iff_toBitVec_eq, UInt16.toBitVec_and, k.flag_eq, BitVec.and_twoPow]
  split
  · next h =>
    rw [h]
    refine iff_of_true (fun hz => ?_) rfl
    have hbit := congrArg (fun b : BitVec 16 => b.getLsbD k.index) hz
    simp [hlt] at hbit
  · next h => exact iff_of_false (fun hn => hn rfl) h

/-- Setting a flag sets no other. -/
theorem or_flag (flags : UInt16) (k k' : Kind) :
    (flags ||| k.flag) &&& k'.flag ≠ 0 ↔ flags &&& k'.flag ≠ 0 ∨ k = k' := by
  have hlt : k.index < 16 := by cases k <;> decide
  rw [and_flag_ne_zero, and_flag_ne_zero, UInt16.toBitVec_or, BitVec.getLsbD_or, Bool.or_eq_true,
    k.flag_eq, BitVec.getLsbD_twoPow, ← Kind.index_inj]
  simp [hlt]

/-- A bit of `info` is one of a kind. -/
theorem info_getLsbD (i : Nat) : info.toBitVec.getLsbD i = true ↔ ∃ k : Kind, k.index = i := by
  by_cases hi : i < 16
  · have hall : ∀ i : Fin 16, info.toBitVec.getLsbD i = true ↔
        i.val = 0 ∨ i.val = 1 ∨ i.val = 2 ∨ i.val = 3 ∨ i.val = 4 := by decide
    rw [hall ⟨i, hi⟩]
    constructor
    · rintro (h | h | h | h | h)
      exacts [⟨.latLong, h.symm⟩, ⟨.altitude, h.symm⟩, ⟨.speed, h.symm⟩, ⟨.bearing, h.symm⟩,
        ⟨.accuracy, h.symm⟩]
    · rintro ⟨k, hk⟩
      show i = 0 ∨ i = 1 ∨ i = 2 ∨ i = 3 ∨ i = 4
      cases k <;> simp only [Kind.index] at hk <;> omega
  · rw [BitVec.getLsbD_of_ge _ _ (by omega)]
    refine iff_of_false Bool.false_ne_true ?_
    rintro ⟨k, hk⟩
    cases k <;> simp only [Kind.index] at hk <;> omega

/-- All five flags are set. -/
theorem and_info_iff (flags : UInt16) :
    flags &&& info = info ↔ ∀ k : Kind, flags &&& k.flag ≠ 0 := by
  constructor
  · intro h k
    rw [and_flag_ne_zero]
    have hbit : info.toBitVec.getLsbD k.index = true := (info_getLsbD k.index).mpr ⟨k, rfl⟩
    rw [← h, UInt16.toBitVec_and, BitVec.getLsbD_and, Bool.and_eq_true] at hbit
    exact hbit.1
  · intro h
    rw [UInt16.eq_iff_toBitVec_eq, UInt16.toBitVec_and]
    refine BitVec.eq_of_getLsbD_eq fun i _ => ?_
    rw [BitVec.getLsbD_and]
    cases hinfo : info.toBitVec.getLsbD i with
    | false => exact Bool.and_false _
    | true =>
      obtain ⟨k, rfl⟩ := (info_getLsbD i).mp hinfo
      rw [(and_flag_ne_zero flags k).mp (h k)]
      rfl

/-- No flag is set. -/
theorem flags_eq_zero_iff {flags : UInt16} (honly : flags ||| info = info) :
    flags = 0 ↔ ∀ k : Kind, ¬ flags &&& k.flag ≠ 0 := by
  constructor
  · rintro rfl k
    cases k <;> decide
  · intro h
    rw [UInt16.eq_iff_toBitVec_eq]
    refine BitVec.eq_of_getLsbD_eq fun i _ => ?_
    cases hbit : flags.toBitVec.getLsbD i with
    | false => exact (BitVec.getLsbD_zero).symm
    | true =>
      have hinfo : info.toBitVec.getLsbD i = true := by
        rw [← honly, UInt16.toBitVec_or, BitVec.getLsbD_or, hbit]
        rfl
      obtain ⟨k, rfl⟩ := (info_getLsbD i).mp hinfo
      exact absurd ((and_flag_ne_zero flags k).mpr hbit) (h k)

/-- All flags together have each of them. -/
theorem flag_or_info (k : Kind) : k.flag ||| info = info := by
  cases k <;> decide

/-! ## One piece of data -/

/-- The last data of a kind, when more data come. -/
theorem lastOf_snoc (k : Kind) (received : List (Datum F)) (d : Datum F) :
    lastOf k (received ++ [d]) = if d.kind = k then some d else lastOf k received := by
  rw [lastOf, List.reverse_append, List.reverse_singleton, List.singleton_append, List.find?_cons]
  by_cases h : d.kind = k
  · simp [h]
  · simp [h, lastOf]

/-- It is of that kind. -/
theorem kind_of_lastOf {k : Kind} {received : List (Datum F)} {d : Datum F}
    (h : lastOf k received = some d) : d.kind = k := by
  simpa using List.find?_some h

/-- There is one exactly if some came. -/
theorem lastOf_isSome_iff (k : Kind) (received : List (Datum F)) :
    (∃ d, lastOf k received = some d) ↔ ∃ d ∈ received, d.kind = k := by
  rw [← Option.isSome_iff_exists, lastOf, List.find?_isSome]
  simp

/-- A location without flags carries nothing. -/
theorem carries_zero {L : GpsLocation F} (h : L.flags = 0) : Carries L [] where
  flags k := by
    rw [GpsLocation.has, h]
    refine iff_of_false (by cases k <;> decide) ?_
    rintro ⟨d, hd⟩
    cases hd
  fields k d hd := by cases hd
  only := by rw [h]; decide

/-- **One more piece of data**, stored in its fields. -/
theorem Carries.snoc {L L' : GpsLocation F} {received : List (Datum F)} (h : Carries L received)
    (d : Datum F) (hflags : L'.flags = L.flags ||| d.kind.flag) (hholds : L'.holds d)
    (hother : ∀ d', d'.kind ≠ d.kind → L.holds d' → L'.holds d') :
    Carries L' (received ++ [d]) where
  flags k := by
    rw [GpsLocation.has, hflags, or_flag, lastOf_snoc]
    split
    · next hk => exact iff_of_true (.inr hk) ⟨d, rfl⟩
    · next hk =>
      rw [or_iff_left hk]
      exact h.flags k
  fields k d' hd' := by
    rw [lastOf_snoc] at hd'
    split at hd'
    · cases hd'
      exact hholds
    · next hk =>
      refine hother d' ?_ (h.fields k d' hd')
      rw [kind_of_lastOf hd']
      exact fun hc => hk hc.symm
  only := by rw [hflags, UInt16.or_assoc, flag_or_info, h.only]

/-- Data are complete when there is some of every kind. -/
theorem complete_iff (received : List (Datum F)) :
    complete received = true ↔ ∀ k : Kind, ∃ d ∈ received, d.kind = k := by
  rw [complete, List.all_eq_true]
  constructor
  · intro h k
    have hk := h k (by cases k <;> decide)
    simpa using hk
  · intro h k _
    simpa using h k

/-! ## The sentences -/

section Refinement

variable {env}

/-- The reader has put together this data, and whether it has a callback. -/
structure Has (r : FixReader F) (received : List (Datum F)) (callback : Bool) : Prop where
  carries : Carries r.fix received
  callback : r.callback = callback

variable {r : FixReader F} {received : List (Datum F)} {cb : Bool}

/-- The time is in no flag. -/
theorem Carries.timestamp {L : GpsLocation F} (h : Carries L received) (t : Int64) :
    Carries { L with timestamp := t } received :=
  ⟨h.flags, fun k d hd => by cases d <;> exact h.fields k _ hd, h.only⟩

/-- The time of a sentence is none of the data that are flagged. -/
theorem Has.updateTime (h : Has r received cb) (now : Int32 × Int32 × Int32) (tok : List UInt8) :
    Has (nmeaReaderUpdateTime env now r tok) received cb := by
  unfold nmeaReaderUpdateTime
  split
  · exact h
  · dsimp only
    split
    · exact ⟨h.carries.timestamp _, h.callback⟩
    · exact ⟨h.carries.timestamp _, h.callback⟩

/-- Nor is the date. -/
theorem Has.date (h : Has r received cb) (year mon day : Int32) :
    Has { r with utcYear := year, utcMon := mon, utcDay := day } received cb :=
  ⟨h.carries, h.callback⟩

/-- Nor is the date. -/
theorem Has.updateDate (h : Has r received cb) (now : Int32 × Int32 × Int32)
    (date time : List UInt8) : Has (nmeaReaderUpdateDate env now r date time) received cb := by
  unfold nmeaReaderUpdateDate
  split
  · exact h
  · dsimp only
    split
    · exact h
    · exact (h.date _ _ _).updateTime now time

/-- A position is added if the sentence has one. -/
theorem Has.updateLatlong (h : Has r received cb)
    (latitude latitudeHemi longitude longitudeHemi : List UInt8) :
    Has (nmeaReaderUpdateLatlong env r latitude latitudeHemi longitude longitudeHemi)
      (received ++ position env latitude latitudeHemi longitude longitudeHemi) cb := by
  unfold nmeaReaderUpdateLatlong position
  by_cases hlat : latitude.length < 6
  · rw [if_pos hlat, if_neg (by omega), List.append_nil]
    exact h
  · by_cases hlon : longitude.length < 6
    · simp only [if_neg hlat, if_pos hlon]
      rw [if_neg (by omega), List.append_nil]
      exact h
    · simp only [if_neg hlat, if_neg hlon]
      rw [if_pos (show 6 ≤ latitude.length ∧ 6 ≤ longitude.length by omega)]
      refine ⟨h.carries.snoc _ rfl ⟨rfl, rfl⟩ fun d hd hh => ?_, h.callback⟩
      cases d with
      | latLong => exact absurd rfl hd
      | _ => exact hh

/-- An altitude is added if the sentence has one. -/
theorem Has.updateAltitude (h : Has r received cb) (altitude : List UInt8) :
    Has (nmeaReaderUpdateAltitude env r altitude)
      (received ++ number env .altitude altitude) cb := by
  unfold nmeaReaderUpdateAltitude number
  split
  · rwa [List.append_nil]
  · refine ⟨h.carries.snoc _ rfl rfl fun d hd hh => ?_, h.callback⟩
    cases d with
    | altitude => exact absurd rfl hd
    | _ => exact hh

/-- An accuracy is added if the sentence has one. -/
theorem Has.updateAccuracy (h : Has r received cb) (hdop : List UInt8) :
    Has (updateAccuracy env r hdop) (received ++ number env .accuracy hdop) cb := by
  unfold GpsUblox.updateAccuracy number
  split
  · rwa [List.append_nil]
  · refine ⟨h.carries.snoc _ rfl rfl fun d hd hh => ?_, h.callback⟩
    cases d with
    | accuracy => exact absurd rfl hd
    | _ => exact hh

/-- A bearing is added, whatever the sentence has. -/
theorem Has.updateBearing (h : Has r received cb) (bearing : List UInt8) :
    Has (nmeaReaderUpdateBearing env r bearing)
      (received ++ [.bearing (str2float env.toFloats bearing)]) cb := by
  refine ⟨h.carries.snoc _ rfl rfl fun d hd hh => ?_, h.callback⟩
  cases d with
  | bearing => exact absurd rfl hd
  | _ => exact hh

/-- A speed is added, whatever the sentence has. -/
theorem Has.updateSpeed (h : Has r received cb) (speed : List UInt8) :
    Has (nmeaReaderUpdateSpeed env r speed)
      (received ++ [.speed (env.metres (str2float env.toFloats speed))]) cb := by
  refine ⟨h.carries.snoc _ rfl rfl fun d hd hh => ?_, h.callback⟩
  cases d with
  | speed => exact absurd rfl hd
  | _ => exact hh

/-- **One sentence** adds the data in it. -/
theorem Has.parseFix (h : Has r received cb) (now : Int32 × Int32 × Int32) {text id : List UInt8}
    (hid : sentenceId text = some id) :
    Has (parseFix env now r id (nmeaTokenizerInit text)) (received ++ provides env text) cb := by
  unfold GpsUblox.parseFix provides
  rw [hid]
  simp only [Option.some.injEq]
  by_cases hgga : id = ascii "GGA"
  · rw [if_pos hgga, if_pos hgga, ← List.append_assoc]
    exact ((h.updateTime now _).updateLatlong _ _ _ _).updateAltitude _
  rw [if_neg hgga, if_neg hgga]
  by_cases hgsa : id = ascii "GSA"
  · rw [if_pos hgsa, if_pos hgsa]
    split
    · exact h.updateAccuracy _
    · next hshort =>
      have hnone : nmeaTokenizerGet (nmeaTokenizerInit text) 15 = [] := by
        rw [nmeaTokenizerGet, List.getD_eq_getElem?_getD, List.getElem?_eq_none (by omega)]
        rfl
      rwa [number, if_pos hnone, List.append_nil]
  rw [if_neg hgsa, if_neg hgsa]
  by_cases hrmc : id = ascii "RMC"
  · rw [if_pos hrmc]
    split
    · next hvalid =>
      rw [if_pos ⟨hrmc, hvalid⟩, ← List.append_assoc, List.append_cons _ (Datum.bearing _)]
      exact (((h.updateDate now _ _).updateLatlong _ _ _ _).updateBearing _).updateSpeed _
    · next hvalid =>
      rw [if_neg fun hc => hvalid hc.2, List.append_nil]
      exact h
  · rw [if_neg hrmc, if_neg fun hc => hrmc hc.1, List.append_nil]
    exact h

/-! ## The refinement -/

/-- The reader and the collector; while the session is on there is not yet
everything. -/
structure Tracks (r : FixReader F) (c : Collector F) : Prop where
  has : Has r c.received c.started
  waits : c.started = true → complete c.received = false

/-- A location has all flags exactly if its data are complete. -/
theorem Carries.complete_iff {L : GpsLocation F} (h : Carries L received) :
    L.flags &&& info = info ↔ complete received = true := by
  rw [and_info_iff, GpsUblox.complete_iff]
  refine forall_congr' fun k => ?_
  rw [← lastOf_isSome_iff, ← h.flags]
  rfl

/-- A location has no flag exactly if it carries nothing. -/
theorem Carries.eq_nil_iff {L : GpsLocation F} (h : Carries L received) :
    L.flags = 0 ↔ received = [] := by
  rw [flags_eq_zero_iff h.only]
  constructor
  · intro hnone
    cases received with
    | nil => rfl
    | cons d received =>
      refine absurd ((h.flags d.kind).mpr ?_) (hnone d.kind)
      exact (lastOf_isSome_iff _ _).mpr ⟨d, List.mem_cons_self, rfl⟩
  · rintro rfl k hk
    obtain ⟨d, hd⟩ := (h.flags k).mp hk
    cases hd

/-- No data are not complete. -/
theorem complete_nil : complete ([] : List (Datum F)) = false := rfl

/-- Without a callback the data are kept, and nothing is handed on. -/
theorem Tracks.stop {r : FixReader F} {c : Collector F} (h : Tracks r c) :
    Tracks (nmeaReaderSetCallback r false).1 { c with started := false } ∧
      (nmeaReaderSetCallback r false).2 = [] := by
  unfold nmeaReaderSetCallback
  dsimp only
  rw [if_neg fun hc => Bool.false_ne_true hc.1]
  exact ⟨⟨⟨h.has.carries, rfl⟩, fun hc => by cases hc⟩, rfl⟩

variable (env) in
/-- A session that starts hands on what there is. -/
theorem Tracks.start {r : FixReader F} {c : Collector F} (h : Tracks r c) (listens : Bool) :
    ∃ c' p, collect env listens c .cmdStart = some (c', p) ∧
      Tracks (nmeaReaderSetCallback r listens).1 c' ∧
      List.Forall₂ Carries (nmeaReaderSetCallback r listens).2 p := by
  cases listens with
  | false =>
    obtain ⟨htracks, hnone⟩ := h.stop
    exact ⟨{ c with started := false }, [], rfl, htracks, hnone ▸ .nil⟩
  | true =>
    unfold nmeaReaderSetCallback
    dsimp only
    by_cases hnil : c.received = []
    · -- no data, so no flag is set
      have hzero := h.has.carries.eq_nil_iff.mpr hnil
      rw [if_neg fun hc => hc.2 hzero]
      refine ⟨⟨true, []⟩, [], ?_, ⟨⟨carries_zero hzero, rfl⟩, fun _ => complete_nil⟩, .nil⟩
      rw [collect, hnil]
      rfl
    · have hsome : r.fix.flags ≠ 0 := fun hz => hnil (h.has.carries.eq_nil_iff.mp hz)
      rw [if_pos ⟨rfl, hsome⟩]
      refine ⟨⟨true, []⟩, [c.received], ?_, ⟨⟨carries_zero rfl, rfl⟩, fun _ => complete_nil⟩,
        .cons h.has.carries .nil⟩
      rw [collect, if_pos rfl, if_neg (by simpa using hnil)]

variable (env) in
/-- A sentence adds its data, and hands the location on when there is all and a session. -/
theorem Tracks.sentence {r : FixReader F} {c : Collector F} (h : Tracks r c) (listens : Bool)
    (now : Int32 × Int32 × Int32) (text : List UInt8) :
    ∃ c' p, collect env listens c (.sentence now text) = some (c', p) ∧
      Tracks (parseLocation env now r text).1 c' ∧
      List.Forall₂ Carries (parseLocation env now r text).2 p := by
  unfold parseLocation
  cases hid : sentenceId text with
  | none =>
    -- a text that is no sentence has no data, and the collector was not waiting for less
    have hnone : provides env text = [] := by
      rw [provides, hid]
      rfl
    refine ⟨c, [], ?_, h, .nil⟩
    rw [collect, hnone, List.append_nil, if_neg]
    cases hstarted : c.started with
    | false => exact Bool.false_ne_true
    | true =>
      rw [h.waits hstarted]
      exact Bool.false_ne_true
  | some id =>
    dsimp only
    have hhas : Has (parseFix env now r id (nmeaTokenizerInit text))
        (c.received ++ provides env text) c.started := h.has.parseFix now hid
    have hcomplete := hhas.carries.complete_iff
    simp only [hcomplete, hhas.callback]
    rw [collect]
    by_cases hall : c.started = true ∧ complete (c.received ++ provides env text) = true
    · rw [if_pos hall.symm, if_pos (by rw [hall.1, hall.2]; rfl)]
      exact ⟨_, _, rfl, ⟨⟨carries_zero rfl, hhas.callback⟩, fun _ => complete_nil⟩,
        .cons hhas.carries .nil⟩
    · rw [if_neg fun hc => hall (Bool.and_eq_true_iff.mp hc), if_neg fun hc => hall hc.symm]
      refine ⟨_, _, rfl, ⟨hhas, fun hstarted => ?_⟩, .nil⟩
      rw [Bool.eq_false_iff]
      exact fun hc => hall ⟨hstarted, hc⟩

/-- The data of an input. -/
def given (env : Env F) : Input → List (Datum F)
  | .sentence _ text => provides env text
  | _ => []

/-- The collector puts every piece of data in one location, in order. -/
theorem collect_accounts {listens : Bool} {c : Collector F} {inputs : List Input}
    {c' : Collector F} {o : List (List (Datum F))}
    (hrun : run (collect env listens) c inputs = some (c', o)) :
    o.flatten ++ c'.received = c.received ++ inputs.flatMap (given env) := by
  induction inputs generalizing c o with
  | nil =>
    cases hrun
    simp
  | cons i inputs ih =>
    obtain ⟨c₁, o₁, o₂, hs, hrest, rfl⟩ := run_cons_inv hrun
    have hone : o₁.flatten ++ c₁.received = c.received ++ given env i := by
      cases i with
      | cmdStart =>
        rw [collect] at hs
        cases listens with
        | false =>
          cases hs
          simp [given]
        | true =>
          cases hs
          split
          · next hnil =>
            rw [List.isEmpty_iff] at hnil
            simp [given, hnil]
          · simp [given]
      | cmdStop =>
        rw [collect] at hs
        cases hs
        simp [given]
      | sentence now text =>
        rw [collect] at hs
        split at hs
        · cases hs
          simp [given]
        · cases hs
          simp [given]
    rw [List.flatten_append, List.append_assoc, ih hrest, ← List.append_assoc, hone,
      List.flatMap_cons, List.append_assoc]

/-- The reader and the collector both begin with nothing. -/
theorem tracks_init : Tracks (fixReaderInit env) ⟨false, []⟩ :=
  ⟨⟨carries_zero rfl, rfl⟩, fun h => by cases h⟩

end Refinement

end Lidbg.GpsUblox
