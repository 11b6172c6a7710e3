import Lidbg.Hal.GpsLocation
import Lidbg.Hal.GpsGroup

/-!
# The reader and its commands (`hal/gpslib/gps_ublox.c`)

`gps_state_thread` has one reader for the satellites and the location. `CMD_START` gives it
the callbacks of the framework, `CMD_STOP` empties its status and takes the location's
callback away; both report, and `CMD_STOP` calls what it finds without a test.

- `readerStep_isSome_iff`: what a command or a sentence must meet so that no call goes
  through a null pointer and no store past the table.
- `locations_refine`: the locations are those of the collector, in every run that meets it.
- `run_feedReader`: the status reports are those of the satellites' part alone.
-/

namespace Lidbg.GpsUblox

open Machine

/-! ## The code -/

/-- `GpsCallbacks`: whether the framework has given each. -/
structure GpsCallbacks where
  locationCb : Bool
  statusCb : Bool
  svStatusCb : Bool

/-- `NmeaReader`, but for the line; `statusCb` is whether its `callbacks` has one. -/
structure Reader (F : Type) where
  sv : SvReader F
  fix : FixReader F
  statusCb : Bool

/-- `GPS_STATUS_SESSION_BEGIN` and `GPS_STATUS_ENGINE_OFF`. -/
inductive GpsStatusValue where
  | sessionBegin
  | engineOff

/-- What the callbacks get. -/
inductive Report (F : Type) where
  | location (fix : GpsLocation F)
  | svStatus (sv : GpsSvStatus F)
  | status (value : GpsStatusValue)

def Report.location? {F : Type} : Report F → Option (GpsLocation F)
  | .location fix => some fix
  | _ => none

def Report.svStatus? {F : Type} : Report F → Option (GpsSvStatus F)
  | .svStatus sv => some sv
  | _ => none

variable {F : Type} (env : Env F) (cb : GpsCallbacks)

/-- `nmea_reader_init`. -/
def readerInit : Reader F := ⟨svReaderInit env.toFloats, fixReaderInit env, false⟩

/-- `nmea_reader_parse`, whole. -/
def parseSentence (now : Int32 × Int32 × Int32) (r : Reader F) (text : List UInt8) :
    Option (Reader F × List (Report F)) :=
  (nmeaReaderParse env.toFloats r.sv text).map fun (sv, statuses) =>
    let (fix, locations) := parseLocation env now r.fix text
    ({ r with sv := sv, fix := fix },
      statuses.map Report.svStatus ++ locations.map Report.location)

/-- `CMD_START` in `gps_state_thread`; `none` calls a null pointer. -/
def cmdStart (r : Reader F) : Option (Reader F × List (Report F)) :=
  let (fix, locations) := nmeaReaderSetCallback r.fix cb.locationCb
  let r : Reader F :=
    { sv := { r.sv with svStatusCb := cb.svStatusCb }, fix := fix, statusCb := cb.statusCb }
  if r.statusCb then some (r, locations.map Report.location ++ [.status .sessionBegin]) else none

/-- `CMD_STOP`. The callbacks stay, but for the location's. -/
def cmdStop (r : Reader F) : Option (Reader F × List (Report F)) :=
  if r.statusCb then
    let status := { r.sv.sv with
      numSvs := 0
      ephemerisMask := 0
      almanacMask := 0
      usedInFixMask := 0 }
    let sv := { r.sv with sv := status, fixMask := 0 }
    if sv.svStatusCb then
      let (fix, locations) := nmeaReaderSetCallback r.fix false
      some ({ r with sv := sv, fix := fix },
        [.status .engineOff, .svStatus status] ++ locations.map Report.location)
    else none
  else none

/-- What reaches the reader, observed by what the callbacks get. -/
def readerStep : Step (Reader F) Input (Report F) := fun r i =>
  match i with
  | .cmdStart => cmdStart cb r
  | .cmdStop => cmdStop r
  | .sentence now text => parseSentence env now r text

/-! ## When nothing goes wrong -/

/-- A sentence has room for its satellites, a start is given a `status_cb`, and a stop finds
the callbacks that it calls. -/
def InputOk (r : Reader F) : Input → Prop
  | .cmdStart => cb.statusCb = true
  | .cmdStop => r.statusCb = true ∧ r.sv.svStatusCb = true
  | .sentence _ text => SentenceFits r.sv text

variable {env cb}

/-- A start, with the part of the location still to be looked at. -/
theorem cmdStart_eq_some {r r' : Reader F} {o : List (Report F)} :
    cmdStart cb r = some (r', o) ↔ cb.statusCb = true ∧
      r' = { sv := { r.sv with svStatusCb := cb.svStatusCb }
             fix := (nmeaReaderSetCallback r.fix cb.locationCb).1
             statusCb := cb.statusCb } ∧
      o = (nmeaReaderSetCallback r.fix cb.locationCb).2.map Report.location ++
        [.status .sessionBegin] := by
  unfold cmdStart
  dsimp only
  split_ifs with h
  · rw [Option.some.injEq, Prod.mk.injEq, and_iff_right h]
    exact and_congr eq_comm eq_comm
  · exact iff_of_false (fun h' => by cases h') fun h' => h h'.1

theorem cmdStop_eq_some {r r' : Reader F} {o : List (Report F)} (h : cmdStop r = some (r', o)) :
    (r.statusCb = true ∧ r.sv.svStatusCb = true) ∧
      r'.sv.curSv = r.sv.curSv ∧ r'.fix = (nmeaReaderSetCallback r.fix false).1 ∧
      o.filterMap Report.location? = (nmeaReaderSetCallback r.fix false).2 := by
  unfold cmdStop at h
  dsimp only at h
  split_ifs at h with hstatus hsv
  cases h
  refine ⟨⟨hstatus, hsv⟩, rfl, rfl, ?_⟩
  rw [List.filterMap_append, List.filterMap_map]
  exact List.filterMap_some

theorem cmdStop_isSome_iff (r : Reader F) :
    (cmdStop r).isSome ↔ r.statusCb = true ∧ r.sv.svStatusCb = true := by
  unfold cmdStop
  dsimp only
  split_ifs with hstatus hsv
  · exact iff_of_true rfl ⟨hstatus, hsv⟩
  · exact iff_of_false Bool.false_ne_true fun h => hsv h.2
  · exact iff_of_false Bool.false_ne_true fun h => hstatus h.1

/-- **A command or a sentence** is dealt with exactly if it meets `InputOk`. -/
theorem readerStep_isSome_iff {r : Reader F} (hr : r.sv.curSv ≤ gpsMaxSvs) (i : Input) :
    (readerStep env cb r i).isSome ↔ InputOk cb r i := by
  cases i with
  | cmdStart =>
    show (cmdStart cb r).isSome ↔ cb.statusCb = true
    rw [Option.isSome_iff_exists, Prod.exists]
    constructor
    · rintro ⟨r', o, h⟩
      exact (cmdStart_eq_some.mp h).1
    · intro h
      exact ⟨_, _, cmdStart_eq_some.mpr ⟨h, rfl, rfl⟩⟩
  | cmdStop => exact cmdStop_isSome_iff r
  | sentence now text =>
    show (parseSentence env now r text).isSome ↔ SentenceFits r.sv text
    rw [parseSentence, Option.isSome_map, parse_isSome_iff env.toFloats hr]

/-- No step leaves more in the table than there is room for. -/
theorem readerStep_curSv_le {r r' : Reader F} {i : Input} {o : List (Report F)}
    (hr : r.sv.curSv ≤ gpsMaxSvs) (h : readerStep env cb r i = some (r', o)) :
    r'.sv.curSv ≤ gpsMaxSvs := by
  cases i with
  | cmdStart =>
    have h : cmdStart cb r = some (r', o) := h
    obtain ⟨-, rfl, -⟩ := cmdStart_eq_some.mp h
    exact hr
  | cmdStop =>
    obtain ⟨-, hcur, -⟩ := cmdStop_eq_some h
    rwa [hcur]
  | sentence now text =>
    obtain ⟨⟨sv, statuses⟩, hparse, heq⟩ := Option.map_eq_some_iff.mp h
    cases heq
    exact parse_curSv_le hr hparse

/-! ## Locations -/

theorem filterMap_location (statuses : List (GpsSvStatus F)) (locations : List (GpsLocation F)) :
    (statuses.map Report.svStatus ++ locations.map Report.location).filterMap Report.location? =
      locations := by
  have hnone : (statuses.map Report.svStatus).filterMap (Report.location? (F := F)) = [] := by
    rw [List.filterMap_map]
    exact List.filterMap_eq_nil_iff.mpr fun _ _ => rfl
  rw [List.filterMap_append, hnone, List.nil_append, List.filterMap_map]
  exact List.filterMap_some

/-- A command or a sentence hands on the locations that the collector does. -/
theorem Tracks.step {r r' : Reader F} {c : Collector F} {i : Input} {o : List (Report F)}
    (h : Tracks r.fix c) (hs : readerStep env cb r i = some (r', o)) :
    ∃ c' p, collect env cb.locationCb c i = some (c', p) ∧ Tracks r'.fix c' ∧
      List.Forall₂ Carries (o.filterMap Report.location?) p := by
  cases i with
  | cmdStart =>
    have hs : cmdStart cb r = some (r', o) := hs
    obtain ⟨-, rfl, rfl⟩ := cmdStart_eq_some.mp hs
    obtain ⟨c', p, hcollect, htracks, hcarries⟩ := h.start env cb.locationCb
    refine ⟨c', p, hcollect, htracks, ?_⟩
    rw [List.filterMap_append, List.filterMap_map]
    refine Eq.mp ?_ hcarries
    congr 1
    exact ((List.append_nil _).trans List.filterMap_some).symm
  | cmdStop =>
    obtain ⟨-, -, hfix, hlocations⟩ := cmdStop_eq_some hs
    obtain ⟨htracks, hnone⟩ := h.stop
    refine ⟨{ c with started := false }, [], rfl, ?_, ?_⟩
    · rw [hfix]
      exact htracks
    · rw [hlocations, hnone]
      exact .nil
  | sentence now text =>
    obtain ⟨⟨sv, statuses⟩, -, heq⟩ := Option.map_eq_some_iff.mp hs
    cases heq
    obtain ⟨c', p, hcollect, htracks, hcarries⟩ :=
      h.sentence env cb.locationCb now text
    refine ⟨c', p, hcollect, htracks, ?_⟩
    rw [filterMap_location]
    exact hcarries

theorem Tracks.run {r r' : Reader F} {c : Collector F} {inputs : List Input}
    {o : List (Report F)} (h : Tracks r.fix c)
    (hrun : Machine.run (readerStep env cb) r inputs = some (r', o)) :
    ∃ c' p, Machine.run (collect env cb.locationCb) c inputs = some (c', p) ∧ Tracks r'.fix c' ∧
      List.Forall₂ Carries (o.filterMap Report.location?) p := by
  induction inputs generalizing r c o with
  | nil =>
    cases hrun
    exact ⟨c, [], rfl, h, .nil⟩
  | cons i inputs ih =>
    obtain ⟨r₁, o₁, o₂, hs, hrest, rfl⟩ := run_cons_inv hrun
    obtain ⟨c₁, p₁, hcollect, h₁, hcarries₁⟩ := h.step hs
    obtain ⟨c', p₂, hcollects, h', hcarries₂⟩ := ih h₁ hrest
    refine ⟨c', p₁ ++ p₂, run_cons_eq hcollect hcollects, h', ?_⟩
    rw [List.filterMap_append]
    exact List.rel_append hcarries₁ hcarries₂

/-- **Locations are made of what came since the last one.** For every order of
sentences, starts and stops: the code deals with all of them exactly if each GSV sentence
fits, and no command calls a null pointer. Then what `location_cb` gets is, one by one,
what the collector hands on: a location as soon as there is data of every kind while the
session is on, what there is when it starts, nothing while it is off; with the flags of
the data received since the last location, and of each kind the last. Every piece of
data goes into one location. -/
theorem locations_refine (env : Env F) (cb : GpsCallbacks) (inputs : List Input) :
    ((run (readerStep env cb) (readerInit env) inputs).isSome ↔
      StepsMeet (readerStep env cb) (fun _ _ r i => InputOk cb r i) (readerInit env) inputs) ∧
    ∀ r o, run (readerStep env cb) (readerInit env) inputs = some (r, o) →
      ∃ c received, run (collect env cb.locationCb) ⟨false, []⟩ inputs = some (c, received) ∧
        List.Forall₂ Carries (o.filterMap Report.location?) received ∧
        received.flatten ++ c.received = inputs.flatMap (given env) := by
  refine ⟨?_, fun r o hrun => ?_⟩
  · exact run_isSome_iff (I := fun r : Reader F => r.sv.curSv ≤ gpsMaxSvs)
      (fun _ _ _ _ => readerStep_curSv_le) (fun _ i hr => readerStep_isSome_iff hr i)
      (Nat.zero_le _) inputs
  · have hinit : Tracks (readerInit env).fix ⟨false, []⟩ := tracks_init
    obtain ⟨c, received, hcollect, -, hcarries⟩ := hinit.run hrun
    exact ⟨c, received, hcollect, hcarries, collect_accounts hcollect⟩

/-! ## Status reports -/

variable (env) in
/-- `nmea_reader_parse` at the sentence with this number; `clock` is what `time(NULL)` says
at each. -/
def sentenceStep (clock : Nat → Int32 × Int32 × Int32) :
    Step (Reader F × Nat) (List UInt8) (Report F) := fun (r, n) text =>
  (parseSentence env (clock n) r text).map fun (r', o) => ((r', n + 1), o)

variable (env) in
/-- One byte of the stream: `nmea_reader_addc`, which calls `nmea_reader_parse`. -/
def feedReader (clock : Nat → Int32 × Int32 × Int32) :
    Step (NmeaReader × Reader F × Nat) UInt8 (Report F) :=
  pipe nmeaReaderAddc (sentenceStep env clock)

variable {clock : Nat → Int32 × Int32 × Int32}

theorem filterMap_svStatus (statuses : List (GpsSvStatus F)) (locations : List (GpsLocation F)) :
    (statuses.map Report.svStatus ++ locations.map Report.location).filterMap Report.svStatus? =
      statuses := by
  have hnone : (locations.map Report.location).filterMap (Report.svStatus? (F := F)) = [] := by
    rw [List.filterMap_map]
    exact List.filterMap_eq_nil_iff.mpr fun _ _ => rfl
  rw [List.filterMap_append, hnone, List.append_nil, List.filterMap_map]
  exact List.filterMap_some

theorem run_sentenceStep {texts : List (List UInt8)} {r : Reader F} {sv' : SvReader F}
    {statuses : List (GpsSvStatus F)} (n : Nat)
    (h : run (nmeaReaderParse env.toFloats) r.sv texts = some (sv', statuses)) :
    ∃ r' n' o, run (sentenceStep env clock) (r, n) texts = some ((r', n'), o) ∧ r'.sv = sv' ∧
      o.filterMap Report.svStatus? = statuses := by
  induction texts generalizing r n statuses with
  | nil =>
    cases h
    exact ⟨r, n, [], rfl, rfl, rfl⟩
  | cons text texts ih =>
    obtain ⟨sv₁, statuses₁, statuses₂, hs, hrest, rfl⟩ := run_cons_inv h
    let p := parseLocation env (clock n) r.fix text
    have hone : sentenceStep env clock (r, n) text =
        some (({ r with sv := sv₁, fix := p.1 }, n + 1),
          statuses₁.map Report.svStatus ++ p.2.map Report.location) := by
      simp only [sentenceStep, parseSentence, hs, Option.map_some]
      rfl
    obtain ⟨r', n', o, hrun, hsv, hstatuses⟩ :=
      ih (r := { r with sv := sv₁, fix := p.1 }) (n + 1) hrest
    refine ⟨r', n', _, run_cons_eq hone hrun, hsv, ?_⟩
    rw [List.filterMap_append, filterMap_svStatus, hstatuses]

variable (clock) in
/-- **The status reports** are those of the part about satellites, whatever locations there
are between them. -/
theorem run_feedReader {bytes : List UInt8} {line line' : NmeaReader} {r : Reader F}
    {sv' : SvReader F} {statuses : List (GpsSvStatus F)} (n : Nat)
    (h : run (feed env.toFloats) (line, r.sv) bytes = some ((line', sv'), statuses)) :
    ∃ r' n' o, run (feedReader env clock) (line, r, n) bytes = some ((line', r', n'), o) ∧
      r'.sv = sv' ∧ o.filterMap Report.svStatus? = statuses := by
  obtain ⟨lines, hlines, hparse⟩ := run_pipe_inv h
  obtain ⟨r', n', o, hrun, hsv, hstatuses⟩ := run_sentenceStep n hparse
  exact ⟨r', n', o, run_pipe hlines hrun, hsv, hstatuses⟩

end Lidbg.GpsUblox
