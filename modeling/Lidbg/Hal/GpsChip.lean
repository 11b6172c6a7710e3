import Lidbg.Hal.GpsThread
import Lidbg.Hal.GpsReader

/-!
# From the chip to a report (`drivers/gps/lidbg_gps.c`, `hal/gpslib/gps_ublox.c`)

`gps_state_thread` gives each byte of its reads to `nmea_reader_addc`, and its commands to the
callbacks. The whole of it is the thread with its driver, and behind it the reader.

- `flatten_reads_eq`: what comes to the queue while there is room is what the thread reads.
- `run_halStep`: the satellites' part of the reader sees the bytes alone, while no stop is
  served.
- `chip_reported`: a group of sentences that comes to the queue is reported once.
-/

namespace Lidbg.GpsThread

open Machine GpsUblox

/-! ## The whole thread -/

section Model

variable {F : Type} (env : Env F) (cb : GpsCallbacks) (clock : Nat → Int32 × Int32 × Int32)

/-- What `gps_state_thread` does with what it is served: the reader's line, the reader, and
the number of sentences so far. -/
def halStep : Step (NmeaReader × Reader F × Nat) Obs (Report F) := fun (line, r, n) w =>
  match w with
  | .served .start => (cmdStart cb r).map fun (r', o) => ((line, r', n), o)
  | .served .stop => (cmdStop r).map fun (r', o) => ((line, r', n), o)
  | .driver (.delivered bytes) => run (feedReader env clock) (line, r, n) bytes
  | _ => some ((line, r, n), [])

/-- `gps_state_thread` with its driver. -/
def gpsStateThread (K : ByteFifo) :
    Step (State K × NmeaReader × Reader F × Nat) Event (Report F) :=
  pipe (step K) (halStep env cb clock)

end Model

/-! ## What is read -/

def Obs.ofDriver : Obs → Option Gps.Obs
  | .driver o => some o
  | _ => none

def driverObs (o : List Obs) : List Gps.Obs := o.filterMap Obs.ofDriver

/-- What the reads of the thread return, in order. -/
def reads (o : List Obs) : List (List UInt8) :=
  (driverObs o).filterMap fun
    | .queued _ _ => none
    | .delivered bytes => some bytes

theorem driverObs_append (o o' : List Obs) : driverObs (o ++ o') = driverObs o ++ driverObs o' :=
  List.filterMap_append

theorem driverObs_map (o : List Gps.Obs) : driverObs (o.map .driver) = o := by
  rw [driverObs, List.filterMap_map]
  exact List.filterMap_some

/-- The bytes of the reads are those that the driver delivers. -/
theorem flatten_reads (o : List Obs) : (reads o).flatten = Gps.delivered (driverObs o) := by
  unfold reads Gps.delivered
  induction driverObs o with
  | nil => rfl
  | cons w o ih =>
    cases w with
    | queued chunk count => simpa using ih
    | delivered bytes => simp [ih]

section Queue

variable {K : ByteFifo}

/-- Every byte that came to the queue is delivered, held by the reader, or unread. -/
structure Lossless (o : List Gps.Obs) (d : Gps.GpsState K Unit) (held : List UInt8) : Prop where
  order : (Gps.arrived o).flatten = Gps.delivered o ++ held ++ K.bytes d.gpsDataFifo
  holds : Gps.Holds d held

/-- A chunk that finds room comes behind the unread bytes. -/
theorem Lossless.queue {o : List Gps.Obs} {d : Gps.GpsState K Unit} {held : List UInt8}
    (h : Lossless o d held) {chunk : List UInt8} (hpos : 0 < chunk.length)
    (hroom : chunk.length ≤ K.avail d.gpsDataFifo) :
    Lossless (o ++ [.queued chunk (Gps.serverIn K d.gpsDataFifo chunk).2])
      { d with gpsDataFifo := (Gps.serverIn K d.gpsDataFifo chunk).1 } held := by
  -- a chunk has a byte at least, so a queue with room for it is not full
  have hfull : K.isFull d.gpsDataFifo = false := by
    unfold ByteFifo.avail at hroom
    exact decide_eq_false (by omega)
  have hin : Gps.serverIn K d.gpsDataFifo chunk = K.put d.gpsDataFifo chunk := by
    rw [Gps.serverIn, hfull]
    rfl
  rw [hin]
  refine ⟨?_, h.holds⟩
  rw [Gps.arrived_append, Gps.delivered_append, List.flatten_append, h.order,
    K.put_of_le_avail hroom]
  simp [Gps.arrived, Gps.delivered]

/-- Bytes that are taken are held from there on. -/
theorem Lossless.take {o : List Gps.Obs} {d : Gps.GpsState K Unit} {held : List UInt8}
    (h : Lossless o d held) :
    ∃ held', Lossless (o ++ (Gps.gpsNext K d (.take ())).2) (Gps.gpsNext K d (.take ())).1
      held' := by
  unfold Gps.gpsNext
  dsimp only
  split
  · next hentered =>
    have hnone : ∀ other, (d.phase other).readLen = 0 := by
      intro other
      rw [show d.phase other = .entered from hentered]
      rfl
    refine ⟨held ++ Gps.takes K d, ?_, Gps.holds_readOut h.holds hentered (.inr hnone)⟩
    have hsplit : Gps.takes K d ++ (K.bytes d.gpsDataFifo).drop (Gps.takes K d).length =
        K.bytes d.gpsDataFifo := by
      rw [Gps.length_takes, Gps.takes, List.take_append_drop]
    rw [List.append_nil, h.order, Gps.readOut_eq]
    dsimp only
    rw [K.bytes_get, ← List.append_assoc (Gps.delivered o), List.append_assoc _ (Gps.takes K d),
      hsplit]
  · exact ⟨held, by rwa [List.append_nil]⟩

/-- Bytes that are copied are delivered, and no longer held. -/
theorem Lossless.copy {o : List Gps.Obs} {d : Gps.GpsState K Unit} {held : List UInt8}
    (h : Lossless o d held) :
    ∃ held', Lossless (o ++ (Gps.gpsNext K d (.copy () true)).2)
      (Gps.gpsNext K d (.copy () true)).1 held' ∧
      ((Gps.gpsNext K d (.copy () true)).1.phase ()).readLen = 0 := by
  unfold Gps.gpsNext
  dsimp only
  cases hphase : d.phase () with
  | taken readLen =>
    dsimp only
    have hheld : held = d.gpsDataForHal.take readLen := by
      rcases h.holds with ⟨rfl, hnone⟩ | ⟨reader, hreader, -, hhal, -⟩
      · have hzero := hnone ()
        rw [hphase] at hzero
        obtain rfl : readLen = 0 := hzero
        rfl
      · obtain rfl : readLen = held.length := Gps.Phase.taken.inj (hphase.symm.trans hreader)
        exact hhal.symm
    refine ⟨[], ⟨?_, .inl ⟨rfl, fun other => ?_⟩⟩, ?_⟩
    · have harrived : Gps.arrived [.delivered held] = [] := rfl
      have hdelivered : Gps.delivered [.delivered held] = held := List.append_nil held
      rw [if_pos rfl, ← hheld, Gps.arrived_append, Gps.delivered_append, harrived, hdelivered,
        List.append_nil, List.append_nil, h.order]
    · simp [Gps.Phase.readLen]
    · simp [Gps.Phase.readLen]
  | outside =>
    refine ⟨held, by simpa using h, ?_⟩
    dsimp only
    rw [hphase]
    rfl
  | entered =>
    refine ⟨held, by simpa using h, ?_⟩
    dsimp only
    rw [hphase]
    rfl

/-- Nothing is lost in the queue, and only `gps_read` in its copy holds bytes. -/
structure Kept (o : List Obs) (s : State K) : Prop where
  exists_held : ∃ held, Lossless (driverObs o) s.driver held
  phase : (∀ fds, s.place ≠ .copying fds) → (s.driver.phase ()).readLen = 0

/-- A chunk that the server has fetched finds room. -/
def Room (s : State K) : Event → Prop
  | .server aviGpsDataHl gpsData =>
    s.server = .fetching →
      ∀ chunk ∈ Gps.fetched aviGpsDataHl gpsData, chunk.length ≤ K.avail s.driver.gpsDataFifo
  | _ => True

instance (s : State K) (e : Event) : Decidable (Room s e) := by
  cases e <;> unfold Room <;> infer_instance

/-- Moves of the thread outside `gps_read`, and what does not touch the queue. -/
theorem Kept.move {o : List Obs} {s s' : State K} {o' : List Obs} (h : Kept o s)
    (hobs : driverObs o' = []) (hfifo : s'.driver.gpsDataFifo = s.driver.gpsDataFifo)
    (hhal : s'.driver.gpsDataForHal = s.driver.gpsDataForHal)
    (hphase : s'.driver.phase = s.driver.phase)
    (hplace : ∀ fds, s.place = .copying fds → s'.place = .copying fds) : Kept (o ++ o') s' := by
  obtain ⟨held, hlossless⟩ := h.exists_held
  refine ⟨⟨held, ?_, ?_⟩, fun hno => ?_⟩
  · rw [driverObs_append, hobs, List.append_nil, hfifo]
    exact hlossless.order
  · have hholds := hlossless.holds
    unfold Gps.Holds at hholds ⊢
    rwa [hphase, hhal]
  · rw [hphase]
    exact h.phase fun fds hat => hno fds (hplace fds hat)

/-- No move of the thread loses a byte. -/
theorem Kept.thread {o : List Obs} {s s' : State K} {controlFirst : Bool} {o' : List Obs}
    (h : Kept o s) (hs : threadNext K s controlFirst = some (s', o')) : Kept (o ++ o') s' := by
  obtain ⟨held, hlossless⟩ := h.exists_held
  rcases threadNext_cases hs with ⟨place, rfl, ho, hno, -⟩ |
    ⟨cmd, control, place, fds, hat, rfl, rfl⟩ | ⟨fds, hat, rfl, rfl⟩ | ⟨fds, -, rfl, rfl⟩ |
    ⟨fds, -, rfl, rfl⟩
  · have hobs : driverObs o' = [] := by
      rcases ho with rfl | rfl <;> rfl
    exact h.move hobs rfl rfl rfl fun fds hat => absurd hat (hno fds)
  · exact h.move rfl rfl rfl rfl (by simp [hat])
  · -- it enters `gps_read` with nothing to copy
    have hbefore := h.phase (by simp [hat])
    refine ⟨⟨held, ?_, hlossless.holds.move hbefore rfl⟩, fun _ => ?_⟩
    · rw [List.append_nil]
      exact hlossless.order
    · simp [Gps.Phase.readLen]
  · obtain ⟨held', hlossless'⟩ := hlossless.take
    refine ⟨⟨held', ?_⟩, fun hno => absurd rfl (hno fds)⟩
    rwa [driverObs_append, driverObs_map]
  · obtain ⟨held', hlossless', hphase⟩ := hlossless.copy
    refine ⟨⟨held', ?_⟩, fun _ => hphase⟩
    rwa [driverObs_append, driverObs_map]

/-- No move of the server does, if its chunk finds room. -/
theorem Kept.server {o : List Obs} {s s' : State K} {hl : Option Int}
    {data : Option (Nat → UInt8)} {o' : List Obs} (h : Kept o s)
    (hroom : s.server = .fetching →
      ∀ chunk ∈ Gps.fetched hl data, chunk.length ≤ K.avail s.driver.gpsDataFifo)
    (hs : serverNext K s hl data = (s', o')) : Kept (o ++ o') s' := by
  rcases serverNext_cases hs with ⟨-, -, -, rfl, rfl⟩ | ⟨rfl, rfl, -⟩ |
    ⟨chunk, hserver, hchunk, rfl, rfl⟩ | ⟨-, -, rfl, rfl⟩ | ⟨fds, -, hat, rfl, rfl⟩
  · exact h.move rfl rfl rfl rfl fun _ hat => hat
  · exact h.move rfl rfl rfl rfl fun _ hat => hat
  · obtain ⟨held, hlossless⟩ := h.exists_held
    refine ⟨⟨held, ?_⟩, h.phase⟩
    rw [driverObs_append]
    exact hlossless.queue (Gps.fetched_ne_nil hchunk).1 (hroom hserver chunk hchunk)
  · exact h.move rfl rfl rfl rfl fun _ hat => hat
  · exact h.move rfl rfl rfl rfl (by simp [hat])

/-- No event loses a byte, if a fetched chunk finds room. -/
theorem Kept.step {o : List Obs} {s s' : State K} {e : Event} {o' : List Obs} (h : Kept o s)
    (hroom : Room s e) (hs : GpsThread.step K s e = some (s', o')) : Kept (o ++ o') s' := by
  cases e with
  | write cmd | ioctl start | eventHandle accOn =>
    cases hs
    exact h.move rfl rfl rfl rfl fun _ hat => hat
  | server aviGpsDataHl gpsData => exact h.server hroom (Option.some.inj hs)
  | signal =>
    cases hs
    rcases signalled_cases s with ⟨heq, -⟩ | ⟨fds, hat, ⟨-, heq⟩ | ⟨-, heq⟩⟩ <;> rw [heq]
    · exact h.move rfl rfl rfl rfl fun _ hat => hat
    · exact h.move rfl rfl rfl rfl (by simp [hat])
    · exact h.move rfl rfl rfl rfl (by simp [hat])
  | thread controlFirst => exact h.thread hs

/-- The queue is empty, and no reader has bytes to copy. -/
structure Drained (s : State K) : Prop where
  queue : K.bytes s.driver.gpsDataFifo = []
  phase : (s.driver.phase ()).readLen = 0

/-- What comes to the queue while there is room is what the thread reads. -/
theorem flatten_reads_eq {s s' : State K} {events : List Event} {o : List Obs} (h : Drained s)
    (hroom : StepsMeet (step K) (fun _ _ s e => Room s e) s events)
    (hrun : run (step K) s events = some (s', o)) (h' : Drained s') :
    (reads o).flatten = (Gps.arrived (driverObs o)).flatten := by
  have hkept : Kept [] s := by
    refine ⟨⟨[], ?_, .inl ⟨rfl, fun _ => h.phase⟩⟩, fun _ => h.phase⟩
    rw [h.queue]
    rfl
  have hkept' : Kept ([] ++ o) s' :=
    run_preserves_observed_meet (fun _ _ _ _ _ h hroom hs => h.step hroom hs) hkept hroom hrun
  obtain ⟨held, horder, hholds⟩ := hkept'.exists_held
  rw [hholds.eq_nil fun _ => h'.phase, h'.queue, List.append_nil, List.append_nil] at horder
  rw [flatten_reads]
  exact horder.symm

end Queue

/-! ## What is reported -/

section Reader

variable {F : Type} {env : Env F} {cb : GpsCallbacks} {clock : Nat → Int32 × Int32 × Int32}

/-- Bytes leave the callback as it is. -/
theorem feed_svStatusCb {line line' : NmeaReader} {sv sv' : SvReader F} {bytes : List UInt8}
    {statuses : List (GpsSvStatus F)}
    (h : run (feed env.toFloats) (line, sv) bytes = some ((line', sv'), statuses)) :
    sv'.svStatusCb = sv.svStatusCb := by
  obtain ⟨lines, -, hparse⟩ := run_pipe_inv h
  exact run_preserves (I := fun sv' : SvReader F => sv'.svStatusCb = sv.svStatusCb)
    (fun _ _ _ _ hsv hs => (parse_svStatusCb hs).trans hsv) rfl hparse

/-- A start within a session is reported, and else nothing. -/
theorem cmdStart_again {r : Reader F} (hcb : cb.statusCb = true) (hsvcb : cb.svStatusCb = true)
    (hset : r.sv.svStatusCb = true) :
    ∃ r' o, cmdStart cb r = some (r', o) ∧ r'.sv = r.sv ∧
      o.filterMap Report.svStatus? = [] := by
  refine ⟨_, _, cmdStart_eq_some.mpr ⟨hcb, rfl, rfl⟩, ?_, ?_⟩
  · show { r.sv with svStatusCb := cb.svStatusCb } = r.sv
    rw [hsvcb, ← hset]
  · have hnone := filterMap_svStatus ([] : List (GpsSvStatus F))
      (nmeaReaderSetCallback r.fix cb.locationCb).2
    rw [List.map_nil, List.nil_append] at hnone
    rw [List.filterMap_append, hnone]
    rfl

variable (clock) in
/-- **Behind the thread.** While no stop is served, the satellites' part of the reader gets
the bytes of the reads and nothing else, and the status reports are its own. -/
theorem run_halStep {o : List Obs} {line line' : NmeaReader} {r : Reader F} {sv' : SvReader F}
    {statuses : List (GpsSvStatus F)} (n : Nat) (hcb : cb.statusCb = true)
    (hsvcb : cb.svStatusCb = true) (hset : r.sv.svStatusCb = true) (hstop : .served .stop ∉ o)
    (h : run (feed env.toFloats) (line, r.sv) (reads o).flatten =
      some ((line', sv'), statuses)) :
    ∃ r' n' reports, run (halStep env cb clock) (line, r, n) o =
        some ((line', r', n'), reports) ∧
      r'.sv = sv' ∧ reports.filterMap Report.svStatus? = statuses := by
  induction o generalizing line r n statuses with
  | nil =>
    cases h
    exact ⟨r, n, [], rfl, rfl, rfl⟩
  | cons w o ih =>
    rw [List.mem_cons, not_or] at hstop
    -- what is no command and brings no bytes changes nothing
    have hidle (hw : halStep env cb clock (line, r, n) w = some ((line, r, n), []))
        (hreads : reads (w :: o) = reads o) :
        ∃ r' n' reports, run (halStep env cb clock) (line, r, n) (w :: o) =
            some ((line', r', n'), reports) ∧
          r'.sv = sv' ∧ reports.filterMap Report.svStatus? = statuses := by
      rw [hreads] at h
      obtain ⟨r', n', reports, hrun, hsv, hreports⟩ := ih n hset hstop.2 h
      exact ⟨r', n', reports, run_cons_eq hw hrun, hsv, hreports⟩
    cases w with
    | refused => exact hidle rfl rfl
    | served cmd =>
      cases cmd with
      | quit => exact hidle rfl rfl
      | stop => exact absurd rfl hstop.1
      | start =>
        obtain ⟨r₁, o₁, hstart, hsv₁, ho₁⟩ := cmdStart_again hcb hsvcb hset
        have hw : halStep env cb clock (line, r, n) (.served .start) =
            some ((line, r₁, n), o₁) := by
          simp only [halStep, hstart, Option.map_some]
        have hfeed : run (feed env.toFloats) (line, r₁.sv) (reads o).flatten =
            some ((line', sv'), statuses) := by
          rw [hsv₁]
          exact h
        obtain ⟨r', n', reports, hrun, hsv, hreports⟩ :=
          ih n (hsv₁ ▸ hset) hstop.2 hfeed
        refine ⟨r', n', o₁ ++ reports, run_cons_eq hw hrun, hsv, ?_⟩
        rw [List.filterMap_append, ho₁, List.nil_append, hreports]
    | driver w =>
      cases w with
      | queued chunk count => exact hidle rfl rfl
      | delivered bytes =>
        have hreads : (reads (.driver (.delivered bytes) :: o)).flatten =
            bytes ++ (reads o).flatten := rfl
        rw [hreads] at h
        obtain ⟨⟨line₁, sv₁⟩, statuses₁, statuses₂, hbytes, hrest, rfl⟩ := run_append_inv h
        have hkept := feed_svStatusCb hbytes
        obtain ⟨r₁, n₁, o₁, hw, rfl, ho₁⟩ := run_feedReader clock n hbytes
        obtain ⟨r', n', reports, hrun, hsv, hreports⟩ :=
          ih n₁ (hkept.trans hset) hstop.2 hrest
        refine ⟨r', n', o₁ ++ reports, run_cons_eq hw hrun, hsv, ?_⟩
        rw [List.filterMap_append, ho₁, hreports]

/-- **From the chip to one report.** If a group of GSV sentences comes to the queue in
chunks, each of which finds room, and the thread reads it to the end, in a session that no
stop ends meanwhile: then, over any schedule of the server, the commands, the signals and
the thread, nothing goes wrong, and `sv_status_cb` is called once, with the satellites of
the group in order. -/
theorem chip_reported {K : ByteFifo} (env : Env F) (cb : GpsCallbacks)
    (clock : Nat → Int32 × Int32 × Int32) (hcb : cb.statusCb = true)
    (hsvcb : cb.svStatusCb = true) {group : List GsvPart} (hgroup : GroupOk group)
    {line : NmeaReader} (hline : Rests line false) {r : Reader F}
    (hset : r.sv.svStatusCb = true) (n : Nat) {s s' : State K} {events : List Event}
    {o : List Obs} (h : Drained s)
    (hroom : StepsMeet (step K) (fun _ _ s e => Room s e) s events)
    (hrun : run (step K) s events = some (s', o)) (hstop : .served .stop ∉ o) (h' : Drained s')
    (hchunks : (Gps.arrived (driverObs o)).flatten = (groupSentences group).flatten) :
    ∃ line' r' n' reports, run (gpsStateThread env cb clock K) (s, line, r, n) events =
        some ((s', line', r', n'), reports) ∧
      Rests line' false ∧ reports.filterMap Report.svStatus? = [r'.sv.sv] ∧
      Reports env.toFloats r'.sv.sv (groupSats group) r.sv.fixMask ∧
      ∀ i, r'.sv.sv.ephemerisMask.toBitVec.getLsbD i = true ↔
        ∃ s ∈ groupSats group, s.prn = i + 1 := by
  have hreads : (reads o).flatten = (groupSentences group).flatten :=
    (flatten_reads_eq h hroom hrun h').trans hchunks
  obtain ⟨line', sv', hfeed, hrests, -, -, hreports, hmask⟩ :=
    group_reported env.toFloats hgroup hline r.sv hreads
  rw [runChunks_eq, hset, if_pos rfl] at hfeed
  obtain ⟨r', n', reports, hhal, rfl, hone⟩ :=
    run_halStep clock n hcb hsvcb hset hstop hfeed
  exact ⟨line', r', n', reports, run_pipe hrun hhal, hrests, hone, hreports, hmask⟩

/-- No arithmetic at all. -/
def zeroEnv : Env Int where
  toFloats := zeroFloats
  neg x := x
  dcoord x := x
  metres x := x
  toInt _ := 0
  mktime _ := 0
  utcDiff := 0

/-- The reader in a session. -/
def readerStarted : Reader Int :=
  { readerInit zeroEnv with sv := svReaderStarted zeroFloats, statusCb := true }

/-- A round of the server with a whole chunk. -/
def serverRound (chunk : List UInt8) : List Event :=
  [.server none none, .server (some chunk.length) (some fun i => chunk.getD i 0),
    .server none none, .server none none]

/-- Two chunks; the thread has read the first and sleeps when the second comes, and is then
started once more. -/
def fiveSatsEvents : List Event :=
  [.ioctl true] ++ serverRound ((groupSentences fiveSats).flatten.take 50) ++
    List.replicate 8 (.thread true) ++ [.write .start] ++
    serverRound ((groupSentences fiveSats).flatten.drop 50) ++ List.replicate 3 (.thread true) ++
    [.ioctl false] ++ List.replicate 5 (.thread true)

/-- Two chunks in two reads, and a start behind them. -/
theorem chip_reported_fiveSats :
    ∃ s line r n reports,
      run (gpsStateThread zeroEnv ⟨true, true, true⟩ (fun _ => (0, 0, 0)) ringFifo)
          (State.init ringFifo, nmeaReaderInit, readerStarted, 0) fiveSatsEvents =
        some ((s, line, r, n), reports) ∧
      reports.filterMap Report.svStatus? = [r.sv.sv] ∧
      Reports zeroFloats r.sv.sv (groupSats fiveSats) 0 := by
  have hmap : (run (step ringFifo) (State.init ringFifo) fiveSatsEvents).map (fun r =>
      (ringFifo.bytes r.1.driver.gpsDataFifo, (r.1.driver.phase ()).readLen,
        (Gps.arrived (driverObs r.2)).flatten, r.2.count (.served .stop))) =
      some ([], 0, (groupSentences fiveSats).flatten, 0) := by decide +kernel
  have hroom : StepsMeet (step ringFifo) (fun _ _ s e => Room s e) (State.init ringFifo)
      fiveSatsEvents := by decide +kernel
  obtain ⟨⟨s, o⟩, hrun, heq⟩ := Option.map_eq_some_iff.mp hmap
  obtain ⟨hqueue, hphase, hchunks, hstop⟩ : ringFifo.bytes s.driver.gpsDataFifo = [] ∧
      (s.driver.phase ()).readLen = 0 ∧
      (Gps.arrived (driverObs o)).flatten = (groupSentences fiveSats).flatten ∧
      o.count (.served .stop) = 0 := by
    simpa using heq
  have hinit : Drained (State.init ringFifo) := ⟨ringFifo.bytes_init 12, rfl⟩
  have hline : Rests nmeaReaderInit false := ⟨rfl, rfl⟩
  obtain ⟨line, r, n, reports, hall, -, hone, hreports, -⟩ :=
    chip_reported zeroEnv ⟨true, true, true⟩ (fun _ => (0, 0, 0)) rfl rfl groupOk_fiveSats hline
      (r := readerStarted) rfl 0 hinit hroom hrun (List.count_eq_zero.mp hstop) ⟨hqueue, hphase⟩
      hchunks
  exact ⟨s, line, r, n, reports, hall, hone, hreports⟩

end Reader

end Lidbg.GpsThread
