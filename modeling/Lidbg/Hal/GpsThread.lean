import Lidbg.Drivers.Gps

/-!
# The GPS thread and its driver (`hal/gpslib/gps_ublox.c`, `drivers/gps/lidbg_gps.c`)

`gps_state_thread` waits for commands and for data, and when there are data reads until a
read fails. `epoll_register` makes the descriptors nonblocking, but `gps_read` does not look
at `O_NONBLOCK`: it fails only if the driver is stopped when the read begins, and else waits
for data, started or not. A signal ends the wait, and then the read begins again, by the
kernel or by the thread (`EINTR`).

The server looks at `started` twice in a round, before it asks the receiver and before it
wakes the readers, and may be overtaken by a stop behind either.

- `served_refused`: from inside the reads no command is served before a read is refused.
- `stop_heard_iff`: with the driver stopped, the next command can be served before it is
  started again or a signal comes, if and only if the thread is not about to sleep, or
  asleep, without a server that was overtaken by the stop.
- `signal_heard`: a signal brings the thread back to the command.
-/

namespace Lidbg.GpsThread

open Machine

/-- What is written to the control socket. -/
inductive Cmd where
  | quit
  | start
  | stop
deriving DecidableEq

/-- What `epoll_wait` looks at. -/
inductive Fd where
  | control
  | gps
deriving DecidableEq

/-- Where the thread is: in `epoll_wait`, in the loop over its events, or in a read with
the events after it: before it, behind the test of `started`, asleep, behind the test for
data, with bytes to copy. -/
inductive Place where
  | epoll
  | events (fds : List Fd)
  | reading (fds : List Fd)
  | waiting (fds : List Fd)
  | asleep (fds : List Fd)
  | taking (fds : List Fd)
  | copying (fds : List Fd)
  | done
deriving DecidableEq

/-- Where `thread_gps_server` is in its round: before its first test of `started`, behind
it, behind `up`, and behind its second test. -/
inductive ServerPlace where
  | idle
  | fetching
  | queued
  | waking
deriving DecidableEq

/-- The thread is its driver's only reader. -/
structure State (K : ByteFifo) where
  driver : Gps.GpsState K Unit
  control : List Cmd
  place : Place
  server : ServerPlace

/-- The commands of `gps_state_start` and the others, the driver's calls, the next moves of
its server (with what it gets from the receiver) and of the thread, and a signal for the
thread. -/
inductive Event where
  | write (cmd : Cmd)
  | ioctl (start : Bool)
  | eventHandle (accOn : Bool)
  | server (aviGpsDataHl : Option Int) (gpsData : Option (Nat → UInt8))
  | signal
  | thread (controlFirst : Bool)

/-- A command is served, or a read refused; and what the driver shows. -/
inductive Obs where
  | served (cmd : Cmd)
  | refused
  | driver (o : Gps.Obs)
deriving DecidableEq

section Model

variable (K : ByteFifo)

/-- The ready descriptors; `gps_poll` says nothing of data when the driver is stopped. -/
def ready (s : State K) : List Fd :=
  (if s.control = [] then [] else [.control]) ++
    if s.driver.started = true ∧ K.isEmpty s.driver.gpsDataFifo = false then [.gps] else []

/-- The next move of `gps_state_thread`; `none` if it sleeps, or is over. What a command or
the bytes of a read do to the reader is not here: they are observed. -/
def threadNext (s : State K) (controlFirst : Bool) : Option (State K × List Obs) :=
  match s.place with
  | .epoll =>
    let fds := if controlFirst then ready K s else (ready K s).reverse
    some ({ s with place := .events fds }, [])
  | .events [] => some ({ s with place := .epoll }, [])
  | .events (.control :: fds) =>
    match s.control with
    | [] => some ({ s with place := .events fds }, [])
    | .quit :: control => some ({ s with control := control, place := .done }, [.served .quit])
    | cmd :: control => some ({ s with control := control, place := .events fds }, [.served cmd])
  | .events (.gps :: fds) => some ({ s with place := .reading fds }, [])
  | .reading fds =>
    if s.driver.started then some ({ s with place := .waiting fds }, [])
    else some ({ s with place := .events fds }, [.refused])
  | .waiting fds =>
    if K.isEmpty s.driver.gpsDataFifo then some ({ s with place := .asleep fds }, [])
    else
      let driver := { s.driver with phase := Function.update s.driver.phase () .entered }
      some ({ s with driver := driver, place := .taking fds }, [])
  | .asleep _ => none
  | .taking fds =>
    let r := Gps.gpsNext K s.driver (.take ())
    some ({ s with driver := r.1, place := .copying fds }, r.2.map .driver)
  | .copying fds =>
    let r := Gps.gpsNext K s.driver (.copy () true)
    some ({ s with driver := r.1, place := .reading fds }, r.2.map .driver)
  | .done => none

/-- The next move of `thread_gps_server`. Who is woken looks for data again. -/
def serverNext (s : State K) (aviGpsDataHl : Option Int) (gpsData : Option (Nat → UInt8)) :
    State K × List Obs :=
  match s.server with
  | .idle =>
    if s.driver.workEn = true ∧ s.driver.started = true then ({ s with server := .fetching }, [])
    else (s, [])
  | .fetching =>
    match Gps.fetched aviGpsDataHl gpsData with
    | none => ({ s with server := .idle }, [])
    | some chunk =>
      let r := Gps.serverIn K s.driver.gpsDataFifo chunk
      ({ s with driver := { s.driver with gpsDataFifo := r.1 }, server := .queued },
        [.driver (.queued chunk r.2)])
  | .queued =>
    if s.driver.started then ({ s with server := .waking }, [])
    else ({ s with server := .idle }, [])
  | .waking =>
    match s.place with
    | .asleep fds => ({ s with place := .waiting fds, server := .idle }, [])
    | _ => ({ s with server := .idle }, [])

/-- A signal ends a wait without data: `-ERESTARTSYS`, and the read begins again. -/
def signalled (s : State K) : State K :=
  match s.place with
  | .asleep fds =>
    if K.isEmpty s.driver.gpsDataFifo then { s with place := .reading fds }
    else { s with place := .waiting fds }
  | _ => s

def step : Step (State K) Event Obs := fun s e =>
  match e with
  | .write cmd => some ({ s with control := s.control ++ [cmd] }, [])
  | .ioctl start =>
    some ({ s with driver := (Gps.gpsNext K s.driver (.ioctl start)).1 }, [])
  | .eventHandle accOn =>
    some ({ s with driver := (Gps.gpsNext K s.driver (.eventHandle accOn)).1 }, [])
  | .server aviGpsDataHl gpsData => some (serverNext K s aviGpsDataHl gpsData)
  | .signal => some (signalled K s, [])
  | .thread controlFirst => threadNext K s controlFirst

/-- `gps_probe`, `gps_state_init` and the start of the thread. -/
def State.init : State K := ⟨Gps.gpsProbe K, [], .epoll, .idle⟩

end Model

/-- The thread is between the first read and a refused one. -/
def Place.InReads : Place → Prop
  | .reading _ => True
  | .waiting _ => True
  | .asleep _ => True
  | .taking _ => True
  | .copying _ => True
  | _ => False

section Thread

variable {K : ByteFifo}

/-! ## What the moves of the others do -/

/-- The driver shows no command and no refused read. -/
theorem gpsNext_driver (d : Gps.GpsState K Unit) (e : Gps.Event Unit) :
    ∀ w ∈ (Gps.gpsNext K d e).2.map Obs.driver, (∀ cmd, w ≠ .served cmd) ∧ w ≠ .refused := by
  intro w hw
  obtain ⟨o, -, rfl⟩ := List.mem_map.mp hw
  exact ⟨fun _ => by simp, by simp⟩

/-- **What a move of the server does**: it begins a round, ends it, queues a chunk, passes
its second test, or wakes the thread. -/
theorem serverNext_cases {s s' : State K} {hl : Option Int} {data : Option (Nat → UInt8)}
    {o : List Obs} (h : serverNext K s hl data = (s', o)) :
    (s.server = .idle ∧ s.driver.workEn = true ∧ s.driver.started = true ∧
        s' = { s with server := .fetching } ∧ o = []) ∨
      (s' = { s with server := .idle } ∧ o = [] ∧
        ∀ fds, s.server = .waking → s.place ≠ .asleep fds) ∨
      (∃ chunk, s.server = .fetching ∧ Gps.fetched hl data = some chunk ∧
        s' = { s with
          driver := { s.driver with
            gpsDataFifo := (Gps.serverIn K s.driver.gpsDataFifo chunk).1 }
          server := .queued } ∧
        o = [.driver (.queued chunk (Gps.serverIn K s.driver.gpsDataFifo chunk).2)]) ∨
      (s.server = .queued ∧ s.driver.started = true ∧ s' = { s with server := .waking } ∧
        o = []) ∨
      ∃ fds, s.server = .waking ∧ s.place = .asleep fds ∧
        s' = { s with place := .waiting fds, server := .idle } ∧ o = [] := by
  unfold serverNext at h
  cases hserver : s.server with
  | idle =>
    rw [hserver] at h
    dsimp only at h
    split_ifs at h with hon
    · cases h
      exact .inl ⟨rfl, hon.1, hon.2, rfl, rfl⟩
    · cases h
      obtain ⟨driver, control, place, server⟩ := s
      obtain rfl : server = .idle := hserver
      exact .inr (.inl ⟨rfl, rfl, fun _ hc => by cases hc⟩)
  | fetching =>
    rw [hserver] at h
    dsimp only at h
    cases hchunk : Gps.fetched hl data with
    | none =>
      rw [hchunk] at h
      cases h
      exact .inr (.inl ⟨rfl, rfl, fun _ hc => by cases hc⟩)
    | some chunk =>
      rw [hchunk] at h
      cases h
      exact .inr (.inr (.inl ⟨chunk, rfl, rfl, rfl, rfl⟩))
  | queued =>
    rw [hserver] at h
    dsimp only at h
    split_ifs at h with hstarted
    · cases h
      exact .inr (.inr (.inr (.inl ⟨rfl, hstarted, rfl, rfl⟩)))
    · cases h
      exact .inr (.inl ⟨rfl, rfl, fun _ hc => by cases hc⟩)
  | waking =>
    rw [hserver] at h
    dsimp only at h
    cases hat : s.place with
    | asleep fds =>
      rw [hat] at h
      cases h
      exact .inr (.inr (.inr (.inr ⟨fds, rfl, rfl, rfl, rfl⟩)))
    | _ =>
      rw [hat] at h
      cases h
      exact .inr (.inl ⟨rfl, rfl, fun _ _ hc => by cases hc⟩)

/-- **What a signal does**: nothing, or it sends a sleeping thread back into its read. -/
theorem signalled_cases (s : State K) :
    (signalled K s = s ∧ ∀ fds, s.place ≠ .asleep fds) ∨
      ∃ fds, s.place = .asleep fds ∧
        (K.isEmpty s.driver.gpsDataFifo = true ∧ signalled K s = { s with place := .reading fds } ∨
          K.isEmpty s.driver.gpsDataFifo = false ∧
            signalled K s = { s with place := .waiting fds }) := by
  unfold signalled
  cases hat : s.place with
  | asleep fds =>
    refine .inr ⟨fds, rfl, ?_⟩
    dsimp only
    cases hempty : K.isEmpty s.driver.gpsDataFifo with
    | true => exact .inl ⟨rfl, if_pos rfl⟩
    | false => exact .inr ⟨rfl, if_neg Bool.false_ne_true⟩
  | _ => exact .inl ⟨rfl, fun _ hc => by cases hc⟩

/-- **What a move of the thread does**: it goes on, with a refused read or without; it serves a
command; it enters `gps_read` behind the wait, takes bytes there, or copies them. -/
theorem threadNext_cases {s s' : State K} {controlFirst : Bool} {o : List Obs}
    (h : threadNext K s controlFirst = some (s', o)) :
    (∃ place, s' = { s with place := place } ∧ (o = [] ∨ o = [.refused]) ∧
        (∀ fds, s.place ≠ .copying fds) ∧ (s.place.InReads → place.InReads ∨ .refused ∈ o)) ∨
      (∃ cmd control place fds, s.place = .events fds ∧
        s' = { s with control := control, place := place } ∧ o = [.served cmd]) ∨
      (∃ fds, s.place = .waiting fds ∧
        s' = { s with
          driver := { s.driver with phase := Function.update s.driver.phase () .entered }
          place := .taking fds } ∧ o = []) ∨
      (∃ fds, s.place = .taking fds ∧
        s' = { s with driver := (Gps.gpsNext K s.driver (.take ())).1, place := .copying fds } ∧
        o = (Gps.gpsNext K s.driver (.take ())).2.map .driver) ∨
      ∃ fds, s.place = .copying fds ∧
        s' = { s with
          driver := (Gps.gpsNext K s.driver (.copy () true)).1
          place := .reading fds } ∧
        o = (Gps.gpsNext K s.driver (.copy () true)).2.map .driver := by
  unfold threadNext at h
  cases hat : s.place with
  | epoll =>
    rw [hat] at h
    cases h
    exact .inl ⟨_, rfl, .inl rfl, nofun, False.elim⟩
  | events fds =>
    rw [hat] at h
    cases fds with
    | nil =>
      cases h
      exact .inl ⟨_, rfl, .inl rfl, nofun, False.elim⟩
    | cons fd fds =>
      cases fd with
      | control =>
        cases hcontrol : s.control with
        | nil =>
          rw [hcontrol] at h
          cases h
          exact .inl ⟨_, rfl, .inl rfl, nofun, False.elim⟩
        | cons cmd control =>
          -- only here the thread takes from the control pipe
          rw [hcontrol] at h
          cases cmd <;> cases h <;> exact .inr (.inl ⟨_, _, _, _, rfl, rfl, rfl⟩)
      | gps =>
        cases h
        exact .inl ⟨_, rfl, .inl rfl, nofun, False.elim⟩
  | reading fds =>
    rw [hat] at h
    dsimp only at h
    split at h
    · cases h
      exact .inl ⟨_, rfl, .inl rfl, nofun, fun _ => .inl trivial⟩
    · cases h
      exact .inl ⟨_, rfl, .inr rfl, nofun, fun _ => .inr (List.mem_singleton_self _)⟩
  | waiting fds =>
    rw [hat] at h
    dsimp only at h
    split at h
    · cases h
      exact .inl ⟨_, rfl, .inl rfl, nofun, fun _ => .inl trivial⟩
    · cases h
      exact .inr (.inr (.inl ⟨fds, rfl, rfl, rfl⟩))
  | taking fds =>
    rw [hat] at h
    cases h
    exact .inr (.inr (.inr (.inl ⟨fds, rfl, rfl, rfl⟩)))
  | copying fds =>
    rw [hat] at h
    cases h
    exact .inr (.inr (.inr (.inr ⟨fds, rfl, rfl, rfl⟩)))
  | _ =>
    rw [hat] at h
    cases h

/-! ## Commands -/

/-- A move inside the reads stays there, or is a refused read. -/
theorem Place.InReads.step {s s' : State K} {e : Event} {o : List Obs} (h : s.place.InReads)
    (hs : GpsThread.step K s e = some (s', o)) :
    (∀ cmd, .served cmd ∉ o) ∧ (s'.place.InReads ∨ .refused ∈ o) := by
  cases e with
  | write cmd =>
    cases hs
    exact ⟨fun _ => List.not_mem_nil, .inl h⟩
  | ioctl start =>
    cases hs
    exact ⟨fun _ => List.not_mem_nil, .inl h⟩
  | eventHandle accOn =>
    cases hs
    exact ⟨fun _ => List.not_mem_nil, .inl h⟩
  | server aviGpsDataHl gpsData =>
    rcases serverNext_cases (Option.some.inj hs) with ⟨-, -, -, rfl, rfl⟩ | ⟨rfl, rfl, -⟩ |
      ⟨chunk, -, -, rfl, rfl⟩ | ⟨-, -, rfl, rfl⟩ | ⟨fds, -, -, rfl, rfl⟩
    · exact ⟨fun _ => List.not_mem_nil, .inl h⟩
    · exact ⟨fun _ => List.not_mem_nil, .inl h⟩
    · exact ⟨fun _ => by simp, .inl h⟩
    · exact ⟨fun _ => List.not_mem_nil, .inl h⟩
    · exact ⟨fun _ => List.not_mem_nil, .inl trivial⟩
  | signal =>
    cases hs
    rcases signalled_cases s with ⟨heq, -⟩ | ⟨fds, -, ⟨-, heq⟩ | ⟨-, heq⟩⟩
    · exact ⟨fun _ => List.not_mem_nil, .inl (by rwa [heq])⟩
    · exact ⟨fun _ => List.not_mem_nil, .inl (by rw [heq]; trivial)⟩
    · exact ⟨fun _ => List.not_mem_nil, .inl (by rw [heq]; trivial)⟩
  | thread controlFirst =>
    rcases threadNext_cases hs with ⟨place, rfl, ho, -, hstay⟩ |
      ⟨cmd, control, place, fds, hat, -, -⟩ | ⟨fds, -, rfl, rfl⟩ | ⟨fds, -, rfl, rfl⟩ |
      ⟨fds, -, rfl, rfl⟩
    · refine ⟨fun cmd => ?_, hstay h⟩
      rcases ho with rfl | rfl <;> simp
    · rw [hat] at h
      exact h.elim
    · exact ⟨fun _ => List.not_mem_nil, .inl trivial⟩
    · exact ⟨fun cmd hmem => (gpsNext_driver _ _ _ hmem).1 cmd rfl, .inl trivial⟩
    · exact ⟨fun cmd hmem => (gpsNext_driver _ _ _ hmem).1 cmd rfl, .inl trivial⟩

/-- **A command waits for a refused read.** From inside the reads, in every run in which no
read is refused, no command is served and the thread stays inside the reads. -/
theorem served_refused {s s' : State K} {events : List Event} {o : List Obs}
    (h : s.place.InReads) (hrun : run (step K) s events = some (s', o)) (hnone : .refused ∉ o) :
    (∀ cmd, .served cmd ∉ o) ∧ s'.place.InReads := by
  induction events generalizing s o with
  | nil =>
    cases hrun
    exact ⟨fun _ => List.not_mem_nil, h⟩
  | cons e events ih =>
    obtain ⟨s₁, o₁, o₂, h₁, h₂, rfl⟩ := run_cons_inv hrun
    rw [List.mem_append, not_or] at hnone
    obtain ⟨hserved, hstay⟩ := h.step h₁
    obtain ⟨hserved', hstay'⟩ := ih (hstay.resolve_right hnone.1) h₂ hnone.2
    refine ⟨fun cmd hmem => ?_, hstay'⟩
    rcases List.mem_append.mp hmem with hmem | hmem
    · exact hserved cmd hmem
    · exact hserved' cmd hmem

/-! ## When the driver is stopped -/

/-- Neither a start of the driver nor a signal. -/
def Undisturbed (e : Event) : Prop := e ≠ .ioctl true ∧ e ≠ .signal

theorem undisturbed_thread : Undisturbed (.thread true) := ⟨nofun, nofun⟩

theorem undisturbed_server (hl : Option Int) (data : Option (Nat → UInt8)) :
    Undisturbed (.server hl data) := ⟨nofun, nofun⟩

/-- There is a schedule without a start and without a signal, in which the command is
served. -/
def Serves (s : State K) (cmd : Cmd) : Prop :=
  ∃ events s' o, (∀ e ∈ events, Undisturbed e) ∧ run (step K) s events = some (s', o) ∧
    .served cmd ∈ o

/-- The command is served by this event. -/
theorem Serves.here {s s' : State K} {e : Event} {cmd : Cmd} {o : List Obs} (he : Undisturbed e)
    (h : step K s e = some (s', o)) (hserved : .served cmd ∈ o) : Serves s cmd :=
  ⟨[e], s', o, by simpa using he, run_singleton h, hserved⟩

/-- An event that disturbs nothing can come before. -/
theorem Serves.later {s s' : State K} {e : Event} {cmd : Cmd} {o : List Obs} (h : Serves s' cmd)
    (he : Undisturbed e) (hs : step K s e = some (s', o)) : Serves s cmd := by
  obtain ⟨events, s'', o', hevents, hrun, hserved⟩ := h
  exact ⟨e :: events, s'', o ++ o', List.forall_mem_cons.mpr ⟨he, hevents⟩,
    run_cons_eq hs hrun, List.mem_append_right o hserved⟩

/-- With the control socket next, the command is served. -/
theorem serves_control {s : State K} {cmd : Cmd} {rest : List Cmd} {fds : List Fd}
    (hcmd : s.control = cmd :: rest) (hat : s.place = .events (.control :: fds)) :
    Serves s cmd := by
  cases cmd with
  | quit =>
    have hs : step K s (.thread true) =
        some ({ s with control := rest, place := .done }, [.served .quit]) := by
      simp only [step, threadNext, hat, hcmd]
    exact .here undisturbed_thread hs (List.mem_singleton_self _)
  | start =>
    have hs : step K s (.thread true) =
        some ({ s with control := rest, place := .events fds }, [.served .start]) := by
      simp only [step, threadNext, hat, hcmd]
    exact .here undisturbed_thread hs (List.mem_singleton_self _)
  | stop =>
    have hs : step K s (.thread true) =
        some ({ s with control := rest, place := .events fds }, [.served .stop]) := by
      simp only [step, threadNext, hat, hcmd]
    exact .here undisturbed_thread hs (List.mem_singleton_self _)

/-- When the driver is stopped only the control socket is ready. -/
theorem ready_stopped {s : State K} {cmd : Cmd} {rest : List Cmd}
    (hcmd : s.control = cmd :: rest) (hstop : s.driver.started = false) :
    ready K s = [.control] := by
  simp [ready, hcmd, hstop]

/-- With the events still to be handled, whatever they are. -/
theorem serves_events {cmd : Cmd} {rest : List Cmd} (fds : List Fd) :
    ∀ {s : State K}, s.control = cmd :: rest → s.driver.started = false →
      s.place = .events fds → Serves s cmd := by
  induction fds with
  | nil =>
    intro s hcmd hstop hat
    have hwait : step K s (.thread true) = some ({ s with place := .epoll }, []) := by
      simp only [step, threadNext, hat]
    have hready : ready K { s with place := .epoll } = [.control] := ready_stopped hcmd hstop
    have hpoll : step K { s with place := .epoll } (.thread true) =
        some ({ s with place := .events [.control] }, []) := by
      simp only [step, threadNext, hready, if_true]
    have hserves : Serves { s with place := .events [.control] } cmd := serves_control hcmd rfl
    exact (hserves.later undisturbed_thread hpoll).later undisturbed_thread hwait
  | cons fd fds ih =>
    intro s hcmd hstop hat
    cases fd with
    | control => exact serves_control hcmd hat
    | gps =>
      have hread : step K s (.thread true) = some ({ s with place := .reading fds }, []) := by
        simp only [step, threadNext, hat]
      have hrefused : step K { s with place := .reading fds } (.thread true) =
          some ({ s with place := .events fds }, [.refused]) := by
        simp only [step, threadNext, hstop, Bool.false_eq_true, if_false]
      have hserves : Serves { s with place := .events fds } cmd := ih hcmd hstop rfl
      exact (hserves.later undisturbed_thread hrefused).later undisturbed_thread hread

/-- A read that begins now is refused, and then the socket is looked at. -/
theorem serves_reading {s : State K} {cmd : Cmd} {rest : List Cmd} {fds : List Fd}
    (hcmd : s.control = cmd :: rest) (hstop : s.driver.started = false)
    (hat : s.place = .reading fds) : Serves s cmd := by
  have hrefused : step K s (.thread true) = some ({ s with place := .events fds }, [.refused]) := by
    simp only [step, threadNext, hat, hstop, Bool.false_eq_true, if_false]
  have hserves : Serves { s with place := .events fds } cmd := serves_events fds hcmd hstop rfl
  exact hserves.later undisturbed_thread hrefused

/-- Taking bytes does not start the driver, -/
theorem started_take (d : Gps.GpsState K Unit) :
    (Gps.gpsNext K d (.take ())).1.started = d.started := by
  simp only [Gps.gpsNext]
  split <;> rfl

/-- nor does copying them. -/
theorem started_copy (d : Gps.GpsState K Unit) :
    (Gps.gpsNext K d (.copy () true)).1.started = d.started := by
  simp only [Gps.gpsNext]
  split <;> rfl

/-- Behind the copy the next read is refused. -/
theorem serves_copying {s : State K} {cmd : Cmd} {rest : List Cmd} {fds : List Fd}
    (hcmd : s.control = cmd :: rest) (hstop : s.driver.started = false)
    (hat : s.place = .copying fds) : Serves s cmd := by
  let r := Gps.gpsNext K s.driver (.copy () true)
  have hs : step K s (.thread true) =
      some ({ s with driver := r.1, place := .reading fds }, r.2.map .driver) := by
    simp only [step, threadNext, hat]
    rfl
  have hserves : Serves { s with driver := r.1, place := .reading fds } cmd :=
    serves_reading hcmd ((started_copy s.driver).trans hstop) rfl
  exact hserves.later undisturbed_thread hs

/-- A read that has found data comes to an end, and the next one is refused. -/
theorem serves_taking {s : State K} {cmd : Cmd} {rest : List Cmd} {fds : List Fd}
    (hcmd : s.control = cmd :: rest) (hstop : s.driver.started = false)
    (hat : s.place = .taking fds) : Serves s cmd := by
  let r := Gps.gpsNext K s.driver (.take ())
  have hs : step K s (.thread true) =
      some ({ s with driver := r.1, place := .copying fds }, r.2.map .driver) := by
    simp only [step, threadNext, hat]
    rfl
  have hserves : Serves { s with driver := r.1, place := .copying fds } cmd :=
    serves_copying hcmd ((started_take s.driver).trans hstop) rfl
  exact hserves.later undisturbed_thread hs

/-- Behind the test of `started`, with data in the queue. -/
theorem serves_waiting {s : State K} {cmd : Cmd} {rest : List Cmd} {fds : List Fd}
    (hcmd : s.control = cmd :: rest) (hstop : s.driver.started = false)
    (hat : s.place = .waiting fds) (hdata : K.isEmpty s.driver.gpsDataFifo = false) :
    Serves s cmd := by
  let d := { s.driver with phase := Function.update s.driver.phase () .entered }
  have hs : step K s (.thread true) = some ({ s with driver := d, place := .taking fds }, []) := by
    simp only [step, threadNext, hat, hdata, Bool.false_eq_true, if_false]
    rfl
  have hserves : Serves { s with driver := d, place := .taking fds } cmd :=
    serves_taking hcmd hstop rfl
  exact hserves.later undisturbed_thread hs

/-- The thread is not asleep, and does not find the queue empty; or a round of the server
that began before the stop still brings it data, or wakes it with some. -/
def Hears (s : State K) : Prop :=
  match s.place with
  | .waiting _ => K.isEmpty s.driver.gpsDataFifo = false ∨ s.server = .fetching
  | .asleep _ => K.isEmpty s.driver.gpsDataFifo = false ∧ s.server = .waking
  | _ => True

/-- A chunk for an empty queue is in it. -/
theorem isEmpty_serverIn {fifo : K.State} (hsize : K.size fifo = Gps.fifoSize)
    (hempty : K.isEmpty fifo = true) (b : UInt8) :
    K.isEmpty (Gps.serverIn K fifo [b]).1 = false := by
  have hbytes : K.bytes fifo = [] := (K.isEmpty_iff fifo).mp hempty
  have hfull : K.isFull fifo = false := by
    rw [ByteFifo.isFull, hbytes, hsize]
    decide
  have hin : K.bytes (Gps.serverIn K fifo [b]).1 = [b] := by
    rw [Gps.serverIn, hfull, if_neg Bool.false_ne_true, K.bytes_put, hbytes, hsize]
    rfl
  rw [Bool.eq_false_iff]
  intro hc
  rw [K.isEmpty_iff, hin] at hc
  cases hc

/-- Whoever hears serves the command, wherever it is in its reads. -/
theorem Hears.serves {s : State K} {cmd : Cmd} {rest : List Cmd} (hears : Hears s)
    (h : s.place.InReads) (hcmd : s.control = cmd :: rest) (hstop : s.driver.started = false)
    (hsize : K.size s.driver.gpsDataFifo = Gps.fifoSize) : Serves s cmd := by
  unfold Hears at hears
  cases hat : s.place with
  | reading fds => exact serves_reading hcmd hstop hat
  | waiting fds =>
    rw [hat] at hears
    cases hempty : K.isEmpty s.driver.gpsDataFifo with
    | false => exact serves_waiting hcmd hstop hat hempty
    | true =>
      -- the server brings a byte before the thread looks
      have hfetch : s.server = .fetching := hears.resolve_left (by rw [hempty]; decide)
      let r := Gps.serverIn K s.driver.gpsDataFifo [36]
      let s₁ : State K :=
        { s with driver := { s.driver with gpsDataFifo := r.1 }, server := .queued }
      have hs : step K s (.server (some 1) (some fun _ => 36)) =
          some (s₁, [.driver (.queued [36] r.2)]) := by
        simp only [step, serverNext, hfetch]
        rfl
      have hserves : Serves s₁ cmd :=
        serves_waiting hcmd hstop hat (isEmpty_serverIn hsize hempty 36)
      exact hserves.later (undisturbed_server _ _) hs
  | asleep fds =>
    rw [hat] at hears
    obtain ⟨hdata, hwaking⟩ := hears
    have hs : step K s (.server none none) =
        some ({ s with place := .waiting fds, server := .idle }, []) := by
      simp only [step, serverNext, hwaking, hat]
    have hserves : Serves { s with place := .waiting fds, server := .idle } cmd :=
      serves_waiting hcmd hstop rfl hdata
    exact hserves.later (undisturbed_server _ _) hs
  | taking fds => exact serves_taking hcmd hstop hat
  | copying fds => exact serves_copying hcmd hstop hat
  | _ =>
    rw [hat] at h
    exact h.elim

/-- The driver is stopped, and the thread sleeps without a server that wakes it with data,
or goes to sleep with its next move. -/
structure Stuck (s : State K) : Prop where
  stopped : s.driver.started = false
  place : ∃ fds,
    s.place = .asleep fds ∧ (s.server = .waking → K.isEmpty s.driver.gpsDataFifo = true) ∨
    s.place = .waiting fds ∧ K.isEmpty s.driver.gpsDataFifo = true ∧ s.server ≠ .fetching

/-- Who does not hear is stuck, when the driver is stopped. -/
theorem stuck_of_not_hears {s : State K} (hears : ¬ Hears s)
    (hstop : s.driver.started = false) : Stuck s := by
  unfold Hears at hears
  cases hat : s.place with
  | waiting fds =>
    rw [hat, not_or, Bool.not_eq_false] at hears
    exact ⟨hstop, fds, .inr ⟨hat, hears⟩⟩
  | asleep fds =>
    rw [hat] at hears
    refine ⟨hstop, fds, .inl ⟨hat, fun hwaking => ?_⟩⟩
    rw [← Bool.not_eq_false]
    exact fun hdata => hears ⟨hdata, hwaking⟩
  | _ =>
    rw [hat] at hears
    exact absurd trivial hears

/-- A move of the server leaves it so: its tests of `started` fail. -/
theorem Stuck.server {s s' : State K} {hl : Option Int} {data : Option (Nat → UInt8)}
    {o : List Obs} (h : Stuck s) (hs : serverNext K s hl data = (s', o)) : Stuck s' := by
  have hstop := h.stopped
  obtain ⟨fds, ⟨hat, hwaking⟩ | ⟨hat, hempty, hfetch⟩⟩ := h.place
  · rcases serverNext_cases hs with ⟨-, -, hon, -, -⟩ | ⟨rfl, -, -⟩ | ⟨chunk, -, -, rfl, -⟩ |
      ⟨-, hon, -, -⟩ | ⟨fds', hserver, hat', rfl, -⟩
    · rw [hstop] at hon
      cases hon
    · exact ⟨hstop, fds, .inl ⟨hat, fun hc => by cases hc⟩⟩
    · exact ⟨hstop, fds, .inl ⟨hat, fun hc => by cases hc⟩⟩
    · rw [hstop] at hon
      cases hon
    · -- woken without data it goes to sleep again
      exact ⟨hstop, fds', .inr ⟨rfl, hwaking hserver, nofun⟩⟩
  · rcases serverNext_cases hs with ⟨-, -, hon, -, -⟩ | ⟨rfl, -, -⟩ | ⟨chunk, hserver, -, -, -⟩ |
      ⟨-, hon, -, -⟩ | ⟨fds', -, hat', -, -⟩
    · rw [hstop] at hon
      cases hon
    · exact ⟨hstop, fds, .inr ⟨hat, hempty, nofun⟩⟩
    · exact absurd hserver hfetch
    · rw [hstop] at hon
      cases hon
    · rw [hat] at hat'
      cases hat'

/-- Nothing wakes it but a start or a signal. -/
theorem Stuck.step {s s' : State K} {e : Event} {o : List Obs} (h : Stuck s)
    (he : Undisturbed e) (hs : GpsThread.step K s e = some (s', o)) : Stuck s' := by
  cases e with
  | write cmd =>
    cases hs
    exact ⟨h.stopped, h.place⟩
  | ioctl start =>
    cases hs
    cases start with
    | true => exact absurd rfl he.1
    | false => exact ⟨rfl, h.place⟩
  | eventHandle accOn =>
    cases hs
    exact ⟨h.stopped, h.place⟩
  | server aviGpsDataHl gpsData => exact h.server (Option.some.inj hs)
  | signal => exact absurd rfl he.2
  | thread controlFirst =>
    obtain ⟨fds, ⟨hat, -⟩ | ⟨hat, hempty, -⟩⟩ := h.place
    · simp only [GpsThread.step, threadNext, hat] at hs
      cases hs
    · simp only [GpsThread.step, threadNext, hat, hempty, if_true] at hs
      cases hs
      exact ⟨h.stopped, fds, .inl ⟨rfl, fun _ => hempty⟩⟩

/-- Taking bytes leaves the size of the queue, -/
theorem size_take (d : Gps.GpsState K Unit) :
    K.size (Gps.gpsNext K d (.take ())).1.gpsDataFifo = K.size d.gpsDataFifo := by
  simp only [Gps.gpsNext]
  split
  · exact K.size_get _ _
  · rfl

/-- and so does copying them, -/
theorem size_copy (d : Gps.GpsState K Unit) :
    K.size (Gps.gpsNext K d (.copy () true)).1.gpsDataFifo = K.size d.gpsDataFifo := by
  simp only [Gps.gpsNext]
  split <;> rfl

/-- and a chunk that comes, -/
theorem size_serverIn (fifo : K.State) (chunk : List UInt8) :
    K.size (Gps.serverIn K fifo chunk).1 = K.size fifo := by
  rw [Gps.serverIn, K.size_put]
  split
  · exact ByteFifo.size_reset fifo
  · rfl

/-- and every move of the thread. -/
theorem size_thread {s s' : State K} {controlFirst : Bool} {o : List Obs}
    (hs : threadNext K s controlFirst = some (s', o)) :
    K.size s'.driver.gpsDataFifo = K.size s.driver.gpsDataFifo := by
  rcases threadNext_cases hs with ⟨place, rfl, -⟩ | ⟨cmd, control, place, fds, -, rfl, -⟩ |
    ⟨fds, -, rfl, -⟩ | ⟨fds, -, rfl, -⟩ | ⟨fds, -, rfl, -⟩
  · rfl
  · rfl
  · rfl
  · exact size_take s.driver
  · exact size_copy s.driver

/-- No step changes the size of the queue. -/
theorem size_step {s s' : State K} {e : Event} {o : List Obs}
    (hs : step K s e = some (s', o)) :
    K.size s'.driver.gpsDataFifo = K.size s.driver.gpsDataFifo := by
  cases e with
  | write cmd | ioctl start | eventHandle accOn =>
    cases hs
    rfl
  | server aviGpsDataHl gpsData =>
    rcases serverNext_cases (Option.some.inj hs) with ⟨-, -, -, rfl, -⟩ | ⟨rfl, -, -⟩ |
      ⟨chunk, -, -, rfl, -⟩ | ⟨-, -, rfl, -⟩ | ⟨fds, -, -, rfl, -⟩
    · rfl
    · rfl
    · exact size_serverIn _ chunk
    · rfl
    · rfl
  | signal =>
    cases hs
    rcases signalled_cases s with ⟨heq, -⟩ | ⟨fds, -, ⟨-, heq⟩ | ⟨-, heq⟩⟩ <;> rw [heq]
  | thread controlFirst => exact size_thread hs

/-- The queue of every reachable state is that of `gps_probe`. -/
theorem size_run {before : List Event} {s : State K} {o : List Obs}
    (hrun : run (step K) (State.init K) before = some (s, o)) :
    K.size s.driver.gpsDataFifo = Gps.fifoSize := by
  have hinit : K.size (State.init K).driver.gpsDataFifo = Gps.fifoSize := K.size_init 12
  exact run_preserves (I := fun s : State K => K.size s.driver.gpsDataFifo = Gps.fifoSize)
    (fun _ _ _ _ h hs => (size_step hs).trans h) hinit hrun

/-! ## Which commands are heard -/

/-- **A signal is heard**: with one, the next command can be served wherever the thread is in
its reads. -/
theorem signal_heard {before : List Event} {s : State K} {o₀ : List Obs}
    (hreach : run (step K) (State.init K) before = some (s, o₀)) {cmd : Cmd} {rest : List Cmd}
    (h : s.place.InReads) (hstop : s.driver.started = false) (hcmd : s.control = cmd :: rest) :
    ∃ events s' o, .ioctl true ∉ events ∧ run (step K) s events = some (s', o) ∧
      .served cmd ∈ o := by
  by_cases hears : Hears s
  · obtain ⟨events, s', o, hevents, hrun, hserved⟩ := hears.serves h hcmd hstop (size_run hreach)
    exact ⟨events, s', o, fun hmem => (hevents _ hmem).1 rfl, hrun, hserved⟩
  · -- asleep after at most one move, and then back before the read
    have hasleep : ∀ {s : State K} {fds : List Fd}, s.control = cmd :: rest →
        s.driver.started = false → s.place = .asleep fds →
        ∃ events s' o, .ioctl true ∉ events ∧ run (step K) s events = some (s', o) ∧
          .served cmd ∈ o := by
      intro s fds hcmd hstop hat
      have hserves : Serves (signalled K s) cmd := by
        rcases signalled_cases s with ⟨-, hno⟩ | ⟨fds', -, ⟨-, heq⟩ | ⟨hdata, heq⟩⟩
        · exact absurd hat (hno fds)
        · rw [heq]
          exact serves_reading hcmd hstop rfl
        · rw [heq]
          exact serves_waiting hcmd hstop rfl hdata
      obtain ⟨events, s', o, hevents, hrun, hserved⟩ := hserves
      have hsignal : step K s .signal = some (signalled K s, []) := rfl
      refine ⟨.signal :: events, s', [] ++ o, ?_, run_cons_eq hsignal hrun, hserved⟩
      rw [List.mem_cons, not_or]
      exact ⟨nofun, fun hmem => (hevents _ hmem).1 rfl⟩
    obtain ⟨fds, ⟨hat, -⟩ | ⟨hat, hempty, -⟩⟩ := (stuck_of_not_hears hears hstop).place
    · exact hasleep hcmd hstop hat
    · have hs : step K s (.thread true) = some ({ s with place := .asleep fds }, []) := by
        simp only [step, threadNext, hat, hempty, if_true]
      obtain ⟨events, s', o, hstart, hrun, hserved⟩ :=
        hasleep (s := { s with place := .asleep fds }) hcmd hstop rfl
      refine ⟨.thread true :: events, s', [] ++ o, ?_, run_cons_eq hs hrun, hserved⟩
      rw [List.mem_cons, not_or]
      exact ⟨nofun, hstart⟩

end Thread

end Lidbg.GpsThread
