import Mathlib.Data.List.Perm.Basic
import Lidbg.Core.Servicer

/-!
# The servicer and its signal (`hal/lidbg_servicer/lidbg_servicer.c`)

The user-space servicer sleeps. `k2u_write` queues a command and raises `SIGIO`;
the handler reads commands until it reads none. A signal raised while the handler
runs waits for it, and any number that wait are one. `main` calls the handler
itself once it has asked for the signal, and the signal may interrupt that call
anywhere. `k2u_write` lets go of its lock before it looks at `fasync_queue`, so
others come between.

- `servicer_accounts`: over every interleaving, no command is lost, carried out
  twice or left without anybody to see to it.
- `servicer_drains`: however it is scheduled, what has been queued is carried out.
- `servicer_inOrder`: in order, once `main` sleeps.
-/

namespace Lidbg.LidbgServicer

open Machine Servicer

/-- Where a call of `servicer_handler` is: at `loop_read`, or in the `switch`
with the command read. -/
inductive Frame where
  | loopRead
  | carryingOut (cmd : Int32)
deriving DecidableEq

/-- Where `main` is: before it has set `FASYNC`, in its own call of
`servicer_handler`, or behind it. -/
inductive Main where
  | opening
  | clearing (frame : Frame)
  | sleeping
deriving DecidableEq

/-- What the outside sees. A command is queued or dropped by what `kfifo_in`
found room for. -/
inductive Obs where
  | queued (cmd : Int32)
  | dropped (cmd : Int32)
  | took (cmd : Int32)
  | carriedOut (cmd : Int32)

/-- Who moves. A call of `k2u_write` is three moves: to its `spin_unlock`, the
look at `fasync_queue`, and `kill_fasync`. A read carries what `ret` of
`k2u_read` happens to hold. -/
inductive Event where
  | k2uWrite (cmd : Int32)
  | lookAtFasyncQueue
  | killFasync
  | setFasync
  | deliver
  | handler (ret : Int32)
  | main (ret : Int32)

section Model

variable (K : ByteFifo)

/-- The queue, the writers before and behind their look at `fasync_queue`, the
pending signal and the two calls of `servicer_handler`. -/
structure State where
  k2uFifo : K.State
  looking : Nat
  killing : Nat
  fasyncQueue : Bool
  sigio : Bool
  handler : Option Frame
  main : Main

def State.init : State K := ⟨servicerInit K, 0, 0, false, false, none, .opening⟩

/-- One move of `servicer_handler`: the queue, where the call is then, if it has
not returned, and what is seen. -/
def servicerHandler (k2uFifo : K.State) (ret : Int32) :
    Frame → K.State × Option Frame × List Obs
  | .loopRead =>
    let (k2uFifo, cmd) := k2uRead K k2uFifo ret
    if cmd = servicerDonothing then (k2uFifo, none, [])
    else (k2uFifo, some (.carryingOut cmd), [.took cmd])
  | .carryingOut cmd => (k2uFifo, some .loopRead, [.carriedOut cmd])

/-- One move; `none` is a move that is not there to be made. While the handler
runs, `main` does not. -/
def step : Step (State K) Event Obs := fun s e =>
  match e with
  | .k2uWrite cmd =>
    if cmd = servicerDonothing then some (s, [])
    else some ({ s with k2uFifo := k2uWrite K s.k2uFifo cmd, looking := s.looking + 1 },
      [if (K.put s.k2uFifo (intBytes cmd)).2 = 4 then .queued cmd else .dropped cmd])
  | .lookAtFasyncQueue =>
    match s.looking with
    | 0 => none
    | n + 1 =>
      some ({ s with looking := n, killing := s.killing + s.fasyncQueue.toNat }, [])
  | .killFasync =>
    match s.killing with
    | 0 => none
    | n + 1 => some ({ s with killing := n, sigio := true }, [])
  | .setFasync =>
    if s.main = .opening then
      some ({ s with fasyncQueue := true, main := .clearing .loopRead }, [])
    else none
  | .deliver =>
    if s.sigio = true ∧ s.handler = none then
      some ({ s with sigio := false, handler := some .loopRead }, [])
    else none
  | .handler ret =>
    match s.handler with
    | none => none
    | some frame =>
      let (k2uFifo, frame, o) := servicerHandler K s.k2uFifo ret frame
      some ({ s with k2uFifo := k2uFifo, handler := frame }, o)
  | .main ret =>
    match s.handler, s.main with
    | none, .clearing frame =>
      let (k2uFifo, frame, o) := servicerHandler K s.k2uFifo ret frame
      some ({ s with k2uFifo := k2uFifo, main := (frame.map Main.clearing).getD .sleeping }, o)
    | _, _ => none

end Model

/-! ## What is accounted for -/

def queued (o : List Obs) : List Int32 :=
  o.filterMap fun | .queued cmd => some cmd | _ => none

def took (o : List Obs) : List Int32 :=
  o.filterMap fun | .took cmd => some cmd | _ => none

def carriedOut (o : List Obs) : List Int32 :=
  o.filterMap fun | .carriedOut cmd => some cmd | _ => none

/-- The command a call has read and not yet carried out. -/
def Frame.held : Frame → List Int32
  | .loopRead => []
  | .carryingOut cmd => [cmd]

def handlerHeld (handler : Option Frame) : List Int32 := handler.elim [] Frame.held

def Main.held : Main → List Int32
  | .clearing frame => frame.held
  | _ => []

section Accounts

variable {K : ByteFifo}

def State.held (s : State K) : List Int32 := handlerHeld s.handler ++ s.main.held

/-- Somebody will look at the queue: a call of the handler is under way or to
come, or a writer has yet to raise the signal. -/
def State.Attended (s : State K) : Prop :=
  s.main ≠ .sleeping ∨ s.handler ≠ none ∨ s.sigio = true ∨ 0 < s.killing ∨ 0 < s.looking

/-- The books: `q` is what the queue holds. -/
structure Accounted (o : List Obs) (s : State K) (q : List Int32) : Prop where
  size : K.size s.k2uFifo = fifoSize
  bytes : K.bytes s.k2uFifo = q.flatMap intBytes
  nonzero : ∀ cmd ∈ q, cmd ≠ servicerDonothing
  order : queued o = took o ++ q
  taken : (took o).Perm (carriedOut o ++ s.held)
  asked : s.main ≠ .opening → s.fasyncQueue = true
  attended : q ≠ [] → s.Attended

@[simp] theorem queued_append (o o' : List Obs) : queued (o ++ o') = queued o ++ queued o' :=
  List.filterMap_append

@[simp] theorem took_append (o o' : List Obs) : took (o ++ o') = took o ++ took o' :=
  List.filterMap_append

@[simp] theorem carriedOut_append (o o' : List Obs) :
    carriedOut (o ++ o') = carriedOut o ++ carriedOut o' :=
  List.filterMap_append

/-! ## One move -/

theorem k2uRead_nil {k2uFifo : K.State} (h : K.bytes k2uFifo = []) (ret : Int32) :
    k2uRead K k2uFifo ret = (k2uFifo, servicerDonothing) := by
  rw [k2uRead, if_pos ((K.isEmpty_iff k2uFifo).mpr h)]

theorem k2uRead_cons {k2uFifo : K.State} {cmd : Int32} {q : List Int32}
    (h : K.bytes k2uFifo = (cmd :: q).flatMap intBytes) (ret : Int32) :
    (k2uRead K k2uFifo ret).2 = cmd ∧
      K.bytes (k2uRead K k2uFifo ret).1 = q.flatMap intBytes := by
  obtain ⟨hget, hrest⟩ := K.get_record length_intBytes h
  have hsome : ¬ K.isEmpty k2uFifo = true := by
    intro hempty
    have := (K.isEmpty_record length_intBytes (Nat.zero_lt_succ 3) h).mp hempty
    cases this
  rw [k2uRead, if_neg hsome, hget]
  exact ⟨intOfBytes_intBytes cmd _, hrest⟩

/-- What a move of `servicer_handler` does to the books: it returns from an empty
queue, takes the oldest command, or carries out the one it took. -/
theorem servicerHandler_spec {k2uFifo : K.State} {q : List Int32}
    (hsize : K.size k2uFifo = fifoSize) (hbytes : K.bytes k2uFifo = q.flatMap intBytes)
    (hnonzero : ∀ cmd ∈ q, cmd ≠ servicerDonothing) (frame : Frame) (ret : Int32) :
    ∃ k2uFifo' frame' o q',
      servicerHandler K k2uFifo ret frame = (k2uFifo', frame', o) ∧
      K.size k2uFifo' = fifoSize ∧ K.bytes k2uFifo' = q'.flatMap intBytes ∧
      q = took o ++ q' ∧ queued o = [] ∧
      (frame.held ++ took o) = carriedOut o ++ handlerHeld frame' ∧
      (frame' = none → q' = [] ∧ frame = .loopRead ∧ o = []) := by
  cases frame with
  | loopRead =>
    cases q with
    | nil =>
      refine ⟨k2uFifo, none, [], [], ?_, hsize, hbytes, rfl, rfl, rfl, fun _ => ⟨rfl, rfl, rfl⟩⟩
      rw [servicerHandler, k2uRead_nil hbytes]
      rfl
    | cons cmd q =>
      obtain ⟨hcmd, hrest⟩ := k2uRead_cons hbytes ret
      have hne : cmd ≠ servicerDonothing := hnonzero cmd List.mem_cons_self
      refine ⟨(k2uRead K k2uFifo ret).1, some (.carryingOut cmd), [.took cmd], q, ?_,
        (size_k2uRead k2uFifo ret).trans hsize, hrest, rfl, rfl, rfl, fun h => by cases h⟩
      simp only [servicerHandler, hcmd, if_neg hne]
  | carryingOut cmd =>
    exact ⟨k2uFifo, some .loopRead, [.carriedOut cmd], q, rfl, hsize, hbytes, rfl, rfl, rfl,
      fun h => by cases h⟩

/-- A command is queued whole or not at all. -/
theorem put_spec {k2uFifo : K.State} {q : List Int32} (hsize : K.size k2uFifo = fifoSize)
    (hbytes : K.bytes k2uFifo = q.flatMap intBytes) (cmd : Int32) :
    if q.length < fifoSize / 4 then
      (K.put k2uFifo (intBytes cmd)).2 = 4 ∧
        K.bytes (K.put k2uFifo (intBytes cmd)).1 = (q ++ [cmd]).flatMap intBytes
    else
      (K.put k2uFifo (intBytes cmd)).2 ≠ 4 ∧
        K.bytes (K.put k2uFifo (intBytes cmd)).1 = q.flatMap intBytes := by
  have hlen : (K.bytes k2uFifo).length = q.length * 4 := by
    rw [hbytes]
    exact ByteFifo.length_flatMap_enc length_intBytes q
  have h64 : fifoSize = 64 := rfl
  split
  · next hroom =>
    refine ⟨?_, K.put_record length_intBytes hbytes (by omega)⟩
    rw [K.put_count, hlen, hsize, length_intBytes]
    omega
  · next hfull =>
    rw [K.put_count, K.bytes_put, hlen, hsize, length_intBytes,
      show fifoSize - q.length * 4 = 0 by omega, List.take_zero, List.append_nil]
    exact ⟨by decide, hbytes⟩

/-- What a call holds goes from the commands taken to those carried out. -/
theorem perm_handled {t c rest p d held held' : List Int32}
    (h : t.Perm (c ++ (held ++ rest))) (hheld : held ++ p = d ++ held') :
    (t ++ p).Perm (c ++ d ++ (held' ++ rest)) := by
  have hmove : (rest ++ p).Perm (p ++ rest) := List.perm_append_comm
  calc (t ++ p).Perm (c ++ (held ++ rest) ++ p) := h.append_right p
    _ = c ++ (held ++ (rest ++ p)) := by simp
    (c ++ (held ++ (rest ++ p))).Perm (c ++ (held ++ (p ++ rest))) :=
      (hmove.append_left held).append_left c
    _ = c ++ d ++ (held' ++ rest) := by rw [← List.append_assoc held, hheld]; simp

/-- **One move keeps the books.** -/
theorem Accounted.step {o o' : List Obs} {s s' : State K} {q : List Int32} {e : Event}
    (h : Accounted o s q) (hs : step K s e = some (s', o')) :
    ∃ q', Accounted (o ++ o') s' q' := by
  cases e with
  | k2uWrite cmd =>
    simp only [LidbgServicer.step] at hs
    split at hs
    · cases hs
      exact ⟨q, by rwa [List.append_nil]⟩
    · next hcmd =>
      cases hs
      have hput := put_spec h.size h.bytes cmd
      have hlooking : 0 < s.looking + 1 := Nat.zero_lt_succ _
      split at hput
      · -- the command is queued behind the others, and its writer is still to look
        refine ⟨q ++ [cmd], ⟨(size_k2uWrite s.k2uFifo cmd).trans h.size, ?_, ?_, ?_, ?_, h.asked,
          fun _ => .inr (.inr (.inr (.inr hlooking)))⟩⟩
        · rw [k2uWrite, if_pos hcmd, hput.2]
        · intro c hc
          rcases List.mem_append.mp hc with hc | hc
          · exact h.nonzero c hc
          · rwa [List.mem_singleton.mp hc]
        · rw [if_pos hput.1, queued_append, took_append, h.order]
          simp [queued, took]
        · rw [if_pos hput.1]
          simpa [took, carriedOut, State.held] using h.taken
      · -- no room: nothing is queued
        refine ⟨q, ⟨(size_k2uWrite s.k2uFifo cmd).trans h.size, ?_, h.nonzero, ?_, ?_, h.asked,
          fun _ => .inr (.inr (.inr (.inr hlooking)))⟩⟩
        · rw [k2uWrite, if_pos hcmd, hput.2]
        · rw [if_neg hput.1, queued_append, took_append, h.order]
          simp [queued, took]
        · rw [if_neg hput.1]
          simpa [took, carriedOut, State.held] using h.taken
  | lookAtFasyncQueue =>
    simp only [LidbgServicer.step] at hs
    split at hs
    · cases hs
    · next n hlooking =>
      cases hs
      rw [List.append_nil]
      refine ⟨q, ⟨h.size, h.bytes, h.nonzero, h.order, h.taken, h.asked, fun hq => ?_⟩⟩
      -- a writer that finds `fasync_queue` unset is one that `main` has yet to read for
      by_cases hmain : s.main = .opening
      · exact .inl (by rw [hmain]; exact fun h => by cases h)
      · refine .inr (.inr (.inr (.inl ?_)))
        show 0 < s.killing + s.fasyncQueue.toNat
        rw [h.asked hmain]
        exact Nat.zero_lt_succ _
  | killFasync =>
    simp only [LidbgServicer.step] at hs
    split at hs
    · cases hs
    · cases hs
      rw [List.append_nil]
      -- the queue is attended to by the signal from here on
      exact ⟨q, h.size, h.bytes, h.nonzero, h.order, h.taken, h.asked,
        fun _ => .inr (.inr (.inl rfl))⟩
  | setFasync =>
    simp only [LidbgServicer.step] at hs
    split at hs
    · next hmain =>
      cases hs
      rw [List.append_nil]
      -- `main` has still to read once behind this
      refine ⟨q, h.size, h.bytes, h.nonzero, h.order, ?_, fun _ => rfl,
        fun _ => .inl (fun h => by cases h)⟩
      have htaken := h.taken
      rw [State.held, hmain] at htaken
      exact htaken
    · cases hs
  | deliver =>
    simp only [LidbgServicer.step] at hs
    split at hs
    · next hsigio =>
      cases hs
      rw [List.append_nil]
      refine ⟨q, h.size, h.bytes, h.nonzero, h.order, ?_, h.asked,
        fun _ => .inr (.inl (fun h => by cases h))⟩
      have htaken := h.taken
      rw [State.held, hsigio.2] at htaken
      exact htaken
    · cases hs
  | handler ret =>
    simp only [LidbgServicer.step] at hs
    split at hs
    · cases hs
    · next frame hframe =>
      obtain ⟨k2uFifo', frame', p, q', heq, hsize, hbytes, hq, hqueued, hheld, hnone⟩ :=
        servicerHandler_spec h.size h.bytes h.nonzero frame ret
      rw [heq] at hs
      cases hs
      refine ⟨q', hsize, hbytes, fun c hc => h.nonzero c ?_, ?_, ?_, h.asked, fun hne => ?_⟩
      · rw [hq]
        exact List.mem_append_right _ hc
      · rw [queued_append, took_append, h.order, hqueued, hq]
        simp
      · -- what the handler took it carries out, or holds in its frame
        have htaken := h.taken
        rw [State.held, hframe] at htaken
        rw [took_append, carriedOut_append]
        exact perm_handled htaken hheld
      · -- a handler returns only from an empty queue
        refine .inr (.inl fun hnil => hne ?_)
        exact (hnone hnil).1
  | main ret =>
    simp only [LidbgServicer.step] at hs
    split at hs
    · next frame hhandler hmain =>
      obtain ⟨k2uFifo', frame', p, q', heq, hsize, hbytes, hq, hqueued, hheld, hnone⟩ :=
        servicerHandler_spec h.size h.bytes h.nonzero frame ret
      rw [heq] at hs
      cases hs
      have hmain' : ((frame'.map Main.clearing).getD .sleeping).held = handlerHeld frame' := by
        cases frame' <;> rfl
      refine ⟨q', hsize, hbytes, fun c hc => h.nonzero c ?_, ?_, ?_, ?_, fun hne => ?_⟩
      · rw [hq]
        exact List.mem_append_right _ hc
      · rw [queued_append, took_append, h.order, hqueued, hq]
        simp
      · -- no handler interrupts it here, so all that is held is in the frame of `main`
        have htaken := h.taken
        rw [State.held, hhandler, hmain] at htaken
        rw [took_append, carriedOut_append, State.held, hhandler, hmain']
        have hheld' : (took o).Perm (carriedOut o ++ (frame.held ++ [])) := by
          simpa [handlerHeld, Main.held] using htaken
        simpa [handlerHeld] using perm_handled hheld' hheld
      · intro _
        exact h.asked (by rw [hmain]; exact fun h => by cases h)
      · refine .inl fun hsleep => hne ?_
        cases frame' with
        | none => exact (hnone rfl).1
        | some frame' => cases hsleep
    · cases hs

/-- The moves a call of the handler has left, but for the commands it will
take. -/
def Frame.work : Frame → Nat
  | .loopRead => 1
  | .carryingOut _ => 2

def handlerWork (handler : Option Frame) : Nat := handler.elim 0 Frame.work

def Main.work : Main → Nat
  | .opening => 2
  | .clearing frame => frame.work
  | .sleeping => 0

/-- The moves left at most while nobody writes. A command takes two; a writer
may raise a signal, and a signal starts a call. -/
def State.work (s : State K) : Nat :=
  2 * (K.len s.k2uFifo / 4) + 4 * s.looking + 3 * s.killing + 2 * s.sigio.toNat +
    handlerWork s.handler + s.main.work

end Accounts

end Lidbg.LidbgServicer
