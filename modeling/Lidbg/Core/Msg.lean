import Lidbg.Machine.Run
import Lidbg.Machine.ByteFifo
import Lidbg.Machine.CStr

/-!
# The message ring (`core/lidbg_msg.c`)

Writers of `/dev/lidbg_msg` copy a message into the next of `TOTAL_LOGS` slots
under `lidbg_msg_sem` and then complete `msg_ready`; `thread_msg` waits for
completions and prints one slot for each. The ring has no check that the slot
about to be written was printed, the positions are two independent counters, and
the completion counts on past the number of slots. A schedule is a list of
`Event`s: each is the next statement of one of the parties.

- `Serves` is the invariant of a run in which no slot is written while it holds
  a message not yet printed; `serves_write`, `serves_writer`, `serves_complete`
  and `serves_thread` keep it.
- `prints_in_order` is the run: message by message what was written is printed,
  and when nothing is in flight, all of it.
- `overrun_reorders`: 51 writers ahead of the thread, and it starts with the last.
-/

namespace Lidbg.Msg

open Machine

/-- `TOTAL_LOGS`. -/
abbrev totalLogs : Nat := 50

/-- `LOG_BYTES`. -/
abbrev logBytes : Nat := 256

/-- `lidbg_msg`. -/
structure LidbgMsg where
  wPos : Nat
  rPos : Nat
  log : List (List UInt8)

/-- What `thread_msg` does next. -/
inductive ThreadPc where
  | kmalloc
  | memset
  | positions
  | wait
  | print
  | advance
deriving DecidableEq

/-- What the caller of `msg_write` that holds `lidbg_msg_sem` does next: make the
last byte of its message a NUL, or move `w_pos` on and give the semaphore back. -/
inductive WriterPc where
  | terminate (size : Nat)
  | advance
deriving DecidableEq

/-- `leaving` counts the callers that gave the semaphore back and have not yet
completed `msg_ready`. -/
structure State where
  plidbgMsg : Option LidbgMsg
  msgReady : Nat
  thread : ThreadPc
  writer : Option WriterPc
  leaving : Nat

inductive Event where
  | write (buffer : List UInt8)
  | writer
  | complete
  | thread

/-- What the outside sees: the messages as they are handed in, the texts as they
are printed. -/
inductive Seen where
  | written (buffer : List UInt8)
  | printed (text : List UInt8)

/-- The slot at `w_pos` written over. -/
def LidbgMsg.setRow (m : LidbgMsg) (row : List UInt8) : LidbgMsg :=
  { m with log := m.log.set m.wPos row }

/-- `memset` of the slots. -/
def LidbgMsg.clear (m : LidbgMsg) : LidbgMsg :=
  { m with log := List.replicate totalLogs (List.replicate logBytes 0) }

/-- `w_pos = r_pos = 0`. -/
def LidbgMsg.reset (m : LidbgMsg) : LidbgMsg := { m with wPos := 0, rPos := 0 }

/-- `copy_from_user` into the slot at `w_pos`. -/
def copyFromUser (m : LidbgMsg) (bytes : List UInt8) : Option LidbgMsg :=
  m.log[m.wPos]?.bind fun row =>
    if bytes.length ≤ row.length then some (m.setRow (bytes ++ row.drop bytes.length)) else none

/-- `log[w_pos][size - 1] = '\0'`, where `size - 1` of a `size_t` 0 is no index. -/
def terminate (m : LidbgMsg) (size : Nat) : Option LidbgMsg :=
  if size = 0 then none
  else m.log[m.wPos]?.bind fun row => (storeByte row (size - 1) 0).map m.setRow

/-- `msg_write` up to the copy, once `down` returns; a caller that finds the
semaphore taken waits. -/
def msgWrite (s : State) (buffer : List UInt8) : Option (State × List Seen) :=
  if s.writer.isSome then some (s, [])
  else
    (s.plidbgMsg.bind fun m => copyFromUser m (buffer.take logBytes)).map fun m =>
      ({ s with plidbgMsg := some m, writer := some (.terminate buffer.length) },
        [.written buffer])

/-- The next statement of the caller that holds the semaphore. -/
def writerStep (s : State) : Option State :=
  match s.writer with
  | none => some s
  | some (.terminate size) =>
    (s.plidbgMsg.bind fun m => terminate m (if size > logBytes then logBytes else size)).map
      fun m => { s with plidbgMsg := some m, writer := some .advance }
  | some .advance =>
    s.plidbgMsg.map fun m =>
      { s with
        plidbgMsg := some { m with wPos := (m.wPos + 1) % totalLogs }
        writer := none
        leaving := s.leaving + 1 }

/-- `complete(&msg_ready)` by a caller that has left. -/
def complete (s : State) : State :=
  if 0 < s.leaving then { s with leaving := s.leaving - 1, msgReady := s.msgReady + 1 } else s

/-- The next statement of `thread_msg`; `kmalloced` is what `kmalloc` returns.
`%s` reads from the slot at `r_pos` on, into the slots behind if it has no NUL. -/
def threadMsg (kmalloced : Option LidbgMsg) (s : State) : Option (State × List Seen) :=
  match s.thread with
  | .kmalloc => some ({ s with plidbgMsg := kmalloced, thread := .memset }, [])
  | .memset =>
    s.plidbgMsg.map fun m => ({ s with plidbgMsg := some m.clear, thread := .positions }, [])
  | .positions =>
    s.plidbgMsg.map fun m => ({ s with plidbgMsg := some m.reset, thread := .wait }, [])
  | .wait =>
    if 0 < s.msgReady then some ({ s with msgReady := s.msgReady - 1, thread := .print }, [])
    else some (s, [])
  | .print =>
    (s.plidbgMsg.bind fun m => loadStr (m.log.drop m.rPos).flatten).map fun text =>
      ({ s with thread := .advance }, [.printed text])
  | .advance =>
    s.plidbgMsg.map fun m =>
      ({ s with
          plidbgMsg := some { m with rPos := (m.rPos + 1) % totalLogs }
          thread := .wait }, [])

/-- One statement of the party the schedule picks. -/
def msgStep (kmalloced : Option LidbgMsg) : Step State Event Seen := fun s e =>
  match e with
  | .write buffer => msgWrite s buffer
  | .writer => (writerStep s).map fun s => (s, [])
  | .complete => some (complete s, [])
  | .thread => threadMsg kmalloced s

/-- `msg_init`: the thread is created, nothing has run. -/
def msgInit : State := ⟨none, 0, .kmalloc, none, 0⟩

/-! ## What the ring is for -/

/-- The messages handed in, in the order of their turns. -/
def written (o : List Seen) : List (List UInt8) :=
  o.filterMap fun
    | .written buffer => some buffer
    | .printed _ => none

/-- The texts printed. -/
def printed (o : List Seen) : List (List UInt8) :=
  o.filterMap fun
    | .written _ => none
    | .printed text => some text

/-- The text of a message: at most `LOG_BYTES` of it, the last of them for the
NUL. -/
def text (buffer : List UInt8) : List UInt8 :=
  cstr (buffer.take logBytes).dropLast

@[simp] theorem written_append (o p : List Seen) : written (o ++ p) = written o ++ written p :=
  List.filterMap_append

@[simp] theorem printed_append (o p : List Seen) : printed (o ++ p) = printed o ++ printed p :=
  List.filterMap_append

@[simp] theorem written_nil : written [] = [] := rfl

@[simp] theorem printed_nil : printed [] = [] := rfl

@[simp] theorem written_written (b : List UInt8) : written [.written b] = [b] := rfl

@[simp] theorem printed_written (b : List UInt8) : printed [.written b] = [] := rfl

@[simp] theorem written_printed (t : List UInt8) : written [.printed t] = [] := rfl

@[simp] theorem printed_printed (t : List UInt8) : printed [.printed t] = [t] := rfl

/-- The thread is past its start-up. -/
def started (thread : ThreadPc) : Bool :=
  thread = .wait ∨ thread = .print ∨ thread = .advance

/-- Nothing is on its way from a writer to the log. -/
def quiet (s : State) : Bool :=
  s.writer = none ∧ s.leaving = 0 ∧ s.msgReady = 0 ∧ s.thread ≠ .print

/-- The condition of one step: a message is copied only after the start-up of
the thread and while fewer than `TOTAL_LOGS` messages are written and not yet
printed, and the thread's `kmalloc` succeeds. -/
def HasSlot (_ : List Event) (o : List Seen) (s : State) (e : Event) : Prop :=
  match e with
  | .write _ =>
    s.writer = none → started s.thread ∧ (written o).length < (printed o).length + totalLogs
  | .thread => s.thread = .memset → s.plidbgMsg.isSome
  | .writer | .complete => True

instance (h : List Event) (o : List Seen) (s : State) (e : Event) :
    Decidable (HasSlot h o s e) := by
  cases e <;> unfold HasSlot <;> infer_instance

/-- A message of 1 to `LOG_BYTES` bytes. -/
def Sized (e : Event) : Prop :=
  match e with
  | .write buffer => 1 ≤ buffer.length ∧ buffer.length ≤ logBytes
  | .writer | .complete | .thread => True

instance (e : Event) : Decidable (Sized e) := by
  cases e <;> unfold Sized <;> infer_instance

/-! ## The invariant -/

/-- Messages of the writer in the critical section that are not yet behind
`w_pos`. -/
def inWriter (s : State) : Nat := if s.writer.isSome then 1 else 0

/-- Messages the thread has been told of and has not yet printed. -/
def inPrint (s : State) : Nat := if s.thread = .print then 1 else 0

/-- Messages printed that `r_pos` has not yet moved past. -/
def inAdvance (s : State) : Nat := if s.thread = .advance then 1 else 0

/-- Until the start-up is over, nothing has happened. -/
structure Starts (o : List Seen) (s : State) : Prop where
  seen : o = []
  writer : s.writer = none
  leaving : s.leaving = 0
  msgReady : s.msgReady = 0
  thread : s.thread = .kmalloc ∨ s.thread = .memset ∨
    s.thread = .positions ∧ ∃ m, s.plidbgMsg = some m ∧
      m.log = List.replicate totalLogs (List.replicate logBytes 0)

/-- A slot holds a message, with its NUL. -/
def Holds (log : List (List UInt8)) (i : Nat) (b : List UInt8) : Prop :=
  ∃ rest, log[i % totalLogs]? = some ((b.take logBytes).dropLast ++ 0 :: rest)

/-- The positions count the messages written and printed modulo the number of
slots, and are less than a lap apart. -/
structure Counts (w r : Nat) (s : State) (m : LidbgMsg) : Prop where
  count : w = r + inPrint s + s.msgReady + s.leaving + inWriter s
  lap : w ≤ r + totalLogs
  wPos_lt : m.wPos < totalLogs
  rPos_lt : m.rPos < totalLogs
  wPos : (m.wPos + inWriter s) % totalLogs = w % totalLogs
  rPos : (m.rPos + inAdvance s) % totalLogs = r % totalLogs

/-- Every message written and not yet printed is in its slot; the last may still
want its NUL. -/
structure Slots (ws : List (List UInt8)) (r : Nat) (writer : Option WriterPc)
    (m : LidbgMsg) : Prop where
  length_log : m.log.length = totalLogs
  length_row : ∀ row ∈ m.log, row.length = logBytes
  holds : ∀ j b, ws[j]? = some b → r ≤ j →
    (∀ n, writer = some (.terminate n) → j + 1 < ws.length) → Holds m.log j b
  last : ∀ n, writer = some (.terminate n) → ∃ ws' b rest, ws = ws' ++ [b] ∧
    m.wPos = ws'.length % totalLogs ∧ 0 < n ∧ n = b.length ∧
    m.log[m.wPos]? = some (b.take logBytes ++ rest)

/-- The ring against the history of the run. -/
structure Serves (o : List Seen) (s : State) (m : LidbgMsg) : Prop where
  plidbgMsg : s.plidbgMsg = some m
  started : started s.thread
  printed_eq : printed o = ((written o).take (printed o).length).map text
  counts : Counts (written o).length (printed o).length s m
  slots : Slots (written o) (printed o).length s.writer m

/-! ## The slots -/

theorem holds_set_of_ne {log : List (List UInt8)} {i j : Nat} {row b : List UInt8}
    (hij : i ≠ j % totalLogs) (h : Holds log j b) : Holds (log.set i row) j b := by
  obtain ⟨rest, hrest⟩ := h
  exact ⟨rest, by rw [List.getElem?_set_ne hij, hrest]⟩

/-- What `%s` finds in a slot. -/
theorem Holds.loadStr {log : List (List UInt8)} {j : Nat} {b : List UInt8}
    (h : Holds log j b) : loadStr (log.drop (j % totalLogs)).flatten = some (text b) := by
  obtain ⟨rest, hrest⟩ := h
  obtain ⟨hlt, hrow⟩ := List.getElem?_eq_some_iff.mp hrest
  rw [List.drop_eq_getElem_cons hlt, List.flatten_cons, hrow, List.append_assoc, List.cons_append,
    loadStr_append_nul_cons]
  rfl

section Slots

variable {ws : List (List UInt8)} {r : Nat} {m : LidbgMsg}

/-- A row written over keeps the shape of the log. -/
theorem length_row_set {log : List (List UInt8)} {i : Nat} {row : List UInt8}
    (h : ∀ row ∈ log, row.length = logBytes) (hrow : row.length = logBytes) :
    ∀ row' ∈ log.set i row, row'.length = logBytes := by
  intro row' hmem
  rcases List.mem_or_eq_of_mem_set hmem with hmem | rfl
  · exact h row' hmem
  · exact hrow

/-- The copy goes to a slot that holds nothing unprinted. -/
theorem Slots.copy (h : Slots ws r none m) {buffer : List UInt8} (hb : 0 < buffer.length)
    (hpos : m.wPos = ws.length % totalLogs) (hlap : ws.length < r + totalLogs) :
    ∃ m', copyFromUser m (buffer.take logBytes) = some m' ∧ m'.wPos = m.wPos ∧
      m'.rPos = m.rPos ∧ Slots (ws ++ [buffer]) r (some (.terminate buffer.length)) m' := by
  have hlt : m.wPos < m.log.length := by
    rw [h.length_log, hpos]
    exact Nat.mod_lt _ (by decide)
  obtain ⟨row, hrow⟩ : ∃ row, m.log[m.wPos]? = some row := ⟨_, List.getElem?_eq_getElem hlt⟩
  have hrowlen := h.length_row row (List.mem_of_getElem? hrow)
  have hcut : (buffer.take logBytes).length ≤ row.length :=
    hrowlen ▸ List.length_take_le logBytes buffer
  refine ⟨m.setRow (buffer.take logBytes ++ row.drop (buffer.take logBytes).length),
    by rw [copyFromUser, hrow, Option.bind_some, if_pos hcut], rfl, rfl,
    List.length_set.trans h.length_log, length_row_set h.length_row ?_, ?_, ?_⟩
  · rw [List.length_append, List.length_drop]
    omega
  · intro j b hj hle hnot
    have hj' : j < ws.length := by
      have := hnot _ rfl
      rw [List.length_append, List.length_singleton] at this
      omega
    rw [List.getElem?_append_left hj'] at hj
    refine holds_set_of_ne ?_ (h.holds j b hj hle fun n hn => nomatch hn)
    rw [hpos]
    exact (Ring.mod_ne_of_lt hj' (by omega)).symm
  · intro n hn
    obtain rfl : buffer.length = n := by simpa using hn
    exact ⟨ws, buffer, _, rfl, hpos, hb, rfl, List.getElem?_set_self hlt⟩

/-- The NUL completes the message in its slot. -/
theorem Slots.terminate {n : Nat} (h : Slots ws r (some (.terminate n)) m)
    (hlap : ws.length ≤ r + totalLogs) :
    ∃ m', Msg.terminate m (if n > logBytes then logBytes else n) = some m' ∧ m'.wPos = m.wPos ∧
      m'.rPos = m.rPos ∧ Slots ws r (some .advance) m' := by
  obtain ⟨ws', b, rest, rfl, hpos, hn, rfl, hrow⟩ := h.last n rfl
  have hcut : (if b.length > logBytes then logBytes else b.length) =
      (b.take logBytes).length := by
    rw [List.length_take]
    split <;> omega
  have hcpos : 0 < (b.take logBytes).length := by
    rw [List.length_take]
    exact Nat.lt_min.mpr ⟨by decide, hn⟩
  have hne := List.ne_nil_of_length_pos hcpos
  have hlen := h.length_row _ (List.mem_of_getElem? hrow)
  have hlt : m.wPos < m.log.length := (List.getElem?_eq_some_iff.mp hrow).1
  rw [hcut]
  refine ⟨m.setRow ((b.take logBytes).dropLast ++ 0 :: rest), ?_, rfl, rfl, ?_⟩
  · rw [Msg.terminate, if_neg (Nat.ne_of_gt hcpos), hrow, Option.bind_some, storeByte,
      if_pos (by rw [List.length_append]; omega), set_last_append hne]
    rfl
  · refine ⟨List.length_set.trans h.length_log, length_row_set h.length_row ?_, ?_,
      fun n hn => by cases hn⟩
    · rw [← set_last_append hne, List.length_set, hlen]
    · intro j b' hj hle _
      by_cases hj' : j < ws'.length
      · refine holds_set_of_ne ?_ (h.holds j b' hj hle fun n _ => ?_)
        · rw [hpos]
          rw [List.length_append, List.length_singleton] at hlap
          exact (Ring.mod_ne_of_lt hj' (by omega)).symm
        · rw [List.length_append, List.length_singleton]
          omega
      · -- the message itself
        have hlast : j = ws'.length := by
          have := (List.getElem?_eq_some_iff.mp hj).1
          rw [List.length_append, List.length_singleton] at this
          omega
        rw [hlast, List.getElem?_concat_length, Option.some.injEq] at hj
        rw [hlast, ← hj]
        exact ⟨rest, hpos ▸ List.getElem?_set_self hlt⟩

/-- The slots of the messages printed meanwhile are free. -/
theorem Slots.mono {r' : Nat} {writer : Option WriterPc} (h : Slots ws r writer m)
    (hr : r ≤ r') : Slots ws r' writer m :=
  ⟨h.length_log, h.length_row, fun j b hj hle => h.holds j b hj (hr.trans hle), h.last⟩

/-- A message whose NUL stands stays as it is when `w_pos` moves on. -/
theorem Slots.advance (h : Slots ws r (some .advance) m) (wPos : Nat) :
    Slots ws r none { m with wPos } :=
  ⟨h.length_log, h.length_row, fun j b hj hle _ => h.holds j b hj hle (fun _ hn => nomatch hn),
    fun _ hn => nomatch hn⟩

end Slots

/-! ## One statement -/

section Steps

variable {o : List Seen} {s : State} {m : LidbgMsg}

/-- A message turns up. -/
theorem serves_write (h : Serves o s m) {buffer : List UInt8} (hb : 0 < buffer.length)
    (hslot : s.writer = none → (written o).length < (printed o).length + totalLogs) :
    ∃ s' o' m', msgWrite s buffer = some (s', o') ∧ Serves (o ++ o') s' m' := by
  cases hw : s.writer with
  | some pc =>
    refine ⟨s, [], m, ?_, by rwa [List.append_nil]⟩
    rw [msgWrite, hw]
    rfl
  | none =>
    obtain ⟨hcount, hlap, hwlt, hrlt, hwPos, hrPos⟩ := h.counts
    have hslots := h.slots
    rw [inWriter, hw] at hcount hwPos
    rw [hw] at hslots
    have hpos : m.wPos = (written o).length % totalLogs := by
      rw [← hwPos]
      exact (Nat.mod_eq_of_lt hwlt).symm
    obtain ⟨m', hcopy, hw', hr', hslots'⟩ := hslots.copy hb hpos (hslot hw)
    refine ⟨{ s with plidbgMsg := some m', writer := some (.terminate buffer.length) },
      [.written buffer], m', ?_, rfl, h.started, ?_, ⟨?_, ?_, hw' ▸ hwlt, hr' ▸ hrlt, ?_, ?_⟩, ?_⟩
    · rw [msgWrite, hw, h.plidbgMsg, Option.bind_some, hcopy]
      rfl
    · have hle : (printed o).length ≤ (written o).length := by omega
      simpa [List.take_append_of_le_length hle] using h.printed_eq
    · simp [inPrint, inWriter] at hcount ⊢
      omega
    · have := hslot hw
      simp only [written_append, written_written, printed_append, printed_written,
        List.length_append, List.append_nil, List.length_singleton]
      omega
    · simp [inWriter, hw', hpos]
    · simpa [inAdvance, hr'] using hrPos
    · simpa using hslots'

/-- The caller with the semaphore goes on. -/
theorem serves_writer (h : Serves o s m) :
    ∃ s' m', writerStep s = some s' ∧ Serves o s' m' := by
  obtain ⟨hcount, hlap, hwlt, hrlt, hwPos, hrPos⟩ := h.counts
  have hslots := h.slots
  cases hw : s.writer with
  | none => exact ⟨s, m, by rw [writerStep, hw], h⟩
  | some pc =>
    rw [inWriter, hw] at hcount hwPos
    rw [hw] at hslots
    cases pc with
    | terminate n =>
      obtain ⟨m', hterm, hw', hr', hslots'⟩ := hslots.terminate hlap
      refine ⟨{ s with plidbgMsg := some m', writer := some .advance }, m', ?_, rfl, h.started,
        h.printed_eq, ⟨hcount, hlap, hw' ▸ hwlt, hr' ▸ hrlt, hw' ▸ hwPos, hr' ▸ hrPos⟩, hslots'⟩
      rw [writerStep, hw]
      dsimp only
      rw [h.plidbgMsg, Option.bind_some, hterm]
      rfl
    | advance =>
      refine ⟨{ s with
          plidbgMsg := some { m with wPos := (m.wPos + 1) % totalLogs }
          writer := none
          leaving := s.leaving + 1 }, { m with wPos := (m.wPos + 1) % totalLogs }, ?_, rfl,
        h.started, h.printed_eq, ⟨?_, hlap, Nat.mod_lt _ (by decide), hrlt, ?_, hrPos⟩,
        hslots.advance _⟩
      · rw [writerStep, hw]
        dsimp only
        rw [h.plidbgMsg, Option.map_some]
      · simp [inPrint, inWriter] at hcount ⊢
        omega
      · simpa [inWriter] using hwPos

theorem serves_complete (h : Serves o s m) : Serves o (complete s) m := by
  unfold complete
  split
  · next hpos =>
    obtain ⟨hcount, hlap, hwlt, hrlt, hwPos, hrPos⟩ := h.counts
    refine ⟨h.plidbgMsg, h.started, h.printed_eq, ⟨?_, hlap, hwlt, hrlt, hwPos, hrPos⟩, h.slots⟩
    simp only [inPrint, inWriter] at hcount ⊢
    omega
  · exact h

/-- The oldest message not yet printed is in its slot. -/
theorem Serves.holds_oldest (h : Serves o s m) (hth : s.thread = .print) :
    ∃ b, (written o)[(printed o).length]? = some b ∧ Holds m.log (printed o).length b := by
  have hcount := h.counts.count
  rw [inPrint, if_pos hth] at hcount
  obtain ⟨b, hb⟩ : ∃ b, (written o)[(printed o).length]? = some b :=
    ⟨_, List.getElem?_eq_getElem (by omega)⟩
  refine ⟨b, hb, h.slots.holds _ b hb (Nat.le_refl _) fun n hn => ?_⟩
  rw [inWriter, hn] at hcount
  simp at hcount
  omega

/-- The thread was told of a message and prints it. -/
theorem serves_print (kmalloced : Option LidbgMsg) (h : Serves o s m) (hth : s.thread = .print) :
    ∃ s' o' m', threadMsg kmalloced s = some (s', o') ∧ Serves (o ++ o') s' m' := by
  obtain ⟨hcount, hlap, hwlt, hrlt, hwPos, hrPos⟩ := h.counts
  obtain ⟨b, hb, hholds⟩ := h.holds_oldest hth
  rw [inPrint, if_pos hth] at hcount
  have hpos : m.rPos = (printed o).length % totalLogs := by
    rw [inAdvance, hth] at hrPos
    rw [← hrPos]
    exact (Nat.mod_eq_of_lt hrlt).symm
  refine ⟨{ s with thread := .advance }, [.printed (text b)], m, ?_, h.plidbgMsg, rfl, ?_,
    ⟨?_, ?_, hwlt, hrlt, ?_, ?_⟩, ?_⟩
  · rw [threadMsg, hth]
    dsimp only
    rw [h.plidbgMsg, Option.bind_some, hpos, hholds.loadStr]
    rfl
  · simp only [written_append, written_printed, printed_append, printed_printed,
      List.append_nil, List.length_append, List.length_singleton, List.take_add_one, hb,
      List.map_append, ← h.printed_eq]
    rfl
  · simp [inPrint, inWriter] at hcount ⊢
    omega
  · simp
    omega
  · simpa [inWriter] using hwPos
  · simp [inAdvance, hpos]
  · simpa using h.slots.mono (Nat.le_succ _)

/-- The thread goes on. It prints the oldest message not yet printed. -/
theorem serves_thread (kmalloced : Option LidbgMsg) (h : Serves o s m) :
    ∃ s' o' m', threadMsg kmalloced s = some (s', o') ∧ Serves (o ++ o') s' m' := by
  obtain ⟨hcount, hlap, hwlt, hrlt, hwPos, hrPos⟩ := h.counts
  have hstarted := h.started
  cases hth : s.thread with
  | kmalloc | memset | positions =>
    rw [hth] at hstarted
    exact absurd hstarted (by decide)
  | wait =>
    by_cases hready : 0 < s.msgReady
    · refine ⟨{ s with msgReady := s.msgReady - 1, thread := .print }, [], m, ?_, ?_⟩
      · rw [threadMsg, hth]
        exact if_pos hready
      · rw [List.append_nil]
        refine ⟨h.plidbgMsg, rfl, h.printed_eq, ⟨?_, hlap, hwlt, hrlt, hwPos, ?_⟩, h.slots⟩
        · simp [inPrint, inWriter, hth] at hcount ⊢
          omega
        · simpa [inAdvance, hth] using hrPos
    · refine ⟨s, [], m, ?_, by rwa [List.append_nil]⟩
      rw [threadMsg, hth]
      exact if_neg hready
  | print => exact serves_print kmalloced h hth
  | advance =>
    refine ⟨{ s with
        plidbgMsg := some { m with rPos := (m.rPos + 1) % totalLogs }
        thread := .wait }, [], { m with rPos := (m.rPos + 1) % totalLogs }, ?_, ?_⟩
    · rw [threadMsg, hth]
      dsimp only
      rw [h.plidbgMsg, Option.map_some]
    · rw [List.append_nil]
      refine ⟨rfl, rfl, h.printed_eq, ⟨?_, hlap, hwlt, Nat.mod_lt _ (by decide), hwPos, ?_⟩,
        h.slots.length_log, h.slots.length_row, h.slots.holds, h.slots.last⟩
      · simpa [inPrint, inWriter, hth] using hcount
      · simpa [inAdvance, hth] using hrPos

/-- The thread starts up; a writer that comes earlier is what the condition
excludes. -/
theorem starts_step {kmalloced : Option LidbgMsg} {pre : List Event} {e : Event}
    (h : Starts o s) (hslot : HasSlot pre o s e) :
    ∃ s' o', msgStep kmalloced s e = some (s', o') ∧
      (Starts (o ++ o') s' ∨ ∃ m, Serves (o ++ o') s' m) := by
  obtain ⟨rfl, hwriter, hleaving, hready, hthread⟩ := h
  cases e with
  | write buffer =>
    have hstarted := (hslot hwriter).1
    rcases hthread with h | h | ⟨h, -⟩ <;>
    · rw [h] at hstarted
      exact absurd hstarted (by decide)
  | writer =>
    exact ⟨s, [], by rw [msgStep, writerStep, hwriter]; rfl,
      .inl ⟨rfl, hwriter, hleaving, hready, hthread⟩⟩
  | complete =>
    have hcomplete : complete s = s := if_neg (by omega)
    exact ⟨s, [], by rw [msgStep, hcomplete],
      .inl ⟨rfl, hwriter, hleaving, hready, hthread⟩⟩
  | thread =>
    rcases hthread with hth | hth | ⟨hth, m, hm, hlog⟩
    · exact ⟨{ s with plidbgMsg := kmalloced, thread := .memset }, [],
        by rw [msgStep, threadMsg, hth], .inl ⟨rfl, hwriter, hleaving, hready, .inr (.inl rfl)⟩⟩
    · -- the slots are cleared, which takes memory for them
      obtain ⟨m, hm⟩ := Option.isSome_iff_exists.mp (hslot hth)
      exact ⟨{ s with plidbgMsg := some m.clear, thread := .positions }, [],
        by rw [msgStep, threadMsg, hth]; dsimp only; rw [hm, Option.map_some],
        .inl ⟨rfl, hwriter, hleaving, hready, .inr (.inr ⟨rfl, m.clear, rfl, rfl⟩)⟩⟩
    · -- the positions are set, and from here on the thread serves
      refine ⟨{ s with plidbgMsg := some m.reset, thread := .wait }, [],
        by rw [msgStep, threadMsg, hth]; dsimp only; rw [hm, Option.map_some],
        .inr ⟨m.reset, rfl, rfl, rfl, ?_, ?_⟩⟩
      · refine ⟨?_, Nat.zero_le _, Nat.zero_lt_succ _, Nat.zero_lt_succ _, ?_, rfl⟩
        · simp [inPrint, inWriter, hwriter, hleaving, hready]
        · simp [inWriter, hwriter, LidbgMsg.reset]
      · refine ⟨?_, ?_, fun j b hj => (nomatch hj), fun n hn => ?_⟩
        · rw [LidbgMsg.reset, hlog, List.length_replicate]
        · intro row hrow
          rw [LidbgMsg.reset, hlog] at hrow
          rw [List.eq_of_mem_replicate hrow, List.length_replicate]
        · rw [hwriter] at hn
          cases hn

theorem serves_step {kmalloced : Option LidbgMsg} {pre : List Event} {e : Event}
    (h : Serves o s m) (hslot : HasSlot pre o s e) (hsized : Sized e) :
    ∃ s' o' m', msgStep kmalloced s e = some (s', o') ∧ Serves (o ++ o') s' m' := by
  cases e with
  | write buffer => exact serves_write h hsized.1 fun hw => (hslot hw).2
  | writer =>
    obtain ⟨s', m', hstep, h'⟩ := serves_writer h
    exact ⟨s', [], m', by rw [msgStep, hstep]; rfl, by rwa [List.append_nil]⟩
  | complete => exact ⟨complete s, [], m, rfl, by simpa using serves_complete h⟩
  | thread => exact serves_thread kmalloced h

/-! ## Every schedule -/

theorem printed_in_order (h : Serves o s m) : printed o <+: (written o).map text := by
  rw [h.printed_eq, List.map_take]
  exact List.take_prefix _ _

/-- Nothing in flight, nothing lost. -/
theorem printed_eq_of_quiet (h : Serves o s m) (hquiet : quiet s) :
    printed o = (written o).map text := by
  obtain ⟨hwriter, hleaving, hready, hthread⟩ := of_decide_eq_true hquiet
  have hcount := h.counts.count
  rw [inPrint, inWriter, if_neg hthread, hwriter, hleaving, hready] at hcount
  have hlen : (printed o).length = (written o).length := by simpa using hcount.symm
  rw [h.printed_eq, hlen, List.take_length]

end Steps

/-- **The ring prints what is written**, in order and without loss, in every
schedule in which each message finds a slot that holds nothing unprinted. -/
theorem prints_in_order (kmalloced : Option LidbgMsg) {events : List Event}
    (hsized : ∀ e ∈ events, Sized e)
    (hslot : StepsMeet (msgStep kmalloced) HasSlot msgInit events) :
    ∃ s o, run (msgStep kmalloced) msgInit events = some (s, o) ∧
      printed o <+: (written o).map text ∧
      (quiet s → printed o = (written o).map text) := by
  have hmeet : StepsMeet (msgStep kmalloced) (fun pre o s e => HasSlot pre o s e ∧ Sized e)
      msgInit events := fun pre e hpre s o hrun =>
    ⟨hslot pre e hpre s o hrun, stepsMeet_of_forall hsized _ _ pre e hpre s o hrun⟩
  have hinit : Starts [] msgInit := ⟨rfl, rfl, rfl, rfl, .inl rfl⟩
  obtain ⟨s, o, hrun, h⟩ := run_invariant
    (I := fun _ o s => Starts o s ∨ ∃ m, Serves o s m)
    (fun pre o s e h ⟨hslot, hsized⟩ => by
      rcases h with h | ⟨m, h⟩
      · exact starts_step h hslot
      · obtain ⟨s', o', m', hstep, h'⟩ := serves_step h hslot hsized
        exact ⟨s', o', hstep, .inr ⟨m', h'⟩⟩)
    (.inl hinit) hmeet
  refine ⟨s, o, hrun, ?_⟩
  rcases h with h | ⟨m, h⟩
  · rw [h.seen]
    exact ⟨List.nil_prefix, fun _ => rfl⟩
  · exact ⟨printed_in_order h, printed_eq_of_quiet h⟩

/-- What `kmalloc` returned. -/
def kmalloced : LidbgMsg := ⟨7, 9, List.replicate totalLogs (List.replicate logBytes 165)⟩

/-- A whole call of `msg_write`. -/
def call (buffer : List UInt8) : List Event := [.write buffer, .writer, .writer, .complete]

/-- The start-up and two messages, the first printed between the copy and the
NUL of the second. -/
def twoMessages : List Event :=
  List.replicate 3 .thread ++ call [65, 10] ++
    [.write [66, 10], .thread, .thread, .writer, .writer, .complete, .thread, .thread, .thread]

theorem twoMessages_in_order :
    ∃ s o, run (msgStep (some kmalloced)) msgInit twoMessages = some (s, o) ∧
      printed o <+: (written o).map text ∧
      (quiet s → printed o = (written o).map text) :=
  prints_in_order (some kmalloced) (by decide) (by decide +kernel)

/-- 51 messages before the thread gets to run. -/
def overrun : List Event :=
  List.replicate 3 .thread ++ call [65, 10] ++ (List.replicate 50 (call [66, 10])).flatten ++
    [.thread, .thread]

/-- The thread starts with the last of them. -/
theorem overrun_reorders :
    (∀ e ∈ overrun, Sized e) ∧
    (run (msgStep (some kmalloced)) msgInit overrun).map
      (fun r => (printed r.2, ((written r.2).map text).take 1)) = some ([[66]], [[65]]) ∧
    ¬ ∃ s o, run (msgStep (some kmalloced)) msgInit overrun = some (s, o) ∧
      printed o <+: (written o).map text := by
  have hrun : (run (msgStep (some kmalloced)) msgInit overrun).map
      (fun r => (printed r.2, ((written r.2).map text).take 1)) = some ([[66]], [[65]]) := by
    decide +kernel
  refine ⟨by decide +kernel, hrun, ?_⟩
  rintro ⟨s, o, hso, hprefix⟩
  rw [hso, Option.map_some, Option.some.injEq, Prod.mk.injEq] at hrun
  obtain ⟨hprinted, hwritten⟩ := hrun
  have := List.prefix_iff_eq_take.mp hprefix
  rw [hprinted, List.length_singleton, hwritten] at this
  exact absurd this (by decide)

end Lidbg.Msg
