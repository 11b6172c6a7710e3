import Lidbg.Core.TraceMsg
import Lidbg.Machine.ByteFifo

/-!
# The fifo of the trace (`core/lidbg_trace_msg.c`)

`thread_trace_msg_in` and the writers of the device put their chunks into one fifo and
`thread_trace_msg_out` takes single bytes from it. `sem` protects each `kfifo_in` and
`kfifo_out`, but neither the test that comes before `lidbg_trace_msg_is_enough` makes
room nor the look at `kfifo_is_empty`, so others come between.

- `trace_accounts`: over every interleaving, what was put is what was taken and what is
  unread, in order, and the lines are made of the bytes that were processed.
- `trace_losesOldest`: where callers do not overlap, every chunk is put whole and every
  byte processed has been read.
-/

namespace Lidbg.TraceMsg

open Machine

/-- `LIDBG_TRACE_MSG_FIFO_SIZE`. -/
abbrev fifoSize : Nat := 32 * 1024

/-- Who puts chunks: `thread_trace_msg_in`, or a call of `lidbg_trace_msg_write`. -/
inductive Caller where
  | msgIn
  | write (n : Nat)
deriving DecidableEq

/-- The size of its buffer. -/
def Caller.room : Caller → Nat
  | .msgIn => 512
  | .write _ => 256

/-- Where a caller is: away, before its read, before the `kfifo_out` of
`lidbg_trace_msg_is_enough`, or before its `kfifo_in`. -/
inductive Place where
  | away
  | reading
  | makingRoom (chunk : List UInt8)
  | putting (chunk : List UInt8)

/-- What `lidbg_trace_key_word` does about a line. -/
inductive Effect where
  | amend (string : List UInt8)
  | callback (keyWord : List UInt8)
deriving DecidableEq

/-- What is seen. A chunk is put with what `kfifo_in` returns; a byte is stale if
`kfifo_out` had none and `buff[i]` is what it was. -/
inductive Obs where
  | put (chunk : List UInt8) (n : Nat)
  | dropped (bytes : List UInt8)
  | read (b : UInt8)
  | stale (b : UInt8)
  | effect (e : Effect)

/-- Who moves. -/
inductive Event where
  | disable (flag : Bool)
  | enter (c : Caller)
  | read (c : Caller) (chunk : List UInt8)
  | makeRoom (c : Caller)
  | kfifoIn (c : Caller)
  | look
  | kfifoOut
deriving DecidableEq

/-- The keys of the list that occur in the line, then the callbacks'. `ret` is `NULL`
again after every entry. -/
def lidbgTraceKeyWord (keys callbacks : List (List UInt8)) (string : List UInt8) : List Effect :=
  (keys.filter fun key => key ≠ [] ∧ key <:+: string).map (fun _ => .amend string) ++
    (callbacks.filter fun key => key ≠ [] ∧ key <:+: string).map .callback

section Model

variable (K : ByteFifo) (keys callbacks : List (List UInt8))

/-- `pdev`, the callers, and `thread_trace_msg_out`, which has found the fifo not
empty or not. -/
structure State where
  fifo : K.State
  disableFlag : Bool
  callers : Caller → Place
  out : OutState
  found : Bool

def State.init : State K := ⟨K.init fifoSize, true, fun _ => .away, .init, false⟩

/-- The test of `lidbg_trace_msg_is_enough`. -/
def isEnough (fifo : K.State) (chunk : List UInt8) : Place :=
  if K.isFull fifo ∨ K.avail fifo < chunk.length then .makingRoom chunk else .putting chunk

/-- One move; `none` is a move that is not there to be made, or a store outside a
buffer. -/
def step : Step (State K) Event Obs := fun s e =>
  match e with
  | .disable flag => some ({ s with disableFlag := flag }, [])
  | .enter c =>
    match s.callers c with
    | .away =>
      -- only the thread looks at `disable_flag`
      if c = .msgIn ∧ s.disableFlag then some (s, [])
      else some ({ s with callers := Function.update s.callers c .reading }, [])
    | _ => none
  | .read c chunk =>
    match s.callers c with
    | .reading =>
      if chunk.length ≤ c.room then
        some ({ s with callers := Function.update s.callers c (isEnough K s.fifo chunk) }, [])
      else none
    | _ => none
  | .makeRoom c =>
    match s.callers c with
    | .makingRoom chunk =>
      let (fifo, bytes) := K.get s.fifo chunk.length
      some ({ s with fifo := fifo, callers := Function.update s.callers c (.putting chunk) },
        [.dropped bytes])
    | _ => none
  | .kfifoIn c =>
    match s.callers c with
    | .putting chunk =>
      let (fifo, n) := K.put s.fifo chunk
      some ({ s with fifo := fifo, callers := Function.update s.callers c .away },
        [.put chunk n])
    | _ => none
  | .look =>
    if s.found then none
    else if s.disableFlag then some (s, [])
    else some ({ s with found := !K.isEmpty s.fifo }, [])
  | .kfifoOut =>
    if s.found then do
      let (fifo, bytes) := K.get s.fifo 1
      let (b, obs) ← match bytes with
        | b :: _ => some (b, Obs.read b)
        | [] => s.out.buff[s.out.i]?.map fun b => (b, Obs.stale b)
      let (out, strings) ← traceOut s.out ⟨false, some b⟩
      some ({ s with fifo := fifo, out := out, found := false },
        obs :: (strings.flatMap fun string =>
          lidbgTraceKeyWord keys callbacks (cstr string)).map .effect)
    else none

end Model

/-! ## What is accounted for -/

/-- What the fifo took in. -/
def Obs.accepted : Obs → List UInt8
  | .put chunk n => chunk.take n
  | _ => []

/-- What was taken from it. -/
def Obs.taken : Obs → List UInt8
  | .dropped bytes => bytes
  | .read b => [b]
  | _ => []

/-- What `thread_trace_msg_out` went on with. -/
def Obs.processed : Obs → List UInt8
  | .read b => [b]
  | .stale b => [b]
  | _ => []

def Obs.effects : Obs → List Effect
  | .effect e => [e]
  | _ => []

/-- `lidbg_trace_key_word` is given a buffer that starts with the line and a NUL. -/
theorem flatMap_handedOver {α : Type} {lines strings : List (List UInt8)}
    (h : List.Forall₂ HandedOver lines strings) (f : List UInt8 → List α) :
    (strings.flatMap fun string => f (cstr string)) = lines.flatMap fun line => f (cstr line) := by
  induction h with
  | nil => rfl
  | cons hline _ ih =>
    obtain ⟨-, rest, rfl⟩ := hline
    rw [List.flatMap_cons, List.flatMap_cons, ih, List.append_assoc, List.singleton_append,
      cstr_append_nul_cons]

theorem flatMap_map_effect {α : Type} {f : Obs → List α} (h : ∀ e, f (.effect e) = [])
    (es : List Effect) : (es.map Obs.effect).flatMap f = [] := by
  simp [List.flatMap_map, h]

theorem flatMap_effects (es : List Effect) : (es.map Obs.effect).flatMap Obs.effects = es := by
  induction es with
  | nil => rfl
  | cons e es ih =>
    rw [List.map_cons, List.flatMap_cons, ih]
    rfl

section Accounts

variable {K : ByteFifo} {keys callbacks : List (List UInt8)}

/-- The books: what the fifo has seen, and what has become of the bytes taken. -/
structure Booked (keys callbacks : List (List UInt8)) (o : List Obs) (s : State K) : Prop where
  size : K.size s.fifo = fifoSize
  order : o.flatMap Obs.accepted = o.flatMap Obs.taken ++ K.bytes s.fifo
  lines : ∃ strings lines p,
    Assembled (o.flatMap Obs.processed) strings s.out lines p ∧
      o.flatMap Obs.effects = strings.flatMap fun string =>
        lidbgTraceKeyWord keys callbacks (cstr string)

theorem Booked.init : Booked (K := K) keys callbacks [] (State.init K) where
  size := K.size_init 15
  order := (K.bytes_init 15).symm
  lines := ⟨[], [], [], ⟨⟨List.replicate buffSize 0, rfl, List.length_replicate⟩, .nil,
    List.forall_mem_nil _, ⟨List.not_mem_nil, by decide⟩, rfl⟩, rfl⟩

/-- A move that only the fifo sees. -/
theorem Booked.fifo {o o' : List Obs} {s s' : State K} (h : Booked keys callbacks o s)
    (hsize : K.size s'.fifo = K.size s.fifo)
    (hbytes : K.bytes s.fifo ++ o'.flatMap Obs.accepted =
      o'.flatMap Obs.taken ++ K.bytes s'.fifo)
    (hout : s'.out = s.out) (hprocessed : o'.flatMap Obs.processed = [])
    (heffects : o'.flatMap Obs.effects = []) : Booked keys callbacks (o ++ o') s' where
  size := hsize.trans h.size
  order := by
    rw [List.flatMap_append, List.flatMap_append, h.order, List.append_assoc, hbytes,
      List.append_assoc]
  lines := by
    rw [List.flatMap_append, List.flatMap_append, hprocessed, heffects, List.append_nil,
      List.append_nil, hout]
    exact h.lines

/-- A move that nobody sees. -/
theorem Booked.silent {o : List Obs} {s s' : State K} (h : Booked keys callbacks o s)
    (hfifo : s'.fifo = s.fifo) (hout : s'.out = s.out) :
    Booked keys callbacks (o ++ []) s' := by
  refine h.fifo ?_ ?_ hout rfl rfl
  · rw [hfifo]
  · simp [hfifo]

/-! ## One move -/

theorem buff_isSome {o : List Obs} {s : State K} (h : Booked keys callbacks o s) :
    ∃ b, s.out.buff[s.out.i]? = some b := by
  obtain ⟨strings, lines, p, hlines, -⟩ := h.lines
  obtain ⟨tail, hout, hlen⟩ := hlines.state
  have hlt := hlines.pending.length_lt
  rw [hout]
  refine ⟨_, List.getElem?_eq_getElem ?_⟩
  show p.length < (p ++ tail).length
  rw [hlen]
  exact hlt.trans (by decide)

/-- What is taken when `thread_trace_msg_out` reads: the oldest byte, or none, and then it
goes on with what stands in `buff[i]`. -/
theorem kfifoOut_spec {o : List Obs} {s : State K} (h : Booked keys callbacks o s)
    (hfound : s.found = true) :
    ∃ b obs out strings, (obs = Obs.read b ∧ K.bytes s.fifo = b :: K.bytes (K.get s.fifo 1).1 ∨
        obs = Obs.stale b ∧ K.bytes s.fifo = []) ∧
      traceOut s.out ⟨false, some b⟩ = some (out, strings) ∧
      step K keys callbacks s .kfifoOut =
        some ({ s with fifo := (K.get s.fifo 1).1, out := out, found := false },
          obs :: (strings.flatMap fun string =>
            lidbgTraceKeyWord keys callbacks (cstr string)).map .effect) := by
  obtain ⟨strings, lines, p, hlines, -⟩ := h.lines
  have hget := K.get_bytes s.fifo 1
  have hrest := K.bytes_get s.fifo 1
  cases hbytes : K.bytes s.fifo with
  | nil =>
    obtain ⟨b, hb⟩ := buff_isSome h
    obtain ⟨out, strings', lines', p', hturn, -⟩ := assembled_byte hlines b
    refine ⟨b, .stale b, out, strings', .inr ⟨rfl, rfl⟩, hturn, ?_⟩
    rw [hbytes, List.take_nil] at hget
    simp [step, hfound, hget, hb, hturn]
  | cons b bytes =>
    obtain ⟨out, strings', lines', p', hturn, -⟩ := assembled_byte hlines b
    rw [hbytes] at hget hrest
    refine ⟨b, .read b, out, strings', .inl ⟨rfl, ?_⟩, hturn, ?_⟩
    · rw [hrest]
      rfl
    · have htaken : (K.get s.fifo 1).2 = [b] := hget
      simp [step, hfound, htaken, hturn]

/-- All that a `kfifo_out` of `thread_trace_msg_out` can do. -/
theorem kfifoOut_cases {o : List Obs} {s s' : State K}
    (hs : step K keys callbacks s .kfifoOut = some (s', o)) :
    s.found = true ∧ ∃ (obs : Obs) (out : OutState) (es : List Effect),
      s' = { s with fifo := (K.get s.fifo 1).1, out := out, found := false } ∧
        o = obs :: es.map .effect ∧ ((∃ b, obs = .read b) ∨ K.bytes s.fifo = []) := by
  simp only [step] at hs
  split at hs
  · next hfound =>
    split at hs
    · next b rest hget =>
      obtain ⟨_, hread, hs⟩ := Option.bind_eq_some_iff.mp hs
      obtain ⟨⟨out, strings⟩, -, hs⟩ := Option.bind_eq_some_iff.mp hs
      cases hread
      cases hs
      exact ⟨hfound, .read b, out, _, rfl, rfl, .inl ⟨b, rfl⟩⟩
    · next hget =>
      obtain ⟨obs, -, hs⟩ := Option.bind_eq_some_iff.mp hs
      obtain ⟨⟨out, strings⟩, -, hs⟩ := Option.bind_eq_some_iff.mp hs
      cases hs
      have hnil : (K.bytes s.fifo).take 1 = [] := (K.get_bytes s.fifo 1).symm.trans hget
      refine ⟨hfound, obs.2, out, _, rfl, rfl, .inr ?_⟩
      simpa using hnil
  · cases hs

/-- **One move keeps the books.** -/
theorem Booked.step {o o' : List Obs} {s s' : State K} {e : Event}
    (h : Booked keys callbacks o s) (hs : step K keys callbacks s e = some (s', o')) :
    Booked keys callbacks (o ++ o') s' := by
  cases e with
  | disable flag =>
    cases hs
    exact h.silent rfl rfl
  | enter c =>
    simp only [TraceMsg.step] at hs
    split at hs
    · split at hs <;> cases hs <;> exact h.silent rfl rfl
    · cases hs
  | read c chunk =>
    simp only [TraceMsg.step] at hs
    split at hs
    · split at hs
      · cases hs
        exact h.silent rfl rfl
      · cases hs
    · cases hs
  | makeRoom c =>
    simp only [TraceMsg.step] at hs
    split at hs
    · next chunk hplace =>
      cases hs
      refine h.fifo (K.size_get s.fifo _) ?_ rfl rfl rfl
      simp [Obs.accepted, Obs.taken, K.bytes_get, K.get_bytes]
    · cases hs
  | kfifoIn c =>
    simp only [TraceMsg.step] at hs
    split at hs
    · next chunk hplace =>
      cases hs
      refine h.fifo (K.size_put s.fifo _) ?_ rfl rfl rfl
      simp [Obs.accepted, Obs.taken, K.bytes_put, K.put_count, List.take_eq_take_iff,
        Nat.min_comm]
    · cases hs
  | look =>
    simp only [TraceMsg.step] at hs
    split at hs
    · cases hs
    · split at hs <;> cases hs <;> exact h.silent rfl rfl
  | kfifoOut =>
    -- the thread takes a byte, or a stale one where the queue was emptied behind it
    have hfound : s.found = true := (kfifoOut_cases hs).1
    obtain ⟨b, obs, out, strings, htaken, hturn, hstep⟩ := kfifoOut_spec h hfound
    rw [hstep] at hs
    cases hs
    obtain ⟨strings₀, lines, p, hlines, heffects⟩ := h.lines
    obtain ⟨out', strings', lines', p', hturn', hlines'⟩ := assembled_byte hlines b
    cases hturn.symm.trans hturn'
    have hprocessed : obs.processed = [b] := by
      rcases htaken with ⟨rfl, -⟩ | ⟨rfl, -⟩ <;> rfl
    refine ⟨(K.size_get s.fifo 1).trans h.size, ?_, strings₀ ++ strings, lines', p', ?_, ?_⟩
    · -- the order: a stale byte was neither accepted nor is it taken
      rw [List.flatMap_append, List.flatMap_append, List.flatMap_cons, List.flatMap_cons,
        flatMap_map_effect (fun _ => rfl), flatMap_map_effect (fun _ => rfl), h.order]
      rcases htaken with ⟨rfl, hbytes⟩ | ⟨rfl, hbytes⟩
      · rw [hbytes]
        simp [Obs.accepted, Obs.taken]
      · simp [Obs.accepted, Obs.taken, hbytes, K.bytes_get]
    · rw [List.flatMap_append, List.flatMap_cons, flatMap_map_effect (fun _ => rfl), hprocessed]
      exact hlines'
    · have hnone : obs.effects = [] := by
        rcases htaken with ⟨rfl, -⟩ | ⟨rfl, -⟩ <;> rfl
      rw [List.flatMap_append, List.flatMap_cons, flatMap_effects, hnone, heffects,
        List.flatMap_append]
      rfl

theorem booked_run {events : List Event} {s : State K} {o : List Obs}
    (hrun : run (TraceMsg.step K keys callbacks) (State.init K) events = some (s, o)) :
    Booked keys callbacks o s := by
  have h := run_preserves_observed (I := Booked (K := K) keys callbacks)
    (fun _ _ _ _ _ h hs => h.step hs) Booked.init hrun
  exact h

/-- The lines by what was processed, and what was done about them. -/
theorem Booked.handed {o : List Obs} {s : State K} (h : Booked keys callbacks o s) :
    ∃ lines : List (List UInt8), (∀ line ∈ lines, Line line) ∧ Pending (s.out.buff.take s.out.i) ∧
      lines.flatten ++ s.out.buff.take s.out.i = o.flatMap Obs.processed ∧
      o.flatMap Obs.effects =
        lines.flatMap fun line => lidbgTraceKeyWord keys callbacks (cstr line) := by
  obtain ⟨strings, lines, p, hlines, heffects⟩ := h.lines
  obtain ⟨tail, hout, -⟩ := hlines.state
  have hpending : s.out.buff.take s.out.i = p := by
    rw [hout]
    exact List.take_left
  refine ⟨lines, hlines.line, ?_, ?_, ?_⟩
  · rw [hpending]
    exact hlines.pending
  · rw [hpending]
    exact hlines.bytes_eq
  · rw [heffects]
    exact flatMap_handedOver hlines.handed _

/-- **The trace accounts for every byte.** Over every interleaving of the callers, of
`disable_flag` and of `thread_trace_msg_out`: what the fifo took in is what was taken from
it and what is unread, in order; what `thread_trace_msg_out` went on with is the lines
handed over and what is pending; each line has been amended to the file once for each
key it contains, in order; and the next `kfifo_out` stores inside `buff`. -/
theorem trace_accounts {events : List Event} {s : State K} {o : List Obs}
    (hrun : run (step K keys callbacks) (State.init K) events = some (s, o)) :
    o.flatMap Obs.accepted = o.flatMap Obs.taken ++ K.bytes s.fifo ∧
      (∃ lines : List (List UInt8), (∀ line ∈ lines, Line line) ∧ Pending (s.out.buff.take s.out.i) ∧
        lines.flatten ++ s.out.buff.take s.out.i = o.flatMap Obs.processed ∧
        o.flatMap Obs.effects =
          lines.flatMap fun line => lidbgTraceKeyWord keys callbacks (cstr line)) ∧
      (s.found = true → (step K keys callbacks s .kfifoOut).isSome = true) := by
  have h := booked_run hrun
  refine ⟨h.order, h.handed, fun hfound => ?_⟩
  obtain ⟨b, obs, out, strings, -, -, hstep⟩ := kfifoOut_spec h hfound
  rw [hstep]
  rfl

/-- A line of a writer, with a key in it. -/
theorem trace_accounts_write :
    ∃ s o, run (step ringFifo [ascii "b"] []) (State.init ringFifo)
        [.disable false, .enter (.write 0), .read (.write 0) (ascii "ab\n"),
          .kfifoIn (.write 0), .look, .enter .msgIn, .kfifoOut, .look, .kfifoOut, .look,
          .kfifoOut] = some (s, o) ∧
      o.flatMap Obs.accepted = o.flatMap Obs.taken ++ ringFifo.bytes s.fifo ∧
      (∃ lines : List (List UInt8), (∀ line ∈ lines, Line line) ∧ Pending (s.out.buff.take s.out.i) ∧
        lines.flatten ++ s.out.buff.take s.out.i = o.flatMap Obs.processed ∧
        o.flatMap Obs.effects =
          lines.flatMap fun line => lidbgTraceKeyWord [ascii "b"] [] (cstr line)) ∧
      (s.found = true → (step ringFifo [ascii "b"] [] s .kfifoOut).isSome = true) := by
  have hsome : (run (step ringFifo [ascii "b"] []) (State.init ringFifo)
      [.disable false, .enter (.write 0), .read (.write 0) (ascii "ab\n"),
        .kfifoIn (.write 0), .look, .enter .msgIn, .kfifoOut, .look, .kfifoOut, .look,
        .kfifoOut]).isSome = true := by decide +kernel
  obtain ⟨⟨s, o⟩, hrun⟩ := Option.isSome_iff_exists.mp hsome
  exact ⟨s, o, hrun, trace_accounts hrun⟩

/-! ## Callers that do not overlap -/

/-- A caller is past the test of `lidbg_trace_msg_is_enough`. -/
def Place.busy : Place → Bool
  | .makingRoom _ => true
  | .putting _ => true
  | _ => false

/-- A caller tests only while no other is past the test, and room is not made between
the look and the `kfifo_out` of `thread_trace_msg_out`. -/
def Undisturbed (s : State K) : Event → Prop
  | .read c _ => ∀ d, d ≠ c → (s.callers d).busy = false
  | .makeRoom _ => s.found = false
  | _ => True

/-- What keeps every chunk whole and every look true. -/
structure Roomy (s : State K) : Prop where
  size : K.size s.fifo = fifoSize
  alone : ∀ c d, (s.callers c).busy = true → (s.callers d).busy = true → c = d
  length_le : ∀ c chunk, s.callers c = .makingRoom chunk → chunk.length ≤ 512
  room : ∀ c chunk, s.callers c = .putting chunk → chunk.length ≤ K.avail s.fifo
  found : s.found = true → K.bytes s.fifo ≠ []

/-- A chunk is put whole, and no byte is stale. -/
def Obs.Whole : Obs → Prop
  | .put chunk n => n = chunk.length
  | .stale _ => False
  | _ => True

/-- What a caller has put. -/
def Obs.chunk : Obs → List UInt8
  | .put chunk _ => chunk
  | _ => []

/-- What `thread_trace_msg_out` has read. -/
def Obs.byteRead : Obs → List UInt8
  | .read b => [b]
  | _ => []

theorem Obs.Whole.accepted_eq {w : Obs} (h : w.Whole) : w.accepted = w.chunk := by
  cases w with
  | put chunk n =>
    have hn : n = chunk.length := h
    rw [Obs.accepted, hn, List.take_length]
    rfl
  | _ => rfl

theorem Obs.Whole.processed_eq {w : Obs} (h : w.Whole) : w.processed = w.byteRead := by
  cases w with
  | stale b => cases h
  | _ => rfl

theorem Roomy.init : Roomy (K := K) (State.init K) where
  size := K.size_init 15
  alone := by simp [State.init, Place.busy]
  length_le := by simp [State.init]
  room := by simp [State.init]
  found := by simp [State.init]

/-- Nobody else is past the test. -/
theorem Roomy.others {s : State K} (h : Roomy s) {c : Caller}
    (hc : (s.callers c).busy = true) : ∀ d, d ≠ c → (s.callers d).busy = false := by
  intro d hd
  by_contra hbusy
  exact hd (h.alone d c (Bool.of_not_eq_false hbusy) hc)

/-- A caller goes to a place that is past the test only if no other is. -/
theorem Roomy.move {s s' : State K} (h : Roomy s) {c : Caller} {place : Place}
    (hcallers : s'.callers = Function.update s.callers c place)
    (hsize : K.size s'.fifo = K.size s.fifo)
    (hothers : ∀ d, d ≠ c → (s.callers d).busy = false)
    (hmaking : ∀ chunk, place = .makingRoom chunk → chunk.length ≤ 512)
    (hputting : ∀ chunk, place = .putting chunk → chunk.length ≤ K.avail s'.fifo)
    (hfound : s'.found = true → K.bytes s'.fifo ≠ []) : Roomy s' := by
  have hplace : ∀ d, (s'.callers d).busy = true → d = c ∧ s'.callers d = place := by
    intro d hd
    by_cases hdc : d = c
    · refine ⟨hdc, ?_⟩
      rw [hcallers, hdc, Function.update_self]
    · rw [hcallers, Function.update_of_ne hdc, hothers d hdc] at hd
      cases hd
  refine ⟨hsize.trans h.size, fun d e hd he => ?_, fun d chunk hd => ?_, fun d chunk hd => ?_,
    hfound⟩
  · rw [(hplace d hd).1, (hplace e he).1]
  · have hbusy : (s'.callers d).busy = true := by rw [hd]; rfl
    exact hmaking chunk ((hplace d hbusy).2.symm.trans hd)
  · have hbusy : (s'.callers d).busy = true := by rw [hd]; rfl
    exact hputting chunk ((hplace d hbusy).2.symm.trans hd)

/-- A move of `thread_trace_msg_out`, or one before the test. -/
theorem Roomy.other {s s' : State K} (h : Roomy s)
    (hcallers : ∀ c, (s'.callers c).busy = true → s'.callers c = s.callers c)
    (hsize : K.size s'.fifo = K.size s.fifo) (hroom : K.avail s.fifo ≤ K.avail s'.fifo)
    (hfound : s'.found = true → K.bytes s'.fifo ≠ []) : Roomy s' := by
  refine ⟨hsize.trans h.size, fun d e hd he => ?_, fun d chunk hd => ?_, fun d chunk hd => ?_,
    hfound⟩
  · have hd' := hcallers d hd
    have he' := hcallers e he
    rw [hd'] at hd
    rw [he'] at he
    exact h.alone d e hd he
  · have hbusy : (s'.callers d).busy = true := by rw [hd]; rfl
    exact h.length_le d chunk ((hcallers d hbusy).symm.trans hd)
  · have hbusy : (s'.callers d).busy = true := by rw [hd]; rfl
    exact (h.room d chunk ((hcallers d hbusy).symm.trans hd)).trans hroom

theorem avail_get (fifo : K.State) (n : Nat) : K.avail fifo ≤ K.avail (K.get fifo n).1 := by
  simp only [ByteFifo.avail, K.size_get, K.bytes_get, List.length_drop]
  omega

/-- Once `n` bytes are taken there is room for `n`. -/
theorem le_avail_get {fifo : K.State} (hsize : K.size fifo = fifoSize) {n : Nat} (hn : n ≤ 512) :
    n ≤ K.avail (K.get fifo n).1 := by
  have hle := K.length_bytes_le fifo
  have hbound : fifoSize = 32 * 1024 := rfl
  simp only [ByteFifo.avail, K.size_get, K.bytes_get, List.length_drop]
  omega

theorem Caller.room_le (c : Caller) : c.room ≤ 512 := by
  cases c <;> simp [Caller.room]

/-- **One move keeps the room**, and what is seen of it is whole. -/
theorem Roomy.step {o : List Obs} {s s' : State K} {e : Event} (h : Roomy s)
    (hP : Undisturbed s e) (hs : step K keys callbacks s e = some (s', o)) :
    Roomy s' ∧ ∀ w ∈ o, w.Whole := by
  cases e with
  | disable flag =>
    cases hs
    exact ⟨h.other (fun _ _ => rfl) rfl (Nat.le_refl _) h.found, List.forall_mem_nil _⟩
  | enter c =>
    simp only [TraceMsg.step] at hs
    split at hs
    · split at hs
      · cases hs
        exact ⟨h, List.forall_mem_nil _⟩
      · cases hs
        refine ⟨h.other (fun d hd => ?_) rfl (Nat.le_refl _) h.found, List.forall_mem_nil _⟩
        -- the caller that comes in is not one of those with a chunk in hand
        have hdc : d ≠ c := by
          rintro rfl
          simp [Place.busy] at hd
        exact Function.update_of_ne hdc _ _
    · cases hs
  | read c chunk =>
    simp only [TraceMsg.step] at hs
    split at hs
    · split at hs
      · next hlen =>
        cases hs
        refine ⟨h.move rfl rfl hP (fun chunk' hplace => ?_) (fun chunk' hplace => ?_) h.found,
          List.forall_mem_nil _⟩
        · -- room is still to be made, for a chunk that fits the buffer
          unfold isEnough at hplace
          split at hplace <;> cases hplace
          exact hlen.trans c.room_le
        · -- the queue had room at once
          unfold isEnough at hplace
          split at hplace
          · cases hplace
          · next henough =>
            cases hplace
            rw [not_or, Nat.not_lt] at henough
            exact henough.2
      · cases hs
    · cases hs
  | makeRoom c =>
    simp only [TraceMsg.step] at hs
    split at hs
    · next chunk hplace =>
      have hbusy : (s.callers c).busy = true := by rw [hplace]; rfl
      have hfound : s.found = false := hP
      cases hs
      refine ⟨h.move rfl (K.size_get s.fifo _) (h.others hbusy) (fun chunk' heq => by cases heq)
        (fun chunk' heq => ?_) (fun hfound' => ?_), by simp [Obs.Whole]⟩
      · cases heq
        exact le_avail_get h.size (h.length_le c chunk hplace)
      · rw [hfound] at hfound'
        cases hfound'
    · cases hs
  | kfifoIn c =>
    simp only [TraceMsg.step] at hs
    split at hs
    · next chunk hplace =>
      have hbusy : (s.callers c).busy = true := by rw [hplace]; rfl
      -- the room that was made is still there, as no other caller has put anything since
      have hroom := h.room c chunk hplace
      cases hs
      refine ⟨h.move rfl (K.size_put s.fifo _) (h.others hbusy) (fun chunk' heq => by cases heq)
        (fun chunk' heq => by cases heq) (fun hfound => ?_), ?_⟩
      · show K.bytes (K.put s.fifo chunk).1 ≠ []
        rw [K.put_of_le_avail hroom]
        exact List.append_ne_nil_of_left_ne_nil (h.found hfound) _
      · intro w hw
        rw [List.mem_singleton] at hw
        subst hw
        show (K.put s.fifo chunk).2 = chunk.length
        rw [K.put_count]
        exact Nat.min_eq_left hroom
    · cases hs
  | look =>
    simp only [TraceMsg.step] at hs
    split at hs
    · cases hs
    · split at hs
      · cases hs
        exact ⟨h, List.forall_mem_nil _⟩
      · cases hs
        refine ⟨h.other (fun _ _ => rfl) rfl (Nat.le_refl _) fun hfound hnil => ?_,
          List.forall_mem_nil _⟩
        rw [(K.isEmpty_iff s.fifo).mpr hnil] at hfound
        cases hfound
  | kfifoOut =>
    obtain ⟨hfound, obs, out, es, rfl, rfl, hobs⟩ := kfifoOut_cases hs
    -- what was found is still there, so the thread takes a byte of the queue
    obtain ⟨b, rfl⟩ := hobs.resolve_right (h.found hfound)
    refine ⟨h.other (fun _ _ => rfl) (K.size_get s.fifo 1) (avail_get s.fifo 1)
      (fun hfound' => by cases hfound'), ?_⟩
    simp [Obs.Whole]

/-- **Undisturbed, the trace loses its oldest bytes only.** Every chunk put is in the fifo
whole, so that what was put is what was taken and what is unread, and the lines
are made of the bytes that were read. -/
theorem trace_losesOldest {events : List Event} {s : State K} {o : List Obs}
    (hmeet : StepsMeet (step K keys callbacks) (fun _ _ s e => Undisturbed s e) (State.init K)
      events)
    (hrun : run (step K keys callbacks) (State.init K) events = some (s, o)) :
    o.flatMap Obs.chunk = o.flatMap Obs.taken ++ K.bytes s.fifo ∧
      ∃ lines : List (List UInt8), (∀ line ∈ lines, Line line) ∧
        lines.flatten ++ s.out.buff.take s.out.i = o.flatMap Obs.byteRead := by
  have h := booked_run hrun
  obtain ⟨-, hwhole⟩ := run_preserves_meet (fun _ _ _ _ h hP hs => h.step hP hs) Roomy.init
    hmeet hrun
  obtain ⟨lines, hline, -, hbytes, -⟩ := h.handed
  refine ⟨?_, lines, hline, ?_⟩
  · rw [← h.order]
    exact List.flatMap_congr fun w hw => (hwhole w hw).accepted_eq.symm
  · rw [hbytes]
    exact List.flatMap_congr fun w hw => (hwhole w hw).processed_eq

/-- The caller a move is of. -/
def Event.caller : Event → Option Caller
  | .enter c => some c
  | .read c _ => some c
  | .makeRoom c => some c
  | .kfifoIn c => some c
  | _ => none

/-- One move of a caller leaves the others where they are. -/
theorem step_callers {s s' : State K} {o : List Obs} {e : Event} {d : Caller}
    (hd : e.caller ≠ some d) (hs : step K keys callbacks s e = some (s', o)) :
    s'.callers d = s.callers d := by
  have hne : ∀ c, e.caller = some c → ∀ place, Function.update s.callers c place d = s.callers d :=
    fun c hc place => Function.update_of_ne (fun heq => hd (by rw [hc, heq])) place s.callers
  cases e with
  | disable flag =>
    cases hs
    rfl
  | enter c =>
    simp only [step] at hs
    split at hs
    · split at hs <;> cases hs
      · rfl
      · -- each of these steps moves its own caller only
        exact hne c rfl _
    · cases hs
  | read c chunk =>
    simp only [step] at hs
    split at hs
    · split at hs <;> cases hs
      exact hne c rfl _
    · cases hs
  | makeRoom c =>
    simp only [step] at hs
    split at hs <;> cases hs
    exact hne c rfl _
  | kfifoIn c =>
    simp only [step] at hs
    split at hs <;> cases hs
    exact hne c rfl _
  | look =>
    simp only [step] at hs
    split at hs
    · cases hs
    · split at hs <;> cases hs <;> rfl
  | kfifoOut =>
    obtain ⟨-, obs, out, es, rfl, -⟩ := kfifoOut_cases hs
    rfl

/-- A caller on its own is undisturbed if it makes room only while `thread_trace_msg_out`
is not behind its look. -/
theorem undisturbed_of_one {events : List Event} {c : Caller}
    (hone : ∀ e ∈ events, ∀ d, d ≠ c → e.caller ≠ some d)
    (hmeet : StepsMeet (step K keys callbacks)
      (fun _ _ s e => e = .makeRoom c → s.found = false) (State.init K) events) :
    StepsMeet (step K keys callbacks) (fun _ _ s e => Undisturbed s e) (State.init K) events := by
  intro pre e hpre s o hrun
  have hin : ∀ e' ∈ pre ++ [e], ∀ d, d ≠ c → e'.caller ≠ some d := fun e' he' =>
    hone e' (hpre.subset he')
  have hcaller := hin e (List.mem_append_right _ List.mem_cons_self)
  cases e with
  | read c' chunk =>
    have hc : c' = c := by
      by_contra hne
      exact hcaller c' hne rfl
    subst hc
    intro d hd
    have haway : s.callers d = .away ∧ ∀ w ∈ o, (fun _ => True) w :=
      run_preserves_meet (I := fun s : State K => s.callers d = .away)
        (P := fun _ e => e.caller ≠ some d)
        (fun _ _ _ _ h hP hs => ⟨(step_callers hP hs).trans h, fun _ _ => trivial⟩) rfl
        (stepsMeet_of_forall (fun e' he' => hin e' (List.mem_append_left _ he') d hd) _ _) hrun
    rw [haway.1]
    rfl
  | makeRoom c' =>
    have hc : c' = c := by
      by_contra hne
      exact hcaller c' hne rfl
    exact hmeet pre _ hpre s o hrun (by rw [hc])
  | _ => trivial

/-- The thread puts a line that is read, one byte after the other. -/
theorem trace_losesOldest_line :
    ∃ s o, run (step ringFifo [] []) (State.init ringFifo)
        [.disable false, .enter .msgIn, .read .msgIn (ascii "a\n"), .kfifoIn .msgIn, .look,
          .kfifoOut, .look, .kfifoOut] = some (s, o) ∧
      o.flatMap Obs.chunk = o.flatMap Obs.taken ++ ringFifo.bytes s.fifo ∧
      ∃ lines : List (List UInt8), (∀ line ∈ lines, Line line) ∧
        lines.flatten ++ s.out.buff.take s.out.i = o.flatMap Obs.byteRead := by
  have hsome : (run (step ringFifo [] []) (State.init ringFifo)
      [.disable false, .enter .msgIn, .read .msgIn (ascii "a\n"), .kfifoIn .msgIn, .look,
        .kfifoOut, .look, .kfifoOut]).isSome = true := by decide +kernel
  obtain ⟨⟨s, o⟩, hrun⟩ := Option.isSome_iff_exists.mp hsome
  refine ⟨s, o, hrun, trace_losesOldest (undisturbed_of_one (c := .msgIn) ?_ ?_) hrun⟩
  · simp [Event.caller, eq_comm]
  · decide +kernel

end Accounts

end Lidbg.TraceMsg
