import Lidbg.Machine.ByteFifo
import Lidbg.Machine.Run
import Mathlib.Data.Fintype.Basic

/-!
# The GPS data queue (`drivers/gps/lidbg_gps.c`)

`thread_gps_server` polls the receiver and puts what it got, one chunk a round, into
a `kfifo` of 4096 bytes; `gps_read` takes up to 512 bytes a call. Both touch the
queue under `dev->sem` only, but a reader tests for data before it takes the
semaphore and copies from the shared `gps_data_for_hal` after it has given it back,
so a call is three steps.

`kfifo_in` stores what there is room for, and its result is not looked at. The queue
is emptied before a chunk only if it is full to the last byte.
-/

namespace Lidbg.Gps

open Machine

/-- `GPS_BUF_SIZE`. -/
abbrev gpsBufSize : Nat := 4096

/-- `FIFO_SIZE`. -/
abbrev fifoSize : Nat := 4096

/-- `HAL_BUF_SIZE`. -/
abbrev halBufSize : Nat := 512

/-- Where a reader is: outside `gps_read`, behind its test for data, or behind `up`
with `read_len` bytes to copy. -/
inductive Phase where
  | outside
  | entered
  | taken (readLen : Nat)
deriving DecidableEq

/-- The bytes a reader has yet to copy. -/
def Phase.readLen : Phase → Nat
  | .outside => 0
  | .entered => 0
  | .taken n => n

/-- The globals, and the readers. -/
structure GpsState (K : ByteFifo) (ρ : Type) where
  started : Bool
  workEn : Bool
  gpsDataFifo : K.State
  gpsDataForHal : List UInt8
  phase : ρ → Phase

/-- What happens. A round of the server carries what `avi_gps_data_hl` becomes (`none`
when its read failed) and what `gps_data` then holds (`none` when that read failed). -/
inductive Event (ρ : Type) where
  | ioctl (start : Bool)
  | eventHandle (accOn : Bool)
  | server (aviGpsDataHl : Option Int) (gpsData : Option (Nat → UInt8))
  | enter (reader : ρ)
  | take (reader : ρ)
  | copy (reader : ρ) (ok : Bool)

/-- What is seen: a chunk with the number of its bytes that were queued, and the bytes
a reader got. -/
inductive Obs where
  | queued (chunk : List UInt8) (count : Nat)
  | delivered (bytes : List UInt8)
deriving DecidableEq

section Model

variable (K : ByteFifo) {ρ : Type} [DecidableEq ρ]

/-- The chunk that a round gets from the receiver. -/
def fetched (aviGpsDataHl : Option Int) (gpsData : Option (Nat → UInt8)) : Option (List UInt8) :=
  let hl := aviGpsDataHl.getD 0
  if 0 < hl then
    if hl ≤ gpsBufSize then gpsData.map fun data => (List.range hl.toNat).map data
    else none
  else none

/-- The chunk of a round, if the round gets as far as the queue. -/
def chunkOf (s : GpsState K ρ) (aviGpsDataHl : Option Int) (gpsData : Option (Nat → UInt8)) :
    Option (List UInt8) :=
  if s.workEn = false ∨ s.started = false then none else fetched aviGpsDataHl gpsData

/-- What `thread_gps_server` does between `down` and `up`. -/
def serverIn (gpsDataFifo : K.State) (chunk : List UInt8) : K.State × Nat :=
  let fifo := if K.isFull gpsDataFifo then K.reset gpsDataFifo else gpsDataFifo
  K.put fifo chunk

/-- What `gps_read` does between `down` and `up`. -/
def readOut (s : GpsState K ρ) (reader : ρ) : GpsState K ρ :=
  let fifoLen := K.len s.gpsDataFifo
  let readLen := if halBufSize < fifoLen then halBufSize else fifoLen
  let out := K.get s.gpsDataFifo readLen
  { s with
    gpsDataFifo := out.1
    gpsDataForHal := out.2 ++ s.gpsDataForHal.drop out.2.length
    phase := Function.update s.phase reader (.taken readLen) }

/-- One event. A reader that finds no data goes on waiting, and an event of a reader
that is not at that point is none. -/
def gpsNext (s : GpsState K ρ) : Event ρ → GpsState K ρ × List Obs
  | .ioctl start => ({ s with started := start }, [])
  | .eventHandle accOn => ({ s with workEn := accOn }, [])
  | .server aviGpsDataHl gpsData =>
    match chunkOf K s aviGpsDataHl gpsData with
    | none => (s, [])
    | some chunk =>
      let r := serverIn K s.gpsDataFifo chunk
      ({ s with gpsDataFifo := r.1 }, [.queued chunk r.2])
  | .enter reader =>
    if s.phase reader = .outside ∧ s.started = true ∧ K.isEmpty s.gpsDataFifo = false then
      ({ s with phase := Function.update s.phase reader .entered }, [])
    else (s, [])
  | .take reader =>
    if s.phase reader = .entered then (readOut K s reader, []) else (s, [])
  | .copy reader ok =>
    match s.phase reader with
    | .taken readLen =>
      ({ s with phase := Function.update s.phase reader .outside },
        if ok then [.delivered (s.gpsDataForHal.take readLen)] else [])
    | _ => (s, [])

def gpsStep : Step (GpsState K ρ) (Event ρ) Obs :=
  fun s e => some (gpsNext K s e)

/-- After `gps_probe`. -/
def gpsProbe : GpsState K ρ where
  started := false
  workEn := true
  gpsDataFifo := K.init fifoSize
  gpsDataForHal := List.replicate halBufSize 0
  phase _ := .outside

end Model

/-! ## Whole chunks -/

/-- The chunks that came to the queue, in order. -/
def arrived (o : List Obs) : List (List UInt8) :=
  o.filterMap fun
    | .queued chunk _ => some chunk
    | .delivered _ => none

/-- The bytes that came to readers, in order. -/
def delivered (o : List Obs) : List UInt8 :=
  o.flatMap fun
    | .queued _ _ => []
    | .delivered bytes => bytes

/-- Every chunk was queued whole or not at all, and what the readers got begins a
concatenation of whole chunks in the order of their arrival. -/
structure ChunksWhole (o : List Obs) : Prop where
  queued : ∀ chunk count, .queued chunk count ∈ o → count = chunk.length ∨ count = 0
  delivered : ∃ kept : List (List UInt8), kept.Sublist (arrived o) ∧ delivered o <+: kept.flatten

/-- The condition of a step. A chunk finds room, or a full queue that holds whole
chunks: the last ones that arrived, which make up its length. No reader takes bytes
while another has some to copy. A copy of bytes succeeds. -/
def Safe (K : ByteFifo) {ρ : Type} (o : List Obs) (s : GpsState K ρ) : Event ρ → Prop
  | .ioctl _ => True
  | .eventHandle _ => True
  | .server aviGpsDataHl gpsData =>
    ∀ chunk ∈ chunkOf K s aviGpsDataHl gpsData,
      chunk.length ≤ K.avail s.gpsDataFifo ∨
        K.isFull s.gpsDataFifo = true ∧
          ∃ k ≤ (arrived o).length, ((arrived o).drop k).flatten.length = K.len s.gpsDataFifo
  | .enter _ => True
  | .take reader =>
    s.phase reader = .entered →
      K.len s.gpsDataFifo = 0 ∨ ∀ other, (s.phase other).readLen = 0
  | .copy reader ok => ok = true ∨ (s.phase reader).readLen = 0

instance {K : ByteFifo} {ρ : Type} [Fintype ρ] (o : List Obs) (s : GpsState K ρ) :
    ∀ e, Decidable (Safe K o s e)
  | .ioctl _ => inferInstanceAs (Decidable True)
  | .eventHandle _ => inferInstanceAs (Decidable True)
  | .server aviGpsDataHl gpsData =>
    inferInstanceAs (Decidable (∀ chunk ∈ chunkOf K s aviGpsDataHl gpsData,
      chunk.length ≤ K.avail s.gpsDataFifo ∨
        K.isFull s.gpsDataFifo = true ∧
          ∃ k ≤ (arrived o).length, ((arrived o).drop k).flatten.length = K.len s.gpsDataFifo))
  | .enter _ => inferInstanceAs (Decidable True)
  | .take reader =>
    inferInstanceAs (Decidable (s.phase reader = .entered →
      K.len s.gpsDataFifo = 0 ∨ ∀ other, (s.phase other).readLen = 0))
  | .copy reader ok => inferInstanceAs (Decidable (ok = true ∨ (s.phase reader).readLen = 0))

theorem arrived_append (o o' : List Obs) : arrived (o ++ o') = arrived o ++ arrived o' :=
  List.filterMap_append

theorem delivered_append (o o' : List Obs) : delivered (o ++ o') = delivered o ++ delivered o' :=
  List.flatMap_append

/-! ## One step -/

/-- The bytes taken and not yet copied: none, or those of one reader, which
`gps_data_for_hal` still has. -/
def Holds {K : ByteFifo} {ρ : Type} (s : GpsState K ρ) (held : List UInt8) : Prop :=
  held = [] ∧ (∀ reader, (s.phase reader).readLen = 0) ∨
    ∃ reader, s.phase reader = .taken held.length ∧ held ≠ [] ∧
      s.gpsDataForHal.take held.length = held ∧
      ∀ other, other ≠ reader → (s.phase other).readLen = 0

/-- The chunks that arrived are `skipped ++ recent`, the recent ones since the queue was
emptied last. Of those before, `older` were kept and have been delivered whole. -/
structure Kept (K : ByteFifo) {ρ : Type} (o : List Obs) (s : GpsState K ρ)
    (skipped older recent : List (List UInt8)) (held : List UInt8) : Prop where
  arrived : arrived o = skipped ++ recent
  sub : older.Sublist skipped
  order : delivered o ++ held ++ K.bytes s.gpsDataFifo = (older ++ recent).flatten
  unread : K.bytes s.gpsDataFifo <:+ recent.flatten
  holds : Holds s held

/-- The invariant of a run. -/
structure Whole (K : ByteFifo) {ρ : Type} (o : List Obs) (s : GpsState K ρ) : Prop where
  size : K.size s.gpsDataFifo = fifoSize
  queued : ∀ chunk count, .queued chunk count ∈ o → count = chunk.length
  nonempty : ∀ chunk ∈ arrived o, chunk ≠ []
  kept : ∃ skipped older recent held, Kept K o s skipped older recent held

/-- The invariant says what was promised. -/
theorem Whole.chunksWhole {K : ByteFifo} {ρ : Type} {o : List Obs} {s : GpsState K ρ}
    (h : Whole K o s) : ChunksWhole o := by
  obtain ⟨skipped, older, recent, held, hkept⟩ := h.kept
  refine ⟨fun chunk count hmem => .inl (h.queued chunk count hmem), older ++ recent, ?_, ?_⟩
  · rw [hkept.arrived]
    exact hkept.sub.append (List.Sublist.refl recent)
  · rw [← hkept.order, List.append_assoc]
    exact List.prefix_append _ _

section Step

variable {K : ByteFifo} {ρ : Type} [DecidableEq ρ] {o : List Obs} {s : GpsState K ρ}

omit [DecidableEq ρ] in
/-- A step that leaves the queue and what the readers hold. -/
theorem Whole.of_holds (h : Whole K o s) {s' : GpsState K ρ}
    (hfifo : s'.gpsDataFifo = s.gpsDataFifo) (hholds : ∀ held, Holds s held → Holds s' held) :
    Whole K o s' := by
  obtain ⟨skipped, older, recent, held, hk⟩ := h.kept
  refine ⟨by rw [hfifo, h.size], h.queued, h.nonempty, skipped, older, recent, held, hk.arrived,
    hk.sub, by rw [hfifo, hk.order], by rw [hfifo]; exact hk.unread, hholds held hk.holds⟩

/-- A chunk has a byte, and fits the buffer. -/
theorem fetched_ne_nil {aviGpsDataHl : Option Int} {gpsData : Option (Nat → UInt8)}
    {chunk : List UInt8} (h : fetched aviGpsDataHl gpsData = some chunk) :
    0 < chunk.length ∧ chunk.length ≤ gpsBufSize := by
  unfold fetched at h
  dsimp only at h
  split_ifs at h with hpos hle
  obtain ⟨data, -, rfl⟩ := Option.map_eq_some_iff.mp h
  rw [List.length_map, List.length_range]
  omega

omit [DecidableEq ρ] in
/-- So does the chunk of a round. -/
theorem chunk_ne_nil {aviGpsDataHl : Option Int} {gpsData : Option (Nat → UInt8)}
    {chunk : List UInt8} (h : chunkOf K s aviGpsDataHl gpsData = some chunk) :
    0 < chunk.length ∧ chunk.length ≤ gpsBufSize := by
  unfold chunkOf at h
  split_ifs at h with hoff
  exact fetched_ne_nil h

/-- Two ends of one list of chunks: if what they hold is not more than the other's,
the shorter one is an end of the other. -/
theorem drop_of_length_le {cs recent skipped : List (List UInt8)} (hcs : ∀ c ∈ cs, c ≠ [])
    (hsplit : cs = skipped ++ recent) {k : Nat}
    (hle : (cs.drop k).flatten.length ≤ recent.flatten.length) :
    ∃ front, recent = front ++ cs.drop k := by
  rcases Nat.lt_or_ge k skipped.length with hk | hk
  · -- otherwise a whole chunk is in the one and not in the other
    exfalso
    have hdrop : cs.drop k = skipped.drop k ++ recent := by
      rw [hsplit, List.drop_append_of_le_length (Nat.le_of_lt hk)]
    rw [hdrop, List.flatten_append, List.length_append] at hle
    have hmem : skipped[k] ∈ skipped.drop k := by
      rw [List.drop_eq_getElem_cons hk]
      exact List.mem_cons_self
    have hne : skipped[k] ≠ [] :=
      hcs _ (hsplit ▸ List.mem_append_left _ (List.getElem_mem hk))
    have hpos := List.length_pos_iff.mpr hne
    have hlen := (List.sublist_flatten_of_mem hmem).length_le
    omega
  · refine ⟨recent.take (k - skipped.length), ?_⟩
    rw [hsplit, List.drop_append, List.drop_eq_nil_of_le hk, List.nil_append,
      List.take_append_drop]

omit [DecidableEq ρ] in
/-- One more chunk, queued whole. -/
theorem whole_queued (h : Whole K o s) {chunk : List UInt8} (hpos : chunk ≠ []) {fifo : K.State}
    (hsize : K.size fifo = fifoSize)
    (hkept : ∃ skipped older recent held,
      Kept K (o ++ [.queued chunk chunk.length]) { s with gpsDataFifo := fifo }
        skipped older recent held) :
    Whole K (o ++ [.queued chunk chunk.length]) { s with gpsDataFifo := fifo } := by
  refine ⟨hsize, fun c count hmem => ?_, fun c hc => ?_, hkept⟩
  · rcases List.mem_append.mp hmem with hmem | hmem
    · exact h.queued c count hmem
    · obtain ⟨rfl, rfl⟩ := Obs.queued.inj (List.mem_singleton.mp hmem)
      rfl
  · rw [arrived_append] at hc
    rcases List.mem_append.mp hc with hc | hc
    · exact h.nonempty c hc
    · rwa [List.mem_singleton.mp hc]

omit [DecidableEq ρ] in
/-- A chunk that finds room goes behind the others. -/
theorem whole_room (h : Whole K o s) {chunk : List UInt8} (hpos : chunk ≠ [])
    (hroom : chunk.length ≤ K.avail s.gpsDataFifo) :
    Whole K (o ++ [.queued chunk (serverIn K s.gpsDataFifo chunk).2])
      { s with gpsDataFifo := (serverIn K s.gpsDataFifo chunk).1 } := by
  have hlen := List.length_pos_iff.mpr hpos
  -- a chunk has a byte at least, so a queue with room for it is not full
  have hfull : K.isFull s.gpsDataFifo = false := by
    unfold ByteFifo.avail at hroom
    exact decide_eq_false (by omega)
  have hin : serverIn K s.gpsDataFifo chunk = K.put s.gpsDataFifo chunk := by
    rw [serverIn, hfull]
    rfl
  have hcount : (K.put s.gpsDataFifo chunk).2 = chunk.length := by
    rw [K.put_count]
    exact Nat.min_eq_left hroom
  rw [hin, hcount]
  refine whole_queued h hpos ((K.size_put _ _).trans h.size) ?_
  obtain ⟨skipped, older, recent, held, hk⟩ := h.kept
  refine ⟨skipped, older, recent ++ [chunk], held, ?_, hk.sub, ?_, ?_, hk.holds⟩
  · rw [arrived_append, hk.arrived, List.append_assoc]
    rfl
  · rw [delivered_append, ← List.append_assoc older, List.flatten_append, ← hk.order,
      K.put_of_le_avail hroom, List.flatten_singleton]
    simp [delivered]
  · rw [K.put_of_le_avail hroom, List.flatten_append, List.flatten_singleton]
    obtain ⟨front, hfront⟩ := hk.unread
    exact ⟨front, by rw [← hfront, List.append_assoc]⟩

omit [DecidableEq ρ] in
/-- A full queue of whole chunks is emptied: what was taken from it before are whole
chunks too. -/
theorem whole_reset (h : Whole K o s) {chunk : List UInt8} (hpos : chunk ≠ [])
    (hfit : chunk.length ≤ fifoSize) (hfull : K.isFull s.gpsDataFifo = true) {k : Nat}
    (hends : ((arrived o).drop k).flatten.length = K.len s.gpsDataFifo) :
    Whole K (o ++ [.queued chunk (serverIn K s.gpsDataFifo chunk).2])
      { s with gpsDataFifo := (serverIn K s.gpsDataFifo chunk).1 } := by
  have hroom : chunk.length ≤ K.avail (K.reset s.gpsDataFifo) := by
    rw [ByteFifo.avail, ByteFifo.bytes_reset, ByteFifo.size_reset, h.size]
    exact hfit
  have hin : serverIn K s.gpsDataFifo chunk = K.put (K.reset s.gpsDataFifo) chunk := by
    rw [serverIn, if_pos hfull]
  have hcount : (K.put (K.reset s.gpsDataFifo) chunk).2 = chunk.length := by
    rw [K.put_count]
    exact Nat.min_eq_left hroom
  have hbytes : K.bytes (K.put (K.reset s.gpsDataFifo) chunk).1 = chunk := by
    rw [K.put_of_le_avail hroom, ByteFifo.bytes_reset, List.nil_append]
  rw [hin, hcount]
  refine whole_queued h hpos
    ((K.size_put _ _).trans ((ByteFifo.size_reset _).trans h.size)) ?_
  obtain ⟨skipped, older, recent, held, hk⟩ := h.kept
  obtain ⟨front, hfront⟩ : ∃ front, recent = front ++ (arrived o).drop k := by
    refine drop_of_length_le h.nonempty hk.arrived ?_
    rw [hends]
    exact hk.unread.length_le
  -- the bytes in the queue are as many as those of the last chunks, so they are those
  have hbefore : delivered o ++ held = (older ++ front).flatten := by
    have horder := hk.order
    rw [hfront, ← List.append_assoc older] at horder
    exact (List.append_inj' (horder.trans List.flatten_append) hends.symm).1
  refine ⟨skipped ++ recent, older ++ front, [chunk], held, ?_, ?_, ?_, ?_, hk.holds⟩
  · rw [arrived_append, hk.arrived]
    rfl
  · refine hk.sub.append ?_
    rw [hfront]
    exact List.sublist_append_left _ _
  · rw [delivered_append, List.flatten_append, ← hbefore, hbytes, List.flatten_singleton]
    simp [delivered]
  · rw [hbytes, List.flatten_singleton]

/-- The bytes a call takes. -/
def takes (K : ByteFifo) (s : GpsState K ρ) : List UInt8 :=
  (K.bytes s.gpsDataFifo).take (min halBufSize (K.len s.gpsDataFifo))

omit [DecidableEq ρ] in
/-- A read takes what there is, up to the size of its buffer. -/
theorem length_takes (s : GpsState K ρ) :
    (takes K s).length = min halBufSize (K.len s.gpsDataFifo) := by
  rw [takes, List.length_take, ByteFifo.len]
  omega

/-- What a read does, by the bytes it takes. -/
theorem readOut_eq (reader : ρ) :
    readOut K s reader =
      { s with
        gpsDataFifo := (K.get s.gpsDataFifo (takes K s).length).1
        gpsDataForHal := takes K s ++ s.gpsDataForHal.drop (takes K s).length
        phase := Function.update s.phase reader (.taken (takes K s).length) } := by
  have hlen : (if halBufSize < K.len s.gpsDataFifo then halBufSize else K.len s.gpsDataFifo) =
      (takes K s).length := by
    rw [length_takes]
    split_ifs <;> omega
  have hget : (K.get s.gpsDataFifo (takes K s).length).2 = takes K s := by
    rw [K.get_bytes, length_takes, takes]
  unfold readOut
  dsimp only
  rw [hlen, hget]

omit [DecidableEq ρ] in
/-- When no reader has bytes to copy, none are held. -/
theorem Holds.eq_nil {held : List UInt8} (h : Holds s held)
    (hnone : ∀ other, (s.phase other).readLen = 0) : held = [] := by
  rcases h with ⟨hnil, -⟩ | ⟨reader, hphase, -, -, -⟩
  · exact hnil
  · have hzero := hnone reader
    rw [hphase] at hzero
    exact List.length_eq_zero_iff.mp hzero

/-- A reader's move between phases without bytes. -/
theorem Holds.move {held : List UInt8} (h : Holds s held) {reader : ρ}
    (hbefore : (s.phase reader).readLen = 0) {p : Phase} (hp : p.readLen = 0) :
    Holds { s with phase := Function.update s.phase reader p } held := by
  have hlen : ∀ other, (s.phase other).readLen = 0 →
      (Function.update s.phase reader p other).readLen = 0 := fun other hother => by
    rw [Function.update_apply]
    split_ifs
    · exact hp
    · exact hother
  rcases h with ⟨hnil, hnone⟩ | ⟨holder, hphase, hne, hhal, hothers⟩
  · exact .inl ⟨hnil, fun other => hlen other (hnone other)⟩
  · have hholder : holder ≠ reader := by
      rintro rfl
      rw [hphase] at hbefore
      exact hne (List.length_eq_zero_iff.mp hbefore)
    refine .inr ⟨holder, ?_, hne, hhal, fun other hother => hlen other (hothers other hother)⟩
    dsimp only
    rw [Function.update_of_ne hholder, hphase]

/-- What a reader takes, it holds. -/
theorem holds_readOut {held : List UInt8} (hholds : Holds s held) {reader : ρ}
    (hentered : s.phase reader = .entered)
    (hsafe : K.len s.gpsDataFifo = 0 ∨ ∀ other, (s.phase other).readLen = 0) :
    Holds (readOut K s reader) (held ++ takes K s) := by
  have hreader : (s.phase reader).readLen = 0 := by
    rw [hentered]
    rfl
  rw [readOut_eq]
  rcases eq_or_ne (takes K s) [] with hnil | hne
  · rw [hnil, List.append_nil]
    exact hholds.move hreader rfl
  · have hnone : ∀ other, (s.phase other).readLen = 0 := by
      refine hsafe.resolve_left fun hzero => hne ?_
      rw [← List.length_eq_zero_iff, length_takes, hzero, Nat.min_zero]
    rw [hholds.eq_nil hnone, List.nil_append]
    refine .inr ⟨reader, ?_, hne, ?_, fun other hother => ?_⟩
    · exact Function.update_self ..
    · exact List.take_left
    · dsimp only
      rw [Function.update_of_ne hother, hnone other]

/-- Bytes are taken from the front, while nobody else holds some. -/
theorem whole_take (h : Whole K o s) {reader : ρ} (hentered : s.phase reader = .entered)
    (hsafe : K.len s.gpsDataFifo = 0 ∨ ∀ other, (s.phase other).readLen = 0) :
    Whole K o (readOut K s reader) := by
  obtain ⟨skipped, older, recent, held, hk⟩ := h.kept
  have hholds := holds_readOut hk.holds hentered hsafe
  have hsplit : takes K s ++ (K.bytes s.gpsDataFifo).drop (takes K s).length =
      K.bytes s.gpsDataFifo := by
    rw [length_takes, takes, List.take_append_drop]
  refine ⟨?_, h.queued, h.nonempty, skipped, older, recent, held ++ takes K s, hk.arrived, hk.sub,
    ?_, ?_, hholds⟩
  · rw [readOut_eq]
    exact (K.size_get _ _).trans h.size
  · rw [readOut_eq]
    dsimp only
    rw [K.bytes_get, List.append_assoc, List.append_assoc, hsplit, ← List.append_assoc, hk.order]
  · rw [readOut_eq]
    dsimp only
    rw [K.bytes_get]
    exact (List.drop_suffix _ _).trans hk.unread

/-- What a reader copies, it held, or it is nothing. -/
theorem whole_copy (h : Whole K o s) {reader : ρ} {readLen : Nat}
    (hphase : s.phase reader = .taken readLen) {ok : Bool} (hsafe : ok = true ∨ readLen = 0) :
    Whole K (o ++ if ok then [.delivered (s.gpsDataForHal.take readLen)] else [])
      { s with phase := Function.update s.phase reader .outside } := by
  obtain ⟨skipped, older, recent, held, hk⟩ := h.kept
  -- a copy that fails is one of no bytes, which is nothing delivered either way
  have hobs : ∃ o', (if ok then [.delivered (s.gpsDataForHal.take readLen)] else []) = o' ∧
      arrived o' = [] ∧ delivered o' = s.gpsDataForHal.take readLen ∧
      ∀ chunk count, .queued chunk count ∉ o' := by
    cases ok with
    | true =>
      refine ⟨_, rfl, rfl, List.append_nil _, fun chunk count hmem => ?_⟩
      cases List.mem_singleton.mp hmem
    | false =>
      obtain rfl : readLen = 0 := hsafe.resolve_left Bool.false_ne_true
      exact ⟨_, rfl, rfl, rfl, fun chunk count => List.not_mem_nil⟩
  obtain ⟨o', ho', harrived, hdelivered, hqueued⟩ := hobs
  rw [ho']
  have hkept : ∃ held', delivered o' ++ held' = held ∧
      Holds { s with phase := Function.update s.phase reader .outside } held' := by
    rw [hdelivered]
    rcases Nat.eq_zero_or_pos readLen with rfl | hpos
    · exact ⟨held, rfl, hk.holds.move (by rw [hphase]; rfl) rfl⟩
    · rcases hk.holds with ⟨-, hnone⟩ | ⟨holder, hholder, hne, hhal, hothers⟩
      · have hzero := hnone reader
        rw [hphase] at hzero
        exact absurd hzero (Nat.ne_of_gt hpos)
      · obtain rfl : reader = holder := by
          by_contra hreader
          have hzero := hothers reader hreader
          rw [hphase] at hzero
          exact Nat.ne_of_gt hpos hzero
        obtain rfl : readLen = held.length := Phase.taken.inj (hphase.symm.trans hholder)
        refine ⟨[], (List.append_nil _).trans hhal, .inl ⟨rfl, fun other => ?_⟩⟩
        dsimp only
        rw [Function.update_apply]
        split_ifs with hother
        · rfl
        · exact hothers other hother
  obtain ⟨held', hheld, hholds⟩ := hkept
  have harr : arrived (o ++ o') = arrived o := by
    rw [arrived_append, harrived, List.append_nil]
  refine ⟨h.size, fun chunk count hmem => ?_, fun chunk hc => ?_, skipped, older, recent, held',
    harr.trans hk.arrived, hk.sub, ?_, hk.unread, hholds⟩
  · exact h.queued chunk count
      ((List.mem_append.mp hmem).resolve_right (hqueued chunk count))
  · exact h.nonempty chunk (harr ▸ hc)
  · rw [delivered_append, List.append_assoc (delivered o), hheld]
    exact hk.order

/-- A round of the server. -/
theorem whole_server (h : Whole K o s) {aviGpsDataHl : Option Int}
    {gpsData : Option (Nat → UInt8)} (hsafe : Safe K o s (.server aviGpsDataHl gpsData)) :
    Whole K (o ++ (gpsNext K s (.server aviGpsDataHl gpsData)).2)
      (gpsNext K s (.server aviGpsDataHl gpsData)).1 := by
  unfold gpsNext
  dsimp only
  cases hchunk : chunkOf K s aviGpsDataHl gpsData with
  | none =>
    dsimp only
    rw [List.append_nil]
    exact h
  | some chunk =>
    obtain ⟨hpos, hle⟩ := chunk_ne_nil hchunk
    rcases hsafe chunk hchunk with hroom | ⟨hfull, k, -, hends⟩
    · exact whole_room h (List.length_pos_iff.mp hpos) hroom
    · exact whole_reset h (List.length_pos_iff.mp hpos) hle hfull hends

/-- **One event keeps the chunks whole**, under its condition. -/
theorem whole_gpsNext (h : Whole K o s) {e : Event ρ} (hsafe : Safe K o s e) :
    Whole K (o ++ (gpsNext K s e).2) (gpsNext K s e).1 := by
  cases e with
  | ioctl start =>
    show Whole K (o ++ []) _
    rw [List.append_nil]
    exact h.of_holds rfl fun _ hholds => hholds
  | eventHandle accOn =>
    show Whole K (o ++ []) _
    rw [List.append_nil]
    exact h.of_holds rfl fun _ hholds => hholds
  | server aviGpsDataHl gpsData => exact whole_server h hsafe
  | enter reader =>
    unfold gpsNext
    dsimp only
    split_ifs with henter
    · rw [List.append_nil]
      -- who comes in holds nothing yet
      have hphase : (s.phase reader).readLen = 0 := by
        rw [henter.1]
        rfl
      exact h.of_holds rfl fun _ hholds => hholds.move hphase rfl
    · rw [List.append_nil]
      exact h
  | take reader =>
    unfold gpsNext
    dsimp only
    split_ifs with hentered
    · rw [List.append_nil]
      exact whole_take h hentered (hsafe hentered)
    · rw [List.append_nil]
      exact h
  | copy reader ok =>
    unfold gpsNext
    dsimp only
    cases hphase : s.phase reader with
    | taken readLen =>
      have hsafe' : ok = true ∨ (s.phase reader).readLen = 0 := hsafe
      rw [hphase] at hsafe'
      exact whole_copy h hphase hsafe'
    | outside =>
      dsimp only
      rw [List.append_nil]
      exact h
    | entered =>
      dsimp only
      rw [List.append_nil]
      exact h

end Step

/-! ## Runs -/

/-- Nothing has come and nothing is held. -/
theorem whole_gpsProbe (K : ByteFifo) (ρ : Type) : Whole K [] (gpsProbe K : GpsState K ρ) := by
  have hbytes : K.bytes (K.init fifoSize) = [] := K.bytes_init 12
  refine ⟨K.size_init 12, fun _ _ h => absurd h List.not_mem_nil,
    fun _ h => absurd h List.not_mem_nil, [], [], [], [], rfl, List.Sublist.refl [], hbytes, ?_,
    .inl ⟨rfl, fun _ => rfl⟩⟩
  show K.bytes (K.init fifoSize) <:+ []
  rw [hbytes]

/-- **Chunks stay whole** in every state of a run whose events all meet their condition. -/
theorem chunksWhole_run (K : ByteFifo) {ρ : Type} [DecidableEq ρ] {events : List (Event ρ)}
    (hsafe : StepsMeet (gpsStep K) (fun _ o s e => Safe K o s e) (gpsProbe K) events) :
    ∀ before, before <+: events → ∃ s o, run (gpsStep K) (gpsProbe K) before = some (s, o) ∧
      ChunksWhole o := by
  intro before hbefore
  obtain ⟨s, o, hrun, hwhole⟩ := run_invariant (I := fun _ o s => Whole K o s)
    (fun _ _ _ _ h hsafe => ⟨_, _, rfl, whole_gpsNext h hsafe⟩) (whole_gpsProbe K ρ)
    (hsafe.of_prefix hbefore)
  exact ⟨s, o, hrun, hwhole.chunksWhole⟩

/-- A chunk of 600 bytes, which two reads return, and one of four bytes between them. -/
def splitRead : List (Event Unit) :=
  [.ioctl true, .server (some 600) (some fun _ => 36), .enter (), .take (), .copy () true,
    .server (some 4) (some fun _ => 10), .enter (), .take (), .copy () true]

theorem chunksWhole_splitRead : ∃ s o,
    run (gpsStep ringFifo) (gpsProbe ringFifo) splitRead = some (s, o) ∧ ChunksWhole o :=
  chunksWhole_run ringFifo (by decide +kernel) splitRead List.prefix_rfl

/-- A round of a started driver queues its chunk. -/
theorem gpsStep_server {K : ByteFifo} {ρ : Type} [DecidableEq ρ] {s : GpsState K ρ}
    {aviGpsDataHl : Option Int} {gpsData : Option (Nat → UInt8)} {chunk : List UInt8}
    (hchunk : chunkOf K s aviGpsDataHl gpsData = some chunk)
    (hroom : (K.bytes s.gpsDataFifo).length < K.size s.gpsDataFifo) :
    gpsStep K s (.server aviGpsDataHl gpsData) =
      some ({ s with gpsDataFifo := (K.put s.gpsDataFifo chunk).1 },
        [.queued chunk (K.put s.gpsDataFifo chunk).2]) := by
  have hfull : K.isFull s.gpsDataFifo = false := decide_eq_false (Nat.not_le.mpr hroom)
  rw [gpsStep, gpsNext, hchunk]
  dsimp only
  rw [serverIn, hfull]
  rfl

/-- Two chunks of 3000 bytes: the queue is not full when the second one comes, and keeps
1096 bytes of it. -/
def twoChunks : List (Event Unit) :=
  [.ioctl true, .server (some 3000) (some fun _ => 36), .server (some 3000) (some fun _ => 36)]

/-- The second chunk is queued in part. -/
theorem queued_twoChunks (K : ByteFifo) : ∃ s o chunk,
    run (gpsStep K) (gpsProbe K) twoChunks = some (s, o) ∧ chunk.length = 3000 ∧
      Obs.queued chunk 1096 ∈ o := by
  obtain ⟨chunk, hchunk, hlen⟩ : ∃ chunk, (∀ fifo : K.State,
      chunkOf K { (gpsProbe K : GpsState K Unit) with started := true, gpsDataFifo := fifo }
        (some 3000) (some fun _ => 36) = some chunk) ∧ chunk.length = 3000 :=
    ⟨(List.range 3000).map fun _ => 36, fun _ => rfl, by rw [List.length_map, List.length_range]⟩
  have hempty : K.bytes (K.init fifoSize) = [] := K.bytes_init 12
  have hsize : K.size (K.init fifoSize) = 4096 := K.size_init 12
  have hfirst : K.bytes (K.put (K.init fifoSize) chunk).1 = chunk := by
    rw [ByteFifo.put_of_le_avail, hempty, List.nil_append]
    rw [ByteFifo.avail, hempty, hsize, hlen, List.length_nil]
    omega
  have hsize' : K.size (K.put (K.init fifoSize) chunk).1 = 4096 := (K.size_put _ _).trans hsize
  have hcount : (K.put (K.put (K.init fifoSize) chunk).1 chunk).2 = 1096 := by
    rw [K.put_count, hfirst, hsize', hlen]
    omega
  have hroom : (K.bytes (K.init fifoSize)).length < K.size (K.init fifoSize) := by
    rw [hempty, hsize, List.length_nil]
    omega
  have hroom' : (K.bytes (K.put (K.init fifoSize) chunk).1).length <
      K.size (K.put (K.init fifoSize) chunk).1 := by
    rw [hfirst, hsize', hlen]
    omega
  have hioctl : gpsStep K (gpsProbe K : GpsState K Unit) (.ioctl true) =
      some ({ gpsProbe K with started := true }, []) := rfl
  have hserver := gpsStep_server (hchunk (K.init fifoSize)) hroom
  have hserver' := gpsStep_server (hchunk (K.put (K.init fifoSize) chunk).1) hroom'
  rw [hcount] at hserver'
  exact ⟨_, _, chunk, run_cons_eq hioctl (run_cons_eq hserver (run_singleton hserver')), hlen,
    List.mem_append_right _ (List.mem_append_right _ List.mem_cons_self)⟩

theorem not_chunksWhole :
    ¬ ∀ (events : List (Event Unit)) (s : GpsState ringFifo Unit) (o : List Obs),
      run (gpsStep ringFifo) (gpsProbe ringFifo) events = some (s, o) → ChunksWhole o := by
  intro hall
  obtain ⟨s, o, chunk, hrun, hlen, hmem⟩ := queued_twoChunks ringFifo
  have hwhole := (hall twoChunks s o hrun).queued chunk 1096 hmem
  omega

end Lidbg.Gps
