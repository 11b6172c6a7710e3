import Lidbg.Machine.Run
import Lidbg.Machine.CStr
import Mathlib.Data.List.Forall2

/-!
# Lines of the trace (`core/lidbg_trace_msg.c`)

`thread_trace_msg_out` takes the bytes of its fifo one by one and hands its
buffer over at a newline, or when there is no room for more than one NUL.

- `Line` and `Pending` say where a stream is cut.
- `assembles` is about every stream: what was handed over and what is pending
  are together what was read.
-/

namespace Lidbg.TraceMsg

open Machine

/-- The size of `buff`. -/
abbrev buffSize : Nat := 512

/-- One turn of the loop: `disable_flag`, and the oldest byte of the fifo, if it has
one. -/
structure Turn where
  disableFlag : Bool
  unread : Option UInt8

/-- `buff` and `i`. -/
structure OutState where
  buff : List UInt8
  i : Nat

/-- One turn of `thread_trace_msg_out`, observed by what `lidbg_trace_key_word` is called
with; `none` stores outside `buff`. -/
def traceOut : Step OutState Turn (List UInt8) := fun s turn =>
  if turn.disableFlag then some (s, [])
  else
    match turn.unread with
    | none => some (s, [])
    | some b => do
      let buff ← storeByte s.buff s.i b
      if b = 10 ∨ s.i ≥ 510 then
        let buff ← storeByte buff (s.i + 1) 0
        some (⟨buff, 0⟩, [buff])
      else some (⟨buff, s.i + 1⟩, [])

/-- The state before the first turn. -/
def OutState.init : OutState := ⟨List.replicate buffSize 0, 0⟩

/-- What a turn reads from the fifo. -/
def Turn.byte (turn : Turn) : Option UInt8 :=
  if turn.disableFlag then none else turn.unread

/-- A line: it ends with its first newline, or has 511 bytes and none before the
last. -/
structure Line (line : List UInt8) : Prop where
  notMem_dropLast : 10 ∉ line.dropLast
  length_le : line.length ≤ 511
  cut : line.getLast? = some 10 ∨ line.length = 511

/-- What is not handed over yet. -/
structure Pending (p : List UInt8) : Prop where
  notMem : 10 ∉ p
  length_lt : p.length < 511

/-- A buffer that is handed over starts with the line and a NUL. -/
def HandedOver (line buff : List UInt8) : Prop :=
  buff.length = buffSize ∧ line ++ [0] <+: buff

/-- A byte that cuts: there is room for it and for the NUL. -/
theorem traceOut_cut {p tail : List UInt8} (hp : p.length < 511)
    (hlen : (p ++ tail).length = buffSize) {b : UInt8} (hcut : b = 10 ∨ p.length ≥ 510) :
    ∃ buff, traceOut ⟨p ++ tail, p.length⟩ ⟨false, some b⟩ = some (⟨buff, 0⟩, [buff]) ∧
      HandedOver (p ++ [b]) buff := by
  have htail : p.length + tail.length = 512 := List.length_append.symm.trans hlen
  obtain ⟨c, tail, rfl⟩ := List.exists_cons_of_length_pos (show 0 < tail.length by omega)
  rw [List.length_cons] at htail
  obtain ⟨d, tail, rfl⟩ := List.exists_cons_of_length_pos (show 0 < tail.length by omega)
  have hb := storeByte_append p c b (d :: tail)
  have hnul := storeByte_append (p ++ [b]) d 0 tail
  rw [List.length_append, List.length_singleton, List.append_assoc, List.singleton_append] at hnul
  refine ⟨(p ++ [b]) ++ 0 :: tail, ?_, by simpa using hlen, ⟨tail, by simp⟩⟩
  show (storeByte _ _ _).bind _ = _
  rw [hb, Option.bind_some, if_pos hcut, hnul]
  rfl

/-- Any other byte. -/
theorem traceOut_keep {p tail : List UInt8} (hp : p.length < 511)
    (hlen : (p ++ tail).length = buffSize) {b : UInt8} (hkeep : ¬ (b = 10 ∨ p.length ≥ 510)) :
    ∃ tail', traceOut ⟨p ++ tail, p.length⟩ ⟨false, some b⟩ =
        some (⟨(p ++ [b]) ++ tail', (p ++ [b]).length⟩, []) ∧
      ((p ++ [b]) ++ tail').length = buffSize := by
  have htail : p.length + tail.length = 512 := List.length_append.symm.trans hlen
  obtain ⟨c, tail, rfl⟩ := List.exists_cons_of_length_pos (show 0 < tail.length by omega)
  refine ⟨tail, ?_, by simpa using hlen⟩
  show (storeByte _ _ _).bind _ = _
  rw [storeByte_append, Option.bind_some, if_neg hkeep, List.append_assoc,
    List.singleton_append, List.length_append]
  rfl

/-! ## Every stream -/

/-- What holds after a stream of bytes: the lines in the buffers handed over, and what
is pending in `buff`. -/
structure Assembled (bytes : List UInt8) (o : List (List UInt8)) (s : OutState)
    (lines : List (List UInt8)) (p : List UInt8) : Prop where
  state : ∃ tail, s = ⟨p ++ tail, p.length⟩ ∧ (p ++ tail).length = buffSize
  handed : List.Forall₂ HandedOver lines o
  line : ∀ line ∈ lines, Line line
  pending : Pending p
  bytes_eq : lines.flatten ++ p = bytes

/-- One byte keeps it. -/
theorem assembled_byte {bytes : List UInt8} {o : List (List UInt8)} {s : OutState}
    {lines : List (List UInt8)} {p : List UInt8} (h : Assembled bytes o s lines p) (b : UInt8) :
    ∃ s' o' lines' p', traceOut s ⟨false, some b⟩ = some (s', o') ∧
      Assembled (bytes ++ [b]) (o ++ o') s' lines' p' := by
  obtain ⟨tail, rfl, hlen⟩ := h.state
  have hp := h.pending
  by_cases hcut : b = 10 ∨ p.length ≥ 510
  · obtain ⟨buff, hturn, hhanded⟩ := traceOut_cut hp.length_lt hlen hcut
    refine ⟨⟨buff, 0⟩, [buff], lines ++ [p ++ [b]], [], hturn, ⟨buff, rfl, hhanded.1⟩,
      List.rel_append h.handed (.cons hhanded .nil), ?_, ⟨List.not_mem_nil, by decide⟩, ?_⟩
    · rw [List.forall_mem_append, List.forall_mem_singleton]
      refine ⟨h.line, ?_, ?_, ?_⟩
      · rw [List.dropLast_concat]
        exact hp.notMem
      · rw [List.length_append]
        exact hp.length_lt
      · rw [List.getLast?_concat, List.length_append, List.length_singleton]
        have hlt := hp.length_lt
        exact hcut.imp (congrArg some) fun hfull => by omega
    · rw [List.flatten_append, List.flatten_singleton, List.append_nil, ← List.append_assoc,
        h.bytes_eq]
  · obtain ⟨tail', hturn, hlen'⟩ := traceOut_keep hp.length_lt hlen hcut
    rw [not_or] at hcut
    refine ⟨_, [], lines, p ++ [b], hturn, ⟨tail', rfl, hlen'⟩,
      by rw [List.append_nil]; exact h.handed, h.line, ⟨?_, ?_⟩,
      by rw [← List.append_assoc, h.bytes_eq]⟩
    · rw [List.mem_append, List.mem_singleton, not_or]
      exact ⟨hp.notMem, Ne.symm hcut.1⟩
    · rw [List.length_append, List.length_singleton]
      omega

end Lidbg.TraceMsg
