import Lidbg.Core.Cmn
import Lidbg.Core.Msg
import Lidbg.Drivers.Acc
import Mathlib.Data.List.GetD

/-!
# Writes to the character devices

Four `write` handlers take a size from user space: `acc_write`
(`drivers/acc/lidbg_acc.c`), `pm_write` (`drivers/powermanager/lidbg_pm_8226.c`),
`lidbg_trace_msg_write` (`core/lidbg_trace_msg.c`) and `msg_write`
(`core/lidbg_msg.c`), of which the last alone looks at it. What a handler is
handed is the list of bytes that `copy_from_user` stores, as many as the size
says; a handler yields nothing if it stores or reads outside of an array.

`inside_iff` has the exact sizes and contents, one lemma a handler.
-/

namespace Lidbg.DevWrite

open Machine Cmn Msg

/-- The words `acc_write` knows, with `g_var.is_fly`. -/
def accCommand (isFly : Bool) (word : List UInt8) : Option Acc.Event :=
  if word = ascii "acc_on" then some .accOn
  else if word = ascii "acc_off" then some .accOff
  else if word = ascii "power" then some (.power isFly)
  else none

/-- `acc_write` with its `data_rec`: the event it is for the driver, if any. -/
def accWrite (dataRec : CArray 32) (isFly : Bool) (buf : List UInt8) :
    Option (Option Acc.Event) := do
  let mem ← storeBytes dataRec.bytes buf
  -- `memchr` over what was copied
  let mem ← match (mem.take buf.length).findIdx? (· = 10) with
    | some p => storeByte mem p 0
    | none => storeByte mem buf.length 0
  let word ← loadStr mem
  some (accCommand isFly word)

/-- `if(cmd_buf[size - 1] == '\n') cmd_buf[size - 1] = '\0'`: there is no byte
before the first. -/
def cutNewline (cmdBuf : List UInt8) (size : Nat) : Option (List UInt8) := do
  let last ← if size = 0 then none else cmdBuf[size - 1]?
  if last = 10 then storeByte cmdBuf (size - 1) 0 else some cmdBuf

/-- `pm_write` up to its words, of which `cmd` has room for eight. -/
def pmWrite (buf : List UInt8) : Option (Nat × List (Option (List UInt8))) := do
  let mem ← storeBytes (List.replicate 512 0) buf
  let mem ← cutNewline mem buf.length
  -- the line is printed before it is cut
  let _ ← loadStr mem
  lidbgTokenString (some mem) 32 (List.replicate 8 none)

/-- `lidbg_trace_msg_is_enough`. -/
def lidbgTraceMsgIsEnough (K : ByteFifo) (fifo : K.State) (len : Nat) : K.State :=
  if K.isFull fifo || decide (K.avail fifo < len) then (K.get fifo len).1 else fifo

/-- `lidbg_trace_msg_write`. -/
def lidbgTraceMsgWrite (K : ByteFifo) (fifo : K.State) (buf : List UInt8) : Option K.State := do
  let pbuff ← storeBytes (List.replicate 256 0) buf
  let fifo := lidbgTraceMsgIsEnough K fifo buf.length
  some (K.put fifo (pbuff.take buf.length)).1

/-- The slots of the ring, and a position in it. -/
structure Slots where
  msg : LidbgMsg
  length_log : msg.log.length = totalLogs
  length_row : ∀ row ∈ msg.log, row.length = logBytes
  wPos_lt : msg.wPos < totalLogs

/-- `msg_write`, from `down` to `up`. -/
def msgWrite (m : LidbgMsg) (buf : List UInt8) : Option LidbgMsg := do
  let m ← copyFromUser m (buf.take logBytes)
  let m ← terminate m (if buf.length > logBytes then logBytes else buf.length)
  some { m with wPos := (m.wPos + 1) % totalLogs }

/-! ## The handlers one by one -/

/-- A string whose NUL was stored is read up to it. -/
theorem storeNul_isSome_iff {α : Type} (mem : List UInt8) (i : Nat) (f : List UInt8 → α) :
    ((storeByte mem i 0).bind fun mem' => (loadStr mem').bind fun word => some (f word)).isSome ↔
      i < mem.length := by
  unfold storeByte
  by_cases hi : i < mem.length
  · have hnul : 0 ∈ mem.set i 0 := List.mem_set hi 0
    simp [hi, loadStr, hnul]
  · simp [hi]

/-- **`acc_write`** needs a byte for the NUL that it puts behind a line without
a newline. -/
theorem accWrite_isSome_iff (dataRec : CArray 32) (isFly : Bool) (buf : List UInt8) :
    (accWrite dataRec isFly buf).isSome ↔ buf.length < 32 ∨ buf.length = 32 ∧ 10 ∈ buf := by
  have hlen := dataRec.length_bytes
  by_cases hle : buf.length ≤ 32
  · have hstore : storeBytes dataRec.bytes buf =
        some (buf ++ dataRec.bytes.drop buf.length) := if_pos (by omega)
    have hmem : (buf ++ dataRec.bytes.drop buf.length).length = 32 := by
      rw [List.length_append, List.length_drop, hlen]
      omega
    simp only [accWrite, hstore, Option.bind_eq_bind, Option.bind_some, List.take_left]
    cases hfind : buf.findIdx? (· = 10) with
    | none =>
      have hnone : 10 ∉ buf := fun h => by
        simpa using List.findIdx?_eq_none_iff.mp hfind 10 h
      dsimp only
      rw [storeNul_isSome_iff, hmem]
      exact ⟨.inl, fun h => h.resolve_right fun h => hnone h.2⟩
    | some p =>
      obtain ⟨hp, hten, -⟩ := List.findIdx?_eq_some_iff_getElem.mp hfind
      have hmem10 : 10 ∈ buf := by
        rw [← of_decide_eq_true hten]
        exact List.getElem_mem hp
      dsimp only
      rw [storeNul_isSome_iff, hmem]
      refine iff_of_true (by omega) ?_
      rcases Nat.lt_or_eq_of_le hle with hlt | heq
      · exact .inl hlt
      · exact .inr ⟨heq, hmem10⟩
  · rw [accWrite, storeBytes_eq_none (by omega)]
    refine iff_of_false (fun h => by cases h) ?_
    omega

/-- What is left of a line: `pm_write` puts a NUL over the last byte if it is a
newline. -/
def pmText (buf : List UInt8) : List UInt8 :=
  if buf.getLast? = some 10 then buf.dropLast else buf

/-- The array of `pm_write` when the line is cut into words. -/
def pmMem (buf : List UInt8) : List UInt8 :=
  pmText buf ++ List.replicate (512 - (pmText buf).length) 0

theorem cutNewline_eq {buf : List UInt8} (hpos : 0 < buf.length) (hle : buf.length ≤ 512) :
    cutNewline (buf ++ List.replicate (512 - buf.length) 0) buf.length = some (pmMem buf) := by
  have hlt : buf.length - 1 < buf.length := by omega
  have hne : buf.length ≠ 0 := by omega
  have hlast : (buf ++ List.replicate (512 - buf.length) 0)[buf.length - 1]? = buf.getLast? := by
    rw [List.getElem?_append_left hlt, List.getLast?_eq_getElem?]
  obtain ⟨b, hb⟩ : ∃ b, buf.getLast? = some b := by
    rw [List.getLast?_eq_getElem?, List.getElem?_eq_getElem hlt]
    exact ⟨_, rfl⟩
  rw [cutNewline, if_neg hne, hlast, hb]
  show (if b = 10 then _ else _) = _
  by_cases hten : b = 10
  · -- the newline becomes one more NUL of those behind the text
    subst hten
    have hfill : 512 - buf.length + 1 = 512 - buf.dropLast.length := by
      rw [List.length_dropLast]
      omega
    have hin : buf.length - 1 < (buf ++ List.replicate (512 - buf.length) 0).length := by
      rw [List.length_append]
      omega
    rw [if_pos rfl, storeByte, if_pos hin, set_last_append (List.ne_nil_of_length_pos hpos),
      ← List.replicate_succ, pmMem, pmText, if_pos hb, hfill]
  · have htext : pmText buf = buf := if_neg (by rw [hb]; simpa using hten)
    rw [if_neg hten, pmMem, htext]

theorem nul_mem_pmMem_iff (buf : List UInt8) :
    0 ∈ pmMem buf ↔ (pmText buf).length < 512 ∨ 0 ∈ pmText buf := by
  rw [pmMem, List.mem_append, List.mem_replicate, or_comm]
  refine or_congr_left ?_
  rw [and_iff_left rfl]
  omega

theorem cstr_pmMem (buf : List UInt8) : cstr (pmMem buf) = cstr (pmText buf) := by
  unfold pmMem
  cases 512 - (pmText buf).length with
  | zero => simp
  | succ n => rw [List.replicate_succ, cstr_append_nul_cons]

theorem lidbgTokenString_isSome_iff {mem : List UInt8} (hnul : 0 ∈ mem) (n : Nat) :
    (lidbgTokenString (some mem) 32 (List.replicate n none)).isSome ↔
      ((cstr mem).splitOn 32).length ≤ n := by
  obtain ⟨text, rest, htext, rfl⟩ | hno := exists_str_or_notMem mem
  · obtain ⟨tokens, hpieces, -, hstored⟩ := lidbgTokenString_eq (by decide : (32 : UInt8) ≠ 0)
      htext rest (List.replicate n none)
    rw [hstored, cstr_append_nul htext, ← hpieces, List.length_map, List.length_replicate]
    split_ifs with hfit <;> simp [hfit]
  · exact absurd hnul hno

/-- **`pm_write`** needs a last byte to look at, a NUL in its array, and no more
than eight words. -/
theorem pmWrite_isSome_iff (buf : List UInt8) :
    (pmWrite buf).isSome ↔
      0 < buf.length ∧ buf.length ≤ 512 ∧ ((pmText buf).length < 512 ∨ 0 ∈ pmText buf) ∧
        ((cstr (pmText buf)).splitOn 32).length ≤ 8 := by
  by_cases hle : buf.length ≤ 512
  · have hstore : storeBytes (List.replicate 512 0) buf =
        some (buf ++ List.replicate (512 - buf.length) 0) := by
      rw [storeBytes, List.length_replicate, if_pos hle, List.drop_replicate]
    rw [pmWrite, hstore, and_iff_right hle, ← nul_mem_pmMem_iff]
    by_cases hpos : 0 < buf.length
    · rw [and_iff_right hpos, Option.bind_eq_bind, Option.bind_some, cutNewline_eq hpos hle,
        Option.bind_some]
      by_cases hnul : 0 ∈ pmMem buf
      · rw [loadStr, if_pos hnul, Option.bind_some, lidbgTokenString_isSome_iff hnul, cstr_pmMem,
          and_iff_right hnul]
      · rw [loadStr, if_neg hnul]
        exact iff_of_false Bool.false_ne_true fun h => hnul h.1
    · have hzero : buf.length = 0 := by omega
      have hcut : ∀ mem, cutNewline mem buf.length = none := fun mem => by
        rw [cutNewline, if_pos hzero]
        rfl
      rw [Option.bind_eq_bind, Option.bind_some, hcut]
      exact iff_of_false Bool.false_ne_true fun h => hpos h.1
  · rw [pmWrite, storeBytes_eq_none (by rw [List.length_replicate]; omega)]
    exact iff_of_false Bool.false_ne_true fun h => hle h.2.1

/-- **`lidbg_trace_msg_write`** needs the size to be that of its array. -/
theorem lidbgTraceMsgWrite_isSome_iff (K : ByteFifo) (fifo : K.State) (buf : List UInt8) :
    (lidbgTraceMsgWrite K fifo buf).isSome ↔ buf.length ≤ 256 := by
  unfold lidbgTraceMsgWrite
  by_cases hle : buf.length ≤ 256
  · rw [storeBytes, List.length_replicate, if_pos hle]
    exact iff_of_true rfl hle
  · rw [storeBytes_eq_none (by rw [List.length_replicate]; omega)]
    exact iff_of_false Bool.false_ne_true hle

theorem terminate_isSome_iff {m : LidbgMsg} {row : List UInt8} (hrow : m.log[m.wPos]? = some row)
    {size : Nat} (hle : size ≤ row.length) : (terminate m size).isSome ↔ 0 < size := by
  unfold terminate
  by_cases hzero : size = 0
  · simp [hzero]
  · have hlt : size - 1 < row.length := by omega
    simp [hzero, hrow, storeByte, hlt, Nat.pos_of_ne_zero hzero]

theorem exists_copyFromUser (m : Slots) {bytes : List UInt8} (h : bytes.length ≤ logBytes) :
    ∃ m' row, copyFromUser m.msg bytes = some m' ∧ m'.log[m'.wPos]? = some row ∧
      row.length = logBytes := by
  obtain ⟨⟨wPos, rPos, log⟩, hlog, hrows, hpos⟩ := m
  have hlt : wPos < log.length := hlog ▸ hpos
  have hrow : log[wPos].length = logBytes := hrows _ (List.getElem_mem hlt)
  refine ⟨⟨wPos, rPos, log.set wPos (bytes ++ log[wPos].drop bytes.length)⟩,
    bytes ++ log[wPos].drop bytes.length, ?_, List.getElem?_set_self hlt, ?_⟩
  · rw [copyFromUser, List.getElem?_eq_getElem hlt, Option.bind_some, if_pos (by omega)]
    rfl
  · rw [List.length_append, List.length_drop, hrow]
    omega

/-- **`msg_write`** cuts its size to that of a slot, and needs a last byte. -/
theorem msgWrite_isSome_iff (m : Slots) (buf : List UInt8) :
    (msgWrite m.msg buf).isSome ↔ 0 < buf.length := by
  obtain ⟨m', row, hcopy, hslot, hlen⟩ := exists_copyFromUser m (List.length_take_le logBytes buf)
  have hwrite : (msgWrite m.msg buf).isSome ↔
      (terminate m' (if buf.length > logBytes then logBytes else buf.length)).isSome := by
    rw [msgWrite, hcopy, Option.bind_eq_bind, Option.bind_some]
    cases terminate m' _ with
    | none => rfl
    | some m => rfl
  have hsize : (if buf.length > logBytes then logBytes else buf.length) ≤ row.length := by
    rw [hlen]
    split_ifs <;> omega
  rw [hwrite, terminate_isSome_iff hslot hsize]
  split_ifs with hbig
  · exact iff_of_true (by decide) (by omega)
  · rfl

/-! ## All of them -/

inductive WriteCall (K : ByteFifo) where
  | acc (dataRec : CArray 32) (isFly : Bool) (buf : List UInt8)
  | pm (buf : List UInt8)
  | traceMsg (fifo : K.State) (buf : List UInt8)
  | msg (m : Slots) (buf : List UInt8)

variable {K : ByteFifo}

/-- A call stays in its arrays. -/
def Inside : WriteCall K → Prop
  | .acc dataRec isFly buf => (accWrite dataRec isFly buf).isSome
  | .pm buf => (pmWrite buf).isSome
  | .traceMsg fifo buf => (lidbgTraceMsgWrite K fifo buf).isSome
  | .msg m buf => (msgWrite m.msg buf).isSome

/-- The sizes and contents a handler is made for. -/
def Fits : WriteCall K → Prop
  | .acc _ _ buf => buf.length < 32 ∨ buf.length = 32 ∧ 10 ∈ buf
  | .pm buf =>
    0 < buf.length ∧ buf.length ≤ 512 ∧ ((pmText buf).length < 512 ∨ 0 ∈ pmText buf) ∧
      ((cstr (pmText buf)).splitOn 32).length ≤ 8
  | .traceMsg _ buf => buf.length ≤ 256
  | .msg _ buf => 0 < buf.length

/-- **A write stays in its arrays** exactly if it fits. -/
theorem inside_iff (c : WriteCall K) : Inside c ↔ Fits c := by
  cases c with
  | acc dataRec isFly buf => exact accWrite_isSome_iff dataRec isFly buf
  | pm buf => exact pmWrite_isSome_iff buf
  | traceMsg fifo buf => exact lidbgTraceMsgWrite_isSome_iff K fifo buf
  | msg m buf => exact msgWrite_isSome_iff m buf

/-- The slots after `thread_msg` has cleared them. -/
def clearSlots : Slots where
  msg := ⟨0, 0, List.replicate totalLogs (List.replicate logBytes 0)⟩
  length_log := List.length_replicate
  length_row := fun row h => by rw [List.eq_of_mem_replicate h, List.length_replicate]
  wPos_lt := by decide

/-- A full array without a newline, an empty line, a line of nine words, more
than the array holds, and an empty message. -/
theorem writes_outside :
    ¬ Inside (.acc ⟨List.replicate 32 0, rfl⟩ false (List.replicate 32 97) :
      WriteCall ringFifo) ∧
    ¬ Inside (.pm [] : WriteCall ringFifo) ∧
    ¬ Inside (.pm (ascii "a b c d e f g h i") : WriteCall ringFifo) ∧
    ¬ Inside (.traceMsg (ringFifo.init 32768) (List.replicate 257 97) : WriteCall ringFifo) ∧
    ¬ Inside (.msg clearSlots [] : WriteCall ringFifo) := by
  refine ⟨?_, ?_, ?_, ?_, ?_⟩
  · rw [Inside, accWrite_isSome_iff]
    decide
  · rw [Inside, pmWrite_isSome_iff]
    decide
  · rw [Inside, pmWrite_isSome_iff]
    decide
  · rw [Inside, lidbgTraceMsgWrite_isSome_iff, List.length_replicate]
    decide
  · rw [Inside, msgWrite_isSome_iff]
    decide

end Lidbg.DevWrite
