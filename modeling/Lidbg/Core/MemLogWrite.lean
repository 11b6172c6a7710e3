import Lidbg.Core.MemLogDump

/-!
# Writes to the memory log (`core/lidbg_mem_log.c`)

`lidbg_msg_write` copies what the user writes over the time that stands in the
buffer, puts no NUL behind it, and logs what is there up to the next one. What an
earlier operation left in the buffer is logged with it.
-/

namespace Lidbg.MemLog

open Machine

section Model

variable (K : ByteFifo)

/-- `strlen`, `fifo_is_enough` and `kfifo_in`, with what `kfifo_in` is given. -/
def logPiece (fifo : K.State) (msgInBuff : List UInt8) : Option (K.State × List UInt8) :=
  (loadStr msgInBuff).map fun s => ((K.put (fifoIsEnough K fifo s.length) s).1, s)

/-- `lidbg_msg_write`, with its result and the record it appends; `none` stores or reads
outside `msg_in_buff`. -/
def lidbgMsgWrite (dev : LidbgFifoDevice K) (tm : RtcTime) (buf : List UInt8) :
    Option (LidbgFifoDevice K × Int32 × List UInt8) :=
  if 0 < buf.length ∧ dev.isInited then do
    let msgInBuff ← storeStr dev.msgInBuff (timeString tm)
    let (fifo, time) ← logPiece K dev.fifo msgInBuff
    let msgInBuff ← storeBytes msgInBuff buf
    let msgInBuff ← storeByte msgInBuff (buffSize - 1) 0
    let (fifo, msg) ← logPiece K fifo msgInBuff
    some ({ dev with fifo, msgInBuff }, 1, time ++ msg)
  else some (dev, 0, [])

/-- What is done with a device: a put, a write, or a dump to a file. -/
inductive MsgOp
  | put (r : Record)
  | write (tm : RtcTime) (buf : List UInt8)
  | get (file : List UInt8) (io : DumpIo)

/-- One operation, observed by its result. -/
def msgStep : Step (LidbgFifoDevice K) MsgOp Int32
  | dev, .put r => (lidbgFifoPut K dev r).map fun d => (d.1, [d.2])
  | dev, .write tm buf => (lidbgMsgWrite K dev tm buf).map fun d => (d.1, [d.2.1])
  | dev, .get file io => (lidbgFifoGet K dev file io).map fun d => (d.1, [d.2.2])

/-- What is written is what is logged: the record is the time and the bytes, and
the fifo has it behind what was there. -/
def WriteExact (dev : LidbgFifoDevice K) (tm : RtcTime) (buf : List UInt8) : Prop :=
  ∃ dev' d, lidbgMsgWrite K dev tm buf = some (dev', 1, timeString tm ++ buf) ∧
    K.bytes dev'.fifo = (K.bytes dev.fifo).drop d ++ (timeString tm ++ buf)

/-- A device as `lidbg_msg_probe` makes it, by its sizes. -/
structure MsgDevice (dev : LidbgFifoDevice K) : Prop where
  isInited : dev.isInited = true
  length_msgInBuff : dev.msgInBuff.length = buffSize
  size_fifo : K.size dev.fifo = lidbgFifoSize

end Model

/-- A NUL stands behind `n` bytes of the buffer once the time is in it: at the end
of the buffer, behind the time, or where an earlier operation left it. -/
def NulBehind (msgInBuff time : List UInt8) (n : Nat) : Prop :=
  n = buffSize - 1 ∨ n = time.length ∨ time.length < n ∧ msgInBuff[n]? = some 0

variable {K : ByteFifo}

/-! ## Every device -/

theorem logPiece_eq_some_iff {fifo fifo' : K.State} {msgInBuff s : List UInt8} :
    logPiece K fifo msgInBuff = some (fifo', s) ↔
      logString K fifo msgInBuff = some fifo' ∧ loadStr msgInBuff = some s := by
  unfold logPiece logString
  cases loadStr msgInBuff with
  | none => exact iff_of_false (fun h => nomatch h) fun h => nomatch h.1
  | some s' =>
    simp only [Option.map_some, Option.some.injEq, Prod.mk.injEq]

theorem lidbgMsgWrite_sizes {dev dev' : LidbgFifoDevice K} {tm : RtcTime} {buf : List UInt8}
    {r : Int32 × List UInt8} (h : lidbgMsgWrite K dev tm buf = some (dev', r)) :
    SameSizes dev dev' := by
  unfold lidbgMsgWrite at h
  split_ifs at h with hopen
  · obtain ⟨b₁, hb₁, h⟩ := Option.bind_eq_some_iff.mp h
    obtain ⟨⟨fifo₁, time⟩, hlog₁, h⟩ := Option.bind_eq_some_iff.mp h
    obtain ⟨b₂, hb₂, h⟩ := Option.bind_eq_some_iff.mp h
    obtain ⟨b₃, hb₃, h⟩ := Option.bind_eq_some_iff.mp h
    obtain ⟨⟨fifo₂, msg⟩, hlog₂, h⟩ := Option.bind_eq_some_iff.mp h
    cases h
    exact ⟨rfl, (length_storeByte hb₃).trans ((length_storeBytes hb₂).trans (length_storeStr hb₁)),
      (size_logString (logPiece_eq_some_iff.mp hlog₂).1).trans
        (size_logString (logPiece_eq_some_iff.mp hlog₁).1)⟩
  · cases h
    exact .refl dev

/-- Every operation leaves the sizes. -/
theorem msgStep_sizes {dev dev' : LidbgFifoDevice K} {op : MsgOp} {o : List Int32}
    (h : msgStep K dev op = some (dev', o)) : SameSizes dev dev' := by
  cases op with
  | put r =>
    obtain ⟨⟨d, ret⟩, hput, h⟩ := Option.map_eq_some_iff.mp h
    cases h
    exact lidbgFifoPut_sizes hput
  | write tm buf =>
    obtain ⟨⟨d, r⟩, hwrite, h⟩ := Option.map_eq_some_iff.mp h
    cases h
    exact lidbgMsgWrite_sizes hwrite
  | get file io =>
    obtain ⟨⟨d, r⟩, hget, h⟩ := Option.map_eq_some_iff.mp h
    cases h
    exact lidbgFifoGet_sizes hget

theorem MsgDevice.of_sameSizes {dev dev' : LidbgFifoDevice K} (hdev : MsgDevice K dev)
    (h : SameSizes dev dev') : MsgDevice K dev' :=
  ⟨h.isInited.trans hdev.isInited, h.length_msgInBuff.trans hdev.length_msgInBuff,
    h.size_fifo.trans hdev.size_fifo⟩

/-- Whatever was done with a device, it has the sizes it was made with. -/
theorem msgDevice_run {rounding : Rounding} {owner : Option CStr} {io : AllocIo}
    {dev₀ dev : LidbgFifoDevice K} {ops : List MsgOp} {o : List Int32}
    (halloc : lidbgFifoAlloc K rounding owner lidbgFifoSize buffSize io = some (some dev₀))
    (hrun : run (msgStep K) dev₀ ops = some (dev, o)) : MsgDevice K dev := by
  obtain ⟨hinit, hlen, hsize⟩ := lidbgFifoAlloc_some halloc
  rw [rounding.log_pow 22] at hsize
  exact run_preserves (fun _ _ _ _ hdev h => hdev.of_sameSizes (msgStep_sizes h))
    ⟨hinit, hlen, hsize⟩ hrun

/-! ## What is logged -/

/-- What stands behind `n` bytes written over the time, up to the NUL at the end of
the buffer. -/
def leftBehind (msgInBuff time : List UInt8) (n : Nat) : List UInt8 :=
  ((time ++ 0 :: msgInBuff.drop (time.length + 1)).drop n).set (buffSize - 1 - n) 0

theorem length_leftBehind {msgInBuff time : List UInt8} (hbuf : msgInBuff.length = buffSize)
    (htime : time.length < buffSize) {n : Nat} :
    (leftBehind msgInBuff time n).length = buffSize - n := by
  rw [leftBehind, List.length_set, List.length_drop, List.length_append, List.length_cons,
    List.length_drop, hbuf]
  omega

/-- The buffer with the time, read behind the `n` bytes. -/
theorem getElem?_time_iff {msgInBuff time : List UInt8} (htime : 0 ∉ time) (n : Nat) :
    (time ++ 0 :: msgInBuff.drop (time.length + 1))[n]? = some 0 ↔
      n = time.length ∨ time.length < n ∧ msgInBuff[n]? = some 0 := by
  rcases Nat.lt_trichotomy n time.length with hn | rfl | hn
  · rw [List.getElem?_append_left hn]
    refine iff_of_false (fun h => htime (List.mem_of_getElem? h)) ?_
    omega
  · rw [List.getElem?_append_right (Nat.le_refl _), Nat.sub_self]
    exact iff_of_true rfl (.inl rfl)
  · obtain ⟨k, rfl⟩ := Nat.exists_eq_add_of_lt hn
    rw [List.getElem?_append_right hn.le, Nat.add_assoc, Nat.add_sub_cancel_left,
      List.getElem?_cons_succ, List.getElem?_drop]
    have hk : time.length + 1 + k = time.length + (k + 1) := by omega
    rw [hk]
    simp

/-- Nothing is left behind exactly if a NUL stands there. -/
theorem loadStr_leftBehind_iff {msgInBuff time : List UInt8}
    (hbuf : msgInBuff.length = buffSize) (htime : time.length < buffSize) (hnul : 0 ∉ time)
    {n : Nat} (hn : n < buffSize) :
    loadStr (leftBehind msgInBuff time n) = some [] ↔ NulBehind msgInBuff time n := by
  have hlen := length_leftBehind hbuf htime (n := n)
  rw [loadStr_eq_nil_iff, List.head?_eq_getElem?]
  unfold NulBehind
  rcases Nat.eq_or_lt_of_le (Nat.le_sub_one_of_lt hn) with rfl | hlt
  · refine iff_of_true ?_ (.inl rfl)
    rw [leftBehind, List.length_set] at hlen
    rw [leftBehind, Nat.sub_self, List.getElem?_set_self (by omega)]
  · rw [leftBehind, List.getElem?_set_ne (Nat.sub_ne_zero_of_lt hlt), List.getElem?_drop,
      getElem?_time_iff hnul, Nat.add_zero, or_iff_right (Nat.ne_of_lt hlt)]

/-- The buffer after the time, after the copy, and with its last byte cleared. -/
theorem exists_buffers {msgInBuff time buf : List UInt8} (hbuf : msgInBuff.length = buffSize)
    (htime : time.length < buffSize) (hnul : 0 ∉ time) (hlt : buf.length < buffSize) :
    ∃ b₁ b₂, storeStr msgInBuff time = some b₁ ∧ loadStr b₁ = some time ∧
      storeBytes b₁ buf = some b₂ ∧
      storeByte b₂ (buffSize - 1) 0 = some (buf ++ leftBehind msgInBuff time buf.length) := by
  have hb₁ := storeStr_of_lt (hbuf.symm ▸ htime)
  have hlen₁ := (length_storeStr hb₁).trans hbuf
  have hb₂ := storeBytes_of_le (hlt.le.trans hlen₁.ge)
  have hlen₂ := (length_storeBytes hb₂).trans hlen₁
  refine ⟨_, _, hb₁, loadStr_append_nul hnul _, hb₂, ?_⟩
  rw [storeByte, if_pos (by omega), List.set_append_right _ _ (Nat.le_sub_one_of_lt hlt),
    leftBehind]

/-- **One write.** The record is the time, the bytes, and what is left behind
them. -/
theorem lidbgMsgWrite_spec {dev : LidbgFifoDevice K} (hdev : MsgDevice K dev) (tm : RtcTime)
    {buf : List UInt8} (hpos : 0 < buf.length) (hlt : buf.length < buffSize) (hnul : 0 ∉ buf) :
    ∃ dev' d s, loadStr (leftBehind dev.msgInBuff (timeString tm) buf.length) = some s ∧
      lidbgMsgWrite K dev tm buf = some (dev', 1, timeString tm ++ (buf ++ s)) ∧
      K.bytes dev'.fifo = (K.bytes dev.fifo).drop d ++ (timeString tm ++ (buf ++ s)) := by
  have htime := length_timeString_lt tm
  have hleft := length_leftBehind hdev.length_msgInBuff htime (n := buf.length)
  obtain ⟨b₁, b₂, hb₁, hload₁, hb₂, hb₃⟩ :=
    exists_buffers hdev.length_msgInBuff htime (nul_notMem_timeString tm) hlt
  obtain ⟨s, hs⟩ : ∃ s, loadStr (leftBehind dev.msgInBuff (timeString tm) buf.length) = some s := by
    refine ⟨_, if_pos (List.mem_set ?_ 0)⟩
    rw [leftBehind, List.length_set] at hleft
    omega
  have hload₂ : loadStr (buf ++ leftBehind dev.msgInBuff (timeString tm) buf.length) =
      some (buf ++ s) := by
    rw [loadStr_append hnul, hs]
    rfl
  have hsize : 2 * (buf ++ s).length + (timeString tm).length ≤ K.size dev.fifo := by
    have hmsg := length_loadStr_le hload₂
    have htotal : (buf ++ leftBehind dev.msgInBuff (timeString tm) buf.length).length =
        buffSize := by
      rw [List.length_append, hleft, Nat.add_sub_cancel' hlt.le]
    rw [htotal] at hmsg
    rw [hdev.size_fifo]
    calc 2 * (buf ++ s).length + (timeString tm).length
        ≤ 2 * buffSize + buffSize := by omega
      _ ≤ lidbgFifoSize := by decide
  obtain ⟨f₁, f₂, d, hlog₁, hlog₂, hbytes⟩ := logString_twice dev.fifo hload₁ hload₂ hsize
  refine ⟨⟨f₂, buf ++ leftBehind dev.msgInBuff (timeString tm) buf.length, dev.isInited⟩, d, s,
    hs, ?_, hbytes⟩
  rw [lidbgMsgWrite, if_pos ⟨hpos, hdev.isInited⟩]
  simp only [hb₁, logPiece_eq_some_iff.mpr ⟨hlog₁, hload₁⟩, hb₂, hb₃,
    logPiece_eq_some_iff.mpr ⟨hlog₂, hload₂⟩, Option.bind_eq_bind, Option.bind_some]

theorem writeExact_iff_of_msgDevice {dev : LidbgFifoDevice K} (hdev : MsgDevice K dev)
    (tm : RtcTime) {buf : List UInt8} (hpos : 0 < buf.length) (hlt : buf.length < buffSize)
    (hnul : 0 ∉ buf) :
    WriteExact K dev tm buf ↔ NulBehind dev.msgInBuff (timeString tm) buf.length := by
  obtain ⟨dev', d, s, hs, hwrite, hbytes⟩ := lidbgMsgWrite_spec hdev tm hpos hlt hnul
  rw [← loadStr_leftBehind_iff hdev.length_msgInBuff (length_timeString_lt tm)
    (nul_notMem_timeString tm) hlt, hs, Option.some.injEq]
  constructor
  · rintro ⟨dev'', d', hsome, -⟩
    rw [hwrite, Option.some.injEq, Prod.mk.injEq, Prod.mk.injEq, List.append_right_inj,
      List.append_right_eq_self] at hsome
    exact hsome.2.2
  · rintro rfl
    rw [List.append_nil] at hwrite hbytes
    exact ⟨dev', d, hwrite, hbytes⟩

/-- **What is written is what is logged** exactly if a NUL stands behind it,
whatever was done with the device before. -/
theorem writeExact_iff {rounding : Rounding} {owner : Option CStr} {io : AllocIo}
    {dev₀ dev : LidbgFifoDevice K} {ops : List MsgOp} {o : List Int32}
    (halloc : lidbgFifoAlloc K rounding owner lidbgFifoSize buffSize io = some (some dev₀))
    (hrun : run (msgStep K) dev₀ ops = some (dev, o)) (tm : RtcTime) {buf : List UInt8}
    (hpos : 0 < buf.length) (hlt : buf.length < buffSize) (hnul : 0 ∉ buf) :
    WriteExact K dev tm buf ↔ NulBehind dev.msgInBuff (timeString tm) buf.length :=
  writeExact_iff_of_msgDevice (msgDevice_run halloc hrun) tm hpos hlt hnul

/-- A morning. -/
def someTime : RtcTime := ⟨5, 15, 10, 21, 9, 113⟩

/-- The first write to a new device. -/
theorem writeExact_deviceOf :
    WriteExact ringFifo (deviceOf lidbgFifoSize buffSize) someTime (ascii "power\n") ↔
      NulBehind (deviceOf lidbgFifoSize buffSize).msgInBuff (timeString someTime)
        (ascii "power\n").length :=
  writeExact_iff (lidbgFifoAlloc_deviceOf commenOwner (by decide) (by decide))
    (run_nil (deviceOf lidbgFifoSize buffSize)) someTime (by decide) (by decide) (by decide)

/-- A line that is shorter than the time is logged with the end of the time. -/
theorem not_writeExact :
    ¬ ∀ (owner : Option CStr) (io : AllocIo) (dev₀ dev : LidbgFifoDevice ringFifo)
      (ops : List MsgOp) (o : List Int32) (tm : RtcTime) (buf : List UInt8),
      lidbgFifoAlloc ringFifo roundUp owner lidbgFifoSize buffSize io = some (some dev₀) →
      run (msgStep ringFifo) dev₀ ops = some (dev, o) →
      0 < buf.length → buf.length < buffSize → 0 ∉ buf → WriteExact ringFifo dev tm buf := by
  intro hall
  have halloc := lidbgFifoAlloc_deviceOf commenOwner (show 2 ≤ lidbgFifoSize by decide)
    (show pointerSize ≤ buffSize by decide)
  have hrun := (run_nil _ : run (msgStep ringFifo) (deviceOf lidbgFifoSize buffSize) [] = _)
  have hexact := hall _ _ _ _ [] [] someTime (ascii "power\n") halloc hrun (by decide)
    (by decide) (by decide)
  rw [writeExact_iff_of_msgDevice (msgDevice_run halloc hrun) someTime (by decide) (by decide)
    (by decide)] at hexact
  have hshort : (ascii "power\n").length < (timeString someTime).length := by decide
  rcases hexact with h | h | h
  · exact absurd h (by decide)
  · exact absurd h (Nat.ne_of_lt hshort)
  · exact absurd h.1 (Nat.lt_asymm hshort)

end Lidbg.MemLog
