import Lidbg.Machine.Run
import Lidbg.Machine.ByteFifo
import Lidbg.Machine.Decimal

/-!
# The memory log (`core/lidbg_mem_log.c`)

A device keeps what was logged in a `kfifo` of bytes and formats each piece,
the time and then the message, in its `msg_in_buff`. `fifo_is_enough` makes room
by throwing away the oldest bytes, as many as the new piece is long and not as
many as are missing. It runs for the time and again for the message of one
record, so the second run could cut the time the first one made room for.

- `logString_bytes` says what one piece does to the unread bytes: some of the
  oldest go, at most as many as come, and none if there was room.
- `lidbgFifoPut_bytes` puts the two together: in a fifo of twice the buffer and
  the time, a record loses nothing of itself.
- `fifoPut_keepsNewest` is the run: the unread bytes are the end of all that was
  ever logged.
-/

namespace Lidbg.MemLog

open Machine

/-- `BUFF_SIZE`. -/
abbrev buffSize : Nat := 4096

/-- `struct rtc_time`, as far as it is printed. -/
structure RtcTime where
  tmSec : Int32
  tmMin : Int32
  tmHour : Int32
  tmMday : Int32
  tmMon : Int32
  tmYear : Int32

/-- `"%d-%02d-%02d_%02d:%02d:%02d "`, as `lidbg_get_curr_time` fills it in. -/
def timeString (tm : RtcTime) : List UInt8 :=
  printInt (tm.tmYear + 1900) ++ ascii "-" ++ printPadded 2 (tm.tmMon + 1) ++ ascii "-" ++
    printPadded 2 tm.tmMday ++ ascii "_" ++ printPadded 2 tm.tmHour ++ ascii ":" ++
    printPadded 2 tm.tmMin ++ ascii ":" ++ printPadded 2 tm.tmSec ++ ascii " "

/-- One record: the time of the call and the message as `vsprintf` formats it. -/
structure Record where
  tm : RtcTime
  msg : CStr

/-- What a record puts into the log. -/
def Record.bytes (r : Record) : List UInt8 := timeString r.tm ++ r.msg.chars

section Model

variable (K : ByteFifo)

/-- `struct lidbg_fifo_device`. -/
structure LidbgFifoDevice where
  fifo : K.State
  msgInBuff : List UInt8
  isInited : Bool

/-- `kfifo_out` takes `len` bytes, however few are missing. -/
def fifoIsEnough (fifo : K.State) (len : Nat) : K.State :=
  if K.isFull fifo ∨ K.avail fifo < len then (K.get fifo len).1 else fifo

/-- `strlen`, `fifo_is_enough` and `kfifo_in` of what stands in `msg_in_buff`. -/
def logString (fifo : K.State) (msgInBuff : List UInt8) : Option K.State :=
  (loadStr msgInBuff).map fun s => (K.put (fifoIsEnough K fifo s.length) s).1

/-- `lidbg_fifo_put`, with its result; `none` stores or reads outside
`msg_in_buff`. -/
def lidbgFifoPut (dev : LidbgFifoDevice K) (r : Record) :
    Option (LidbgFifoDevice K × Int32) :=
  if dev.isInited then do
    let msgInBuff ← storeStr dev.msgInBuff (timeString r.tm)
    let fifo ← logString K dev.fifo msgInBuff
    let msgInBuff ← storeStr msgInBuff r.msg.chars
    let msgInBuff ← storeByte msgInBuff (buffSize - 1) 0
    let fifo ← logString K fifo msgInBuff
    some ({ dev with fifo, msgInBuff }, 1)
  else some (dev, 0)

/-- One call, observed by its result. -/
def fifoPutStep : Step (LidbgFifoDevice K) Record Int32 := fun dev r =>
  (lidbgFifoPut K dev r).map fun d => (d.1, [d.2])

end Model

/-! ## The time -/

/-- The time is a string. -/
theorem nul_notMem_timeString (tm : RtcTime) : 0 ∉ timeString tm := by
  have ha : ∀ s ∈ ["-", "_", ":", " "], 0 ∉ ascii s := by decide
  simp only [timeString, List.mem_append, not_or]
  simp [nul_notMem_printInt, nul_notMem_printPadded, ha]

theorem length_timeString_lt (tm : RtcTime) : (timeString tm).length < buffSize := by
  have hi := length_printInt_le (tm.tmYear + 1900)
  have hp : ∀ x, (printPadded 2 x).length ≤ 11 := length_printPadded_le (by decide)
  have ha : ∀ s ∈ ["-", "_", ":", " "], (ascii s).length = 1 := by decide
  have hmon := hp (tm.tmMon + 1)
  have hmday := hp tm.tmMday
  have hhour := hp tm.tmHour
  have hmin := hp tm.tmMin
  have hsec := hp tm.tmSec
  show _ < 4096
  simp only [timeString, List.length_append, ha, List.mem_cons, true_or, or_true]
  omega

/-! ## One piece -/

section Log

variable {K : ByteFifo}

theorem bytes_fifoIsEnough (fifo : K.State) (len : Nat) :
    ∃ d ≤ len, (0 < d → K.size fifo < (K.bytes fifo).length + len) ∧
      K.bytes (fifoIsEnough K fifo len) = (K.bytes fifo).drop d := by
  unfold fifoIsEnough
  split
  · next h =>
    refine ⟨len, Nat.le_refl len, fun hpos => ?_, K.bytes_get fifo len⟩
    unfold ByteFifo.isFull ByteFifo.avail at h
    simp only [decide_eq_true_eq] at h
    omega
  · exact ⟨0, Nat.zero_le len, fun h => absurd h (Nat.lt_irrefl 0), List.drop_zero.symm⟩

theorem size_fifoIsEnough (fifo : K.State) (len : Nat) :
    K.size (fifoIsEnough K fifo len) = K.size fifo := by
  unfold fifoIsEnough
  split
  · exact K.size_get fifo len
  · rfl

/-- There is room afterwards. -/
theorem le_avail_fifoIsEnough (fifo : K.State) {len : Nat} (h : len ≤ K.size fifo) :
    len ≤ K.avail (fifoIsEnough K fifo len) := by
  have hle := K.length_bytes_le fifo
  unfold fifoIsEnough
  split
  · rw [ByteFifo.avail, K.size_get, K.bytes_get, List.length_drop]
    omega
  · next hnot =>
    rw [not_or, Nat.not_lt] at hnot
    exact hnot.2

/-- **One piece.** Some of the oldest bytes go, at most as many as come, and
none if there was room. -/
theorem logString_bytes (fifo : K.State) {msgInBuff s : List UInt8}
    (hload : loadStr msgInBuff = some s) (hs : s.length ≤ K.size fifo) :
    ∃ fifo' d, logString K fifo msgInBuff = some fifo' ∧ d ≤ s.length ∧
      (0 < d → K.size fifo < (K.bytes fifo).length + s.length) ∧
      K.bytes fifo' = (K.bytes fifo).drop d ++ s ∧ K.size fifo' = K.size fifo := by
  have hsize := size_fifoIsEnough fifo s.length
  have hroom := le_avail_fifoIsEnough fifo hs
  obtain ⟨d, hd, hd0, hbytes⟩ := bytes_fifoIsEnough fifo s.length
  refine ⟨(K.put (fifoIsEnough K fifo s.length) s).1, d, by rw [logString, hload]; rfl, hd, hd0,
    ?_, by rw [K.size_put, hsize]⟩
  rw [ByteFifo.put_of_le_avail hroom, hbytes]

theorem size_logString {fifo fifo' : K.State} {msgInBuff : List UInt8}
    (h : logString K fifo msgInBuff = some fifo') : K.size fifo' = K.size fifo := by
  obtain ⟨s, -, rfl⟩ := Option.map_eq_some_iff.mp h
  rw [K.size_put, size_fifoIsEnough]

/-- Two pieces of one record: room for the second is not made at the expense of
the first. -/
theorem logString_twice (fifo : K.State) {b₁ b₂ s₁ s₂ : List UInt8}
    (hload₁ : loadStr b₁ = some s₁) (hload₂ : loadStr b₂ = some s₂)
    (hsize : 2 * s₂.length + s₁.length ≤ K.size fifo) :
    ∃ f₁ f₂ d, logString K fifo b₁ = some f₁ ∧ logString K f₁ b₂ = some f₂ ∧
      K.bytes f₂ = (K.bytes fifo).drop d ++ (s₁ ++ s₂) := by
  obtain ⟨f₁, d₁, hlog₁, -, -, hbytes₁, hsize₁⟩ := logString_bytes fifo hload₁ (by omega)
  obtain ⟨f₂, d₂, hlog₂, hd₂, hd₂0, hbytes₂, -⟩ := logString_bytes f₁ hload₂ (by omega)
  -- what makes room for the second stands before the first
  have hold : d₂ ≤ ((K.bytes fifo).drop d₁).length := by
    rcases Nat.eq_zero_or_pos d₂ with rfl | hpos
    · exact Nat.zero_le _
    · have hfull := hd₂0 hpos
      rw [hbytes₁, List.length_append, hsize₁] at hfull
      omega
  refine ⟨f₁, f₂, d₁ + d₂, hlog₁, hlog₂, ?_⟩
  rw [hbytes₂, hbytes₁, List.drop_append_of_le_length hold, List.drop_drop, List.append_assoc]

/-! ## One record -/

/-- The call, spelled out: it logs the time and then the message, and leaves a
buffer of the same size. -/
theorem lidbgFifoPut_eq {dev : LidbgFifoDevice K} {r : Record} (hinit : dev.isInited = true)
    (hbuf : buffSize ≤ dev.msgInBuff.length) (hmsg : r.msg.chars.length < buffSize) :
    ∃ b₁ b₂, loadStr b₁ = some (timeString r.tm) ∧ loadStr b₂ = some r.msg.chars ∧
      b₂.length = dev.msgInBuff.length ∧
      lidbgFifoPut K dev r =
        (logString K dev.fifo b₁).bind fun fifo =>
          (logString K fifo b₂).map fun fifo => (⟨fifo, b₂, dev.isInited⟩, 1) := by
  have htm := length_timeString_lt r.tm
  obtain ⟨b₁, hb₁, hload₁⟩ : ∃ b₁, storeStr dev.msgInBuff (timeString r.tm) = some b₁ ∧
      loadStr b₁ = some (timeString r.tm) :=
    ⟨_, storeStr_of_lt (by omega), loadStr_append_nul (nul_notMem_timeString r.tm) _⟩
  have hlen₁ := length_storeStr hb₁
  have hb : storeStr b₁ r.msg.chars = _ := storeStr_of_lt (by omega)
  have hlen := length_storeStr hb
  obtain ⟨b₂, hb₂, hload₂⟩ : ∃ b₂,
      storeByte (r.msg.chars ++ 0 :: b₁.drop (r.msg.chars.length + 1)) (buffSize - 1) 0 = some b₂ ∧
        loadStr b₂ = some r.msg.chars :=
    ⟨_, if_pos (by rw [hlen]; omega), loadStr_set_nul r.msg.nul_notMem _ (by omega)⟩
  have hlen₂ := length_storeByte hb₂
  refine ⟨b₁, b₂, hload₁, hload₂, by omega, ?_⟩
  rw [lidbgFifoPut, if_pos hinit, hb₁]
  show ((logString K dev.fifo b₁).bind fun fifo => (storeStr b₁ r.msg.chars).bind _) = _
  simp only [hb, Option.bind_some]
  show ((logString K dev.fifo b₁).bind fun fifo => (storeByte _ _ 0).bind _) = _
  simp only [hb₂, Option.bind_some]
  congr 1
  funext fifo
  cases logString K fifo b₂ <;> rfl

/-- The fifo is large enough for a record: twice the buffer and the time. -/
def Fits (dev : LidbgFifoDevice K) (r : Record) : Prop :=
  r.msg.chars.length < buffSize ∧
    2 * dev.msgInBuff.length + (timeString r.tm).length ≤ K.size dev.fifo

/-- **One record.** The oldest bytes go and the record comes, whole: room for
the message is not made at the expense of its own time. -/
theorem lidbgFifoPut_bytes {dev : LidbgFifoDevice K} {r : Record} (hinit : dev.isInited = true)
    (hbuf : buffSize ≤ dev.msgInBuff.length) (hfits : Fits dev r) :
    ∃ dev' d, lidbgFifoPut K dev r = some (dev', 1) ∧ dev'.isInited = true ∧
      dev'.msgInBuff.length = dev.msgInBuff.length ∧ K.size dev'.fifo = K.size dev.fifo ∧
      K.bytes dev'.fifo = (K.bytes dev.fifo).drop d ++ r.bytes := by
  obtain ⟨hmsg, hsize⟩ := hfits
  obtain ⟨b₁, b₂, hload₁, hload₂, hlen, hput⟩ := lidbgFifoPut_eq hinit hbuf hmsg
  obtain ⟨f₁, f₂, d, hlog₁, hlog₂, hbytes⟩ :=
    logString_twice dev.fifo hload₁ hload₂ (by omega)
  refine ⟨⟨f₂, b₂, dev.isInited⟩, d, ?_, hinit, hlen,
    (size_logString hlog₂).trans (size_logString hlog₁), hbytes⟩
  rw [hput, hlog₁, Option.bind_some, hlog₂]
  rfl

/-! ## Every run -/

/-- What holds of a device after records were put: it is as large as it was,
holds the end of everything put, and all of the last record. -/
structure Keeps (dev₀ : LidbgFifoDevice K) (recs : List Record) (dev : LidbgFifoDevice K) :
    Prop where
  isInited : dev.isInited = true
  length_msgInBuff : dev.msgInBuff.length = dev₀.msgInBuff.length
  size_fifo : K.size dev.fifo = K.size dev₀.fifo
  suffix : K.bytes dev.fifo <:+ recs.flatMap Record.bytes
  latest : ∀ r, recs.getLast? = some r → r.bytes <:+ K.bytes dev.fifo

/-- One record keeps it. -/
theorem keeps_step {dev₀ dev : LidbgFifoDevice K} {recs : List Record} {r : Record}
    (hbuf : buffSize ≤ dev₀.msgInBuff.length) (hfits : Fits dev₀ r) (h : Keeps dev₀ recs dev) :
    ∃ dev' o, fifoPutStep K dev r = some (dev', o) ∧ Keeps dev₀ (recs ++ [r]) dev' := by
  have hfits' : Fits dev r := by
    unfold Fits at hfits ⊢
    rwa [h.length_msgInBuff, h.size_fifo]
  obtain ⟨dev', d, hput, hinit, hlen, hsize, hbytes⟩ :=
    lidbgFifoPut_bytes h.isInited (h.length_msgInBuff ▸ hbuf) hfits'
  refine ⟨dev', [1], by rw [fifoPutStep, hput]; rfl, hinit, hlen.trans h.length_msgInBuff,
    hsize.trans h.size_fifo, ?_, ?_⟩
  · rw [hbytes, List.flatMap_append, List.flatMap_singleton]
    exact List.suffix_append_self_iff.mpr ((List.drop_suffix d _).trans h.suffix)
  · intro r' hr'
    rw [List.getLast?_append, List.getLast?_singleton, Option.some_or, Option.some.injEq] at hr'
    rw [hbytes, ← hr']
    exact List.suffix_append _ _

/-- **The memory log keeps the newest data**: after any records that fit, the
unread bytes are the end of all that was put, and the last record is among
them, whole. -/
theorem fifoPut_keepsNewest {dev : LidbgFifoDevice K} (hinit : dev.isInited = true)
    (hempty : K.bytes dev.fifo = []) (hbuf : buffSize ≤ dev.msgInBuff.length)
    {recs : List Record} (hmsg : ∀ r ∈ recs, r.msg.chars.length < buffSize)
    (hsize : ∀ r ∈ recs,
      2 * dev.msgInBuff.length + (timeString r.tm).length ≤ K.size dev.fifo) :
    ∃ dev' o, run (fifoPutStep K) dev recs = some (dev', o) ∧
      K.bytes dev'.fifo <:+ recs.flatMap Record.bytes ∧
      (K.bytes dev'.fifo).length ≤ K.size dev.fifo ∧
      ∀ r, recs.getLast? = some r → r.bytes <:+ K.bytes dev'.fifo := by
  have hkeeps : Keeps dev [] dev :=
    ⟨hinit, rfl, rfl, by rw [hempty]; exact List.suffix_rfl, fun _ h => nomatch h⟩
  have hmeet : StepsMeet (fifoPutStep K) (fun _ _ _ r => Fits dev r) dev recs :=
    stepsMeet_of_forall (fun r hr => ⟨hmsg r hr, hsize r hr⟩) _ _
  obtain ⟨dev', o, hrun, h⟩ := run_invariant (I := fun recs _ dev' => Keeps dev recs dev')
    (fun _ _ _ _ h hfits => by
      obtain ⟨dev', o, hstep, hkeeps⟩ := keeps_step hbuf hfits h
      exact ⟨dev', o, hstep, hkeeps⟩)
    hkeeps hmeet
  exact ⟨dev', o, hrun, h.suffix, h.size_fifo ▸ K.length_bytes_le dev'.fifo, h.latest⟩

/-- A device with the smallest buffer and a fifo of 16 KiB. -/
def newDevice : LidbgFifoDevice ringFifo :=
  ⟨ringFifo.init (2 ^ 14), List.replicate buffSize 0, true⟩

/-- Two records on it. -/
def twoRecords : List Record :=
  [⟨⟨5, 15, 10, 21, 9, 113⟩, ⟨ascii "suspend\n", by decide⟩⟩,
    ⟨⟨6, 15, 10, 21, 9, 113⟩, ⟨ascii "resume\n", by decide⟩⟩]

theorem newDevice_keepsNewest :
    ∃ dev' o, run (fifoPutStep ringFifo) newDevice twoRecords = some (dev', o) ∧
      ringFifo.bytes dev'.fifo <:+ twoRecords.flatMap Record.bytes ∧
      (ringFifo.bytes dev'.fifo).length ≤ ringFifo.size newDevice.fifo ∧
      ∀ r, twoRecords.getLast? = some r → r.bytes <:+ ringFifo.bytes dev'.fifo := by
  have hlen : newDevice.msgInBuff.length = 4096 := List.length_replicate
  have hsize : ringFifo.size newDevice.fifo = 16384 := ringFifo.size_init 14
  refine fifoPut_keepsNewest rfl (ringFifo.bytes_init 14) hlen.ge (by decide) fun r _ => ?_
  have htm : (timeString r.tm).length < 4096 := length_timeString_lt r.tm
  omega

end Log

end Lidbg.MemLog
