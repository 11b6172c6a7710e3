import Lidbg.Core.MemLogDevice

/-!
# Dumps of the memory log (`core/lidbg_mem_log.c`)

`lidbg_fifo_get` takes the unread bytes out of the fifo before `fifo_to_file`
opens the file, and a file that cannot be opened loses them. Its buffer is as
large as there are bytes, so that the `strlen` of `fifo_to_file` finds a NUL, if
at all, in the memory behind.
-/

namespace Lidbg.MemLog

open Machine

/-- What the system does in one dump: the memory from where `kmalloc` gives it to
its end, whether the file opens, and how many bytes its `write` takes. -/
structure DumpIo where
  memory : Option (List UInt8)
  opens : Bool
  written : Nat

/-- `fifo_to_file`, with its result; `none` reads past the end of the memory. -/
def fifoToFile (file strAppend : List UInt8) (io : DumpIo) : Option (List UInt8 × Int32) :=
  if io.opens then (loadStr strAppend).map fun s => (file ++ s.take io.written, 1)
  else some (file, -1)

section Model

variable (K : ByteFifo)

/-- `lidbg_fifo_get`, with the file and the result; `none` stores or reads outside
the memory. -/
def lidbgFifoGet (dev : LidbgFifoDevice K) (file : List UInt8) (io : DumpIo) :
    Option (LidbgFifoDevice K × List UInt8 × Int32) :=
  if dev.isInited then
    let len := K.len dev.fifo
    match io.memory with
    | none => some (dev, file, -1)
    | some memory => do
      let msgOutBuff ← memsetPointer memory
      let msgOutBuff ← storeBytes msgOutBuff (K.get dev.fifo len).2
      let (file, ret) ← fifoToFile file msgOutBuff io
      some ({ dev with fifo := (K.get dev.fifo len).1 }, file, if ret ≠ 1 then -1 else ret)
  else some (dev, file, 1)

/-- A dump is exact: the file gets what the fifo loses, and a failed dump loses
nothing. -/
def DumpExact (dev : LidbgFifoDevice K) (file : List UInt8) (io : DumpIo) : Prop :=
  ∃ dev' file' ret, lidbgFifoGet K dev file io = some (dev', file', ret) ∧
    (ret = 1 → ∃ removed, K.bytes dev.fifo = removed ++ K.bytes dev'.fifo ∧
      file' = file ++ removed) ∧
    (ret = -1 → K.bytes dev'.fifo = K.bytes dev.fifo)

end Model

/-- What stands behind the `len` bytes, after the `memset`. -/
def behind (memory : List UInt8) (len : Nat) : List UInt8 :=
  (List.replicate pointerSize 0 ++ memory.drop pointerSize).drop len

/-- A NUL stands behind the `len` bytes, and `write` takes them and no more. -/
def WritesLen (memory : List UInt8) (len written : Nat) : Prop :=
  0 ∈ behind memory len ∧
    (written = len ∨ len < written ∧ (behind memory len).head? = some 0)

/-- `kmalloc` gives the bytes it was asked for, and no less than a pointer. -/
def KmallocGives (len : Nat) (io : DumpIo) : Prop :=
  ∀ memory, io.memory = some memory → len ≤ memory.length ∧ pointerSize ≤ memory.length

variable {K : ByteFifo}

theorem take_append_eq_left_iff (a s : List UInt8) (w : Nat) :
    (a ++ s).take w = a ↔ w = a.length ∨ a.length < w ∧ s = [] := by
  constructor
  · intro h
    have hlen := congrArg List.length h
    rw [List.length_take, List.length_append] at hlen
    rcases Nat.eq_or_lt_of_le (show a.length ≤ w by omega) with hw | hw
    · exact .inl hw.symm
    · exact .inr ⟨hw, List.eq_nil_of_length_eq_zero (by omega)⟩
  · rintro (rfl | ⟨hw, rfl⟩)
    · exact List.take_left
    · rw [List.append_nil, List.take_of_length_le hw.le]

theorem lidbgFifoGet_sizes {dev dev' : LidbgFifoDevice K} {file : List UInt8} {io : DumpIo}
    {r : List UInt8 × Int32} (h : lidbgFifoGet K dev file io = some (dev', r)) :
    SameSizes dev dev' := by
  unfold lidbgFifoGet at h
  split_ifs at h with hinit
  · cases hmemory : io.memory with
    | none =>
      rw [hmemory] at h
      cases h
      exact .refl dev
    | some memory =>
      rw [hmemory] at h
      obtain ⟨b₁, -, h⟩ := Option.bind_eq_some_iff.mp h
      obtain ⟨b₂, -, h⟩ := Option.bind_eq_some_iff.mp h
      obtain ⟨f, -, h⟩ := Option.bind_eq_some_iff.mp h
      cases h
      exact ⟨rfl, rfl, K.size_get _ _⟩
  · cases h
    exact .refl dev

/-- What `fifo_to_file` reads: the bytes taken out, and then what stands behind. -/
theorem lidbgFifoGet_memory {dev : LidbgFifoDevice K} {file memory : List UInt8} {io : DumpIo}
    (hinit : dev.isInited = true) (hmemory : io.memory = some memory)
    (hgives : KmallocGives (K.len dev.fifo) io) :
    lidbgFifoGet K dev file io =
      (fifoToFile file (K.bytes dev.fifo ++ behind memory (K.len dev.fifo)) io).map fun d =>
        ({ dev with fifo := (K.get dev.fifo (K.len dev.fifo)).1 }, d.1,
          if d.2 ≠ 1 then -1 else d.2) := by
  obtain ⟨hlen, hpointer⟩ := hgives memory hmemory
  have hout : (K.get dev.fifo (K.len dev.fifo)).2 = K.bytes dev.fifo := by
    rw [K.get_bytes, ByteFifo.len, List.take_length]
  have hclear : memsetPointer memory =
      some (List.replicate pointerSize 0 ++ memory.drop pointerSize) := if_pos hpointer
  have hstore : storeBytes (List.replicate pointerSize 0 ++ memory.drop pointerSize)
      (K.bytes dev.fifo) = some (K.bytes dev.fifo ++ behind memory (K.len dev.fifo)) := by
    refine if_pos ?_
    rw [List.length_append, List.length_replicate, List.length_drop]
    unfold ByteFifo.len at hlen
    omega
  rw [lidbgFifoGet, if_pos hinit, hmemory]
  dsimp only
  rw [hclear, hout, Option.bind_eq_bind, Option.bind_some, hstore, Option.bind_eq_bind,
    Option.bind_some]
  cases fifoToFile file _ io <;> rfl

/-- A file that opens gets the bytes and nothing else. -/
theorem dumpExact_opens_iff {dev : LidbgFifoDevice K} {file memory : List UInt8} {io : DumpIo}
    (hinit : dev.isInited = true) (hmemory : io.memory = some memory) (hopens : io.opens = true)
    (hgives : KmallocGives (K.len dev.fifo) io) (hnul : 0 ∉ K.bytes dev.fifo) :
    DumpExact K dev file io ↔ WritesLen memory (K.len dev.fifo) io.written := by
  have hempty : K.bytes (K.get dev.fifo (K.len dev.fifo)).1 = [] := K.bytes_reset dev.fifo
  have hget : lidbgFifoGet K dev file io = _ := lidbgFifoGet_memory hinit hmemory hgives
  rw [fifoToFile, if_pos hopens, loadStr_append hnul] at hget
  unfold WritesLen
  by_cases hbehind : 0 ∈ behind memory (K.len dev.fifo)
  · have hload : loadStr (behind memory (K.len dev.fifo)) = some _ := if_pos hbehind
    have hhead := loadStr_eq_nil_iff (behind memory (K.len dev.fifo))
    rw [hload, Option.some.injEq] at hhead
    have hget : lidbgFifoGet K dev file io =
        some ({ dev with fifo := (K.get dev.fifo (K.len dev.fifo)).1 },
          file ++ (K.bytes dev.fifo ++ cstr (behind memory (K.len dev.fifo))).take io.written,
          1) := by
      rw [hget, hload]
      rfl
    rw [← hhead, and_iff_right hbehind, ByteFifo.len, ← take_append_eq_left_iff]
    constructor
    · rintro ⟨dev', file', ret, hsome, hone, -⟩
      rw [hget] at hsome
      cases hsome
      obtain ⟨removed, hbytes, hfile⟩ := hone rfl
      rw [hempty, List.append_nil] at hbytes
      rw [List.append_right_inj, ← hbytes] at hfile
      exact hfile
    · intro htake
      refine ⟨_, _, _, hget, fun _ => ⟨K.bytes dev.fifo, ?_, congrArg (file ++ ·) htake⟩,
        fun h => absurd h (by decide)⟩
      show _ = _ ++ K.bytes (K.get dev.fifo (K.len dev.fifo)).1
      rw [hempty, List.append_nil]
  · rw [loadStr, if_neg hbehind] at hget
    refine iff_of_false ?_ fun h => hbehind h.1
    rintro ⟨dev', file', ret, hsome, -⟩
    rw [hget] at hsome
    cases hsome

/-- Bytes that are taken out for a file that does not open are lost. -/
theorem not_dumpExact_of_not_opens {dev : LidbgFifoDevice K} {file memory : List UInt8}
    {io : DumpIo} (hinit : dev.isInited = true) (hmemory : io.memory = some memory)
    (hopens : io.opens = false) (hgives : KmallocGives (K.len dev.fifo) io)
    (hne : K.bytes dev.fifo ≠ []) : ¬ DumpExact K dev file io := by
  rintro ⟨dev', file', ret, hsome, -, hfailed⟩
  rw [lidbgFifoGet_memory hinit hmemory hgives, fifoToFile, hopens,
    if_neg Bool.false_ne_true] at hsome
  cases hsome
  exact hne ((hfailed rfl).symm.trans (K.bytes_reset dev.fifo))

/-- **A dump is exact** exactly if nothing is taken out, or the file opens and
gets the bytes and nothing else. -/
theorem dumpExact_iff {dev : LidbgFifoDevice K} {file : List UInt8} {io : DumpIo}
    (hgives : KmallocGives (K.len dev.fifo) io) (hne : K.bytes dev.fifo ≠ [])
    (hnul : 0 ∉ K.bytes dev.fifo) :
    DumpExact K dev file io ↔ dev.isInited = false ∨ io.memory = none ∨
      io.opens = true ∧ ∃ memory, io.memory = some memory ∧
        WritesLen memory (K.len dev.fifo) io.written := by
  cases hinit : dev.isInited with
  | false =>
    refine iff_of_true ⟨dev, file, 1, ?_, fun _ => ⟨[], rfl, (List.append_nil file).symm⟩,
      fun _ => rfl⟩ (.inl rfl)
    rw [lidbgFifoGet, hinit, if_neg Bool.false_ne_true]
  | true =>
    rw [or_iff_right (fun h => nomatch h)]
    cases hmemory : io.memory with
    | none =>
      refine iff_of_true ⟨dev, file, -1, ?_, fun h => absurd h (by decide), fun _ => rfl⟩
        (.inl rfl)
      rw [lidbgFifoGet, if_pos hinit, hmemory]
    | some memory =>
      rw [or_iff_right (Option.some_ne_none memory)]
      cases hopens : io.opens with
      | true => simp [dumpExact_opens_iff hinit hmemory hopens hgives hnul]
      | false =>
        exact iff_of_false (not_dumpExact_of_not_opens hinit hmemory hopens hgives hne)
          fun h => Bool.false_ne_true h.1

/-- A device in whose fifo one byte is unread. -/
def oneByteDevice : LidbgFifoDevice ringFifo :=
  ⟨(ringFifo.put (ringFifo.init lidbgFifoSize) (ascii "a")).1, List.replicate buffSize 0, true⟩

theorem bytes_oneByteDevice : ringFifo.bytes oneByteDevice.fifo = ascii "a" := by decide

/-- A dump of it into memory of zeros. -/
def oneByteIo (opens : Bool) : DumpIo := ⟨some (List.replicate 8 0), opens, 1⟩

theorem kmallocGives_oneByteIo (opens : Bool) :
    KmallocGives (ringFifo.len oneByteDevice.fifo) (oneByteIo opens) := by
  rintro memory hmemory
  cases hmemory
  rw [ByteFifo.len, bytes_oneByteDevice]
  decide

theorem dumpExact_oneByteDevice :
    DumpExact ringFifo oneByteDevice [] (oneByteIo true) ↔
      oneByteDevice.isInited = false ∨ (oneByteIo true).memory = none ∨
        (oneByteIo true).opens = true ∧ ∃ memory, (oneByteIo true).memory = some memory ∧
          WritesLen memory (ringFifo.len oneByteDevice.fifo) (oneByteIo true).written :=
  dumpExact_iff (kmallocGives_oneByteIo true) (by rw [bytes_oneByteDevice]; decide)
    (by rw [bytes_oneByteDevice]; decide)

/-- A byte is lost when the file does not open. -/
theorem not_dumpExact :
    ¬ ∀ (dev : LidbgFifoDevice ringFifo) (file : List UInt8) (io : DumpIo),
      KmallocGives (ringFifo.len dev.fifo) io → ringFifo.bytes dev.fifo ≠ [] →
      0 ∉ ringFifo.bytes dev.fifo → DumpExact ringFifo dev file io := by
  intro hall
  have hgives := kmallocGives_oneByteIo false
  have hne : ringFifo.bytes oneByteDevice.fifo ≠ [] := by
    rw [bytes_oneByteDevice]
    decide
  refine not_dumpExact_of_not_opens rfl rfl rfl hgives hne (hall _ [] _ hgives hne ?_)
  rw [bytes_oneByteDevice]
  decide

end Lidbg.MemLog
