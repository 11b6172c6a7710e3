import Lidbg.Machine.Run

/-!
# The LPC (MCU) link: frames out, frames in (`drivers/lpc/lidbg_lpc.c`)

The head unit talks to its MCU in frames `0xFF 0x55 n+1 payload checksum`.
`lpcCombinDataStream` builds one; `readFromMCUProcessor` is the receiver, a
four-state byte machine whose registers live in `GlobalHardwareInfo` and
survive from call to call.

The receiver takes the length byte from the wire unchecked: it stores into
`buffFromMCU[128]` while `buffFromMCUFrameLength < buffFromMCUFrameLengthMax - 1`
in `u32` arithmetic. A store outside the array is a fault of the model (`none`);
in the C it overwrites the registers that follow the array.
-/

namespace Lidbg.Lpc

open Machine

/-- `DATA_BUFF_LENGTH_FROM_MCU`. -/
abbrev dataBuffLengthFromMCU : Nat := 128

/-- The receiver's part of `struct fly_hardware_info`. (`FlyIICInfo` and
`buffFromMCUBak` are not touched by the functions modelled here.) -/
structure FlyHardwareInfo where
  buffFromMCU : Vector UInt8 dataBuffLengthFromMCU
  buffFromMCUProcessorStatus : UInt8
  buffFromMCUFrameLength : UInt32
  buffFromMCUFrameLengthMax : UInt32
  buffFromMCUCRC : UInt8

/-- `GlobalHardwareInfo` before the first byte: a zero-initialised global. -/
def globalHardwareInfo : FlyHardwareInfo where
  buffFromMCU := Vector.replicate _ 0
  buffFromMCUProcessorStatus := 0
  buffFromMCUFrameLength := 0
  buffFromMCUFrameLengthMax := 0
  buffFromMCUCRC := 0

/-! ## The sender -/

/-- The running checksum of the send and receive loops: `u8` addition. -/
def checksum (start : UInt8) (p : List UInt8) : UInt8 :=
  p.foldl (· + ·) start

/-- What `LPCCombinDataStream` leaves in `buf`: header, `len + 1` cut to a
`BYTE`, payload, checksum over the length byte and the payload. -/
def lpcFrame (p : List UInt8) : List UInt8 :=
  let lenByte := UInt8.ofNat (p.length + 1)
  0xFF :: 0x55 :: lenByte :: (p ++ [checksum lenByte p])

/-- `LPCCombinDataStream`: the I2C messages one call sends. Frames over 16
bytes go through `kmalloc`, whose failure is logged and then dereferenced. -/
def lpcCombinDataStream (lpcWorkEn kmallocOk : Bool) (p : List UInt8) :
    Option (List (List UInt8)) :=
  if !lpcWorkEn then some []
  else if 3 + p.length + 1 > 16 && !kmallocOk then none
  else some [lpcFrame p]

/-- The bytes one call puts on the bus with the driver enabled and memory
available. -/
def wire (p : List UInt8) : List UInt8 :=
  ((lpcCombinDataStream true true p).getD []).flatten

@[simp] theorem wire_eq (p : List UInt8) : wire p = lpcFrame p := by
  simp [wire, lpcCombinDataStream]

theorem length_lpcFrame (p : List UInt8) : (lpcFrame p).length = p.length + 4 := by
  simp [lpcFrame]

theorem checksum_snoc (m : UInt8) (p : List UInt8) (b : UInt8) :
    checksum m (p ++ [b]) = checksum m p + b := by
  simp [checksum]

/-! ## The receiver -/

/-- The arguments of one call `LPCdealReadFromMCUAll(p, length)`. -/
structure DealCall where
  p : Vector UInt8 dataBuffLengthFromMCU
  length : UInt32

/-- The `length` bytes the callee is told to look at. -/
def DealCall.data (c : DealCall) : List UInt8 :=
  c.p.toList.take c.length.toNat

/-- One turn of the loop of `readFromMCUProcessor` on the byte `b = p[i]`. -/
def readByte : Step FlyHardwareInfo UInt8 DealCall := fun hw b =>
  if hw.buffFromMCUProcessorStatus = 0 then
    if b = 0xFF then some ({ hw with buffFromMCUProcessorStatus := 1 }, [])
    else some (hw, [])
  else if hw.buffFromMCUProcessorStatus = 1 then
    if b = 0xFF then some ({ hw with buffFromMCUProcessorStatus := 1 }, [])
    else if b = 0x55 then some ({ hw with buffFromMCUProcessorStatus := 2 }, [])
    else some ({ hw with buffFromMCUProcessorStatus := 0 }, [])
  else if hw.buffFromMCUProcessorStatus = 2 then
    some ({ hw with
      buffFromMCUProcessorStatus := 3
      buffFromMCUFrameLength := 0
      buffFromMCUFrameLengthMax := b.toUInt32
      buffFromMCUCRC := b }, [])
  else if hw.buffFromMCUProcessorStatus = 3 then
    if hw.buffFromMCUFrameLength < hw.buffFromMCUFrameLengthMax - 1 then
      if h : hw.buffFromMCUFrameLength.toNat < dataBuffLengthFromMCU then
        some ({ hw with
          buffFromMCU := hw.buffFromMCU.set hw.buffFromMCUFrameLength.toNat b h
          buffFromMCUCRC := hw.buffFromMCUCRC + b
          buffFromMCUFrameLength := hw.buffFromMCUFrameLength + 1 }, [])
      else none
    else
      some ({ hw with buffFromMCUProcessorStatus := 0 },
        if hw.buffFromMCUCRC = b then
          [⟨hw.buffFromMCU, hw.buffFromMCUFrameLengthMax - 1⟩]
        else [])
  else some ({ hw with buffFromMCUProcessorStatus := 0 }, [])

section Status

variable {hw : FlyHardwareInfo}

theorem readByte_idle (h : hw.buffFromMCUProcessorStatus = 0) (b : UInt8) :
    readByte hw b =
      some ({ hw with buffFromMCUProcessorStatus := if b = 0xFF then 1 else 0 }, []) := by
  rw [readByte, if_pos h]
  by_cases hb : b = 0xFF
  · rw [if_pos hb, if_pos hb]
  · rw [if_neg hb, if_neg hb, ← h]

theorem readByte_sync (h : hw.buffFromMCUProcessorStatus = 1) (b : UInt8) :
    readByte hw b =
      some ({ hw with buffFromMCUProcessorStatus :=
        if b = 0xFF then 1 else if b = 0x55 then 2 else 0 }, []) := by
  rw [readByte, if_neg (by rw [h]; decide), if_pos h]
  split_ifs <;> rfl

theorem readByte_header (h : hw.buffFromMCUProcessorStatus = 2) (b : UInt8) :
    readByte hw b =
      some ({ hw with
        buffFromMCUProcessorStatus := 3
        buffFromMCUFrameLength := 0
        buffFromMCUFrameLengthMax := b.toUInt32
        buffFromMCUCRC := b }, []) := by
  rw [readByte, if_neg (by rw [h]; decide), if_neg (by rw [h]; decide), if_pos h]

theorem readByte_body (h : hw.buffFromMCUProcessorStatus = 3)
    (hlt : hw.buffFromMCUFrameLength < hw.buffFromMCUFrameLengthMax - 1) (b : UInt8) :
    readByte hw b =
      if hi : hw.buffFromMCUFrameLength.toNat < dataBuffLengthFromMCU then
        some ({ hw with
          buffFromMCU := hw.buffFromMCU.set hw.buffFromMCUFrameLength.toNat b hi
          buffFromMCUCRC := hw.buffFromMCUCRC + b
          buffFromMCUFrameLength := hw.buffFromMCUFrameLength + 1 }, [])
      else none := by
  rw [readByte, if_neg (by rw [h]; decide), if_neg (by rw [h]; decide),
    if_neg (by rw [h]; decide), if_pos h, if_pos hlt]

theorem readByte_last (h : hw.buffFromMCUProcessorStatus = 3)
    (hge : ¬ hw.buffFromMCUFrameLength < hw.buffFromMCUFrameLengthMax - 1) (b : UInt8) :
    readByte hw b =
      some ({ hw with buffFromMCUProcessorStatus := 0 },
        if hw.buffFromMCUCRC = b then
          [⟨hw.buffFromMCU, hw.buffFromMCUFrameLengthMax - 1⟩]
        else []) := by
  rw [readByte, if_neg (by rw [h]; decide), if_neg (by rw [h]; decide),
    if_neg (by rw [h]; decide), if_pos h, if_neg hge]

end Status

/-- `readFromMCUProcessor`: the calls it makes and its result, `TRUE` while a
frame is open. -/
def readFromMCUProcessor (hw : FlyHardwareInfo) (p : List UInt8) :
    Option (FlyHardwareInfo × List DealCall × Bool) :=
  match run readByte hw p with
  | none => none
  | some (hw', calls) => some (hw', calls, decide (1 < hw'.buffFromMCUProcessorStatus))

/-- A sequence of calls of `readFromMCUProcessor`. -/
def readCalls : FlyHardwareInfo → List (List UInt8) →
    Option (FlyHardwareInfo × List DealCall)
  | hw, [] => some (hw, [])
  | hw, p :: ps =>
    match readFromMCUProcessor hw p with
    | none => none
    | some (hw', calls, _) =>
      match readCalls hw' ps with
      | none => none
      | some (hw'', calls') => some (hw'', calls ++ calls')

/-- How the stream is cut into calls does not matter. -/
theorem readCalls_eq (hw : FlyHardwareInfo) (ps : List (List UInt8)) :
    readCalls hw ps = run readByte hw ps.flatten := by
  rw [← runChunks_eq]
  induction ps generalizing hw with
  | nil => rfl
  | cons p ps ih =>
    rw [readCalls, readFromMCUProcessor, runChunks]
    cases run readByte hw p with
    | none => rfl
    | some r =>
      dsimp only
      rw [ih]
      cases runChunks readByte r.1 ps <;> rfl

end Lidbg.Lpc
