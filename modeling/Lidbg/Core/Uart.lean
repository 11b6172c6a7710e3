import Lidbg.Machine.CStr
import Lidbg.Machine.Serial8N1

/-!
# The serial line (`core/lidbg_uart.c`)

`soc_io_uart_send` sends a string and CR LF over a pin, bit after bit with a delay between
them; every byte ends with a stop bit of twice the delay, a product of 32 bits.

`socIoUartSend_decodes_iff`: a receiver that looks at the pin in the middle of every bit
makes of it what was given, exactly if the doubled delay has not become shorter than half
a bit.
-/

namespace Lidbg.Core.Uart

open Machine

/-! ## The code -/

/-- `delay` and `io_uart_en`. -/
structure IoUart where
  delay : UInt32
  ioUartEn : Int

/-- `soc_io_uart_cfg`; `TX_CFG` makes the pin an output. -/
def IoUart.socIoUartCfg (s : IoUart) (baud : UInt32) : IoUart × List LineAct :=
  ({ s with delay := baud }, [.level true])

/-- `Delay`. -/
def delayAct (uDelay : UInt32) : LineAct := .wait uDelay.toNat

/-- The loop of `soc_io_uart_send_byte`, with `i` bits to go. -/
def sendBits (delay : UInt32) : Nat → UInt8 → List LineAct
  | 0, _ => []
  | i + 1, input =>
    .level (input &&& 0x01 ≠ 0) :: delayAct delay :: sendBits delay i (input >>> 1)

/-- `soc_io_uart_send_byte`. -/
def IoUart.socIoUartSendByte (s : IoUart) (input : UInt8) : List LineAct :=
  [.level false, delayAct s.delay] ++ sendBits s.delay 8 input ++
    [.level true, delayAct (s.delay * 2)]

/-- `soc_io_uart_send`. -/
def IoUart.socIoUartSend (s : IoUart) (baud : UInt32) (printChar : CStr) : IoUart × List LineAct :=
  if s.ioUartEn ≠ 0 then
    let len : UInt8 := UInt8.ofNat printChar.chars.length
    let (s, acts) := s.socIoUartCfg baud
    (s, acts ++
      ((List.range len.toNat).flatMap fun i => s.socIoUartSendByte (printChar.chars.getD i 0)) ++
      s.socIoUartSendByte 13 ++ s.socIoUartSendByte 10)
  else (s, [])

/-! ## What is sent -/

theorem testBit_zero_eq (input : UInt8) :
    decide (input &&& 0x01 ≠ 0) = input.toNat.testBit 0 := by
  rw [Nat.testBit_zero, decide_eq_decide, ne_eq, ← UInt8.toNat_inj, UInt8.toNat_and]
  show ¬ input.toNat &&& 1 = 0 ↔ _
  rw [Nat.and_one_is_mod]
  omega

theorem sendBits_eq (delay : UInt32) (n : Nat) (input : UInt8) : sendBits delay n input =
    ((List.range n).map input.toNat.testBit).flatMap (cell delay.toNat) := by
  induction n generalizing input with
  | zero => rfl
  | succ n ih =>
    have hshift : (input >>> 1).toNat.testBit = input.toNat.testBit ∘ Nat.succ := by
      funext k
      rw [UInt8.toNat_shiftRight]
      show (input.toNat >>> 1).testBit k = _
      rw [Nat.testBit_shiftRight, Nat.add_comm]
      rfl
    rw [sendBits, ih, hshift, List.range_succ_eq_map, List.map_cons, List.flatMap_cons,
      List.map_map, testBit_zero_eq]
    rfl

/-- A byte is sent as a frame. -/
theorem IoUart.socIoUartSendByte_eq (s : IoUart) (input : UInt8) :
    s.socIoUartSendByte input = frame s.delay.toNat (s.delay * 2).toNat input := by
  rw [socIoUartSendByte, sendBits_eq]
  rfl

theorem flatMap_range_getD {α β : Type} (l : List α) (a : α) (f : α → List β) :
    ((List.range l.length).flatMap fun i => f (l.getD i a)) = l.flatMap f := by
  have hmap : (List.range l.length).map (fun i => l.getD i a) = l := by
    refine List.ext_getElem (by rw [List.length_map, List.length_range]) fun i hi hi' => ?_
    rw [List.getElem_map, List.getElem_range, List.getD_eq_getElem _ _ hi']
  rw [← List.flatMap_map, hmap]

theorem exists_two {α : Type} (l : List α) (a b : α) :
    ∃ first second rest, l ++ [a, b] = first :: second :: rest := by
  match l with
  | [] => exact ⟨a, b, [], rfl⟩
  | [c] => exact ⟨c, a, [b], rfl⟩
  | c :: d :: rest => exact ⟨c, d, rest ++ [a, b], rfl⟩

/-- A string of up to 255 bytes is sent as frames, CR and LF behind it. -/
theorem IoUart.socIoUartSend_eq {s : IoUart} (hen : s.ioUartEn ≠ 0) (baud : UInt32) {text : CStr}
    (hlength : text.chars.length ≤ 255) :
    (s.socIoUartSend baud text).2 = (s.socIoUartCfg baud).2 ++
      (text.chars ++ [13, 10]).flatMap (frame baud.toNat (baud * 2).toNat) := by
  have hlen : (UInt8.ofNat text.chars.length).toNat = text.chars.length :=
    UInt8.toNat_ofNat_of_lt (Nat.lt_succ_of_le hlength)
  rw [socIoUartSend, if_pos hen]
  simp only [socIoUartSendByte_eq, hlen, List.append_assoc]
  rw [flatMap_range_getD, List.flatMap_append]
  rfl

/-- The doubled delay is more than half of it exactly for these delays. -/
theorem stop_gt_iff {baud : UInt32} (hbaud : 1 ≤ baud) :
    baud.toNat < 2 * (baud * 2).toNat ↔ baud < 0x80000000 ∨ 2863311531 ≤ baud := by
  have hlt := baud.toNat_lt
  have hpos : 1 ≤ baud.toNat := UInt32.le_iff_toNat_le.mp hbaud
  rw [UInt32.lt_iff_toNat_lt, UInt32.le_iff_toNat_le, UInt32.toNat_mul]
  show _ < 2 * (baud.toNat * 2 % 2 ^ 32) ↔ baud.toNat < 2147483648 ∨ 2863311531 ≤ baud.toNat
  omega

/-- **What is sent is received**: the line is high before the first start bit and after
all, and a receiver makes of it the string, CR and LF and nothing else, exactly if the
delay is below 2^31 or at least 2863311531. -/
theorem socIoUartSend_decodes_iff (s : IoUart) (hen : s.ioUartEn ≠ 0) (baud : UInt32)
    (hbaud : 1 ≤ baud) (text : CStr) (hlength : text.chars.length ≤ 255) :
    ∃ sent, (s.socIoUartSend baud text).2 = (s.socIoUartCfg baud).2 ++ sent ∧
      (∀ before, lastLevel (s.socIoUartCfg baud).2 before = true) ∧
      (∀ before, lastLevel (s.socIoUartSend baud text).2 before = true) ∧
      ((∀ received, Decodes (wave sent true) baud.toNat 0 received ↔
          received = text.chars ++ [13, 10]) ↔
        baud < 0x80000000 ∨ 2863311531 ≤ baud) := by
  have heq := s.socIoUartSend_eq hen baud hlength
  have hpos : 1 ≤ baud.toNat := UInt32.le_iff_toNat_le.mp hbaud
  refine ⟨_, heq, fun _ => rfl, fun before => ?_, ?_⟩
  · rw [heq, lastLevel_append]
    exact lastLevel_frames _ _ _
  · obtain ⟨first, second, rest, hbytes⟩ := exists_two text.chars 13 10
    rw [decodes_only_iff, ← stop_gt_iff hbaud, hbytes]
    exact decodes_frames_iff hpos first second rest

/-- The serial line switched on. -/
def ioUart : IoUart := ⟨0, 1⟩

theorem socIoUartSend_decodes_hi :
    (1 : Int) ≠ 0 ∧ (1 : UInt32) ≤ 104 ∧ [0x68, 0x69].length ≤ 255 ∧
    ∃ sent, (ioUart.socIoUartSend 104 ⟨[0x68, 0x69], by decide⟩).2 =
        (ioUart.socIoUartCfg 104).2 ++ sent ∧
      (∀ before, lastLevel (ioUart.socIoUartCfg 104).2 before = true) ∧
      (∀ before, lastLevel (ioUart.socIoUartSend 104 ⟨[0x68, 0x69], by decide⟩).2 before = true) ∧
      ((∀ received, Decodes (wave sent true) (104 : UInt32).toNat 0 received ↔
          received = [0x68, 0x69] ++ [13, 10]) ↔
        (104 : UInt32) < 0x80000000 ∨ 2863311531 ≤ (104 : UInt32)) :=
  ⟨by decide, by decide, by decide,
    socIoUartSend_decodes_iff ioUart (by decide) 104 (by decide) ⟨[0x68, 0x69], by decide⟩
      (by decide)⟩

/-- With a delay of 2^31 the stop bits have no length, and a receiver looks for the first
in the start bit that follows. -/
theorem socIoUartSend_stop_lost :
    ¬ ∀ (s : IoUart) (baud : UInt32) (text : CStr), s.ioUartEn ≠ 0 → 1 ≤ baud →
      text.chars.length ≤ 255 → ∀ sent,
      (s.socIoUartSend baud text).2 = (s.socIoUartCfg baud).2 ++ sent →
        ∀ received, Decodes (wave sent true) baud.toNat 0 received ↔
          received = text.chars ++ [13, 10] := by
  intro h
  have hlength : (CStr.mk [] (by decide)).chars.length ≤ 255 := by decide
  have hen : ioUart.ioUartEn ≠ 0 := by decide
  have hreceived := decodes_only_iff.mp <|
    h ioUart 0x80000000 ⟨[], by decide⟩ hen (by decide) hlength _
      (ioUart.socIoUartSend_eq hen 0x80000000 hlength)
  have hstop := (decodes_frames_iff (by decide) 13 10 []).mp hreceived
  exact absurd hstop (by decide)

end Lidbg.Core.Uart
