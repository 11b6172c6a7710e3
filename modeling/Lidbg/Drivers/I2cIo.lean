import Lidbg.Machine.Prog

/-!
# The bit-banged I2C bus (`drivers/videoin/i2c_io.c`)

Without `FLY_VIDEO_BOARD_V3` the video chips are on two GPIO pins that the
driver sets and reads one by one. A transaction is a program of such operations
(`Prog`), between `mutex_lock` and `mutex_unlock` of `io_i2c_lock`; every change
of a pin's direction goes through `i2c_io_config`, which starts with
`mutex_init` of the same lock. `i2c_delay` and `i2c_free` have empty bodies.
-/

namespace Lidbg.I2cIo

open Machine

/-- `GPIO_I2C_SDA` and `GPIO_I2C_SCL`. -/
inductive Pin where
  | sda
  | scl
deriving DecidableEq

/-- What a transaction does: on `io_i2c_lock`, and on the pins by the kernel's
GPIO calls. -/
inductive Op where
  | mutexLock
  | mutexUnlock
  | mutexInit
  | directionInput (pin : Pin)
  | directionOutput (pin : Pin) (value : Bool)
  | setValue (pin : Pin) (value : Bool)
  | getValue (pin : Pin)
deriving DecidableEq

/-- Only `gpio_get_value` replies. -/
abbrev Op.Reply : Op → Type
  | .getValue _ => Bool
  | _ => Unit

abbrev I2c (α : Type) : Type := Prog Op Op.Reply α

def perform (o : Op) : I2c o.Reply := .op o .done

/-- `i2c_ack`. -/
inductive Ack where
  | ack
  | nack
deriving DecidableEq

/-! ## The operations on the bus -/

/-- `i2c_io_config` with `flag` 0, which does not request the pin anew. -/
def i2cIoConfig (pin : Pin) (output : Bool) : I2c Unit := do
  perform .mutexInit
  if output then perform (.directionOutput pin true) else perform (.directionInput pin)

def setI2cPin (pin : Pin) : I2c Unit := perform (.setValue pin true)

def clrI2cPin (pin : Pin) : I2c Unit := perform (.setValue pin false)

def i2cInit : I2c Unit := do
  i2cIoConfig .sda true
  i2cIoConfig .scl true
  setI2cPin .sda
  setI2cPin .scl

def i2cBegin : I2c Unit := clrI2cPin .sda

def i2cStop : I2c Unit := do
  clrI2cPin .scl
  clrI2cPin .sda
  setI2cPin .scl
  setI2cPin .sda

def i2cWriteAsk (flag : Ack) : I2c Unit := do
  if flag = .nack then setI2cPin .sda else clrI2cPin .sda
  setI2cPin .scl
  clrI2cPin .scl
  setI2cPin .sda

def i2cReadAck : I2c Ack := do
  clrI2cPin .scl
  i2cIoConfig .sda false
  setI2cPin .scl
  let value ← perform (.getValue .sda)
  clrI2cPin .scl
  i2cIoConfig .sda true
  pure (if value then .nack else .ack)

/-- The loop of `i2c_read`, with `i` passes to go. -/
def i2cReadLoop : Nat → UInt8 → I2c UInt8
  | 0, data => pure data
  | i + 1, data => do
    setI2cPin .scl
    let value ← perform (.getValue .sda)
    let data := if value then data <<< 1 ||| 1 else data <<< 1
    clrI2cPin .scl
    if i = 0 then i2cIoConfig .sda true
    i2cReadLoop i data

def i2cRead : I2c UInt8 := do
  i2cIoConfig .sda false
  i2cReadLoop 8 0

/-- One pass of the loop of `i2c_write`. -/
def i2cWriteBit (bit : Bool) : I2c Unit := do
  clrI2cPin .scl
  if bit then setI2cPin .sda else clrI2cPin .sda
  setI2cPin .scl

/-- The loop of `i2c_write`, with `i` passes to go. -/
def i2cWriteLoop : Nat → UInt8 → I2c Unit
  | 0, _ => pure ()
  | i + 1, data => do
    i2cWriteBit (data &&& 0x80 ≠ 0)
    i2cWriteLoop i (data <<< 1)

def i2cWrite (data : UInt8) : I2c Unit := i2cWriteLoop 8 data

/-- `i2c_write_chip_addr`, by whether it is to read. -/
def i2cWriteChipAddr (chipAddr : UInt8) (read : Bool) : I2c Unit :=
  i2cWrite (if read then chipAddr <<< 1 ||| 1 else chipAddr <<< 1)

/-! ## The transactions -/

/-- What a transaction returns: its result, and the bytes it stored in `buf`. -/
structure Reply where
  ack : Ack
  buf : List UInt8

/-- Every exit: `i2c_stop`, `mutex_unlock` and the result. -/
def finish (result : Ack) (buf : List UInt8) : I2c Reply := do
  i2cStop
  perform .mutexUnlock
  pure ⟨result, buf⟩

/-- `if (i2c_read_ack() == NACK)` and the exit, else what follows. -/
def checkAck (next : I2c Reply) : I2c Reply := do
  if (← i2cReadAck) = .nack then finish .nack [] else next

/-- `i2c_write` of `buf[i]` and its acknowledge; there is nothing to write behind
the end of `buf`. -/
def writeBuf (buf : List UInt8) (i : Nat) (next : I2c Reply) : I2c Reply :=
  match buf[i]? with
  | none => .stuck
  | some data => do
    i2cWrite data
    checkAck next

/-- `for (; i < size; i++)` of the writing transactions. Its `u8` counter never
gets past 255, so `fuel` bounds the passes. -/
def writeLoop (buf : List UInt8) (size : UInt32) : Nat → UInt8 → I2c Reply
  | 0, _ => .stuck
  | fuel + 1, i =>
    if i.toNat < size.toNat then writeBuf buf i.toNat (writeLoop buf size fuel (i + 1))
    else finish .ack []

/-- `for (; i < size; i++)` of the reading transactions, with the bytes read. -/
def readLoop (size : UInt32) : Nat → UInt8 → List UInt8 → I2c Reply
  | 0, _, _ => .stuck
  | fuel + 1, i, buf =>
    if i.toNat < size.toNat then do
      let data ← i2cRead
      i2cWriteAsk (if i.toNat = (size - 1).toNat then .nack else .ack)
      readLoop size fuel (i + 1) (buf ++ [data])
    else finish .ack buf

def i2cReadByte (fuel : Nat) (chipAddr : UInt8) (subAddr size : UInt32) : I2c Reply := do
  perform .mutexLock
  i2cInit
  i2cBegin
  i2cWriteChipAddr chipAddr false
  checkAck do
    i2cWrite subAddr.toUInt8
    checkAck do
      i2cStop
      i2cBegin
      i2cWriteChipAddr chipAddr true
      checkAck (readLoop size fuel 0 [])

def i2cWriteByte (fuel : Nat) (chipAddr : UInt8) (buf : List UInt8) (size : UInt32) :
    I2c Reply := do
  perform .mutexLock
  i2cInit
  i2cBegin
  i2cWriteChipAddr chipAddr false
  checkAck (writeBuf buf 0 (writeLoop buf size fuel 1))

def i2cRead2byte (fuel : Nat) (chipAddr : UInt8) (subAddr size : UInt32) : I2c Reply := do
  perform .mutexLock
  i2cInit
  i2cBegin
  i2cWriteChipAddr chipAddr false
  checkAck do
    i2cWrite (subAddr >>> 8).toUInt8
    checkAck do
      i2cWrite subAddr.toUInt8
      checkAck do
        i2cStop
        i2cBegin
        i2cWriteChipAddr chipAddr true
        checkAck (readLoop size fuel 0 [])

def i2cWrite2byte (fuel : Nat) (chipAddr : UInt8) (buf : List UInt8) (size : UInt32) :
    I2c Reply := do
  perform .mutexLock
  i2cInit
  i2cBegin
  i2cWriteChipAddr chipAddr false
  checkAck (writeBuf buf 0 (writeBuf buf 1 (writeLoop buf size fuel 2)))

/-! ## The bus -/

/-- The lock, what drives the lines, and how many clock pulses SDA has been left
to the slave for. -/
structure Bus where
  locked : Bool
  sdaOutput : Bool
  sda : Bool
  scl : Bool
  clocks : Nat

/-- SDA as an input shows the slave's level, which changes when the clock
falls. -/
def Bus.sdaLevel (slave : Nat → Bool) (b : Bus) : Bool :=
  if b.sdaOutput then b.sda else slave b.clocks

/-- SCL set; a falling clock is the slave's turn. -/
def Bus.setScl (b : Bus) (value : Bool) : Bus :=
  { b with
    scl := value
    clocks := if b.scl && !value && !b.sdaOutput then b.clocks + 1 else b.clocks }

/-- The operations on the bus. `mutex_init` leaves the lock free, whoever holds
it; nobody else drives SCL, and pulled up it is high as an input. -/
def handle (slave : Nat → Bool) : Handler Bus Op Op.Reply := fun b o =>
  match o with
  | .mutexLock => if b.locked then none else some ({ b with locked := true }, ())
  | .mutexUnlock => some ({ b with locked := false }, ())
  | .mutexInit => some ({ b with locked := false }, ())
  | .directionInput .sda => some ({ b with sdaOutput := false }, ())
  | .directionInput .scl => some (b.setScl true, ())
  | .directionOutput .sda value => some ({ b with sdaOutput := true, sda := value }, ())
  | .directionOutput .scl value => some (b.setScl value, ())
  | .setValue .sda value => some ({ b with sda := value }, ())
  | .setValue .scl value => some (b.setScl value, ())
  | .getValue .sda => some (b, b.sdaLevel slave)
  | .getValue .scl => some (b, b.scl)

end Lidbg.I2cIo
