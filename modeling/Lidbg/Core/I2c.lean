import Mathlib.Algebra.Group.Nat.Defs
import Mathlib.Data.List.Basic
import Mathlib.Tactic.SplitIfs

/-!
# I2C transfers (`core/lidbg_i2c.c`)

Every adapter has an entry with a client. A transfer sets `lidbg_i2c_running`,
finds the entry of its bus, and does what its mode says; the flag is exported
for interrupt handlers. `i2cApiDoXfer_spec` is the function by its three ways
out, of which only the last clears the flag. `i2c_api_set_rate` takes the
adapter's data from a pointer that is still `NULL`.
-/

namespace Lidbg.I2c

/-- An adapter's number, and its client: the address, and `udelay` where the
adapter has `algo_data`. -/
structure I2cApi where
  nr : Int32
  addr : UInt16
  udelay : Option Int32
deriving DecidableEq

/-- `lidbg_i2c_running` and `i2c_api_list`. -/
structure I2cState where
  running : Int32
  apis : List I2cApi
deriving DecidableEq

/-- `struct i2c_msg`: its flags are `I2C_M_RD` or none. -/
structure I2cMsg where
  addr : UInt16
  rd : Bool
  len : UInt16
  buf : List UInt8
deriving DecidableEq

/-- `i2c_transfer`, with what the caller's buffer holds afterwards, and
`i2c_master_send`. -/
structure I2cCore where
  transfer : List I2cMsg → Int32 × List UInt8
  masterSend : UInt16 → List UInt8 → UInt32 → Int32

def enodev : Int32 := 19

def einval : Int32 := 22

/-- `SAF7741_I2C_ADDR_FOR_TEF7000`. -/
def saf7741I2cAddrForTef7000 : UInt16 := 0x38

/-- `I2C_API_XFER_MODE_*`. -/
inductive XferMode where
  | send
  | recv
  | sendNoSubaddr
  | recvNoSubaddr
  | recvSaf7741
  | sendTef7000
  | recvTef7000
  | recvSubaddr2bytes
  | recvSubaddr3bytes
deriving DecidableEq

/-- The labels of the `switch`. -/
def XferMode.ofInt? (mode : Int32) : Option XferMode :=
  match mode.toInt with
  | 0 => some .send
  | 1 => some .recv
  | 2 => some .sendNoSubaddr
  | 3 => some .recvNoSubaddr
  | 4 => some .recvSaf7741
  | 5 => some .sendTef7000
  | 6 => some .recvTef7000
  | 7 => some .recvSubaddr2bytes
  | 8 => some .recvSubaddr3bytes
  | _ => none

/-- `get_i2c_api`: where the first entry of the bus is. -/
def getI2cApi (apis : List I2cApi) (busId : Int32) : Option Nat :=
  apis.findIdx? fun api => api.nr = busId

/-- The low bytes of a sub-address, highest first. -/
def subAddrBytes (subAddr : UInt32) : List UInt8 :=
  [(subAddr >>> 16).toUInt8, (subAddr >>> 8).toUInt8, subAddr.toUInt8]

/-- The cases of the `switch`. -/
def xfer (core : I2cCore) (addr : UInt16) (subAddr : UInt32) (buf : List UInt8) (size : UInt32) :
    XferMode → Int32 × List UInt8 :=
  let sent : I2cMsg := ⟨addr, false, size.toUInt16, buf⟩
  let received : I2cMsg := ⟨addr, true, size.toUInt16, buf⟩
  let select : I2cMsg := ⟨saf7741I2cAddrForTef7000 >>> 1, false, 3, [0x00, 0xff, 0xff]⟩
  fun
  | .send => core.transfer [sent]
  | .recv => core.transfer [⟨addr, false, 1, [subAddr.toUInt8]⟩, received]
  | .sendNoSubaddr => (core.masterSend addr buf size, buf)
  | .recvSubaddr2bytes =>
    core.transfer [⟨addr, false, 2, (subAddrBytes subAddr).drop 1⟩, received]
  | .recvNoSubaddr => core.transfer [received]
  | .recvSaf7741 => core.transfer [⟨addr, false, 3, subAddrBytes subAddr⟩, received]
  | .recvSubaddr3bytes => core.transfer [⟨addr, false, 3, subAddrBytes subAddr⟩, received]
  | .sendTef7000 => core.transfer [select, sent]
  | .recvTef7000 => core.transfer [select, received]

/-- `i2c_api_do_xfer`: what it returns, and the caller's buffer; `none` follows
a null entry. A plain `char` is unsigned here. -/
def i2cApiDoXfer (core : I2cCore) (busId : Int32) (chipAddr : UInt8) (subAddr : UInt32)
    (mode : Int32) (buf : List UInt8) (size : UInt32) (s : I2cState) :
    Option (Int32 × List UInt8 × I2cState) :=
  let s := { s with running := 1 }
  let i2cApi := getI2cApi s.apis busId
  -- both returns in front of the `switch`'s end leave the flag set
  if i2cApi.isNone then some (-enodev, buf, s)
  else do
    let entry ← i2cApi
    let s := { s with
      apis := s.apis.modify entry fun api => { api with addr := chipAddr.toUInt16 } }
    let api ← s.apis[entry]?
    match XferMode.ofInt? mode with
    | none => some (-einval, buf, s)
    | some mode =>
      let (ret, buf) := xfer core api.addr subAddr buf size mode
      some (ret, buf, { s with running := 0 })

/-- `i2c_api_set_rate`. -/
def i2cApiSetRate (busId rate : Int32) (s : I2cState) : Option (Int32 × I2cState) := do
  -- `adap1` is taken from the pointer before it is looked up
  let i2cApi : Option Nat := none
  let entry ← i2cApi
  let adap1 ← s.apis[entry]?
  let s := { s with running := 1 }
  let i2cApi := getI2cApi s.apis busId
  if i2cApi.isNone then some (-enodev, s)
  else if adap1.udelay.isSome then
    some (0, { s with apis := s.apis.modify entry fun api => { api with udelay := some rate } })
  else some (0, { s with running := 0 })

/-! ## The transfers other drivers can ask for -/

section Exported

variable (core : I2cCore) (busId : Int32) (chipAddr : UInt8) (subAddr : UInt32)
  (buf : List UInt8) (size : UInt32)

def i2cApiDoSend := i2cApiDoXfer core busId chipAddr subAddr 0 buf size

def i2cApiDoRecv := i2cApiDoXfer core busId chipAddr subAddr 1 buf size

def i2cApiDoRecvNoSubAddr := i2cApiDoXfer core busId chipAddr subAddr 3 buf size

def i2cApiDoRecvSubAddr2bytes := i2cApiDoXfer core busId chipAddr subAddr 7 buf size

def i2cApiDoRecvSubAddr3bytes := i2cApiDoXfer core busId chipAddr subAddr 8 buf size

def i2cApiDoRecvSaf7741 := i2cApiDoXfer core busId chipAddr subAddr 4 buf size

def i2cApiDoSendTef7000 := i2cApiDoXfer core busId chipAddr subAddr 5 buf size

def i2cApiDoRecvTef7000 := i2cApiDoXfer core busId chipAddr subAddr 6 buf size

end Exported

/-! ## Which ways out clear the flag -/

theorem ofInt?_isSome_iff (mode : Int32) :
    (XferMode.ofInt? mode).isSome ↔ 0 ≤ mode ∧ mode ≤ 8 := by
  rw [Int32.le_iff_toInt_le, Int32.le_iff_toInt_le]
  show _ ↔ 0 ≤ mode.toInt ∧ mode.toInt ≤ 8
  unfold XferMode.ofInt?
  generalize mode.toInt = n
  constructor
  · intro h
    split at h
    case h_10 => cases h
    all_goals decide
  · rintro ⟨hlo, hhi⟩
    obtain rfl | rfl | rfl | rfl | rfl | rfl | rfl | rfl | rfl : n = 0 ∨ n = 1 ∨ n = 2 ∨ n = 3 ∨
        n = 4 ∨ n = 5 ∨ n = 6 ∨ n = 7 ∨ n = 8 := by omega
    all_goals rfl

/-- A bus has an entry. -/
def Registered (s : I2cState) (busId : Int32) : Prop :=
  ∃ api ∈ s.apis, api.nr = busId

theorem getI2cApi_of_registered {s : I2cState} {busId : Int32} (h : Registered s busId) :
    ∃ entry api, getI2cApi s.apis busId = some entry ∧ s.apis[entry]? = some api := by
  obtain ⟨api, hmem, hnr⟩ := h
  cases hfind : getI2cApi s.apis busId with
  | none =>
    have hnone := List.findIdx?_eq_none_iff.mp hfind api hmem
    simp [hnr] at hnone
  | some entry =>
    obtain ⟨hlt, -⟩ := List.findIdx?_eq_some_iff_getElem.mp hfind
    exact ⟨entry, s.apis[entry], rfl, List.getElem?_eq_getElem hlt⟩

theorem getI2cApi_of_not_registered {s : I2cState} {busId : Int32} (h : ¬ Registered s busId) :
    getI2cApi s.apis busId = none := by
  refine List.findIdx?_eq_none_iff.mpr fun api hmem => ?_
  simp only [decide_eq_false_iff_not]
  exact fun hnr => h ⟨api, hmem, hnr⟩

/-- **The ways out of a transfer**: no entry, no such mode, or the transfer. -/
theorem i2cApiDoXfer_spec (core : I2cCore) (busId : Int32) (chipAddr : UInt8)
    (subAddr : UInt32) (mode : Int32) (buf : List UInt8) (size : UInt32) (s : I2cState) :
    ∃ ret buf' s', i2cApiDoXfer core busId chipAddr subAddr mode buf size s =
        some (ret, buf', s') ∧
      (¬ Registered s busId ∧ ret = -enodev ∧ s'.running = 1 ∨
        Registered s busId ∧ XferMode.ofInt? mode = none ∧ ret = -einval ∧ s'.running = 1 ∨
        Registered s busId ∧ ∃ m, XferMode.ofInt? mode = some m ∧
          (ret, buf') = xfer core chipAddr.toUInt16 subAddr buf size m ∧ s'.running = 0) := by
  by_cases hreg : Registered s busId
  · obtain ⟨entry, api, hfind, hget⟩ := getI2cApi_of_registered hreg
    simp only [i2cApiDoXfer, hfind, Option.isNone_some, Bool.false_eq_true, if_false,
      Option.bind_eq_bind, Option.bind_some, List.getElem?_modify_eq, hget]
    cases hmode : XferMode.ofInt? mode with
    | none => exact ⟨_, _, _, rfl, .inr (.inl ⟨hreg, rfl, rfl, rfl⟩)⟩
    | some m => exact ⟨_, _, _, rfl, .inr (.inr ⟨hreg, m, rfl, rfl, rfl⟩)⟩
  · have hfind := getI2cApi_of_not_registered hreg
    simp only [i2cApiDoXfer, hfind, Option.isNone_none, if_true]
    exact ⟨_, _, _, rfl, .inl ⟨hreg, rfl, rfl⟩⟩

inductive I2cCall where
  | xfer (busId : Int32) (chipAddr : UInt8) (subAddr : UInt32) (mode : Int32)
    (buf : List UInt8) (size : UInt32)
  | setRate (busId rate : Int32)

/-- What a call returns, and the state it leaves. -/
def I2cCall.exec (core : I2cCore) (s : I2cState) : I2cCall → Option (Int32 × I2cState)
  | .xfer busId chipAddr subAddr mode buf size =>
    (i2cApiDoXfer core busId chipAddr subAddr mode buf size s).map fun (ret, _, s') => (ret, s')
  | .setRate busId rate => i2cApiSetRate busId rate s

/-- A call returns, without a null entry on its way, and the gate is open. -/
def Releases (core : I2cCore) (s : I2cState) (c : I2cCall) : Prop :=
  ∃ ret s', c.exec core s = some (ret, s') ∧ s'.running = 0

/-- A transfer in a known mode on a registered bus. -/
def Served (s : I2cState) : I2cCall → Prop
  | .xfer busId _ _ mode _ _ => Registered s busId ∧ 0 ≤ mode ∧ mode ≤ 8
  | .setRate _ _ => False

theorem releases_xfer_iff (core : I2cCore) (s : I2cState) (busId : Int32) (chipAddr : UInt8)
    (subAddr : UInt32) (mode : Int32) (buf : List UInt8) (size : UInt32) :
    Releases core s (.xfer busId chipAddr subAddr mode buf size) ↔
      Registered s busId ∧ (XferMode.ofInt? mode).isSome := by
  obtain ⟨ret, buf', s', hexec, hout⟩ :=
    i2cApiDoXfer_spec core busId chipAddr subAddr mode buf size s
  have hrun : Releases core s (.xfer busId chipAddr subAddr mode buf size) ↔
      s'.running = 0 := by
    simp [Releases, I2cCall.exec, hexec]
  rw [hrun]
  rcases hout with ⟨hreg, -, hflag⟩ | ⟨hreg, hmode, -, hflag⟩ | ⟨hreg, m, hmode, -, hflag⟩
  · rw [hflag]
    exact iff_of_false (by decide) fun h => hreg h.1
  · rw [hflag, hmode]
    exact iff_of_false (by decide) fun h => Bool.false_ne_true h.2
  · rw [hflag, hmode]
    exact iff_of_true rfl ⟨hreg, rfl⟩

/-- **The gate is released** exactly by the transfers that are served. -/
theorem releases_iff (core : I2cCore) (s : I2cState) (c : I2cCall) :
    Releases core s c ↔ Served s c := by
  cases c with
  | xfer busId chipAddr subAddr mode buf size =>
    rw [releases_xfer_iff, ofInt?_isSome_iff]
    rfl
  | setRate busId rate =>
    refine iff_of_false ?_ id
    rintro ⟨ret, s', hexec, -⟩
    cases hexec

/-- A transfer on bus 1 when there is only bus 0, one in mode 9, and a rate for
bus 0. -/
theorem gate_stays_closed :
    ¬ Releases ⟨fun _ => (1, []), fun _ _ _ => 1⟩ ⟨0, [⟨0, 0x7f, none⟩]⟩
      (.xfer 1 0x50 0 0 [0] 1) ∧
    ¬ Releases ⟨fun _ => (1, []), fun _ _ _ => 1⟩ ⟨0, [⟨0, 0x7f, none⟩]⟩
      (.xfer 0 0x50 0 9 [0] 1) ∧
    ¬ Releases ⟨fun _ => (1, []), fun _ _ _ => 1⟩ ⟨0, [⟨0, 0x7f, none⟩]⟩
      (.setRate 0 400) := by
  refine ⟨?_, ?_, ?_⟩
  · rintro ⟨ret, s', hexec, hflag⟩
    cases hexec
    cases hflag
  · rintro ⟨ret, s', hexec, hflag⟩
    cases hexec
    cases hflag
  · rintro ⟨ret, s', hexec, -⟩
    cases hexec

/-- What other drivers can ask for is in a known mode: only the bus matters. -/
theorem exported_releases_iff (core : I2cCore) (busId : Int32) (chipAddr : UInt8)
    (subAddr : UInt32) (buf : List UInt8) (size : UInt32) (s : I2cState) :
    ∀ f ∈ [i2cApiDoSend, i2cApiDoRecv, i2cApiDoRecvNoSubAddr, i2cApiDoRecvSubAddr2bytes,
        i2cApiDoRecvSubAddr3bytes, i2cApiDoRecvSaf7741, i2cApiDoSendTef7000,
        i2cApiDoRecvTef7000],
      (∃ ret buf' s', f core busId chipAddr subAddr buf size s = some (ret, buf', s') ∧
        s'.running = 0) ↔ Registered s busId := by
  have hmode : ∀ mode : Int32, (XferMode.ofInt? mode).isSome →
      ((∃ ret buf' s', i2cApiDoXfer core busId chipAddr subAddr mode buf size s =
        some (ret, buf', s') ∧ s'.running = 0) ↔ Registered s busId) := by
    intro mode hsome
    have hiff := releases_xfer_iff core s busId chipAddr subAddr mode buf size
    rw [and_iff_left hsome] at hiff
    rw [← hiff]
    simp only [Releases, I2cCall.exec, Option.map_eq_some_iff]
    constructor
    · rintro ⟨ret, buf', s', hexec, hflag⟩
      exact ⟨ret, s', ⟨(ret, buf', s'), hexec, rfl⟩, hflag⟩
    · rintro ⟨ret, s', ⟨⟨ret', buf', s''⟩, hexec, heq⟩, hflag⟩
      cases heq
      exact ⟨_, _, _, hexec, hflag⟩
  simp only [List.forall_mem_cons, List.not_mem_nil, false_implies, implies_true, and_true]
  exact ⟨hmode 0 rfl, hmode 1 rfl, hmode 3 rfl, hmode 7 rfl, hmode 8 rfl, hmode 4 rfl,
    hmode 5 rfl, hmode 6 rfl⟩

end Lidbg.I2c
