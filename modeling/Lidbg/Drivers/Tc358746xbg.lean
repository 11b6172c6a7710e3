import Lidbg.Drivers.I2cIo
import Lidbg.Machine.Triple
import Mathlib.Algebra.Group.Nat.Defs
import Mathlib.Tactic.IntervalCases

/-!
# The TC358746XBG (`drivers/videoin/TC358746XBG.c`)

The chip behind the video decoder is set up from tables, and can show a picture of its own, the
colour bars, when there is no signal. As in `Lidbg.Drivers.Tw9912`, functions of the driver are
programs of operations, and what the chip answers is left open.

`tc358746xbg_config_array` returns 0 when all went well, which is also `NACK`.

- `colourBars_iff`: the colour bars of a colour are shown exactly if no transfer was refused.
  Those of `COLORBAR` are shown exactly if one was.
- `configBegin_told`: what a chip that acknowledges has been told since its reset.
-/

namespace Lidbg.Tc358746xbg

open Machine

/-- `i2c_ack`. -/
abbrev Ack : Type := I2cIo.Ack

/-- What a program does: the reset pin, and the transfers to the chip. -/
inductive Op where
  | resx (up : Bool)
  | msleep (ms : Nat)
  | i2cRead2byte (subAddr : UInt16) (size : Nat)
  | i2cWrite2byte (buf : List UInt8)

/-- A read replies with what is in the buffer afterwards, also when the chip does not answer. -/
abbrev Op.Reply : Op → Type
  | .i2cRead2byte _ _ => Ack × (Nat → UInt8)
  | .i2cWrite2byte _ => Ack
  | _ => Unit

/-- `struct tc358746xbg_register_t`. -/
structure Register where
  addReg : UInt16
  addVal : UInt32
  registetWidth : UInt8

/-- The values of `tc358746xbg_show_colorbar_config_user_tab`, which the command
`ShowColordebug` sets. -/
structure Globals where
  userVal₀ : UInt32
  userVal₁ : UInt32

abbrev Tc (α : Type) : Type := StateT Globals (Prog Op Op.Reply) α

def perform (o : Op) : Tc o.Reply := invoke o

/-! ## Tables -/

/-- `PALp_init_tab`. -/
def palpInitTab : List Register :=
  [⟨0x0016, 4363, 16⟩, ⟨0x0018, 2579, 16⟩, ⟨0x0006, 176, 16⟩, ⟨0x0008, 96, 16⟩,
   ⟨0x0022, 1469, 16⟩, ⟨0x0100, 0x203, 32⟩, ⟨0x0104, 0x203, 32⟩, ⟨0x0108, 0x203, 32⟩,
   ⟨0x0140, 0, 32⟩, ⟨0x0144, 0, 32⟩, ⟨0x0148, 0, 32⟩, ⟨0x014c, 1, 32⟩, ⟨0x0150, 1, 32⟩,
   ⟨0x0210, 5120, 32⟩, ⟨0x0214, 2, 32⟩, ⟨0x0218, 4098, 32⟩, ⟨0x021c, 0, 32⟩, ⟨0x0220, 2, 32⟩,
   ⟨0x0224, 17152, 32⟩, ⟨0x0228, 8, 32⟩, ⟨0x022c, 0, 32⟩, ⟨0x0234, 7, 32⟩, ⟨0x0238, 1, 32⟩,
   ⟨0x0204, 1, 32⟩, ⟨0x0518, 1, 32⟩, ⟨0x0500, 0xa30080a2, 32⟩, ⟨0x0004, 4164, 16⟩,
   ⟨0xffff, 0, 0⟩]

/-- `NTSCp_init_tab`. -/
def ntscpInitTab : List Register :=
  [⟨0x0016, 4395, 16⟩, ⟨0x0018, 2579, 16⟩, ⟨0x0006, 196, 16⟩, ⟨0x0008, 96, 16⟩,
   ⟨0x0022, 1500, 16⟩, ⟨0x0100, 0x200, 32⟩, ⟨0x0104, 0x200, 32⟩, ⟨0x0108, 0x200, 32⟩,
   ⟨0x0140, 0, 32⟩, ⟨0x0144, 0, 32⟩, ⟨0x0148, 0, 32⟩, ⟨0x014c, 1, 32⟩, ⟨0x0150, 1, 32⟩,
   ⟨0x0210, 5760, 32⟩, ⟨0x0214, 2, 32⟩, ⟨0x0218, 4098, 32⟩, ⟨0x021c, 0, 32⟩, ⟨0x0220, 2, 32⟩,
   ⟨0x0224, 20224, 32⟩, ⟨0x0228, 7, 32⟩, ⟨0x022c, 1, 32⟩, ⟨0x0234, 7, 32⟩, ⟨0x0238, 1, 32⟩,
   ⟨0x0204, 1, 32⟩, ⟨0x0518, 1, 32⟩, ⟨0x0500, 0xa30080a2, 32⟩, ⟨0x0004, 4164, 16⟩,
   ⟨0xffff, 0, 0⟩]

/-- `tc358746xbg_show_colorbar_config_tab`. -/
def showColorbarConfigTab : List Register :=
  [⟨0x00e8, 0x7f, 16⟩, ⟨0x00e8, 0x7f, 16⟩, ⟨0x00e8, 0xff, 16⟩, ⟨0x00e8, 0x0, 16⟩,
   ⟨0x00e8, 0x0, 16⟩, ⟨0x00e8, 0xff, 16⟩, ⟨0x00e8, 0x7fff, 16⟩, ⟨0x00e8, 0x7ff0, 16⟩,
   ⟨0x00e8, 0x7f00, 16⟩, ⟨0x00e8, 0x7f00, 16⟩, ⟨0x00e8, 0xc0ff, 16⟩, ⟨0x00e8, 0xc000, 16⟩,
   ⟨0x00e8, 0xff00, 16⟩, ⟨0x00e8, 0xffff, 16⟩, ⟨0x00e8, 0xff7f, 16⟩, ⟨0x00e8, 0xff7f, 16⟩]

/-- `toshiba_initall_list`. -/
def toshibaInitallList : List Register :=
  [⟨0x00e0, 0x0, 16⟩, ⟨0x0016, 0x10ff, 16⟩, ⟨0x0018, 0x0a13, 16⟩, ⟨0x0100, 0x202, 32⟩,
   ⟨0x0104, 0x242, 32⟩, ⟨0x0108, 0x242, 32⟩, ⟨0x010c, 0x242, 32⟩, ⟨0x0110, 0x242, 32⟩,
   ⟨0x0140, 0x0, 32⟩, ⟨0x0150, 0x0, 32⟩, ⟨0x014c, 0x0, 32⟩, ⟨0x0148, 0x0, 32⟩,
   ⟨0x0144, 0x0, 32⟩, ⟨0x0210, 0x1300, 32⟩, ⟨0x0214, 0x2, 32⟩, ⟨0x0218, 0xd01, 32⟩,
   ⟨0x021c, 0x0, 32⟩, ⟨0x0220, 0x2, 32⟩, ⟨0x0228, 0x7, 32⟩, ⟨0x022c, 0x0, 32⟩,
   ⟨0x0234, 0x1f, 32⟩, ⟨0x0238, 0x0, 32⟩, ⟨0x0204, 0x1, 32⟩, ⟨0x0518, 0x1, 32⟩,
   ⟨0x0500, 0xa30080a2, 32⟩, ⟨0x0008, 0x60, 16⟩, ⟨0x0022, 0x5a0, 16⟩, ⟨0x00e0, 0x8200, 16⟩,
   ⟨0x00e2, 0x600, 16⟩, ⟨0x00e4, 0x40, 16⟩, ⟨0xffff, 0, 0⟩]

/-- `Stop_tab`. -/
def stopTab : List Register := [⟨0x0002, 0x2, 16⟩, ⟨0xffff, 0, 0⟩]

/-- The write that turns the colour bars on. -/
def barsRegister : Register := ⟨0x00e0, 0xc1df, 16⟩

/-! ## The driver -/

/-- `tc358746xbg_write`: the low half of a wide register goes first. -/
def tc358746xbgWrite (r : Register) : Tc Ack :=
  let addr := [(r.addReg >>> 8).toUInt8, r.addReg.toUInt8]
  let low := [(r.addVal >>> 8).toUInt8, r.addVal.toUInt8]
  let high := [(r.addVal >>> 24).toUInt8, (r.addVal >>> 16).toUInt8]
  if r.registetWidth = 16 then perform (.i2cWrite2byte (addr ++ low))
  else if r.registetWidth = 32 then perform (.i2cWrite2byte (addr ++ low ++ high))
  else pure .nack

/-- `tc358746xbg_config_array`. -/
def tc358746xbgConfigArray : List Register → Tc Int
  | [] => fun _ => .stuck
  | r :: rest =>
    if r.addReg = 0xffff then pure 0
    else do
      let backRet ← tc358746xbgWrite r
      if backRet = .nack then pure (-1) else tc358746xbgConfigArray rest

/-- The loop of `tc358746xbg_get_id`, with so many tries left. -/
def getIdLoop : Nat → Int → Tc Int
  | 0, ret => pure ret
  | n + 1, _ => do
    let valu ← perform (.i2cRead2byte 0x0000 2)
    if valu.2 0 = 0x44 then pure 1
    else do
      perform (.msleep 50)
      getIdLoop n (-1)

/-- `tc358746xbg_get_id`. -/
def tc358746xbgGetId : Tc Int := getIdLoop 5 0

/-- The loop that writes the colours of the bars. -/
def writeBars (a b : Register) : Nat → Tc Ack
  | 0 => pure .ack
  | j + 1 => do
    let ret ← tc358746xbgWrite a
    if ret = .nack then pure .nack
    else do
      let ret ← tc358746xbgWrite b
      if ret = .nack then pure .nack else writeBars a b j

/-- The same, with the entries `2 * i` and `2 * i + 1` of the table. -/
def writeBarsOf (i j : Nat) : Tc Ack :=
  match showColorbarConfigTab[2 * i]?, showColorbarConfigTab[2 * i + 1]? with
  | some a, some b => writeBars a b j
  | _, _ => fun _ => .stuck

/-- `tc358746xbg_show_colorbar_config`. -/
def tc358746xbgShowColorbarConfig : Tc Unit := do
  let ret ← tc358746xbgConfigArray toshibaInitallList
  -- compared with `NACK`, which is 0: this is the way out when all went well
  if ret = 0 then pure ()
  else do
    let ret ← writeBarsOf 4 180
    if ret = .nack then pure ()
    else do
      let ret ← writeBarsOf 6 180
      if ret = .nack then pure ()
      else do
        let _ ← tc358746xbgWrite barsRegister
        pure ()

/-- The functions for one picture: the list, what they draw, and the bars on. -/
def showConfig (draw : Tc Ack) : Tc Unit := do
  let retBack ← tc358746xbgConfigArray toshibaInitallList
  if retBack = -1 then pure ()
  else do
    let ret ← draw
    if ret = .nack then pure ()
    else do
      let _ ← tc358746xbgWrite barsRegister
      pure ()

/-- `tc358746xbg_show_colorbar_config_blue`. -/
def tc358746xbgShowColorbarConfigBlue (colorFlag : Nat) : Tc Unit :=
  showConfig (writeBarsOf (colorFlag - 1) 360)

/-- `tc358746xbg_show_colorbar_config_grey`. -/
def tc358746xbgShowColorbarConfigGrey : Tc Unit := showConfig (pure .ack)

/-- `tc358746xbg_show_colorbar_config_user`. -/
def tc358746xbgShowColorbarConfigUser : Tc Unit :=
  showConfig do
    let g ← get
    writeBars ⟨0x00e8, g.userVal₀, 16⟩ ⟨0x00e8, g.userVal₁, 16⟩ 360

/-- `tc358746xbg_power_contorl` with `tc358746xbg_hardware_reset`. -/
def tc358746xbgPowerContorl : Tc Unit := do
  perform (.resx false)
  perform (.msleep 20)
  perform (.resx true)
  perform (.msleep 20)

/-- The `switch` of `tc358746xbg_config_begin`. `COLORBAR` is 6, and the colours are added
to it. -/
def configSwitch (flag : Nat) : Tc Unit :=
  match flag with
  | 1 | 3 => do
    let _ ← tc358746xbgConfigArray ntscpInitTab
  | 2 | 4 => do
    let _ ← tc358746xbgConfigArray palpInitTab
  | 5 => do
    let _ ← tc358746xbgConfigArray stopTab
  | 7 => tc358746xbgShowColorbarConfigUser
  | 8 => tc358746xbgShowColorbarConfigBlue 2
  | 9 => tc358746xbgShowColorbarConfigBlue 3
  | 11 => tc358746xbgShowColorbarConfigBlue 5
  | 12 => tc358746xbgShowColorbarConfigBlue 6
  | 13 => tc358746xbgShowColorbarConfigBlue 7
  | 15 => tc358746xbgShowColorbarConfigGrey
  | _ => tc358746xbgShowColorbarConfig

/-- `tc358746xbg_config_begin`. -/
def tc358746xbgConfigBegin (flag : UInt32) : Tc Unit := do
  tc358746xbgPowerContorl
  let ret ← tc358746xbgGetId
  if ret < 0 then pure ()
  else if flag ≤ 15 then configSwitch flag.toNat
  else pure ()

/-! ## The chip -/

/-- Two bytes, the high one first. -/
def ofBytes (h l : UInt8) : UInt16 := h.toUInt16 * 256 + l.toUInt16

/-- What a transfer says: halfwords of two bytes, to registers from an address on. -/
def halfwordsFrom (addr : UInt16) : List UInt8 → List (UInt16 × UInt16)
  | h :: l :: rest => (addr, ofBytes h l) :: halfwordsFrom (addr + 2) rest
  | _ => []

def halfwords : List UInt8 → List (UInt16 × UInt16)
  | h :: l :: rest => halfwordsFrom (ofBytes h l) rest
  | _ => []

/-- The chip since its last reset: the halfwords it has stored, in their order, how many
transfers it refused, and the first byte of the last read. -/
structure Chip where
  written : List (UInt16 × UInt16)
  refused : Nat
  id : Option UInt8

/-- Of a refused transfer, `kept` halfwords in front of the one that was refused are stored. -/
def Chip.after (c : Chip) (kept : Nat) : (o : Op) → o.Reply → Chip
  | .resx false, _ => ⟨[], 0, none⟩
  | .i2cRead2byte _ _, r => { c with id := some (r.2 0) }
  | .i2cWrite2byte buf, .ack => { c with written := c.written ++ halfwords buf }
  | .i2cWrite2byte buf, .nack =>
    { c with written := c.written ++ (halfwords buf).dropLast.take kept, refused := c.refused + 1 }
  | _, _ => c

section Chip

variable {τ : Type} (env : τ → (o : Op) → τ × o.Reply) (kept : τ → Nat)

/-- The surroundings `env` of the driver, with the chip. -/
def chip : Handler (Chip × τ) Op Op.Reply := fun s o =>
  some ((s.1.after (kept s.2) o (env s.2 o).2, (env s.2 o).1), (env s.2 o).2)

/-- Every transfer is acknowledged. -/
def Acks : Prop := ∀ t buf, (env t (.i2cWrite2byte buf)).2 = .ack

/-- Every read gives the chip's number. -/
def HasId : Prop := ∀ t size, (env t (.i2cRead2byte 0x0000 size)).2.2 0 = 0x44

end Chip

/-- What is stored for a register. -/
def Register.halves (r : Register) : List (UInt16 × UInt16) :=
  if r.registetWidth = 32 then
    [(r.addReg, r.addVal.toUInt16), (r.addReg + 2, (r.addVal >>> 16).toUInt16)]
  else [(r.addReg, r.addVal.toUInt16)]

/-- The last write to a register is what it holds. -/
def Chip.BarsOn (c : Chip) : Prop := c.written.reverse.lookup 0x00e0 = some 0xc1df

/-- A half word as its two bytes, the high one first. -/
theorem ofBytes_self (v : UInt16) :
    ofBytes (v >>> 8).toUInt8 v.toUInt8 = v := by
  apply UInt16.toNat_inj.mp
  have hv := v.toNat_lt
  simp [ofBytes, UInt16.toNat_add, UInt16.toNat_mul, UInt16.toNat_shiftRight,
    Nat.shiftRight_eq_div_pow]
  omega

/-- The lower half of a word as its bytes. -/
theorem ofBytes_low (v : UInt32) :
    ofBytes (v >>> 8).toUInt8 v.toUInt8 = v.toUInt16 := by
  apply UInt16.toNat_inj.mp
  have hv := v.toNat_lt
  simp [ofBytes, UInt16.toNat_add, UInt16.toNat_mul, UInt32.toNat_shiftRight,
    Nat.shiftRight_eq_div_pow]
  omega

/-- The upper half of a word as its bytes. -/
theorem ofBytes_high (v : UInt32) :
    ofBytes (v >>> 24).toUInt8 (v >>> 16).toUInt8 = (v >>> 16).toUInt16 := by
  have hshift : v >>> 24 = v >>> 16 >>> 8 := by
    apply UInt32.toNat_inj.mp
    simp [UInt32.toNat_shiftRight, Nat.shiftRight_eq_div_pow, Nat.div_div_eq_div_mul]
  rw [hshift, ofBytes_low]

section Chip

variable {τ : Type} {α : Type} {env : τ → (o : Op) → τ × o.Reply} {kept : τ → Nat} {g : Globals}
  {c : Chip}

/-- A triple about the driver's variables and the chip. -/
abbrev Spec (env : τ → (o : Op) → τ × o.Reply) (kept : τ → Nat) (P : Globals → Chip → Prop)
    (p : Tc α) (Q : α → Globals → Chip → Prop) : Prop :=
  Triple (chip env kept) (fun g s => P g s.1) p (fun a g s => Q a g s.1)

/-- The state in front of a program. -/
def Is (g : Globals) (c : Chip) (g' : Globals) (c' : Chip) : Prop := g' = g ∧ c' = c

/-- The halfwords are to be stored: they were, or a transfer was refused on the way. -/
def Wrote (env : τ → (o : Op) → τ × o.Reply) (g : Globals) (c : Chip)
    (regs : List (UInt16 × UInt16)) (ret : Ack) (g' : Globals) (c' : Chip) : Prop :=
  g' = g ∧
  match ret with
  | .ack => c' = { c with written := c.written ++ regs }
  | .nack => ¬ Acks env ∧ ∃ w, w <+: regs ∧ w.length < regs.length ∧
      c' = { c with written := c.written ++ w, refused := c.refused + 1 }

/-- Halfwords that were stored, and those behind them. -/
theorem Wrote.append {regs regs' : List (UInt16 × UInt16)} {ret : Ack} {g' : Globals} {c' : Chip}
    (h : Wrote env g { c with written := c.written ++ regs } regs' ret g' c') :
    Wrote env g c (regs ++ regs') ret g' c' := by
  obtain ⟨hg, h⟩ := h
  refine ⟨hg, ?_⟩
  cases ret with
  | ack => rw [h, List.append_assoc]
  | nack =>
    obtain ⟨hack, w, hw, hlen, h⟩ := h
    refine ⟨hack, regs ++ w, (List.prefix_append_right_inj regs).mpr hw, ?_, ?_⟩
    · simp only [List.length_append]
      omega
    · rw [h, List.append_assoc]

/-- Nothing is behind what was refused. -/
theorem Wrote.stop {regs : List (UInt16 × UInt16)} {g' : Globals} {c' : Chip}
    (h : Wrote env g c regs .nack g' c') (regs' : List (UInt16 × UInt16)) :
    Wrote env g c (regs ++ regs') .nack g' c' := by
  obtain ⟨hg, hack, w, hw, hlen, h⟩ := h
  refine ⟨hg, hack, w, hw.trans (List.prefix_append regs regs'), ?_, h⟩
  rw [List.length_append]
  omega

/-- One program after another, the second if all of the first was stored. -/
theorem spec_append {p : Tc Ack} {k : Tc Ack} {regs regs' : List (UInt16 × UInt16)}
    (hp : ∀ c, Spec env kept (Is g c) p (Wrote env g c regs))
    (hk : ∀ c, Spec env kept (Is g c) k (Wrote env g c regs')) (c : Chip) :
    Spec env kept (Is g c) (do let ret ← p; if ret = .nack then pure .nack else k)
      (Wrote env g c (regs ++ regs')) := by
  refine Triple.bind (hp c) fun ret => triple_ite ?_ ?_
  · rintro rfl
    exact triple_pure fun g' s h => h.stop regs'
  · intro hret
    cases ret with
    | nack => exact absurd rfl hret
    | ack =>
      refine ((hk { c with written := c.written ++ regs }).pre fun g' s h => h).post ?_
      exact fun ret g' s h => h.append

/-- A width that the driver writes. -/
def Register.Wide (r : Register) : Prop := r.registetWidth = 16 ∨ r.registetWidth = 32

instance (r : Register) : Decidable r.Wide := inferInstanceAs (Decidable (_ ∨ _))

/-- One transfer stores its half words if it is acknowledged, and is counted if it is refused. -/
theorem spec_i2cWrite2byte {buf : List UInt8} {regs : List (UInt16 × UInt16)}
    (hbuf : halfwords buf = regs) (hregs : regs ≠ []) (c : Chip) :
    Spec env kept (Is g c) (perform (.i2cWrite2byte buf)) (Wrote env g c regs) := by
  refine triple_invoke fun g' s h => ⟨_, _, rfl, h.1, ?_⟩
  obtain ⟨-, rfl⟩ := h
  cases hr : (env s.2 (.i2cWrite2byte buf)).2 with
  | ack => simp only [Chip.after, hbuf]
  | nack =>
    refine ⟨fun hack => ?_, regs.dropLast.take (kept s.2), ?_, ?_, ?_⟩
    · cases (hack s.2 buf).symm.trans hr
    · exact (List.take_prefix _ _).trans (List.dropLast_prefix regs)
    · have hpos := List.length_pos_iff.mpr hregs
      rw [List.length_take, List.length_dropLast]
      omega
    · simp only [Chip.after, hbuf]

/-- **A register that is written** has its halves in the chip behind it, unless a transfer was
refused. -/
theorem spec_write {r : Register} (hr : r.Wide) (c : Chip) :
    Spec env kept (Is g c) (tc358746xbgWrite r) (Wrote env g c r.halves) := by
  unfold tc358746xbgWrite
  rcases hr with hr | hr
  · rw [if_pos hr]
    refine spec_i2cWrite2byte ?_ ?_ c
    · simp only [List.cons_append, List.nil_append, halfwords, halfwordsFrom, ofBytes_self,
        ofBytes_low, Register.halves, hr]
      rfl
    · simp [Register.halves, hr]
  · rw [if_neg (by rw [hr]; decide), if_pos hr]
    refine spec_i2cWrite2byte ?_ ?_ c
    · simp only [List.cons_append, List.nil_append, halfwords, halfwordsFrom, ofBytes_self,
        ofBytes_low, ofBytes_high, Register.halves, hr, if_true]
    · simp [Register.halves, hr]

/-- What a table stores. -/
def tableHalves : List Register → List (UInt16 × UInt16)
  | [] => []
  | r :: rest => if r.addReg = 0xffff then [] else r.halves ++ tableHalves rest

/-- The table has its end mark, and no width that is not written. -/
def Terminated : List Register → Bool
  | [] => false
  | r :: rest => r.addReg = 0xffff || (decide r.Wide && Terminated rest)

/-- A table is stored up to the first register that is refused; the result is -1 then, else 0. -/
theorem spec_configArray {table : List Register} (h : Terminated table = true) (c : Chip) :
    Spec env kept (Is g c) (tc358746xbgConfigArray table) fun ret g' c' =>
      (ret = 0 ∨ ret = -1) ∧
        Wrote env g c (tableHalves table) (if ret = 0 then .ack else .nack) g' c' := by
  induction table generalizing c with
  | nil => cases h
  | cons r rest ih =>
    unfold tc358746xbgConfigArray tableHalves
    by_cases hend : r.addReg = 0xffff
    · rw [if_pos hend, if_pos hend]
      exact triple_pure fun g' s h => ⟨.inl rfl, h.1, by simp [h.2]⟩
    · rw [if_neg hend, if_neg hend]
      rw [Terminated, decide_eq_false hend, Bool.false_or, Bool.and_eq_true] at h
      refine Triple.bind (spec_write (of_decide_eq_true h.1) c) fun backRet => triple_ite ?_ ?_
      · rintro rfl
        exact triple_pure fun g' s hw => ⟨.inr rfl, hw.stop _⟩
      · intro hret
        cases backRet with
        | nack => exact absurd rfl hret
        | ack =>
          refine ((ih h.2 { c with written := c.written ++ r.halves }).pre fun g' s h => h).post ?_
          exact fun ret g' s h => ⟨h.1, h.2.append⟩

/-- The colours of the bars, so many times. -/
def barHalves (a b : Register) (j : Nat) : List (UInt16 × UInt16) :=
  (List.replicate j (a.halves ++ b.halves)).flatten

/-- The columns of the colour bars are stored up to the first one that is refused. -/
theorem spec_writeBars {a b : Register} (ha : a.Wide) (hb : b.Wide) (j : Nat) (c : Chip) :
    Spec env kept (Is g c) (writeBars a b j) (Wrote env g c (barHalves a b j)) := by
  induction j generalizing c with
  | zero => exact triple_pure fun g' s h => ⟨h.1, by simp [barHalves, h.2]⟩
  | succ j ih =>
    have hbars : barHalves a b (j + 1) = a.halves ++ (b.halves ++ barHalves a b j) := by
      rw [barHalves, List.replicate_succ, List.flatten_cons, List.append_assoc]
      rfl
    rw [hbars]
    exact spec_append (spec_write ha) (spec_append (spec_write hb) ih) c

/-- The halfwords are to be stored, and it does not matter whether they were. -/
def Tried (env : τ → (o : Op) → τ × o.Reply) (g : Globals) (c : Chip)
    (regs : List (UInt16 × UInt16)) (g' : Globals) (c' : Chip) : Prop :=
  ∃ ret, Wrote env g c regs ret g' c'

/-- What follows a transfer is done only if that was acknowledged. -/
theorem spec_then {p : Tc Ack} {k : Tc Unit} {regs regs' : List (UInt16 × UInt16)}
    (hp : ∀ c, Spec env kept (Is g c) p (Wrote env g c regs))
    (hk : ∀ c, Spec env kept (Is g c) k (fun _ => Tried env g c regs')) (c : Chip) :
    Spec env kept (Is g c) (do let ret ← p; if ret = .nack then pure () else k)
      (fun _ => Tried env g c (regs ++ regs')) := by
  refine Triple.bind (hp c) fun ret => triple_ite ?_ ?_
  · rintro rfl
    exact triple_pure fun g' s h => ⟨.nack, h.stop regs'⟩
  · intro hret
    cases ret with
    | nack => exact absurd rfl hret
    | ack =>
      refine ((hk { c with written := c.written ++ regs }).pre fun g' s h => h).post ?_
      exact fun _ g' s ⟨ret, h⟩ => ⟨ret, h.append⟩

/-- The register that switches the bars on is stored, or the transfer is refused. -/
theorem spec_barsRegister (c : Chip) :
    Spec env kept (Is g c) (do let _ ← tc358746xbgWrite barsRegister; pure ())
      (fun _ => Tried env g c barsRegister.halves) :=
  Triple.bind (spec_write (by decide) c) fun ret => triple_pure fun _ _ h => ⟨ret, h⟩

/-- **One picture**: all is stored, the bars last, or a transfer is refused and nothing is behind
it. -/
theorem spec_showConfig {draw : Tc Ack} {drawn : List (UInt16 × UInt16)}
    (hdraw : ∀ c, Spec env kept (Is g c) draw (Wrote env g c drawn)) (c : Chip) :
    Spec env kept (Is g c) (showConfig draw) (fun _ =>
      Tried env g c (tableHalves toshibaInitallList ++ (drawn ++ barsRegister.halves))) := by
  refine Triple.bind (spec_configArray (by decide +kernel) c) fun retBack => triple_ite ?_ ?_
  · rintro rfl
    exact triple_pure fun g' s h => ⟨.nack, h.2.stop _⟩
  · intro hret
    refine (spec_then hdraw spec_barsRegister { c with
      written := c.written ++ tableHalves toshibaInitallList }).mono (fun g' s h => ?_) ?_
    · obtain ⟨hzero, hw⟩ := h
      rwa [if_pos (hzero.resolve_right hret)] at hw
    · exact fun _ g' s ⟨ret, h⟩ => ⟨ret, h.append⟩

/-- What the bars of `COLORBAR` are drawn from. -/
def colorbarHalves : List (UInt16 × UInt16) :=
  barHalves ⟨0x00e8, 0x7f00, 16⟩ ⟨0x00e8, 0x7f00, 16⟩ 180 ++
    barHalves ⟨0x00e8, 0xff00, 16⟩ ⟨0x00e8, 0xffff, 16⟩ 180

/-- **`COLORBAR`**: the list and nothing behind it, or the bars behind a list that was refused. -/
theorem spec_showColorbarConfig (c : Chip) :
    Spec env kept (Is g c) tc358746xbgShowColorbarConfig (fun _ g' c' =>
      Wrote env g c (tableHalves toshibaInitallList) .ack g' c' ∨
        ∃ c₁, Wrote env g c (tableHalves toshibaInitallList) .nack g c₁ ∧
          Tried env g c₁ (colorbarHalves ++ barsRegister.halves) g' c') := by
  refine Triple.bind (spec_configArray (by decide +kernel) c) fun ret => triple_ite ?_ ?_
  · rintro rfl
    exact triple_pure fun g' s h => .inl h.2
  · rintro hret g' s ⟨-, hw⟩
    rw [if_neg hret] at hw
    obtain rfl := hw.1
    have hfirst (c : Chip) : Spec env kept (Is g' c) (writeBarsOf 4 180)
        (Wrote env g' c (barHalves ⟨0x00e8, 0x7f00, 16⟩ ⟨0x00e8, 0x7f00, 16⟩ 180)) :=
      spec_writeBars (by decide) (by decide) 180 c
    have hsecond (c : Chip) : Spec env kept (Is g' c) (writeBarsOf 6 180)
        (Wrote env g' c (barHalves ⟨0x00e8, 0xff00, 16⟩ ⟨0x00e8, 0xffff, 16⟩ 180)) :=
      spec_writeBars (by decide) (by decide) 180 c
    obtain ⟨_, g'', s', trace, hrun, htried⟩ :=
      spec_then hfirst (spec_then hsecond spec_barsRegister) s.1 g' s ⟨rfl, rfl⟩
    rw [← List.append_assoc] at htried
    exact ⟨(), g'', s', trace, hrun, .inr ⟨s.1, hw, htried⟩⟩

/-! ## What a flag shows -/

/-- What the picture of a colour is drawn from. -/
def drawn (g : Globals) : Nat → Option (List (UInt16 × UInt16))
  | 7 => some (barHalves ⟨0x00e8, g.userVal₀, 16⟩ ⟨0x00e8, g.userVal₁, 16⟩ 360)
  | 8 => some (barHalves ⟨0x00e8, 0xff, 16⟩ ⟨0x00e8, 0x0, 16⟩ 360)
  | 9 => some (barHalves ⟨0x00e8, 0x0, 16⟩ ⟨0x00e8, 0xff, 16⟩ 360)
  | 11 => some (barHalves ⟨0x00e8, 0x7f00, 16⟩ ⟨0x00e8, 0x7f00, 16⟩ 360)
  | 12 => some (barHalves ⟨0x00e8, 0xc0ff, 16⟩ ⟨0x00e8, 0xc000, 16⟩ 360)
  | 13 => some (barHalves ⟨0x00e8, 0xff00, 16⟩ ⟨0x00e8, 0xffff, 16⟩ 360)
  | 15 => some []
  | _ => none

/-- The table of a video format. -/
def video : Nat → Option (List Register)
  | 1 | 3 => some ntscpInitTab
  | 2 | 4 => some palpInitTab
  | 5 => some stopTab
  | _ => none

/-- Where the `switch` ends. -/
def Switched (env : τ → (o : Op) → τ × o.Reply) (g : Globals) (c : Chip) (flag : Nat)
    (g' : Globals) (c' : Chip) : Prop :=
  match drawn g flag, video flag with
  | some d, _ =>
    Tried env g c (tableHalves toshibaInitallList ++ (d ++ barsRegister.halves)) g' c'
  | none, some table => Tried env g c (tableHalves table) g' c'
  | none, none =>
    Wrote env g c (tableHalves toshibaInitallList) .ack g' c' ∨
      ∃ c₁, Wrote env g c (tableHalves toshibaInitallList) .nack g c₁ ∧
        Tried env g c₁ (colorbarHalves ++ barsRegister.halves) g' c'

/-- A table whose result nobody looks at. -/
theorem spec_table {table : List Register} (h : Terminated table = true) (c : Chip) :
    Spec env kept (Is g c) (do let _ ← tc358746xbgConfigArray table)
      (fun _ => Tried env g c (tableHalves table)) :=
  Triple.bind (spec_configArray h c) fun _ => triple_pure fun _ _ hw => ⟨_, hw.2⟩

/-- The two colours of the user, column by column. -/
theorem spec_user (c : Chip) :
    Spec env kept (Is g c) (do
      let g ← get
      writeBars ⟨0x00e8, g.userVal₀, 16⟩ ⟨0x00e8, g.userVal₁, 16⟩ 360)
      (Wrote env g c (barHalves ⟨0x00e8, g.userVal₀, 16⟩ ⟨0x00e8, g.userVal₁, 16⟩ 360)) := by
  refine triple_get fun g₀ => ?_
  rintro g' s ⟨rfl, rfl, hc⟩
  exact spec_writeBars (.inl rfl) (.inl rfl) 360 c g' s ⟨rfl, hc⟩

/-- The `switch` over the flag has stored the picture of the flag, if it has one. -/
theorem spec_configSwitch (flag : Nat) (c : Chip) :
    Spec env kept (Is g c) (configSwitch flag) (fun _ => Switched env g c flag) := by
  unfold configSwitch
  split
  · exact spec_table (by decide +kernel) c
  · exact spec_table (by decide +kernel) c
  · exact spec_table (by decide +kernel) c
  · exact spec_table (by decide +kernel) c
  · exact spec_table (by decide +kernel) c
  · exact spec_showConfig spec_user c
  · exact spec_showConfig (spec_writeBars (.inl rfl) (.inl rfl) 360) c
  · exact spec_showConfig (spec_writeBars (.inl rfl) (.inl rfl) 360) c
  · exact spec_showConfig (spec_writeBars (.inl rfl) (.inl rfl) 360) c
  · exact spec_showConfig (spec_writeBars (.inl rfl) (.inl rfl) 360) c
  · exact spec_showConfig (spec_writeBars (.inl rfl) (.inl rfl) 360) c
  · refine spec_showConfig (fun c => triple_pure fun g' s h => ⟨h.1, ?_⟩) c
    simp [h.2]
  · have hdrawn : drawn g flag = none := by
      unfold drawn
      split <;> first | rfl | contradiction
    have hvideo : video flag = none := by
      unfold video
      split <;> first | rfl | contradiction
    unfold Switched
    rw [hdrawn, hvideo]
    exact spec_showColorbarConfig c

/-! ## The colour bars -/

/-- The halfword that turns the bars on. -/
def barsWord : UInt16 × UInt16 := (0x00e0, 0xc1df)

/-- The register of the bars is one half word. -/
theorem halves_barsRegister : barsRegister.halves = [barsWord] := rfl

/-- The bars are off as long as their register was not stored. -/
theorem not_barsOn (h : barsWord ∉ c.written) : ¬ c.BarsOn := by
  intro hon
  obtain ⟨l₁, l₂, hl, -⟩ := List.lookup_eq_some_iff.mp hon
  have hmem : barsWord ∈ c.written.reverse := by
    rw [hl]
    exact List.mem_append_right l₁ List.mem_cons_self
  exact h (List.mem_reverse.mp hmem)

/-- No colour is the halfword. -/
theorem barsWord_notMem_barHalves (a b : UInt32) (j : Nat) :
    barsWord ∉ barHalves ⟨0x00e8, a, 16⟩ ⟨0x00e8, b, 16⟩ j := by
  intro h
  obtain ⟨l, hl, hmem⟩ := List.mem_flatten.mp h
  rw [(List.mem_replicate.mp hl).2] at hmem
  simp [Register.halves, barsWord] at hmem

/-- No picture has the register of the bars in it. -/
theorem barsWord_notMem_drawn {flag : Nat} {d : List (UInt16 × UInt16)}
    (h : drawn g flag = some d) : barsWord ∉ d := by
  unfold drawn at h
  split at h
  case h_7 =>
    cases h
    exact List.not_mem_nil
  case h_8 => cases h
  all_goals
    cases h
    exact barsWord_notMem_barHalves _ _ 360

/-- Where nothing turns the bars on, they are off, whatever was refused. -/
theorem Wrote.off {regs : List (UInt16 × UInt16)} {ret : Ack} {g' : Globals} {c' : Chip}
    (h : Wrote env g c regs ret g' c') (hc : barsWord ∉ c.written) (hregs : barsWord ∉ regs) :
    barsWord ∉ c'.written := by
  obtain ⟨-, h⟩ := h
  cases ret with
  | ack =>
    rw [h]
    exact fun hmem => (List.mem_append.mp hmem).elim hc hregs
  | nack =>
    obtain ⟨-, w, hw, -, rfl⟩ := h
    exact fun hmem => (List.mem_append.mp hmem).elim hc fun hmem => hregs (hw.subset hmem)

/-- **The bars last**: they are on exactly if nothing was refused. -/
theorem Tried.barsOn_refused {d : List (UInt16 × UInt16)} {g' : Globals} {c' : Chip}
    (h : Tried env g c (d ++ barsRegister.halves) g' c') (hc : barsWord ∉ c.written)
    (hd : barsWord ∉ d) : c'.BarsOn ↔ c'.refused = c.refused := by
  obtain ⟨ret, -, h⟩ := h
  cases ret with
  | ack =>
    refine iff_of_true ?_ (by rw [h])
    rw [h, Chip.BarsOn, halves_barsRegister, ← List.append_assoc, List.reverse_append]
    rfl
  | nack =>
    obtain ⟨-, w, hw, hlen, rfl⟩ := h
    have hwd : w <+: d := by
      refine List.prefix_of_prefix_length_le hw (List.prefix_append _ _) ?_
      rw [List.length_append, halves_barsRegister, List.length_singleton] at hlen
      omega
    refine iff_of_false (not_barsOn fun hmem => ?_) (by simp)
    exact (List.mem_append.mp hmem).elim hc fun hmem => hd (hwd.subset hmem)

/-- What a flag does to a chip that acknowledges. -/
def told (g : Globals) (flag : Nat) : List (UInt16 × UInt16) :=
  match drawn g flag, video flag with
  | some d, _ => tableHalves toshibaInitallList ++ (d ++ barsRegister.halves)
  | none, some table => tableHalves table
  | none, none => tableHalves toshibaInitallList

/-- Writing leaves the variables, and the number of the chip. -/
theorem Wrote.id {regs : List (UInt16 × UInt16)} {ret : Ack} {g' : Globals} {c' : Chip}
    (h : Wrote env g c regs ret g' c') : g' = g ∧ c'.id = c.id := by
  refine ⟨h.1, ?_⟩
  cases ret with
  | ack => rw [h.2]
  | nack =>
    obtain ⟨-, -, w, -, -, rfl⟩ := h
    rfl

/-- All is stored in a chip that acknowledges. -/
theorem Wrote.all {regs : List (UInt16 × UInt16)} {ret : Ack} {g' : Globals} {c' : Chip}
    (h : Wrote env g c regs ret g' c') (hack : Acks env) : c'.written = c.written ++ regs := by
  cases ret with
  | ack => rw [h.2]
  | nack => exact absurd hack h.2.1

/-- The first table does not switch the bars on. -/
theorem barsWord_notMem_init : barsWord ∉ tableHalves toshibaInitallList := by decide +kernel

/-- Nor does a table of a video format. -/
theorem barsWord_notMem_video {flag : Nat} {table : List Register} (h : video flag = some table) :
    barsWord ∉ tableHalves table := by
  unfold video at h
  split at h
  case h_6 => cases h
  all_goals
    cases h
    decide +kernel

/-- The flags of the colours, from `COLORBAR + TC358746XBG_BLACK` on. -/
def colourFlags : List Nat := [7, 8, 9, 11, 12, 13, 15]

/-- `COLORBAR`, and the flags that have no case of their own. -/
def colorbarFlags : List Nat := [0, 6, 10, 14]

/-- The flags of a colour are those with a picture. -/
theorem mem_colourFlags {flag : Nat} : flag ∈ colourFlags ↔ ∃ d, drawn g flag = some d := by
  unfold drawn
  split
  case h_8 =>
    refine iff_of_false (fun hmem => ?_) (by simp)
    simp only [colourFlags, List.mem_cons, List.not_mem_nil, or_false] at hmem
    rcases hmem with h | h | h | h | h | h | h <;> contradiction
  all_goals exact iff_of_true (by decide) ⟨_, rfl⟩

/-- The flags of `COLORBAR` have neither a picture nor a table. -/
theorem mem_colorbarFlags {flag : Nat} (h : flag ≤ 15) :
    flag ∈ colorbarFlags ↔ drawn g flag = none ∧ video flag = none := by
  interval_cases flag <;> simp [colorbarFlags, drawn, video]

/-- **What the `switch` leaves** of a chip that was reset. -/
theorem Switched.outcome {flag : Nat} {g' : Globals} {c' : Chip}
    (h : Switched env g c flag g' c') (hflag : flag ≤ 15) (hc : c.written = [])
    (hr : c.refused = 0) :
    g' = g ∧ c'.id = c.id ∧
      (c'.BarsOn ↔ flag ∈ colourFlags ∧ c'.refused = 0 ∨
        flag ∈ colorbarFlags ∧ c'.refused = 1) ∧
      (Acks env → c'.written = told g flag) := by
  have hempty : barsWord ∉ c.written := by
    rw [hc]
    exact List.not_mem_nil
  unfold Switched at h
  rw [mem_colourFlags (g := g), mem_colorbarFlags (g := g) hflag, told]
  cases hd : drawn g flag with
  | some d =>
    rw [hd] at h
    have hon : Tried env g c (tableHalves toshibaInitallList ++ d ++ barsRegister.halves)
        g' c' := by
      rw [List.append_assoc]
      exact h
    have hiff := hon.barsOn_refused hempty fun hmem =>
      (List.mem_append.mp hmem).elim barsWord_notMem_init (barsWord_notMem_drawn hd)
    obtain ⟨ret, hw⟩ := h
    refine ⟨hw.id.1, hw.id.2, ?_, fun hack => ?_⟩
    · rw [hiff, hr]
      simp
    · rw [hw.all hack, hc, List.nil_append]
  | none =>
    cases hv : video flag with
    | some table =>
      rw [hd, hv] at h
      obtain ⟨ret, hw⟩ := h
      refine ⟨hw.id.1, hw.id.2, iff_of_false ?_ (by simp), fun hack => ?_⟩
      · exact not_barsOn (hw.off hempty (barsWord_notMem_video hv))
      · rw [hw.all hack, hc, List.nil_append]
    | none =>
      rw [hd, hv] at h
      rcases h with hw | ⟨c₁, hw, htried⟩
      · -- all went well, and the bars are left out
        refine ⟨hw.id.1, hw.id.2, iff_of_false ?_ ?_, fun hack => ?_⟩
        · exact not_barsOn (hw.off hempty barsWord_notMem_init)
        · rw [hw.2, hr]
          simp
        · rw [hw.all hack, hc, List.nil_append]
      · have hoff := hw.off hempty barsWord_notMem_init
        obtain ⟨-, hnack, w, -, -, hc₁⟩ := hw
        have hdrawn : barsWord ∉ colorbarHalves := fun hmem =>
          (List.mem_append.mp hmem).elim (barsWord_notMem_barHalves _ _ 180)
            (barsWord_notMem_barHalves _ _ 180)
        have hiff := htried.barsOn_refused hoff hdrawn
        obtain ⟨ret, hw'⟩ := htried
        refine ⟨hw'.id.1, hw'.id.2.trans (by rw [hc₁]), ?_, fun hack => absurd hack hnack⟩
        rw [hiff, hc₁, hr]
        simp

/-! ## `tc358746xbg_config_begin` -/

/-- An operation with no answer that matters. -/
theorem spec_perform {o : Op} {c' : Chip} (ho : ∀ kept r, c.after kept o r = c') :
    Spec env kept (Is g c) (perform o) (fun _ => Is g c') := by
  refine triple_invoke fun g' s h => ⟨_, _, rfl, h.1, ?_⟩
  obtain ⟨-, rfl⟩ := h
  exact ho _ _

/-- After a reset the chip has nothing stored, nothing refused and was not asked for its number. -/
theorem spec_powerContorl :
    Spec env kept (fun g' _ => g' = g) tc358746xbgPowerContorl (fun _ => Is g ⟨[], 0, none⟩) := by
  rintro g' s rfl
  have hspec : Spec env kept (Is g' s.1) tc358746xbgPowerContorl
      (fun _ => Is g' ⟨[], 0, none⟩) := by
    refine Triple.bind (spec_perform fun _ _ => rfl) fun _ => ?_
    refine Triple.bind (spec_perform fun _ _ => rfl) fun _ => ?_
    refine Triple.bind (spec_perform fun _ _ => rfl) fun _ => ?_
    exact spec_perform fun _ _ => rfl
  exact hspec g' s ⟨rfl, rfl⟩

/-- What `tc358746xbg_get_id` has found. -/
def Identified (env : τ → (o : Op) → τ × o.Reply) (g : Globals) (c : Chip) (ret : Int)
    (g' : Globals) (c' : Chip) : Prop :=
  ∃ id, g' = g ∧ c' = { c with id := id } ∧ (0 ≤ ret ↔ id = some 0x44) ∧
    (HasId env → id = some 0x44)

/-- The number that the chip answers is looked at by its low byte. -/
theorem spec_readId (c : Chip) :
    Spec env kept (Is g c) (perform (.i2cRead2byte 0x0000 2)) (fun valu g' c' =>
      g' = g ∧ c' = { c with id := some (valu.2 0) } ∧ (HasId env → valu.2 0 = 0x44)) := by
  refine triple_invoke fun g' s h => ⟨_, _, rfl, h.1, ?_, fun hid => hid s.2 2⟩
  obtain ⟨-, rfl⟩ := h
  rfl

/-- One try; the rest is tried with a chip that gave another number. -/
theorem spec_getIdLoop_succ {n : Nat} {c : Chip}
    (hrest : ∀ i : UInt8, i ≠ 0x44 → ¬ HasId env → Spec env kept (Is g { c with id := some i })
      (getIdLoop n (-1)) (Identified env g c)) (ret : Int) :
    Spec env kept (Is g c) (getIdLoop (n + 1) ret) (Identified env g c) := by
  unfold getIdLoop
  refine Triple.bind (spec_readId c) fun valu => triple_ite ?_ ?_
  · intro hid
    refine triple_pure fun g' s h => ⟨some (valu.2 0), h.1, h.2.1, ?_, fun _ => by rw [hid]⟩
    exact iff_of_true (by decide) (by rw [hid])
  · rintro hid g' s ⟨rfl, hs, hhas⟩
    have hwait : Spec env kept (Is g' s.1) (perform (.msleep 50)) (fun _ => Is g' s.1) :=
      spec_perform fun _ _ => rfl
    have hnot : ¬ HasId env := fun h => hid (hhas h)
    rw [hs] at hwait
    exact (hwait.bind fun _ => hrest _ hid hnot) g' s ⟨rfl, hs⟩

/-- With a try left. -/
theorem spec_getIdLoop (n : Nat) (ret : Int) (c : Chip) :
    Spec env kept (Is g c) (getIdLoop (n + 1) ret) (Identified env g c) := by
  induction n generalizing ret c with
  | zero =>
    refine spec_getIdLoop_succ (fun i hi hnot => ?_) ret
    refine triple_pure fun g' s h => ⟨some i, h.1, h.2, ?_, fun hid => absurd hid hnot⟩
    exact iff_of_false (by decide) fun heq => hi (Option.some.inj heq)
  | succ n ih =>
    refine spec_getIdLoop_succ (fun i hi hnot => (ih (-1) { c with id := some i }).post ?_) ret
    rintro ret' g' s ⟨id, hg, hs, hret, hid⟩
    exact ⟨id, hg, hs, hret, hid⟩

/-- Where `tc358746xbg_config_begin` ends. -/
def Ends (env : τ → (o : Op) → τ × o.Reply) (g : Globals) (flag : Nat) (g' : Globals)
    (c' : Chip) : Prop :=
  g' = g ∧
    (c'.BarsOn ↔ c'.id = some 0x44 ∧ (flag ∈ colourFlags ∧ c'.refused = 0 ∨
      flag ∈ colorbarFlags ∧ c'.refused = 1)) ∧
    (Acks env → HasId env → flag ≤ 15 → c'.written = told g flag)

/-- Nothing was written. -/
theorem ends_untouched {flag : Nat} (hc : c.written = [])
    (h : c.id = some 0x44 → ¬ flag ∈ colourFlags ∧ ¬ flag ∈ colorbarFlags)
    (hid : HasId env → ¬ flag ≤ 15) : Ends env g flag g c := by
  refine ⟨rfl, iff_of_false (not_barsOn (by simp [hc])) ?_, fun _ h hflag => ?_⟩
  · rintro ⟨hfound, ⟨hmem, -⟩ | ⟨hmem, -⟩⟩
    · exact (h hfound).1 hmem
    · exact (h hfound).2 hmem
  · exact absurd hflag (hid h)

/-- What the whole configuration has done when it ends, by the flag. -/
theorem spec_configBegin (flag : UInt32) :
    Spec env kept (fun g' _ => g' = g) (tc358746xbgConfigBegin flag)
      (fun _ => Ends env g flag.toNat) := by
  have hle : flag ≤ 15 ↔ flag.toNat ≤ 15 := UInt32.le_iff_toNat_le
  refine Triple.bind spec_powerContorl fun _ => ?_
  refine Triple.bind (spec_getIdLoop 4 0 ⟨[], 0, none⟩) fun ret => triple_ite ?_ fun hret => ?_
  · intro hret
    refine triple_pure fun g' s h => ?_
    obtain ⟨id, hg, hs, hfound, hid⟩ := h
    have hnone : s.1.id ≠ some 0x44 := by
      rw [hs]
      exact fun heq => absurd (hfound.mpr heq) (by omega)
    rw [hg]
    refine ends_untouched (by rw [hs]) (fun heq => absurd heq hnone) fun h => ?_
    exact absurd (by rw [hs]; exact hid h) hnone
  · refine triple_ite (fun hflag => ?_) fun hflag => triple_pure fun g' s h => ?_
    · rintro g' s ⟨id, rfl, hs, hfound, -⟩
      have hswitch : Spec env kept (Is g' s.1) (configSwitch flag.toNat)
          (fun _ => Switched env g' s.1 flag.toNat) := spec_configSwitch flag.toNat s.1
      refine (hswitch.post fun _ g'' s' h => ?_) g' s ⟨rfl, rfl⟩
      have hid : s.1.id = some 0x44 := by
        rw [hs]
        exact hfound.mp (by omega)
      obtain ⟨hg, hid', hon, htold⟩ := h.outcome (hle.mp hflag) (by rw [hs]) (by rw [hs])
      refine ⟨hg, ?_, fun hack _ _ => htold hack⟩
      rw [hon, hid', hid, and_iff_right rfl]
    · obtain ⟨id, hg, hs, -, -⟩ := h
      rw [hg]
      have hbig := mt hle.mpr hflag
      have hsmall : ∀ n ∈ colourFlags ++ colorbarFlags, n ≤ 15 := by decide
      refine ends_untouched (by rw [hs]) (fun _ => ⟨fun hmem => ?_, fun hmem => ?_⟩) fun _ => hbig
      · exact hbig (hsmall _ (List.mem_append_left _ hmem))
      · exact hbig (hsmall _ (List.mem_append_right _ hmem))

/-- **The colour bars of a colour are shown exactly if no transfer was refused, those of
`COLORBAR` exactly if one was**, whatever the chip does and whatever it was before. -/
theorem colourBars_iff (env : τ → (o : Op) → τ × o.Reply) (kept : τ → Nat) (flag : UInt32)
    (g : Globals) (s : Chip × τ) :
    ∃ s' trace, ((tc358746xbgConfigBegin flag).run g).exec (chip env kept) s =
        some (((), g), s', trace) ∧
      (s'.1.BarsOn ↔ s'.1.id = some 0x44 ∧ (flag.toNat ∈ colourFlags ∧ s'.1.refused = 0 ∨
        flag.toNat ∈ colorbarFlags ∧ s'.1.refused = 1)) := by
  have hspec : Spec env kept (fun g' _ => g' = g) (tc358746xbgConfigBegin flag)
      (fun _ => Ends env g flag.toNat) := spec_configBegin flag
  obtain ⟨_, g', s', trace, hrun, rfl, hon, -⟩ := hspec g s rfl
  exact ⟨s', trace, hrun, hon⟩

/-- **What a chip that acknowledges was told since its reset**, when it has the number: the table
of the format, or the picture of the colour; for `COLORBAR` the list alone, without the bars. -/
theorem configBegin_told (hack : Acks env) (hid : HasId env) {flag : UInt32} (hflag : flag ≤ 15)
    (g : Globals) (s : Chip × τ) :
    ∃ s' trace, ((tc358746xbgConfigBegin flag).run g).exec (chip env kept) s =
        some (((), g), s', trace) ∧ s'.1.written = told g flag.toNat := by
  have hspec : Spec env kept (fun g' _ => g' = g) (tc358746xbgConfigBegin flag)
      (fun _ => Ends env g flag.toNat) := spec_configBegin flag
  obtain ⟨_, g', s', trace, hrun, rfl, -, htold⟩ := hspec g s rfl
  exact ⟨s', trace, hrun, htold hack hid (UInt32.le_iff_toNat_le.mp hflag)⟩

end Chip

/-- A chip that acknowledges and gives its number. -/
def ackEnv (t : Unit) : (o : Op) → Unit × o.Reply
  | .i2cRead2byte _ _ => (t, .ack, fun i => if i = 0 then 0x44 else 0)
  | .i2cWrite2byte _ => (t, .ack)
  | .resx _ | .msleep _ => (t, ())

/-- `COLORBAR` ends with the list: the bars are neither drawn nor turned on. -/
theorem configBegin_told_colorbar :
    ∃ s' trace, ((tc358746xbgConfigBegin 6).run ⟨0x307f, 0x307f⟩).exec (chip ackEnv fun _ => 0)
        (⟨[], 0, none⟩, ()) = some (((), ⟨0x307f, 0x307f⟩), s', trace) ∧
      s'.1.written.getLast? = some (0x00e4, 0x40) ∧ s'.1.written.length = 52 := by
  have hack : Acks ackEnv := fun _ _ => rfl
  have hid : HasId ackEnv := fun _ _ => rfl
  obtain ⟨s', trace, hrun, htold⟩ := @configBegin_told Unit ackEnv (fun _ => 0) hack hid 6
    (by decide) ⟨0x307f, 0x307f⟩ (⟨[], 0, none⟩, ())
  refine ⟨s', trace, hrun, ?_⟩
  rw [htold]
  decide +kernel

end Lidbg.Tc358746xbg
