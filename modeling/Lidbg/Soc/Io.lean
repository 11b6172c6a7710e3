import Lidbg.Machine.Run
import Lidbg.Machine.Ledger
import Mathlib.Data.UInt
import Mathlib.Tactic.SplitIfs

/-!
# GPIOs (`soc/msm8x26/lidbg_io_msm8x26.c`)

`soc_io_config` asks the kernel for a GPIO the first time it is configured and remembers
that in `soc_io_config_log`. It looks into the log before it knows that the index is one of
it, and it goes on after a request that has failed.

`socIoConfig_keeps_iff`: in a sequence of calls the log says after every call what is
held, exactly if every call that comes to the kernel gets what it asks for, or is undone.
-/

namespace Lidbg.Soc

open Machine

/-! ## The code -/

/-- `IO_LOG_NUM`. -/
def ioLogNum : Nat := 116

/-- `GPIO_CFG_INPUT`, the first of its enumeration. -/
def gpioCfgInput : Bool := false

/-- `GPIO_CFG_OUTPUT`. -/
def gpioCfgOutput : Bool := true

/-- `TX_GPIO`. -/
def txGpio : UInt32 := 123

/-- `struct msm_gpiomux_config` with its one setting. -/
structure GpiomuxConfig where
  gpio : UInt32
  drv : UInt32
  pull : UInt32
  dir : Bool

/-- What the kernel is asked, with its answer. -/
inductive GpioOp where
  | gpiomuxInstall (config : GpiomuxConfig)
  | isValid (gpio : UInt32) (valid : Bool)
  | request (gpio : UInt32) (err : Int32)
  | directionInput (gpio : UInt32) (err : Int32)
  | free (gpio : UInt32)

/-- A call of `soc_io_config`, and what the kernel will answer if it is asked:
`gpio_is_valid`, `gpio_request`, `gpio_direction_input`, and `gpio_is_valid` again. -/
structure IoConfig where
  index : UInt32
  direction : Bool
  pull : UInt32
  driveStrength : UInt32
  forceReconfig : Bool
  valid : Bool
  requestErr : Int32
  directionErr : Int32
  validToFree : Bool

/-- `lidbg_configs`. -/
def IoConfig.lidbgConfig (c : IoConfig) : GpiomuxConfig :=
  ⟨c.index, c.driveStrength, c.pull, c.direction⟩

/-- The kernel is asked before the log is looked at. -/
def IoConfig.forced (c : IoConfig) : List GpioOp :=
  if c.forceReconfig then [.gpiomuxInstall c.lidbgConfig] else []

/-- `soc_io_config_log`. -/
abbrev IoLog : Type := Vector UInt8 ioLogNum

/-- `soc_io_init`. -/
def socIoInit : IoLog := Vector.replicate ioLogNum 0

/-- `soc_io_config`, with what it returns; `none` is outside of the log. -/
def socIoConfig (log : IoLog) (c : IoConfig) : Option (IoLog × Int32 × List GpioOp) :=
  if h : c.index.toNat < ioLogNum then
    if log[c.index.toNat] = 1 then some (log, 1, c.forced)
    else if c.valid = false then some (log, 0, c.forced ++ [.isValid c.index false])
    else
      -- the error of `gpio_request` is printed only
      let ops := c.forced ++ [.isValid c.index true, .gpiomuxInstall c.lidbgConfig,
        .request c.index c.requestErr]
      if c.direction = gpioCfgInput then
        let ops := ops ++ [.directionInput c.index c.directionErr]
        if c.directionErr ≠ 0 then
          let ops := ops ++ [.isValid c.index c.validToFree]
          some (log, 0, if c.validToFree then ops ++ [.free c.index] else ops)
        else some (log.set c.index.toNat 1, 1, ops)
      else some (log.set c.index.toNat 1, 1, ops)
  else none

/-- One call. -/
def ioStep : Step IoLog IoConfig GpioOp := fun log c =>
  (socIoConfig log c).map fun r => (r.1, r.2.2)

/-! ## The books -/

/-- A GPIO is held once it was requested without an error, until it is freed. -/
def GpioOp.ledgerOp : GpioOp → LedgerOp UInt32
  | .request gpio err => .ask gpio (err = 0)
  | .free gpio => .giveBack gpio
  | _ => .none

/-- What is held after the operations. -/
def held (ops : List GpioOp) : UInt32 → Bool :=
  heldAfterAll GpioOp.ledgerOp (fun _ => false) ops

/-- The log says what is held, and nothing was requested that was held. -/
structure Booked (ops : List GpioOp) (log : IoLog) : Prop where
  log_iff : ∀ (i : UInt32) (hi : i.toNat < ioLogNum), log[i.toNat] = 1 ↔ held ops i = true
  requests : AskedFree GpioOp.ledgerOp (fun _ => false) ops

/-- It cannot be made an input. -/
def IoConfig.Fails (c : IoConfig) : Prop :=
  c.direction = gpioCfgInput ∧ c.directionErr ≠ 0

instance (c : IoConfig) : Decidable c.Fails :=
  inferInstanceAs (Decidable (_ ∧ _))

/-- The call is one for the log, and it does not come to the request, or gets what it
requests, or fails and keeps nothing. -/
def IoConfig.Settled (log : IoLog) (c : IoConfig) : Prop :=
  ∃ h : c.index.toNat < ioLogNum, log[c.index.toNat] = 1 ∨ c.valid = false ∨
    if c.Fails then c.requestErr = 0 → c.validToFree = true else c.requestErr = 0

theorem booked_init : Booked [] socIoInit := by
  refine ⟨fun i hi => ?_, trivial⟩
  rw [socIoInit, Vector.getElem_replicate]
  exact iff_of_false (by decide) Bool.false_ne_true

/-- A call is about its own GPIO: the books are right after it if they are for that. -/
theorem Booked.append_iff {ops : List GpioOp} {log : IoLog} (h : Booked ops log)
    {extra : List GpioOp} {log' : IoLog} {index : UInt32} (hindex : index.toNat < ioLogNum)
    {b : Bool} (hfree : AskedFree GpioOp.ledgerOp (held ops) extra)
    (hheld : heldAfterAll GpioOp.ledgerOp (held ops) extra = Function.update (held ops) index b)
    (hlog : ∀ j (hj : j < ioLogNum), j ≠ index.toNat → log'[j] = log[j]) :
    Booked (ops ++ extra) log' ↔ (log'[index.toNat] = 1 ↔ b = true) := by
  have hafter : held (ops ++ extra) = Function.update (held ops) index b :=
    (heldAfterAll_append _ ops extra).trans hheld
  constructor
  · intro hbooked
    have hown := hbooked.log_iff index hindex
    rwa [hafter, Function.update_self] at hown
  · intro hown
    refine ⟨fun i hi => ?_, (askedFree_append _ ops extra).mpr ⟨h.requests, hfree⟩⟩
    rw [hafter]
    by_cases hi' : i = index
    · subst hi'
      rw [Function.update_self]
      exact hown
    · rw [Function.update_of_ne hi', hlog i.toNat hi fun heq => hi' (UInt32.toNat_inj.mp heq)]
      exact h.log_iff i hi

/-- Before the log is looked at nothing is asked for and nothing given back. -/
theorem heldAfterAll_forced (held : UInt32 → Bool) (c : IoConfig) (rest : List GpioOp) :
    heldAfterAll GpioOp.ledgerOp held (c.forced ++ rest) =
      heldAfterAll GpioOp.ledgerOp held rest := by
  rw [IoConfig.forced]
  split_ifs <;> rfl

theorem askedFree_forced (held : UInt32 → Bool) (c : IoConfig) (rest : List GpioOp) :
    AskedFree GpioOp.ledgerOp held (c.forced ++ rest) ↔ AskedFree GpioOp.ledgerOp held rest := by
  rw [IoConfig.forced]
  split_ifs
  · exact and_iff_right trivial
  · exact Iff.rfl

/-! ## One call -/

/-- What the kernel is asked about a GPIO that is not in the log. -/
def IoConfig.asked (c : IoConfig) : List GpioOp :=
  [.isValid c.index true, .gpiomuxInstall c.lidbgConfig, .request c.index c.requestErr] ++
    (if c.direction = gpioCfgInput then [.directionInput c.index c.directionErr] else []) ++
    if c.Fails then
      .isValid c.index c.validToFree :: if c.validToFree then [.free c.index] else []
    else []

theorem ioStep_outside {log : IoLog} {c : IoConfig} (h : ¬ c.index.toNat < ioLogNum) :
    ioStep log c = none := by
  rw [ioStep, socIoConfig, dif_neg h]
  rfl

theorem ioStep_logged {log : IoLog} {c : IoConfig} (h : c.index.toNat < ioLogNum)
    (hlog : log[c.index.toNat] = 1) : ioStep log c = some (log, c.forced) := by
  rw [ioStep, socIoConfig, dif_pos h, if_pos hlog]
  rfl

theorem ioStep_invalid {log : IoLog} {c : IoConfig} (h : c.index.toNat < ioLogNum)
    (hlog : log[c.index.toNat] ≠ 1) (hvalid : c.valid = false) :
    ioStep log c = some (log, c.forced ++ [.isValid c.index false]) := by
  rw [ioStep, socIoConfig, dif_pos h, if_neg hlog, if_pos hvalid]
  rfl

theorem ioStep_asked {log : IoLog} {c : IoConfig} (h : c.index.toNat < ioLogNum)
    (hlog : log[c.index.toNat] ≠ 1) (hvalid : c.valid ≠ false) :
    ioStep log c =
      some (if c.Fails then log else log.set c.index.toNat 1, c.forced ++ c.asked) := by
  rw [ioStep, socIoConfig, dif_pos h, if_neg hlog, if_neg hvalid, IoConfig.asked]
  by_cases hinput : c.direction = gpioCfgInput
  · by_cases herr : c.directionErr ≠ 0
    · have hfails : c.Fails := ⟨hinput, herr⟩
      rw [if_pos hinput, if_pos herr, if_pos hfails, if_pos hinput, if_pos hfails]
      split_ifs <;> simp
    · have hfails : ¬ c.Fails := fun hf => herr hf.2
      rw [if_pos hinput, if_neg herr, if_neg hfails, if_pos hinput, if_neg hfails]
      simp
  · have hfails : ¬ c.Fails := fun hf => hinput hf.1
    rw [if_neg hinput, if_neg hfails, if_neg hinput, if_neg hfails]
    simp

/-- The GPIO is held afterwards if it was got and not given back. -/
theorem heldAfterAll_asked {held : UInt32 → Bool} {c : IoConfig} (hfree : held c.index = false) :
    heldAfterAll GpioOp.ledgerOp held c.asked = Function.update held c.index
      (if c.Fails ∧ c.validToFree = true then false else decide (c.requestErr = 0)) := by
  have hsame : held = Function.update held c.index false := by
    rw [← hfree, Function.update_eq_self]
  -- the tail of the operations gives the GPIO back, or does nothing
  have htail : ∀ held' : UInt32 → Bool,
      heldAfterAll GpioOp.ledgerOp held'
        ((if c.direction = gpioCfgInput then [GpioOp.directionInput c.index c.directionErr]
          else []) ++
          if c.Fails then
            .isValid c.index c.validToFree :: if c.validToFree then [.free c.index] else []
          else []) =
        if c.Fails ∧ c.validToFree = true then Function.update held' c.index false else held' := by
    intro held'
    rw [heldAfterAll_append]
    by_cases hfails : c.Fails
    · rw [if_pos hfails.1, if_pos hfails]
      by_cases hfree : c.validToFree = true
      · rw [if_pos hfree, if_pos ⟨hfails, hfree⟩]
        rfl
      · rw [if_neg hfree, if_neg fun h => hfree h.2]
        rfl
    · have hkept : ¬ (c.Fails ∧ c.validToFree = true) := fun h => hfails h.1
      rw [if_neg hfails, if_neg hkept]
      split_ifs <;> rfl
  rw [IoConfig.asked, List.append_assoc, heldAfterAll_append, htail]
  by_cases herr : c.requestErr = 0
  · have hgot : heldAfterAll GpioOp.ledgerOp held [.isValid c.index true,
        .gpiomuxInstall c.lidbgConfig, .request c.index c.requestErr] =
        Function.update held c.index true := by
      simp [heldAfterAll, GpioOp.ledgerOp, LedgerOp.after, herr]
    rw [hgot, decide_eq_true herr, Function.update_idem]
    split_ifs <;> rfl
  · have hnot : heldAfterAll GpioOp.ledgerOp held [.isValid c.index true,
        .gpiomuxInstall c.lidbgConfig, .request c.index c.requestErr] = held := by
      simp [heldAfterAll, GpioOp.ledgerOp, LedgerOp.after, herr]
    rw [hnot, decide_eq_false herr, ite_self, ← hsame]
    split_ifs <;> rfl

theorem askedFree_asked {held : UInt32 → Bool} {c : IoConfig} (hfree : held c.index = false) :
    AskedFree GpioOp.ledgerOp held c.asked := by
  rw [IoConfig.asked, List.append_assoc, askedFree_append]
  refine ⟨⟨trivial, trivial, hfree, trivial⟩, ?_⟩
  rw [askedFree_append]
  split_ifs <;> simp [AskedFree, GpioOp.ledgerOp, LedgerOp.AskedFree]

/-- **One call**: it stays in the log, and the books are right after it, exactly if it is
settled. -/
theorem Booked.ioStep_iff {ops : List GpioOp} {log : IoLog} (h : Booked ops log) (c : IoConfig) :
    (∃ log' ops', ioStep log c = some (log', ops') ∧ Booked (ops ++ ops') log') ↔
      c.Settled log := by
  by_cases hindex : c.index.toNat < ioLogNum
  swap
  · rw [ioStep_outside hindex]
    exact iff_of_false (fun ⟨_, _, h, _⟩ => nomatch h) fun ⟨h, _⟩ => hindex h
  have hone : ∀ {log' : IoLog} {ops' : List GpioOp}, ioStep log c = some (log', ops') →
      ((∃ log' ops', ioStep log c = some (log', ops') ∧ Booked (ops ++ ops') log') ↔
        Booked (ops ++ ops') log') := by
    intro log' ops' hstep
    refine ⟨?_, fun hbooked => ⟨_, _, hstep, hbooked⟩⟩
    rintro ⟨_, _, hstep', hbooked⟩
    cases hstep.symm.trans hstep'
    exact hbooked
  have hheld := h.log_iff c.index hindex
  by_cases hlog : log[c.index.toNat] = 1
  · -- it is in the log: nothing is asked for
    have hsame : Function.update (held ops) c.index true = held ops := by
      rw [← hheld.mp hlog, Function.update_eq_self]
    rw [hone (ioStep_logged hindex hlog), ← List.append_nil c.forced,
      h.append_iff hindex ((askedFree_forced _ c []).mpr trivial)
        ((heldAfterAll_forced _ c []).trans hsame.symm) fun _ _ _ => rfl]
    exact iff_of_true (iff_of_true hlog rfl) ⟨hindex, .inl hlog⟩
  -- it is not in the log, so by the books it is free
  have hfree : held ops c.index = false := Bool.eq_false_iff.mpr fun h => hlog (hheld.mpr h)
  by_cases hvalid : c.valid = false
  · -- it is no valid GPIO: nothing is asked for
    have hsame : Function.update (held ops) c.index false = held ops := by
      rw [← hfree, Function.update_eq_self]
    rw [hone (ioStep_invalid hindex hlog hvalid),
      h.append_iff hindex ((askedFree_forced _ c [.isValid c.index false]).mpr ⟨trivial, trivial⟩)
        ((heldAfterAll_forced _ c [.isValid c.index false]).trans hsame.symm) fun _ _ _ => rfl]
    exact iff_of_true (iff_of_false hlog Bool.false_ne_true) ⟨hindex, .inr (.inl hvalid)⟩
  · rw [hone (ioStep_asked hindex hlog hvalid),
      h.append_iff hindex ((askedFree_forced _ c _).mpr (askedFree_asked hfree))
        ((heldAfterAll_forced _ c _).trans (heldAfterAll_asked hfree))
        (by
          intro j hj hne
          split_ifs
          · rfl
          · exact Vector.getElem_set_ne _ _ fun h => hne h.symm),
      IoConfig.Settled, exists_prop_of_true hindex, or_iff_right hlog, or_iff_right hvalid]
    by_cases hfails : c.Fails
    · -- the log stays as it is, and so must the GPIO
      cases hfree' : c.validToFree <;> simp [hfails, hlog]
    · simp [hfails]

/-! ## Sequences of calls -/

/-- After every call of a sequence the books are right, and none was outside of the log. -/
def Keeps (calls : List IoConfig) : Prop :=
  ∀ pre, pre <+: calls → ∃ log ops, run ioStep socIoInit pre = some (log, ops) ∧ Booked ops log

/-- **The log is what is held**, after every call, and no GPIO is requested that is held,
exactly if every call has an index of the log, and unless it is in the log or not valid its
request works, or it cannot be made an input and is freed where it was got. -/
theorem socIoConfig_keeps_iff (calls : List IoConfig) :
    Keeps calls ↔ StepsMeet ioStep (fun _ _ log c => c.Settled log) socIoInit calls :=
  keeps_iff (fun _ _ _ c h => h.ioStep_iff c) booked_init calls

/-- `TX_CFG`, with a kernel that gives everything. -/
def txCfg : IoConfig where
  index := txGpio
  direction := gpioCfgOutput
  pull := 0
  driveStrength := 7
  forceReconfig := true
  valid := true
  requestErr := 0
  directionErr := 0
  validToFree := true

/-- The pin of the serial line is outside of the log. -/
theorem txCfg_outside : ¬ ∀ calls, Keeps calls := by
  intro h
  obtain ⟨log, ops, hrun, -⟩ := h [txCfg] [txCfg] List.prefix_rfl
  have houtside : ioStep socIoInit txCfg = none := ioStep_outside (by decide)
  rw [run, houtside] at hrun
  cases hrun

end Lidbg.Soc
