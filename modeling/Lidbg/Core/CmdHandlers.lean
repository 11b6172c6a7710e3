import Lidbg.Machine.Decimal

/-!
# The handlers behind `/dev/mlidbg0`

A handler takes `argc` and `argv`. Here `argv i` is the string at slot `i`, and
`none` where the slot is at or behind `argc` or null, so that a handler that
reads such a slot returns `none`. What a handler does with the words it has read
is the calls it makes.
-/

namespace Lidbg.CmdHandlers

open Machine

/-- `simple_strtoul(s, 0, 0)` in a `u32`. -/
def strtoulU32 (s : List UInt8) : UInt32 :=
  UInt32.ofNat (simpleStrtoul s)

/-- The first argument of `mem r`, `mem w`, `mem rb` and `mem wb`. -/
inductive Space where
  | phy
  | virt
deriving DecidableEq

def space (s : List UInt8) : Option Space :=
  if s = ascii "phy" then some .phy
  else if s = ascii "virt" then some .virt
  else none

/-- The keys `lidbg_key_main` knows by name. -/
inductive Key where
  | home | back | up | down | menu | right | left | volumedown | volumeup | pause | mute | sleep
  | power | enter | endKey
  | code (keyValue : UInt32)
deriving DecidableEq

/-- What the handlers call. -/
inductive Call where
  | registerWakelock (isCount : Bool) (name : List UInt8) (package : Option (List UInt8))
      (pid uid : Int32)
  | unregisterWakelock (name : List UInt8)
  | lidbgShowWakelock
  | startWlDbgThread (dbgMs : List UInt8)
  | readAddr (space : Option Space) (addr mun : UInt32)
  | writeAddr (space : Space) (addr val : UInt32)
  | readAddrBit (space : Option Space) (offset bitmun addr : UInt32)
  | writeAddrBit (space : Space) (offset bitmun addr val : UInt32)
  | i2cSend (busId devAddr : UInt32) (data : List UInt8)
  | i2cRecv (busId devAddr startReg num : UInt32)
  | i2cRecvEach (busId devAddr num : UInt32)
  | i2cRecvSubAddr (bytes busId devAddr startReg num : UInt32)
  | i2cProbe
  | ioInput (index : UInt32)
  | ioOutput (index : UInt32) (status : Bool)
  | ioIrq (extIntNum : UInt32)
  | irqEnable (irq : Int32)
  | irqDisable (irq : Int32)
  | displayInitFbi
  | colorDegree (fbId : UInt32)
  | keyReport (key : Key) (type : UInt32)
  | socBlSet (bl : UInt32)
  | socAdRead (ch : UInt32)
  | ioUartSend (delay : UInt32) (text : List UInt8)
  | k2uWrite (cmd : UInt32)
  | callUsermodehelper (argv : List (List UInt8))
  | fileserver (threadCount cmd cmdPara : Int32)
  | traceMsgDisable
  | memLogDump
  | ueventDbg
  | lidbgUeventShell (shellCmd : List UInt8)
deriving DecidableEq

/-- A handler, with its `argc` and `argv`. -/
abbrev Handler := Nat → (Nat → Option (List UInt8)) → Option (List Call)

/-- A slot that is looked at only if there are that many words. -/
def optional (argc : Nat) (argv : Nat → Option (List UInt8)) (i : Nat) :
    Option (Option (List UInt8)) :=
  if argc > i then (argv i).map some else some none

/-- `lidbg_wakelock_stat`. -/
def lidbgWakelockStat : Handler := fun argc argv =>
  if argc < 5 then some []
  else do
    let action ← argv 0
    let type ← argv 1
    let pid ← argv 2
    let uid ← argv 3
    let name ← argv 4
    let package ← optional argc argv 5
    let isCount := decide (type = ascii "count")
    if action = ascii "lock" then
      some [.registerWakelock isCount name package (strtoulInt pid) (strtoulInt uid)]
    else if action = ascii "unlock" then some [.unregisterWakelock name]
    else if action = ascii "show" then some [.lidbgShowWakelock]
    else if action = ascii "dbg" then some [.startWlDbgThread type]
    else some []

/-- `lidbg_mem_main`. -/
def lidbgMemMain : Handler := fun argc argv =>
  if argc < 3 then some []
  else do
    let cmd ← argv 0
    if cmd = ascii "r" then
      let addr ← argv 2
      let mun ← argv 3
      -- `while(mun)` looks at the second word
      if strtoulU32 mun = 0 then some []
      else
        let s ← argv 1
        some [.readAddr (space s) (strtoulU32 addr) (strtoulU32 mun)]
    else if cmd = ascii "w" then
      let addr ← argv 2
      let val ← argv 3
      let s ← argv 1
      some ((space s).map fun sp => .writeAddr sp (strtoulU32 addr) (strtoulU32 val)).toList
    else if cmd = ascii "wb" then
      let addr ← argv 2
      let offset ← argv 3
      let bitmun ← argv 4
      let val ← argv 5
      let s ← argv 1
      some ((space s).map fun sp => .writeAddrBit sp (strtoulU32 offset) (strtoulU32 bitmun)
        (strtoulU32 addr) (strtoulU32 val)).toList
    else if cmd = ascii "rb" then
      let addr ← argv 2
      let offset ← argv 3
      let bitmun ← argv 4
      let s ← argv 1
      some [.readAddrBit (space s) (strtoulU32 offset) (strtoulU32 bitmun) (strtoulU32 addr)]
    else some []

/-- The bytes `mod_i2c_main` sends, from the fifth word on. -/
def sendData (argv : Nat → Option (List UInt8)) : Nat → Nat → Option (List UInt8)
  | _, 0 => some []
  | i, num + 1 => do
    let word ← argv (i + 4)
    let rest ← sendData argv (i + 1) num
    some (UInt8.ofNat (simpleStrtoul word) :: rest)

/-- `mod_i2c_main`. -/
def modI2cMain : Handler := fun argc argv =>
  if argc < 1 then some []
  else do
    let cmd ← argv 0
    if cmd = ascii "w" then
      let busId ← argv 1
      let devAddr ← argv 2
      let num ← argv 3
      -- `argc - 4 < num`, compared as unsigned
      if UInt32.ofInt (argc - 4) < strtoulU32 num then some []
      else
        let data ← sendData argv 0 (strtoulU32 num).toNat
        some [.i2cSend (strtoulU32 busId) (strtoulU32 devAddr) data]
    else if cmd = ascii "r" then
      let busId ← argv 1
      let devAddr ← argv 2
      let startReg ← argv 3
      let num ← argv 4
      some [.i2cRecv (strtoulU32 busId) (strtoulU32 devAddr) (strtoulU32 startReg)
        (strtoulU32 num)]
    else if cmd = ascii "r_all" then
      let busId ← argv 1
      let devAddr ← argv 2
      let _startReg ← argv 3
      let num ← argv 4
      some [.i2cRecvEach (strtoulU32 busId) (strtoulU32 devAddr) (strtoulU32 num)]
    else if cmd = ascii "r_mult_sub_addr" then
      let busId ← argv 1
      let devAddr ← argv 2
      let subAddrBytes ← argv 3
      let startReg ← argv 4
      let num ← argv 5
      if strtoulU32 subAddrBytes = 2 ∨ strtoulU32 subAddrBytes = 3 then
        some [.i2cRecvSubAddr (strtoulU32 subAddrBytes) (strtoulU32 busId) (strtoulU32 devAddr)
          (strtoulU32 startReg) (strtoulU32 num)]
      else some []
    else if cmd = ascii "probe" then some [.i2cProbe]
    else some []

/-- `mod_io_main`. -/
def modIoMain : Handler := fun argc argv =>
  if argc < 2 then some []
  else do
    let cmd ← argv 0
    if cmd = ascii "r" then
      let index ← argv 1
      some [.ioInput (strtoulU32 index)]
    else if cmd = ascii "w" then
      if argc < 3 then some []
      else
        let index ← argv 1
        let status ← argv 2
        some [.ioOutput (strtoulU32 index) (strtoulU32 status ≠ 0)]
    else if cmd = ascii "i" then
      let sub ← argv 1
      if sub = ascii "request" then
        let extIntNum ← argv 2
        some [.ioIrq (strtoulU32 extIntNum)]
      else if sub = ascii "enable" then
        let irq ← argv 2
        some [.irqEnable (strtoulInt irq)]
      else if sub = ascii "disable" then
        let irq ← argv 2
        some [.irqDisable (strtoulInt irq)]
      else some []
    else some []

/-- `lidbg_display_main`. -/
def lidbgDisplayMain : Handler := fun argc argv =>
  if argc < 2 then some []
  else do
    let fbId ← argv 1
    let cmd ← argv 0
    if cmd = ascii "color_degree" then some [.displayInitFbi, .colorDegree (strtoulU32 fbId)]
    else some [.displayInitFbi]

/-- The names `lidbg_key_main` compares with, in its order. -/
def keyNames : List (List UInt8 × Key) :=
  [(ascii "home", .home), (ascii "back", .back), (ascii "up", .up), (ascii "down", .down),
    (ascii "menu", .menu), (ascii "right", .right), (ascii "left", .left),
    (ascii "voldown", .volumedown), (ascii "volup", .volumeup), (ascii "pause", .pause),
    (ascii "mute", .mute), (ascii "sleep", .sleep), (ascii "power", .power),
    (ascii "enter", .enter), (ascii "end", .endKey)]

/-- `lidbg_key_main`. -/
def lidbgKeyMain : Handler := fun argc argv =>
  if argc < 2 then some []
  else do
    let type ← argv 1
    let name ← argv 0
    some [.keyReport ((keyNames.lookup name).getD (.code (strtoulU32 name))) (strtoulU32 type)]

/-- `lidbg_touch_main`: the report of the touch is commented out. -/
def lidbgTouchMain : Handler := fun argc argv =>
  if argc < 2 then some []
  else do
    let _x ← argv 0
    let _y ← argv 1
    let _num ← argv 2
    some []

/-- The boards, each with its own `lidbg_soc_main`. -/
inductive Soc where
  | msm8x25
  | msm8x26
  | msm8x60
deriving DecidableEq

/-- `lidbg_soc_main` of `soc/msm8x25` and `soc/msm8x26`. -/
def lidbgSocMain : Handler := fun argc argv =>
  if argc < 1 then some []
  else do
    let cmd ← argv 0
    if cmd = ascii "bl" then
      let bl ← argv 1
      some [.socBlSet (strtoulU32 bl)]
    else if cmd = ascii "ad" then
      let ch ← argv 1
      some [.socAdRead (strtoulU32 ch)]
    else some []

/-- `lidbg_soc_main` of `soc/msm8x60`. -/
def lidbgSocMain8x60 : Handler := fun _argc _argv => some []

/-- `lidbg_uart_main`. -/
def lidbgUartMain : Handler := fun _argc argv => do
  let cmd ← argv 0
  if cmd = ascii "io_w" then
    let delay ← argv 1
    let text ← argv 2
    some [.ioUartSend (strtoulU32 delay) text]
  else some []

/-- `lidbg_servicer_main`: both branches of its `strcmp` are commented out. -/
def lidbgServicerMain : Handler := fun _argc argv => do
  let _cmd ← argv 0
  some [.k2uWrite 0]

/-- `mod_cmn_main`. -/
def modCmnMain : Handler := fun argc argv => do
  let cmd ← argv 0
  if cmd = ascii "user" then
    if argc < 2 then some []
    else
      let path ← argv 1
      let argv1 ← argv 2
      let argv2 ← argv 3
      let argv3 ← argv 4
      some [.callUsermodehelper [path, argv1, argv2, argv3]]
  else some []

/-- `lidbg_fileserver_main` up to its `switch`. -/
def lidbgFileserverMain : Handler := fun argc argv =>
  if argc < 3 then some []
  else do
    let threadCount ← argv 0
    let cmd ← argv 1
    let cmdPara ← argv 2
    some [.fileserver (strtoulInt threadCount) (strtoulInt cmd) (strtoulInt cmdPara)]

/-- `trace_msg_main`. -/
def traceMsgMain : Handler := fun _argc argv => do
  let cmd ← argv 0
  if cmd = ascii "disable" then some [.traceMsgDisable] else some []

/-- `mem_log_main`. -/
def memLogMain : Handler := fun _argc argv => do
  let cmd ← argv 0
  if cmd = ascii "dump" then some [.memLogDump] else some []

/-- `lidbg_uevent_main`. -/
def lidbgUeventMain : Handler := fun _argc argv => do
  let cmd ← argv 0
  if cmd = ascii "dbg" then some [.ueventDbg]
  else if cmd = ascii "uevent" then
    let shellCmd ← argv 1
    some [.lidbgUeventShell shellCmd]
  else some []

/-! ## How many words a handler reads -/

/-- The number that a table has for a word. -/
def needed (word : Option (List UInt8)) (table : List (List UInt8 × Nat)) (other : Nat) : Nat :=
  (word.bind fun w => table.lookup w).getD other

def memNeeds (args : List (List UInt8)) : Nat :=
  if args.length < 3 then 0
  else needed args[0]? [(ascii "r", 4), (ascii "w", 4), (ascii "wb", 6), (ascii "rb", 5)] 0

def i2cNeeds (args : List (List UInt8)) : Nat :=
  needed args[0]?
    [(ascii "w", 4), (ascii "r", 5), (ascii "r_all", 5), (ascii "r_mult_sub_addr", 6)] 0

def ioNeeds (args : List (List UInt8)) : Nat :=
  if args[0]? = some (ascii "i") then
    needed args[1]? [(ascii "request", 3), (ascii "enable", 3), (ascii "disable", 3)] 0
  else 0

def touchNeeds (args : List (List UInt8)) : Nat :=
  if args.length < 2 then 0 else 3

def socNeeds (args : List (List UInt8)) : Nat :=
  needed args[0]? [(ascii "bl", 2), (ascii "ad", 2)] 0

def uartNeeds (args : List (List UInt8)) : Nat :=
  needed args[0]? [(ascii "io_w", 3)] 1

def cmnNeeds (args : List (List UInt8)) : Nat :=
  if args.length < 2 then 1 else needed args[0]? [(ascii "user", 5)] 1

def ueventNeeds (args : List (List UInt8)) : Nat :=
  needed args[0]? [(ascii "dbg", 1), (ascii "uevent", 2)] 1

/-- A handler never reads behind its words exactly when there are as many as
`needs` says. -/
def Reads (func : Handler) (needs : List (List UInt8) → Nat) : Prop :=
  ∀ args : List (List UInt8),
    (func args.length fun i => args[i]?).isSome ↔ needs args ≤ args.length

@[simp] theorem needed_none (table : List (List UInt8 × Nat)) (other : Nat) :
    needed none table other = other := rfl

@[simp] theorem needed_nil (word : Option (List UInt8)) (other : Nat) :
    needed word [] other = other := by
  cases word <;> rfl

@[simp] theorem needed_cons (word w : List UInt8) (n : Nat) (table : List (List UInt8 × Nat))
    (other : Nat) : needed (some word) ((w, n) :: table) other =
      if word = w then n else needed (some word) table other := by
  unfold needed
  rw [Option.bind_some, Option.bind_some, List.lookup_cons]
  split_ifs with h
  · rw [beq_iff_eq.mpr h]
    rfl
  · rw [beq_false_of_ne h]

variable {β : Type} {args : List (List UInt8)}

/-- One word read. -/
theorem isSome_read {i : Nat} {f : List UInt8 → Option β} {p : Prop}
    (hf : ∀ a, (f a).isSome ↔ p) : (args[i]?.bind f).isSome ↔ i < args.length ∧ p := by
  by_cases hi : i < args.length
  · rw [List.getElem?_eq_getElem hi, Option.bind_some, hf]
    exact (and_iff_right hi).symm
  · rw [List.getElem?_eq_none (Nat.le_of_not_lt hi)]
    exact iff_of_false Bool.false_ne_true fun h => hi h.1

/-- The last word read. -/
theorem isSome_read_last {i : Nat} {f : List UInt8 → Option β}
    (hf : i < args.length → ∀ a, (f a).isSome) : (args[i]?.bind f).isSome ↔ i < args.length := by
  by_cases hi : i < args.length
  · exact (isSome_read fun a => iff_of_true (hf hi a) trivial).trans (and_iff_left trivial)
  · rw [List.getElem?_eq_none (Nat.le_of_not_lt hi)]
    exact iff_of_false Bool.false_ne_true hi

theorem exists_getElem? {i : Nat} (hi : i < args.length) : ∃ a, args[i]? = some a :=
  ⟨args[i], List.getElem?_eq_getElem hi⟩

theorem optional_eq_some (i : Nat) :
    ∃ word, optional args.length (fun i => args[i]?) i = some word := by
  unfold optional
  split_ifs with hi
  · obtain ⟨word, hword⟩ := exists_getElem? hi
    exact ⟨some word, congrArg (Option.map some) hword⟩
  · exact ⟨none, rfl⟩

theorem lidbgWakelockStat_reads : Reads lidbgWakelockStat fun _ => 0 := by
  intro args
  refine iff_of_true ?_ (Nat.zero_le _)
  unfold lidbgWakelockStat
  split_ifs with hargc
  · rfl
  · obtain ⟨package, hpackage⟩ : ∃ package, optional args.length (fun i => args[i]?) 5 =
        some package := optional_eq_some 5
    rw [hpackage]
    refine (isSome_read fun _ => isSome_read fun _ => isSome_read fun _ => isSome_read fun _ =>
      isSome_read_last fun _ _ => ?_).mpr (by omega)
    dsimp only [Option.bind_eq_bind, Option.bind_some]
    split_ifs <;> rfl

theorem lidbgMemMain_reads : Reads lidbgMemMain memNeeds := by
  intro args
  unfold lidbgMemMain memNeeds
  split_ifs with hargc
  · exact iff_of_true rfl (Nat.zero_le _)
  · obtain ⟨cmd, hcmd⟩ := exists_getElem? (show 0 < args.length by omega)
    simp only [hcmd, Option.bind_eq_bind, Option.bind_some, needed_cons, needed_nil]
    split_ifs
    · refine (isSome_read fun _ => isSome_read_last fun _ mun => ?_).trans (by omega)
      split_ifs
      · rfl
      · exact (isSome_read_last fun _ _ => rfl).mpr (by omega)
    · exact (isSome_read fun _ => isSome_read fun _ => isSome_read_last fun _ _ => rfl).trans
        (by omega)
    · exact (isSome_read fun _ => isSome_read fun _ => isSome_read fun _ => isSome_read fun _ =>
        isSome_read_last fun _ _ => rfl).trans (by omega)
    · exact (isSome_read fun _ => isSome_read fun _ => isSome_read fun _ =>
        isSome_read_last fun _ _ => rfl).trans (by omega)
    · exact iff_of_true rfl (Nat.zero_le _)

/-- The data words, as far as there are as many as asked for. -/
theorem sendData_isSome {i num : Nat} (h : i + num + 4 ≤ args.length) :
    (sendData (fun i => args[i]?) i num).isSome := by
  induction num generalizing i with
  | zero => rfl
  | succ num ih =>
    refine (isSome_read_last fun _ _ => ?_).mpr (by omega)
    obtain ⟨rest, hrest⟩ := Option.isSome_iff_exists.mp (ih (i := i + 1) (by omega))
    rw [hrest]
    rfl

theorem modI2cMain_reads : Reads modI2cMain i2cNeeds := by
  intro args
  unfold modI2cMain i2cNeeds
  split_ifs with hargc
  · rw [List.getElem?_eq_none (by omega)]
    exact iff_of_true rfl (Nat.zero_le _)
  · obtain ⟨cmd, hcmd⟩ := exists_getElem? (show 0 < args.length by omega)
    simp only [hcmd, Option.bind_eq_bind, Option.bind_some, needed_cons, needed_nil]
    split_ifs
    · refine (isSome_read fun _ => isSome_read fun _ => isSome_read_last fun hlen num => ?_).trans
        (by omega)
      split_ifs with hnum
      · rfl
      · -- the number of data words, as the unsigned comparison bounds it
        have hle : (strtoulU32 num).toNat ≤ (UInt32.ofInt (args.length - 4)).toNat :=
          UInt32.le_iff_toNat_le.mp (UInt32.not_lt.mp hnum)
        have hcount : (UInt32.ofInt (args.length - 4)).toNat ≤ args.length - 4 := by
          rw [UInt32.ofInt, UInt32.toNat_ofNat']
          omega
        obtain ⟨data, hdata⟩ := Option.isSome_iff_exists.mp
          (sendData_isSome (show 0 + (strtoulU32 num).toNat + 4 ≤ args.length by omega))
        rw [hdata]
        rfl
    · exact (isSome_read fun _ => isSome_read fun _ => isSome_read fun _ =>
        isSome_read_last fun _ _ => rfl).trans (by omega)
    · exact (isSome_read fun _ => isSome_read fun _ => isSome_read fun _ =>
        isSome_read_last fun _ _ => rfl).trans (by omega)
    · refine (isSome_read fun _ => isSome_read fun _ => isSome_read fun _ => isSome_read fun _ =>
        isSome_read_last fun _ _ => ?_).trans (by omega)
      split_ifs <;> rfl
    · exact iff_of_true rfl (Nat.zero_le _)
    · exact iff_of_true rfl (Nat.zero_le _)

theorem modIoMain_reads : Reads modIoMain ioNeeds := by
  intro args
  unfold modIoMain ioNeeds
  by_cases hargc : args.length < 2
  · rw [if_pos hargc, List.getElem?_eq_none (Nat.le_of_lt_succ hargc)]
    split_ifs <;> exact iff_of_true rfl (Nat.zero_le _)
  · obtain ⟨cmd, hcmd⟩ := exists_getElem? (show 0 < args.length by omega)
    obtain ⟨sub, hsub⟩ := exists_getElem? (show 1 < args.length by omega)
    simp only [hcmd, hsub, if_neg hargc, Option.bind_eq_bind, Option.bind_some, needed_cons,
      needed_nil, Option.some_inj]
    by_cases hi : cmd = ascii "i"
    · subst hi
      rw [if_neg (by decide), if_neg (by decide), if_pos rfl, if_pos rfl]
      split_ifs
      · exact (isSome_read_last fun _ _ => rfl).trans (by omega)
      · exact (isSome_read_last fun _ _ => rfl).trans (by omega)
      · exact (isSome_read_last fun _ _ => rfl).trans (by omega)
      · exact iff_of_true rfl (Nat.zero_le _)
    · refine iff_of_true ?_ (by rw [if_neg hi]; exact Nat.zero_le _)
      split_ifs with hr hw hlen
      · rfl
      · rfl
      · exact (isSome_read_last fun _ _ => rfl).mpr (by omega)
      · rfl

theorem lidbgDisplayMain_reads : Reads lidbgDisplayMain fun _ => 0 := by
  intro args
  refine iff_of_true ?_ (Nat.zero_le _)
  unfold lidbgDisplayMain
  split_ifs with hargc
  · rfl
  · refine (isSome_read fun _ => isSome_read_last fun _ _ => ?_).mpr (by omega)
    split_ifs <;> rfl

theorem lidbgKeyMain_reads : Reads lidbgKeyMain fun _ => 0 := by
  intro args
  refine iff_of_true ?_ (Nat.zero_le _)
  unfold lidbgKeyMain
  split_ifs with hargc
  · rfl
  · exact (isSome_read fun _ => isSome_read_last fun _ _ => rfl).mpr (by omega)

theorem lidbgTouchMain_reads : Reads lidbgTouchMain touchNeeds := by
  intro args
  unfold lidbgTouchMain touchNeeds
  split_ifs with hargc
  · exact iff_of_true rfl (Nat.zero_le _)
  · exact (isSome_read fun _ => isSome_read fun _ => isSome_read_last fun _ _ => rfl).trans
      (by omega)

theorem lidbgSocMain_reads : Reads lidbgSocMain socNeeds := by
  intro args
  unfold lidbgSocMain socNeeds
  split_ifs with hargc
  · rw [List.getElem?_eq_none (by omega)]
    exact iff_of_true rfl (Nat.zero_le _)
  · obtain ⟨cmd, hcmd⟩ := exists_getElem? (show 0 < args.length by omega)
    simp only [hcmd, Option.bind_eq_bind, Option.bind_some, needed_cons, needed_nil]
    split_ifs
    · exact (isSome_read_last fun _ _ => rfl).trans (by omega)
    · exact (isSome_read_last fun _ _ => rfl).trans (by omega)
    · exact iff_of_true rfl (Nat.zero_le _)

theorem lidbgSocMain8x60_reads : Reads lidbgSocMain8x60 fun _ => 0 := by
  intro args
  exact iff_of_true rfl (Nat.zero_le _)

/-- A handler that compares its first word without a look at `argc`. -/
theorem reads_of_first {func : Handler} {needs : List (List UInt8) → Nat}
    (hnil : needs [] = 1) (hfunc : func 0 (fun _ => none) = none)
    (hcons : ∀ cmd args, (func (args.length + 1) fun i => (cmd :: args)[i]?).isSome ↔
      needs (cmd :: args) ≤ args.length + 1) : Reads func needs := by
  rintro (_ | ⟨cmd, args⟩)
  · have hnone : (fun i : Nat => ([] : List (List UInt8))[i]?) = fun _ => none := by
      funext i
      exact List.getElem?_nil
    rw [hnone, List.length_nil, hfunc, hnil]
    exact iff_of_false Bool.false_ne_true (Nat.not_succ_le_zero 0)
  · exact hcons cmd args

theorem lidbgUartMain_reads : Reads lidbgUartMain uartNeeds := by
  refine reads_of_first rfl rfl fun cmd args => ?_
  simp only [lidbgUartMain, uartNeeds, List.getElem?_cons_zero, Option.bind_eq_bind,
    Option.bind_some, needed_cons, needed_nil]
  split_ifs
  · exact (isSome_read fun _ => isSome_read_last fun _ _ => rfl).trans
      (by rw [List.length_cons]; omega)
  · exact iff_of_true rfl (Nat.le_add_left 1 _)

theorem lidbgServicerMain_reads : Reads lidbgServicerMain fun _ => 1 :=
  reads_of_first rfl rfl fun _ args => iff_of_true rfl (Nat.le_add_left 1 args.length)

theorem modCmnMain_reads : Reads modCmnMain cmnNeeds := by
  refine reads_of_first rfl rfl fun cmd args => ?_
  simp only [modCmnMain, cmnNeeds, List.getElem?_cons_zero, Option.bind_eq_bind,
    Option.bind_some, needed_cons, needed_nil, List.length_cons]
  split_ifs with huser hargc
  · exact iff_of_true rfl (Nat.le_add_left 1 _)
  · exact (isSome_read fun _ => isSome_read fun _ => isSome_read fun _ =>
      isSome_read_last fun _ _ => rfl).trans (by rw [List.length_cons]; omega)
  · exact iff_of_true rfl (Nat.le_add_left 1 _)
  · exact iff_of_true rfl (Nat.le_add_left 1 _)

theorem lidbgFileserverMain_reads : Reads lidbgFileserverMain fun _ => 0 := by
  intro args
  refine iff_of_true ?_ (Nat.zero_le _)
  unfold lidbgFileserverMain
  split_ifs with hargc
  · rfl
  · exact (isSome_read fun _ => isSome_read fun _ => isSome_read_last fun _ _ => rfl).mpr (by omega)

theorem traceMsgMain_reads : Reads traceMsgMain fun _ => 1 := by
  refine reads_of_first rfl rfl fun cmd args => iff_of_true ?_ (Nat.le_add_left 1 args.length)
  simp only [traceMsgMain, List.getElem?_cons_zero, Option.bind_eq_bind, Option.bind_some]
  split_ifs <;> rfl

theorem memLogMain_reads : Reads memLogMain fun _ => 1 := by
  refine reads_of_first rfl rfl fun cmd args => iff_of_true ?_ (Nat.le_add_left 1 args.length)
  simp only [memLogMain, List.getElem?_cons_zero, Option.bind_eq_bind, Option.bind_some]
  split_ifs <;> rfl

theorem lidbgUeventMain_reads : Reads lidbgUeventMain ueventNeeds := by
  refine reads_of_first rfl rfl fun cmd args => ?_
  simp only [lidbgUeventMain, ueventNeeds, List.getElem?_cons_zero, Option.bind_eq_bind,
    Option.bind_some, needed_cons, needed_nil]
  split_ifs
  · exact iff_of_true rfl (Nat.le_add_left 1 _)
  · exact (isSome_read_last fun _ _ => rfl).trans (by rw [List.length_cons]; omega)
  · exact iff_of_true rfl (Nat.le_add_left 1 _)

end Lidbg.CmdHandlers
