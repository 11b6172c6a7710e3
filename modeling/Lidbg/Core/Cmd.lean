import Lidbg.Core.Cmn
import Lidbg.Core.CmdHandlers
import Mathlib.Data.List.Forall2

/-!
# Commands written to `/dev/mlidbg0` (`core/lidbg_cmd.c`)

`parse_cmd` cuts what was written into words, at most thirty-two of them, and
gives the words behind `c` and a name to the handler of that name. It does not
look at how many words are left: that is up to the handler.
-/

namespace Lidbg.Cmd

open Machine Cmn CmdHandlers

/-- `lidbg_cmd_item`. The entry of `uevent` is compiled out where
`USE_CALL_USERHELPER` is defined, that is on `msm8x25`. -/
def lidbgCmdItem (soc : Soc) : List (List UInt8 × Handler) :=
  [(ascii "wakelock", lidbgWakelockStat),
    (ascii "mem", lidbgMemMain),
    (ascii "i2c", modI2cMain),
    (ascii "io", modIoMain),
    (ascii "display", lidbgDisplayMain),
    (ascii "key", lidbgKeyMain),
    (ascii "touch", lidbgTouchMain),
    (ascii "soc", if soc = .msm8x60 then lidbgSocMain8x60 else lidbgSocMain),
    (ascii "uart", lidbgUartMain),
    (ascii "servicer", lidbgServicerMain),
    (ascii "cmm", modCmnMain),
    (ascii "file", lidbgFileserverMain),
    (ascii "trace_msg", traceMsgMain),
    (ascii "mem_log", memLogMain)] ++
  if soc = .msm8x25 then [] else [(ascii "uevent", lidbgUeventMain)]

/-- The slots of `argv` that a handler may read. -/
def argvOf (argc : Nat) (argv : List (Option (List UInt8))) : Nat → Option (List UInt8) :=
  fun i => if i < argc then slotStr argv i else none

/-- The `for` loop over the table, up to the first handler of the name. -/
def dispatch (soc : Soc) (cmd : List UInt8) (argc : Nat) (argv : Nat → Option (List UInt8)) :
    Option (List Call) :=
  match (lidbgCmdItem soc).lookup cmd with
  | none => some []
  | some func => func argc argv

/-- `parse_cmd`; `none` if a token does not fit into `argv`, or the handler reads
a slot at or behind its `argc`. -/
def parseCmd (soc : Soc) (pt : List UInt8) : Option (List Call) :=
  match lidbgTokenString (some pt) 32 (List.replicate 32 none) with
  | none => none
  | some (argc, argv) =>
    match slotStr argv 0 with
    | none => none
    | some word =>
      if word = ascii "c" then
        match slotStr argv 1 with
        | none => some []
        | some cmd => dispatch soc cmd (argc - 2) (argvOf (argc - 2) (argv.drop 2))
      else some []

/-- `lidbg_write`, which puts a NUL behind what was written. -/
def lidbgWrite (soc : Soc) (buf : List UInt8) : Option (List Call) :=
  parseCmd soc (buf ++ [0])

/-- How many words the handler of a name reads, from the words it is given. -/
def neededArgc (soc : Soc) : List (List UInt8 × (List (List UInt8) → Nat)) :=
  [(ascii "wakelock", fun _ => 0),
    (ascii "mem", memNeeds),
    (ascii "i2c", i2cNeeds),
    (ascii "io", ioNeeds),
    (ascii "display", fun _ => 0),
    (ascii "key", fun _ => 0),
    (ascii "touch", touchNeeds),
    (ascii "soc", if soc = .msm8x60 then fun _ => 0 else socNeeds),
    (ascii "uart", uartNeeds),
    (ascii "servicer", fun _ => 1),
    (ascii "cmm", cmnNeeds),
    (ascii "file", fun _ => 0),
    (ascii "trace_msg", fun _ => 1),
    (ascii "mem_log", fun _ => 1)] ++
  if soc = .msm8x25 then [] else [(ascii "uevent", ueventNeeds)]

/-- The words of a line suffice for the handler they select. -/
def Enough (soc : Soc) : List (List UInt8) → Prop
  | word :: cmd :: args =>
    word = ascii "c" → ∀ needs, (neededArgc soc).lookup cmd = some needs → needs args ≤ args.length
  | _ => True

/-- A name's handler and what it reads stand at the same place. -/
def SameEntry (item : List UInt8 × Handler) (need : List UInt8 × (List (List UInt8) → Nat)) :
    Prop :=
  item.1 = need.1 ∧ Reads item.2 need.2

theorem items_needs (soc : Soc) : List.Forall₂ SameEntry (lidbgCmdItem soc) (neededArgc soc) := by
  have hsoc : Reads (if soc = .msm8x60 then lidbgSocMain8x60 else lidbgSocMain)
      (if soc = .msm8x60 then fun _ => 0 else socNeeds) := by
    split_ifs
    · exact lidbgSocMain8x60_reads
    · exact lidbgSocMain_reads
  have huevent : List.Forall₂ SameEntry
      (if soc = .msm8x25 then [] else [(ascii "uevent", lidbgUeventMain)])
      (if soc = .msm8x25 then [] else [(ascii "uevent", ueventNeeds)]) := by
    split_ifs
    · exact .nil
    · exact .cons ⟨rfl, lidbgUeventMain_reads⟩ .nil
  exact .cons ⟨rfl, lidbgWakelockStat_reads⟩ <| .cons ⟨rfl, lidbgMemMain_reads⟩ <|
    .cons ⟨rfl, modI2cMain_reads⟩ <| .cons ⟨rfl, modIoMain_reads⟩ <|
    .cons ⟨rfl, lidbgDisplayMain_reads⟩ <| .cons ⟨rfl, lidbgKeyMain_reads⟩ <|
    .cons ⟨rfl, lidbgTouchMain_reads⟩ <| .cons ⟨rfl, hsoc⟩ <|
    .cons ⟨rfl, lidbgUartMain_reads⟩ <| .cons ⟨rfl, lidbgServicerMain_reads⟩ <|
    .cons ⟨rfl, modCmnMain_reads⟩ <| .cons ⟨rfl, lidbgFileserverMain_reads⟩ <|
    .cons ⟨rfl, traceMsgMain_reads⟩ <| .cons ⟨rfl, memLogMain_reads⟩ huevent

theorem lookup_cases {items : List (List UInt8 × Handler)}
    {table : List (List UInt8 × (List (List UInt8) → Nat))}
    (h : List.Forall₂ SameEntry items table) (cmd : List UInt8) :
    (items.lookup cmd = none ∧ table.lookup cmd = none) ∨
      ∃ func needs, items.lookup cmd = some func ∧ table.lookup cmd = some needs ∧
        Reads func needs := by
  induction h with
  | nil => exact .inl ⟨rfl, rfl⟩
  | @cons item need items table hentry _ ih =>
    obtain ⟨name, func⟩ := item
    obtain ⟨name', needs⟩ := need
    obtain ⟨rfl, hreads⟩ := hentry
    rw [List.lookup_cons, List.lookup_cons]
    cases cmd == name with
    | true => exact .inr ⟨func, needs, rfl, rfl, hreads⟩
    | false => exact ih

/-- The words behind `c` and the name, as the handler sees them. -/
theorem argvOf_drop {words : List (List UInt8)} {argv : List (Option (List UInt8))}
    (hargv : slotStr argv = fun i => words[i]?) :
    argvOf (words.length - 2) (argv.drop 2) = fun i => (words.drop 2)[i]? := by
  funext i
  have hslot : slotStr (argv.drop 2) i = words[2 + i]? := by
    rw [slotStr, List.getElem?_drop]
    exact congrFun hargv (2 + i)
  rw [argvOf, hslot, List.getElem?_drop]
  split_ifs with hi
  · rfl
  · exact (List.getElem?_eq_none (by omega)).symm

/-- The words of a line, in `argv` if they fit. -/
theorem lidbgTokenString_argv {text : List UInt8} (htext : 0 ∉ text) (rest : List UInt8) :
    ∃ argv : List (Option (List UInt8)), (slotStr argv = fun i => (text.splitOn 32)[i]?) ∧
      lidbgTokenString (some (text ++ 0 :: rest)) 32 (List.replicate 32 none) =
        if (text.splitOn 32).length ≤ 32 then some ((text.splitOn 32).length, argv) else none := by
  obtain ⟨tokens, hpieces, -, hstored⟩ := lidbgTokenString_eq (by decide : (32 : UInt8) ≠ 0)
    htext rest (List.replicate 32 none)
  rw [List.length_replicate] at hstored
  refine ⟨_, ?_, by rw [hstored, ← hpieces, List.length_map]⟩
  rw [slotStr_stored, slotStr_nulls, hpieces]
  funext i
  exact Option.or_none

/-- The handler that the words select reads no more of them than there are. -/
theorem dispatch_isSome_iff (soc : Soc) (cmd : List UInt8) (args : List (List UInt8)) :
    (dispatch soc cmd args.length fun i => args[i]?).isSome ↔
      ∀ needs, (neededArgc soc).lookup cmd = some needs → needs args ≤ args.length := by
  rcases lookup_cases (items_needs soc) cmd with
    ⟨hitem, hneed⟩ | ⟨func, needs, hitem, hneed, hreads⟩
  · rw [dispatch, hitem, hneed]
    exact iff_of_true rfl fun _ h => by cases h
  · rw [dispatch, hitem, hneed]
    refine (hreads args).trans ⟨fun h needs' heq => ?_, fun h => h needs rfl⟩
    cases heq
    exact h

/-- The words of a line select a handler that has those it reads. -/
theorem parseCmd_isSome_iff (soc : Soc) {text : List UInt8} (htext : 0 ∉ text)
    (rest : List UInt8) :
    (parseCmd soc (text ++ 0 :: rest)).isSome ↔
      (text.splitOn 32).length ≤ 32 ∧ Enough soc (text.splitOn 32) := by
  obtain ⟨argv, hargv, hstored⟩ := lidbgTokenString_argv htext rest
  rw [parseCmd, hstored]
  by_cases hfit : (text.splitOn 32).length ≤ 32
  · rw [if_pos hfit, and_iff_right hfit]
    dsimp only
    have hrest := argvOf_drop hargv
    have hne := List.splitOn_ne_nil 32 text
    rw [hargv, hrest]
    clear hstored hargv hrest hfit
    generalize text.splitOn 32 = words at hne ⊢
    -- a line without a second word selects no handler
    rcases words with _ | ⟨word, _ | ⟨cmd, args⟩⟩
    · exact absurd rfl hne
    · refine iff_of_true ?_ trivial
      dsimp only [List.getElem?_cons_zero]
      split_ifs <;> rfl
    · dsimp only [List.getElem?_cons_zero, List.getElem?_cons_succ, Enough]
      split_ifs with hword
      · exact (dispatch_isSome_iff soc cmd args).trans ⟨fun h _ => h, fun h => h hword⟩
      · exact iff_of_true rfl fun h => absurd h hword
  · rw [if_neg hfit]
    exact iff_of_false Bool.false_ne_true fun h => hfit h.1

/-- **Dispatch** neither overruns `argv` nor reads behind `argc` if and only if
there are at most thirty-two words and the handler has those it reads. -/
theorem lidbgWrite_isSome_iff (soc : Soc) (buf : List UInt8) :
    (lidbgWrite soc buf).isSome ↔
      ((cstr buf).splitOn 32).length ≤ 32 ∧ Enough soc ((cstr buf).splitOn 32) := by
  obtain ⟨text, rest, htext, hbuf⟩ | hnul := exists_str_or_notMem (buf ++ [0])
  · have hcstr : cstr buf = text := by
      rw [← cstr_append_nul_cons buf [], hbuf, cstr_append_nul htext]
    rw [lidbgWrite, hbuf, hcstr]
    exact parseCmd_isSome_iff soc htext rest
  · exact absurd (List.mem_append_right buf List.mem_cons_self) hnul

/-- `mem r` reads a fourth word that its check of `argc` does not ask for, and a
line of thirty-two spaces has a thirty-third word. -/
theorem lidbgWrite_overreads :
    ¬ (lidbgWrite .msm8x26 (ascii "c mem r phy 1")).isSome ∧
    ¬ (lidbgWrite .msm8x26 (List.replicate 32 32)).isSome := by
  constructor <;> decide

end Lidbg.Cmd
