import Lidbg.Core.FsCmn
import Lidbg.Core.MemLog
import Lidbg.Machine.Loop

/-!
# Copying files (`copy_file` and `cp_data_to_udisk`, `core/lidbg_fs_cmn.c`)

`copy_file` says that it succeeded once both files are open and there is memory for
the contents; whether the read and the write were complete is not looked at.
`cp_data_to_udisk` copies the registered log files into a new directory on the USB
disk, each under the last part of its name, and then removes those that are marked,
whatever became of their copies.

A path names one file. What the system does in a call (whether it opens, allocates,
removes, how much it reads and writes) is a parameter of the call.
-/

namespace Lidbg.FsCopy

open Machine FsCmn
open MemLog (RtcTime)

abbrev Path : Type := List UInt8

/-- The files that there are, by their paths. -/
abbrev Files : Type := Path → Option (List UInt8)

/-- What the system does in one `copy_file`: the first open of the target, the
`lidbg_rm` and the second open after a failure, the `kmalloc`, the bytes read, what
the allocated memory held, and the bytes written. -/
structure CopyIo where
  opened : Bool
  removed : Bool
  reopened : Bool
  allocated : Bool
  readLen : Nat
  memory : Nat → UInt8
  written : Nat

/-- `file_len`, an `unsigned int`. -/
def fileLen (content : List UInt8) : Nat := content.length % 2 ^ 32

/-- `string`, after the read. -/
def readBuffer (io : CopyIo) (content : List UInt8) : List UInt8 :=
  (List.range (fileLen content)).map fun i =>
    if i < io.readLen then content.getD i 0 else io.memory i

/-- `mem_encode` of a buffer, if it is asked for. -/
def encodeIf (signed encode : Bool) (buffer : List UInt8) (length : Int) : List UInt8 :=
  if encode then memEncode signed buffer length 1 else buffer

/-- What is written to the target when both files are open. -/
def writtenBytes (signed encode : Bool) (io : CopyIo) (content : List UInt8) : List UInt8 :=
  if io.allocated then
    (encodeIf signed encode (readBuffer io content) (toInt (fileLen content))).take io.written
  else []

/-- `copy_file`. A target that is the source has been cut to nothing by its own open,
unless the source's name was removed first. -/
def copyFile (signed encode : Bool) (io : CopyIo) (files : Files) (source target : Path) :
    Files × Bool :=
  match files source with
  | none => (files, false)
  | some content =>
    if io.opened then
      let content := if source = target then [] else content
      (Function.update files target (some (writtenBytes signed encode io content)), io.allocated)
    else
      let files := if io.removed then Function.update files target none else files
      if io.reopened then
        let content := if source = target ∧ io.removed = false then [] else content
        (Function.update files target (some (writtenBytes signed encode io content)), io.allocated)
      else (files, false)

/-! ## `cp_data_to_udisk` -/

/-- `'/'`. -/
abbrev slash : UInt8 := 47

/-- `strrchr`: the string from the last `c` on. -/
def strrchr (c : UInt8) : List UInt8 → Option (List UInt8)
  | [] => none
  | b :: s =>
    match strrchr c s with
    | some file => some file
    | none => if b = c then some (b :: s) else none

/-- `lidbg_get_current_time`. -/
def currentTime (tm : RtcTime) : List UInt8 :=
  printInt (tm.tmYear + 1900) ++ ascii "-" ++ printPadded 2 (tm.tmMon + 1) ++ ascii "-" ++
    printPadded 2 tm.tmMday ++ ascii "__" ++ printPadded 2 tm.tmHour ++ ascii "." ++
    printPadded 2 tm.tmMin ++ ascii "." ++ printPadded 2 tm.tmSec

/-- `"/mnt/usbdisk/ID%d-%s"`. -/
def udiskDir (machineId : Int32) (tbuff : List UInt8) : Path :=
  ascii "/mnt/usbdisk/ID" ++ printInt machineId ++ ascii "-" ++ tbuff

/-- An item at its turn: what the system does in its copy, and whether the program that
`lidbg_rm` starts removes the file. -/
structure Turn where
  item : FsFilenameItem
  io : CopyIo
  rmWorks : Bool

/-- `pos->filename`. -/
def Turn.name (t : Turn) : Path := t.item.filename.chars

/-- The file is removed at the end of the turn. -/
def Turn.removes (t : Turn) : Bool := t.item.removeAfterCopy && t.rmWorks

/-- The path that a file is copied to. -/
def targetOf (dir file : Path) : Path := dir ++ slash :: file

/-- The size of `dir` and of `tbuff`. -/
abbrev pathSize : Nat := 128

/-- The body of the loop. -/
def copyTurn (signed encode : Bool) (dir : Path) (files : Files) (t : Turn) : Option Files := do
  let files ←
    match strrchr slash t.name with
    | some file => do
      let tbuff ← sprintf pathSize (targetOf dir file.tail)
      some (copyFile signed encode t.io files t.name tbuff).1
    | none => some files
  some (if t.removes then Function.update files t.name none else files)

/-- `cp_data_to_udisk`; `none` stores behind the end of an array. -/
def cpDataToUdisk (signed encode : Bool) (machineId : Int32) (tm : RtcTime) (files : Files)
    (clientList : List Turn) : Option Files :=
  if clientList = [] then some files
  else do
    let tbuff ← sprintf pathSize (currentTime tm)
    let dir ← sprintf pathSize (udiskDir machineId tbuff)
    clientList.foldlM (copyTurn signed encode dir) files

/-! ## One copy -/

variable {signed encode : Bool}

/-- What a copy leaves at a target that is not its source: `none` if it does not touch
the target, `some none` if it only removes it. -/
def leaves (signed encode : Bool) (io : CopyIo) (content : Option (List UInt8)) :
    Option (Option (List UInt8)) :=
  content.bind fun content =>
    if io.opened ∨ io.reopened then some (some (writtenBytes signed encode io content))
    else if io.removed then some none
    else none

/-- A copy to another file changes only that one, if anything is left there. -/
theorem copyFile_of_ne {source target : Path} (hne : source ≠ target) (io : CopyIo)
    (files : Files) :
    (copyFile signed encode io files source target).1 =
      match leaves signed encode io (files source) with
      | some left => Function.update files target left
      | none => files := by
  unfold copyFile leaves
  cases files source with
  | none => rfl
  | some content =>
    have hsame : ¬ (source = target ∧ io.removed = false) := fun h => hne h.1
    simp only [if_neg hne, if_neg hsame, Option.bind_some]
    cases io.opened with
    | true => rfl
    | false =>
      cases io.reopened with
      | true =>
        cases io.removed with
        | true => exact Function.update_idem ..
        | false => rfl
      | false => cases io.removed <;> rfl

/-! ## Names -/

/-- The last part of a name. -/
def baseName (name : Path) : Path :=
  match strrchr slash name with
  | some file => file.tail
  | none => name

/-- The name is not that of a file in the directory. -/
def Outside (dir name : Path) : Prop :=
  ∀ file, slash ∉ file → name ≠ targetOf dir file

/-- Different files have different targets in a directory. -/
theorem targetOf_inj {dir file file' : Path} (h : targetOf dir file = targetOf dir file') :
    file = file' :=
  (List.cons.inj (List.append_cancel_left h)).2

/-- The last of the characters, if there is one. -/
theorem strrchr_cases (c : UInt8) (s : List UInt8) :
    (c ∉ s ∧ strrchr c s = none) ∨ ∃ file, strrchr c s = some (c :: file) ∧ c ∉ file := by
  induction s with
  | nil => exact .inl ⟨List.not_mem_nil, rfl⟩
  | cons b s ih =>
    rw [strrchr]
    rcases ih with ⟨hmem, hnone⟩ | ⟨file, hsome, hfile⟩
    · rw [hnone]
      by_cases hb : b = c
      · exact .inr ⟨s, by rw [hb]; exact if_pos rfl, hmem⟩
      · exact .inl ⟨List.not_mem_cons_of_ne_of_not_mem (Ne.symm hb) hmem, if_neg hb⟩
    · rw [hsome]
      exact .inr ⟨file, rfl, hfile⟩

/-- The base name has no slash. -/
theorem slash_notMem_baseName (name : Path) : slash ∉ baseName name := by
  unfold baseName
  rcases strrchr_cases slash name with ⟨hmem, hnone⟩ | ⟨file, hsome, hfile⟩
  · rw [hnone]
    exact hmem
  · rw [hsome]
    exact hfile

/-! ## One turn -/

/-- The name in the directory that a turn copies its file to. -/
def Turn.under (t : Turn) : Option Path := (strrchr slash t.name).map List.tail

/-- A turn copies under the base name. -/
theorem Turn.eq_baseName {t : Turn} {file : Path} (h : t.under = some file) :
    file = baseName t.name := by
  unfold Turn.under at h
  unfold baseName
  obtain ⟨r, hr, rfl⟩ := Option.map_eq_some_iff.mp h
  rw [hr]

/-- The path of the copy fits its array. -/
def Turn.Fits (dir : Path) (t : Turn) : Prop :=
  ∀ file ∈ t.under, (targetOf dir file).length < pathSize

/-- The files after a turn, without its copy. -/
def sourcesAfter (files : Files) (t : Turn) : Files :=
  if t.removes then Function.update files t.name none else files

/-- A turn removes its source, if it was told so. -/
theorem sourcesAfter_apply (files : Files) (t : Turn) (name : Path) :
    sourcesAfter files t name =
      if t.removes = true ∧ name = t.name then none else files name := by
  unfold sourcesAfter
  rw [ite_and]
  split_ifs with hremoves hname
  · rw [hname, Function.update_self]
  · rw [Function.update_of_ne hname]
  · rfl

/-- What a turn leaves under a name, from what its source holds. -/
def Turn.leavesUnder (signed encode : Bool) (file : Path) (t : Turn)
    (content : Option (List UInt8)) : Option (Option (List UInt8)) :=
  if t.under = some file then leaves signed encode t.io content else none

/-- A turn copies and removes, where the path of its target fits the buffer. -/
theorem copyTurn_eq (dir : Path) (files : Files) (t : Turn) :
    copyTurn signed encode dir files t =
      match t.under with
      | some file =>
        if (targetOf dir file).length < pathSize then
          some (sourcesAfter (copyFile signed encode t.io files t.name (targetOf dir file)).1 t)
        else none
      | none => some (sourcesAfter files t) := by
  unfold copyTurn Turn.under sprintf sourcesAfter
  cases strrchr slash t.name with
  | none => rfl
  | some file =>
    dsimp only [Option.map_some]
    split_ifs <;> rfl

/-- A turn stays in its buffers exactly if the path fits. -/
theorem isSome_copyTurn (dir : Path) (files : Files) (t : Turn) :
    (copyTurn signed encode dir files t).isSome ↔ t.Fits dir := by
  rw [copyTurn_eq, Turn.Fits]
  cases t.under with
  | none => exact ⟨fun _ file h => absurd h (Option.not_mem_none file), fun _ => rfl⟩
  | some file =>
    dsimp only
    split_ifs with hfits
    · refine ⟨fun _ other h => ?_, fun _ => rfl⟩
      rwa [← Option.mem_some_iff.mp h]
    · exact ⟨fun h => absurd h Bool.false_ne_true, fun h => absurd (h file rfl) hfits⟩

/-- What a turn does, inside and outside the directory. -/
theorem copyTurn_spec {dir : Path} {files files' : Files} {t : Turn} (hout : Outside dir t.name)
    (hstep : copyTurn signed encode dir files t = some files') :
    (∀ file, slash ∉ file → files' (targetOf dir file) =
      (t.leavesUnder signed encode file (files t.name)).getD (files (targetOf dir file))) ∧
    ∀ name, Outside dir name → files' name = sourcesAfter files t name := by
  -- the removal of a file outside the directory
  have hsources : ∀ (files : Files) (file : Path), slash ∉ file →
      sourcesAfter files t (targetOf dir file) = files (targetOf dir file) := by
    intro files file hfile
    rw [sourcesAfter_apply, if_neg fun h => hout file hfile h.2.symm]
  rw [copyTurn_eq] at hstep
  unfold Turn.leavesUnder
  cases hunder : t.under with
  | none =>
    rw [hunder] at hstep
    cases hstep
    exact ⟨fun file hfile => hsources files file hfile, fun _ _ => rfl⟩
  | some base =>
    have hbase : slash ∉ base := Turn.eq_baseName hunder ▸ slash_notMem_baseName t.name
    rw [hunder] at hstep
    dsimp only at hstep
    split_ifs at hstep
    cases hstep
    rw [copyFile_of_ne (hout base hbase)]
    refine ⟨fun file hfile => ?_, fun name hname => ?_⟩
    · rw [hsources _ file hfile]
      by_cases hsame : base = file
      · rw [if_pos (congrArg some hsame), hsame]
        cases leaves signed encode t.io (files t.name) with
        | none => rfl
        | some left => exact Function.update_self ..
      · rw [if_neg fun h => hsame (Option.some.inj h)]
        have hne : targetOf dir file ≠ targetOf dir base := fun h => hsame (targetOf_inj h).symm
        cases leaves signed encode t.io (files t.name) with
        | none => rfl
        | some left => exact Function.update_of_ne hne ..
    · have hne : name ≠ targetOf dir base := hname base hbase
      rw [sourcesAfter_apply, sourcesAfter_apply]
      cases leaves signed encode t.io (files t.name) with
      | none => rfl
      | some left =>
        dsimp only
        rw [Function.update_of_ne hne]

/-! ## The loop -/

/-- Each turn with what its source holds then: the removals so far count. -/
def sourced : Files → List Turn → List (Turn × Option (List UInt8))
  | _, [] => []
  | files, t :: turns => (t, files t.name) :: sourced (sourcesAfter files t) turns

/-- What the copies to a name in the directory leave there, one after the other. -/
def copiesUnder (signed encode : Bool) (file : Path) (files : Files) (turns : List Turn) :
    List (Option (List UInt8)) :=
  (sourced files turns).filterMap fun p => p.1.leavesUnder signed encode file p.2

/-- What the last of several steps has left. -/
def lastLeft (lefts : List (Option (List UInt8))) (before : Option (List UInt8)) :
    Option (List UInt8) :=
  lefts.getLast?.getD before

/-- What the last of several turns has left. -/
theorem lastLeft_cons (left : Option (List UInt8)) (lefts : List (Option (List UInt8)))
    (before : Option (List UInt8)) : lastLeft (left :: lefts) before = lastLeft lefts left := by
  unfold lastLeft
  rw [List.getLast?_cons]
  cases lefts.getLast? <;> rfl

theorem lastLeft_copiesUnder_cons (file : Path) (files : Files) (t : Turn) (turns : List Turn)
    (before : Option (List UInt8)) :
    lastLeft (copiesUnder signed encode file files (t :: turns)) before =
      lastLeft (copiesUnder signed encode file (sourcesAfter files t) turns)
        ((t.leavesUnder signed encode file (files t.name)).getD before) := by
  rw [copiesUnder, copiesUnder, sourced, List.filterMap_cons]
  cases t.leavesUnder signed encode file (files t.name) with
  | none => rfl
  | some left => exact lastLeft_cons left _ before

/-- The loop, from any files that agree with the sources outside the directory. -/
theorem foldlM_copyTurn {dir : Path} {turns : List Turn} {files files' src : Files}
    (hout : ∀ t ∈ turns, Outside dir t.name)
    (hsrc : ∀ name, Outside dir name → files name = src name)
    (hrun : turns.foldlM (copyTurn signed encode dir) files = some files') :
    (∀ file, slash ∉ file → files' (targetOf dir file) =
      lastLeft (copiesUnder signed encode file src turns) (files (targetOf dir file))) ∧
    ∀ name, Outside dir name → files' name = turns.foldl sourcesAfter src name := by
  induction turns generalizing files src with
  | nil =>
    cases hrun
    exact ⟨fun _ _ => rfl, hsrc⟩
  | cons t turns ih =>
    rw [List.forall_mem_cons] at hout
    rw [List.foldlM_cons] at hrun
    obtain ⟨files₁, hstep, hrest⟩ := Option.bind_eq_some_iff.mp hrun
    obtain ⟨hinside, houtside⟩ := copyTurn_spec hout.1 hstep
    have hsrc₁ : ∀ name, Outside dir name → files₁ name = sourcesAfter src t name := by
      intro name hname
      rw [houtside name hname, sourcesAfter_apply, sourcesAfter_apply, hsrc name hname]
    obtain ⟨hin, hfin⟩ := ih hout.2 hsrc₁ hrest
    refine ⟨fun file hfile => ?_, hfin⟩
    rw [hin file hfile, hinside file hfile, lastLeft_copiesUnder_cons, hsrc t.name hout.1]

/-- A file is gone exactly if it was not there or a turn removed it. -/
theorem foldl_sourcesAfter (turns : List Turn) (files : Files) (name : Path) :
    (turns.foldl sourcesAfter files name).isSome ↔
      (files name).isSome ∧ ∀ t ∈ turns, t.name = name → t.removes = false := by
  induction turns generalizing files with
  | nil => exact (and_iff_left fun t ht => absurd ht List.not_mem_nil).symm
  | cons t turns ih =>
    rw [List.foldl_cons, ih, sourcesAfter_apply, List.forall_mem_cons, ← and_assoc]
    refine and_congr_left fun _ => ?_
    cases hremoves : t.removes with
    | false =>
      rw [if_neg fun h => Bool.false_ne_true h.1]
      exact (and_iff_left fun _ => rfl).symm
    | true =>
      by_cases hname : name = t.name
      · rw [if_pos ⟨rfl, hname⟩]
        exact ⟨fun h => absurd h Bool.false_ne_true,
          fun h => absurd (h.2 hname.symm).symm Bool.false_ne_true⟩
      · rw [if_neg fun h => hname h.2]
        exact (and_iff_left fun h => absurd h.symm hname).symm

/-! ## No log is lost -/

/-- Every registered file is still there, or its contents are in the directory under
the last part of its name. -/
def NoLogLost (signed encode : Bool) (dir : Path) (clientList : List Turn)
    (files files' : Files) : Prop :=
  ∀ t ∈ clientList, ∀ content, files t.name = some content →
    (files' t.name).isSome ∨ files' (targetOf dir (baseName t.name)) =
      some (encodeIf signed encode content content.length)

/-- No turn removes the file, or the last copy under the last part of its name that
touches its target leaves the contents of the file there. -/
def KeptOrCopied (signed encode : Bool) (dir : Path) (clientList : List Turn) (files : Files)
    (name : Path) (content : List UInt8) : Prop :=
  (∀ t ∈ clientList, t.name = name → t.removes = false) ∨
    lastLeft (copiesUnder signed encode (baseName name) files clientList)
      (files (targetOf dir (baseName name))) =
        some (encodeIf signed encode content content.length)

/-- The time fits its buffer. -/
theorem length_currentTime_lt (tm : RtcTime) : (currentTime tm).length < 80 := by
  have hi := length_printInt_le (tm.tmYear + 1900)
  have hp : ∀ x, (printPadded 2 x).length ≤ 11 := length_printPadded_le (by decide)
  have hmon := hp (tm.tmMon + 1)
  have hmday := hp tm.tmMday
  have hhour := hp tm.tmHour
  have hmin := hp tm.tmMin
  have hsec := hp tm.tmSec
  have ha : (ascii "-").length = 1 ∧ (ascii "__").length = 2 ∧ (ascii ".").length = 1 := by decide
  simp only [currentTime, List.length_append, ha]
  omega

/-- The directory's name always fits. -/
theorem length_udiskDir_lt (machineId : Int32) (tm : RtcTime) :
    (udiskDir machineId (currentTime tm)).length < pathSize := by
  have htime := length_currentTime_lt tm
  have hid := length_printInt_le machineId
  have ha : (ascii "/mnt/usbdisk/ID").length = 15 ∧ (ascii "-").length = 1 := by decide
  show _ < 128
  simp only [udiskDir, List.length_append, ha]
  omega

/-- The whole is its turns, one after the other. -/
theorem cpDataToUdisk_eq (machineId : Int32) (tm : RtcTime) (files : Files)
    (clientList : List Turn) :
    cpDataToUdisk signed encode machineId tm files clientList =
      clientList.foldlM (copyTurn signed encode (udiskDir machineId (currentTime tm))) files := by
  have htime : (currentTime tm).length < pathSize :=
    (length_currentTime_lt tm).trans (by decide)
  unfold cpDataToUdisk sprintf
  rw [if_pos htime]
  split_ifs with hnil
  · rw [hnil]
    rfl
  · show (if _ then _ else _ : Option Path).bind _ = _
    rw [if_pos (length_udiskDir_lt machineId tm)]
    rfl

/-- **No log is lost** exactly if the paths of all copies fit and every file that is
removed has been copied. -/
theorem noLogLost_iff (signed encode : Bool) (machineId : Int32) (tm : RtcTime)
    (clientList : List Turn) (files : Files)
    (hout : ∀ t ∈ clientList, Outside (udiskDir machineId (currentTime tm)) t.name) :
    (∃ files', cpDataToUdisk signed encode machineId tm files clientList = some files' ∧
      NoLogLost signed encode (udiskDir machineId (currentTime tm)) clientList files files') ↔
    (∀ t ∈ clientList, t.Fits (udiskDir machineId (currentTime tm))) ∧
      ∀ t ∈ clientList, ∀ content, files t.name = some content →
        KeptOrCopied signed encode (udiskDir machineId (currentTime tm)) clientList files
          t.name content := by
  rw [cpDataToUdisk_eq]
  set dir := udiskDir machineId (currentTime tm)
  have hfits : (clientList.foldlM (copyTurn signed encode dir) files).isSome ↔
      ∀ t ∈ clientList, t.Fits dir := isSome_foldlM (isSome_copyTurn dir) clientList files
  cases hrun : clientList.foldlM (copyTurn signed encode dir) files with
  | none =>
    rw [hrun] at hfits
    constructor
    · rintro ⟨files', hnone, -⟩
      cases hnone
    · rintro ⟨hall, -⟩
      exact absurd (hfits.mpr hall) Bool.false_ne_true
  | some files' =>
    rw [hrun] at hfits
    obtain ⟨hin, houtside⟩ := foldlM_copyTurn hout (fun _ _ => rfl) hrun
    -- file by file, what the loop has left is what the condition says of its turns
    have hfile : ∀ t ∈ clientList, ∀ content, files t.name = some content →
        ((files' t.name).isSome ∨ files' (targetOf dir (baseName t.name)) =
          some (encodeIf signed encode content content.length) ↔
          KeptOrCopied signed encode dir clientList files t.name content) := by
      intro t ht content hcontent
      have hthere : (files t.name).isSome := by
        rw [hcontent]
        rfl
      rw [houtside t.name (hout t ht), foldl_sourcesAfter, and_iff_right hthere,
        hin _ (slash_notMem_baseName t.name)]
      rfl
    constructor
    · rintro ⟨_, hsome, hkept⟩
      cases hsome
      exact ⟨hfits.mp rfl, fun t ht content hcontent =>
        (hfile t ht content hcontent).mp (hkept t ht content hcontent)⟩
    · rintro ⟨-, hkept⟩
      exact ⟨files', rfl, fun t ht content hcontent =>
        (hfile t ht content hcontent).mpr (hkept t ht content hcontent)⟩

/-- One log that is removed after its copy. -/
def topTxt : Path := ascii "/data/top.txt"

def oneLog (io : CopyIo) : Turn :=
  ⟨⟨⟨topTxt, by decide⟩, true⟩, io, true⟩

/-- It holds one byte, and there is no other file. -/
def onlyTopTxt : Files := fun path => if path = topTxt then some [65] else none

def someTime : RtcTime := ⟨0, 0, 0, 1, 0, 114⟩

/-- A call in which all goes well, and one that can not open its target. -/
def ioWell : CopyIo := ⟨true, true, true, true, 1, fun _ => 0, 1⟩

def ioUnopened : CopyIo := ⟨false, false, false, true, 1, fun _ => 0, 1⟩

theorem outside_topTxt (dir : Path) (h : dir[1]? = some 109) : Outside dir topTxt := by
  intro file _ heq
  have hsecond : (targetOf dir file)[1]? = some 109 := by
    rw [targetOf, List.getElem?_append_left (List.getElem?_eq_some_iff.mp h).1, h]
  rw [← heq] at hsecond
  exact absurd hsecond (by decide)

theorem noLogLost_oneLog :
    ∃ files', cpDataToUdisk false false 1 someTime onlyTopTxt [oneLog ioWell] = some files' ∧
      NoLogLost false false (udiskDir 1 (currentTime someTime)) [oneLog ioWell] onlyTopTxt
        files' := by
  refine (noLogLost_iff false false 1 someTime [oneLog ioWell] onlyTopTxt ?_).mpr ⟨?_, ?_⟩
  · exact List.forall_mem_singleton.mpr (outside_topTxt _ rfl)
  · refine List.forall_mem_singleton.mpr fun file hfile => ?_
    cases hfile
    decide
  · refine List.forall_mem_singleton.mpr fun content hcontent => .inr ?_
    obtain rfl : [65] = content := Option.some.inj hcontent
    rfl

/-- The log is removed although its copy could not be made. -/
theorem not_noLogLost :
    ¬ ∀ (signed encode : Bool) (machineId : Int32) (tm : RtcTime) (clientList : List Turn)
      (files : Files), (∀ t ∈ clientList, Outside (udiskDir machineId (currentTime tm)) t.name) →
      ∃ files', cpDataToUdisk signed encode machineId tm files clientList = some files' ∧
        NoLogLost signed encode (udiskDir machineId (currentTime tm)) clientList files files' := by
  intro hall
  obtain ⟨files', hrun, hkept⟩ := hall false false 1 someTime [oneLog ioUnopened] onlyTopTxt
    (List.forall_mem_singleton.mpr (outside_topTxt _ rfl))
  have hgone : files' topTxt = none ∧
      files' (targetOf (udiskDir 1 (currentTime someTime)) (baseName topTxt)) = none := by
    cases hrun
    exact ⟨rfl, rfl⟩
  rcases hkept (oneLog ioUnopened) List.mem_cons_self [65] rfl with h | h
  · have hnone : (files' topTxt).isSome = true := h
    rw [hgone.1] at hnone
    exact Bool.false_ne_true hnone
  · cases hgone.2.symm.trans h

end Lidbg.FsCopy
