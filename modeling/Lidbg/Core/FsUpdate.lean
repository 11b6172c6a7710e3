import Lidbg.Core.FsCopy
import Lidbg.Machine.Strsep

/-!
# The update from a USB disk (`core/lidbg_fs_update.c`, `core/lidbg_misc.c`)

`update_ko` copies the files that a list names, line by line, and returns 1 whatever
became of the copies; `cb_password_update` then removes the directory they came from
and reboots. A disk without the list is copied name by name as it is read
(`lidbg_readdir_and_dealfile`).
-/

namespace Lidbg.FsUpdate

open Machine FsCopy

/-! ## The code -/

/-- What the system does when a list is read: the `kzalloc` and the bytes read. -/
structure ListIo where
  allocated : Bool
  readLen : Nat

/-- `fs_copy_file`. -/
def fsCopyFile (io : CopyIo) (files : Files) (source target : Path) : Files :=
  (copyFile false false io files source target).1

/-- The start of `analysis_copylist` and of `update_ko`: `file_ptr` before the loop;
`none` returns -1. -/
def readList (io : ListIo) (files : Files) (list : Path) : Option (List UInt8) :=
  match files list with
  | none => none
  | some content =>
    let fileLen := (content.length + 1) % 2 ^ 32
    if io.allocated then
      let got := content.take (min io.readLen fileLen)
      if got = [] then none
      else some ((got ++ List.replicate (fileLen - got.length) 0).set (fileLen - 1) 0)
    else none

/-- `'#'` does not start the line, and it is not too short to be a name. -/
def isListed (line : List UInt8) : Bool :=
  line.head? ≠ some 35 ∧ line.length > 2

/-- The size of `file_from` and of `file_to`. -/
abbrev fileSize : Nat := 256

section Code

variable (copies : Nat → CopyIo)

/-- The body of the loop of `analysis_copylist`; `copies` is indexed by the line. -/
def copylistToken (s : Files × Nat) (token : List UInt8) : Option (Files × Nat) :=
  if token.head? ≠ some 35 then
    match cutStr 61 token with
    | some (source, target) =>
      some (fsCopyFile (copies s.2) s.1 (cstr source) (cstr target), s.2 + 1)
    | none => some (s.1, s.2 + 1)
  else some (s.1, s.2 + 1)

/-- `analysis_copylist`. -/
def analysisCopylist (io : ListIo) (files : Files) (copyList : Path) : Option (Files × Int) :=
  match readList io files copyList with
  | none => some (files, -1)
  | some filePtr =>
    (strsepEach 10 (copylistToken copies) filePtr (files, 0)).map fun s => (s.1, 1)

/-- The body of the loop of `update_ko`. -/
def updateToken (fromdir todir : Path) (s : Files × Nat) (token : List UInt8) :
    Option (Files × Nat) :=
  if token.head? ≠ some 35 ∧ (cstr token).length > 2 then do
    let fileFrom ← sprintf fileSize (targetOf fromdir (cstr token))
    let fileTo ← sprintf fileSize (targetOf todir (cstr token))
    some (fsCopyFile (copies s.2) s.1 fileFrom fileTo, s.2 + 1)
  else some (s.1, s.2 + 1)

/-- `update_ko`. -/
def updateKo (io : ListIo) (files : Files) (koList fromdir todir : Path) : Option (Files × Int) :=
  match readList io files koList with
  | none => some (files, -1)
  | some filePtr =>
    (strsepEach 10 (updateToken copies fromdir todir) filePtr (files, 0)).map fun s => (s.1, 1)

end Code

/-- `"/mnt/usbdisk/out"`. -/
def usbOut : Path := ascii "/mnt/usbdisk/out"

/-- `"/flysystem/lib/out"`. -/
def libOut : Path := ascii "/flysystem/lib/out"

/-- `"/mnt/usbdisk/out/release"`. -/
def release : Path := targetOf usbOut (ascii "release")

/-- `"/mnt/usbdisk/conf/copylist.conf"`. -/
def copylistConf : Path := ascii "/mnt/usbdisk/conf/copylist.conf"

/-- `callback_copy_file`, into arrays of 64 bytes. -/
def callbackCopyFile (io : CopyIo) (files : Files) (dirname filename : Path) : Option Files := do
  let source ← sprintf 64 (targetOf dirname filename)
  let target ← sprintf 64 (targetOf libOut filename)
  some (fsCopyFile io files source target)

/-- `lidbg_readdir_and_dealfile` on the names in the order they are read: each is stored
in an array of 33 bytes, and the list they are put on starts with the last. -/
def lidbgReaddirAndDealfile (callback : CopyIo → Files → Path → Path → Option Files)
    (files : Files) (dir : Path) (entries : List (Path × CopyIo)) : Option Files :=
  if ∀ entry ∈ entries, entry.1.length < 33 then
    entries.reverse.foldlM (fun files entry =>
      if entry.1.head? ≠ some 46 then callback entry.2 files dir entry.1 else some files) files
  else none

/-- What `cb_password_update` has other programs do. -/
inductive Act where
  | rmdir (dir : Path)
  | chmod (dir : Path)
  | reboot
deriving DecidableEq

/-- `LIDBG_LOG_DIR`. -/
def lidbgLogDir : Path := ascii "/data/lidbg/"

/-- What the system does in one `cb_password_update`; `entries` is what the directory
holds if it can be opened. -/
structure UpdateIo where
  copylist : ListIo
  copylistCopies : Nat → CopyIo
  release : ListIo
  copies : Nat → CopyIo
  entries : Option (List (Path × CopyIo))

/-- `cb_password_update`: the files when the last program is started, and the programs;
`none` stores behind the end of an array. -/
def cbPasswordUpdate (deleteOutDirAfterUpdate : Bool) (io : UpdateIo) (files : Files) :
    Option (Files × List Act) := do
  let (files, _) ← analysisCopylist io.copylistCopies io.copylist files copylistConf
  if (files release).isSome then
    let (files, ret) ← updateKo io.copies io.release files release usbOut libOut
    if 0 ≤ ret then
      some (files, (if deleteOutDirAfterUpdate then [.rmdir usbOut] else []) ++
        [.chmod libOut, .reboot])
    else some (files, [])
  else
    match io.entries with
    | some entries => do
      let files ← lidbgReaddirAndDealfile callbackCopyFile files usbOut entries
      some (files, .rmdir lidbgLogDir ::
        (if deleteOutDirAfterUpdate then [.rmdir usbOut] else []) ++ [.chmod libOut, .reboot])
    | none => some (files, [])

/-! ## The lines of a list -/

/-- The lines of a buffer, up to its first NUL. -/
def linesOf (filePtr : List UInt8) : List (List UInt8) := (cstr filePtr).splitOn 10

/-- `readList` ends its buffer with a NUL. -/
theorem nul_mem_readList {io : ListIo} {files : Files} {list : Path} {filePtr : List UInt8}
    (h : readList io files list = some filePtr) : 0 ∈ filePtr := by
  unfold readList at h
  cases hcontent : files list with
  | none =>
    rw [hcontent] at h
    cases h
  | some content =>
    rw [hcontent] at h
    dsimp only at h
    split_ifs at h with halloc hgot
    cases h
    have hpos := List.length_pos_iff.mpr hgot
    have hle := List.length_take_le (min io.readLen ((content.length + 1) % 2 ^ 32)) content
    refine List.mem_set ?_ 0
    rw [List.length_append, List.length_replicate]
    omega

variable {copies : Nat → CopyIo}

/-- One line of the copy list. -/
def copylistText (copies : Nat → CopyIo) (s : Files × Nat) (line : List UInt8) : Files × Nat :=
  if line.head? ≠ some 35 then
    match cutAt 61 line with
    | some (source, target) => (fsCopyFile (copies s.2) s.1 source target, s.2 + 1)
    | none => (s.1, s.2 + 1)
  else (s.1, s.2 + 1)

theorem copylistToken_eq (s : Files × Nat) {token : List UInt8} (htoken : 0 ∈ token) :
    copylistToken copies s token = some (copylistText copies s (cstr token)) := by
  obtain ⟨t, rest, ht, rfl⟩ | h := exists_str_or_notMem token
  · have hhead := head?_cstr (by decide : (35 : UInt8) ≠ 0) (t ++ 0 :: rest)
    rw [copylistToken, copylistText, if_congr (not_congr hhead) rfl rfl, cstr_append_nul ht]
    split_ifs
    · rw [← map_cutStr ht rest]
      cases cutStr 61 (t ++ 0 :: rest) <;> rfl
    · rfl
  · exact absurd htoken h

/-- `analysis_copylist` stores in its own buffer only. -/
theorem exists_analysisCopylist (copies : Nat → CopyIo) (io : ListIo) (files : Files)
    (copyList : Path) : ∃ files' ret, analysisCopylist copies io files copyList =
      some (files', ret) := by
  unfold analysisCopylist
  cases hread : readList io files copyList with
  | none => exact ⟨files, -1, rfl⟩
  | some filePtr =>
    dsimp only
    rw [strsepEach_cstr (f := fun s line => some (copylistText copies s line)) (by decide)
      (nul_mem_readList hread) fun s _ => copylistToken_eq s]
    have hsome : ∀ (lines : List (List UInt8)) (s : Files × Nat),
        lines.foldlM (fun s line => some (copylistText copies s line)) s =
          some (lines.foldl (copylistText copies) s) := by
      intro lines s
      induction lines generalizing s with
      | nil => rfl
      | cons line lines ih => exact ih (copylistText copies s line)
    rw [hsome]
    exact ⟨_, _, rfl⟩

/-- One line of the list of `update_ko`. -/
def updateText (copies : Nat → CopyIo) (fromdir todir : Path) (s : Files × Nat)
    (line : List UInt8) : Option (Files × Nat) :=
  if isListed line then do
    let fileFrom ← sprintf fileSize (targetOf fromdir line)
    let fileTo ← sprintf fileSize (targetOf todir line)
    some (fsCopyFile (copies s.2) s.1 fileFrom fileTo, s.2 + 1)
  else some (s.1, s.2 + 1)

theorem updateToken_eq (fromdir todir : Path) (s : Files × Nat) {token : List UInt8} :
    updateToken copies fromdir todir s token = updateText copies fromdir todir s (cstr token) := by
  have hhead := head?_cstr (by decide : (35 : UInt8) ≠ 0) token
  have hlisted : isListed (cstr token) = true ↔
      token.head? ≠ some 35 ∧ (cstr token).length > 2 := by
    rw [isListed, decide_eq_true_iff]
    exact and_congr_left' (not_congr hhead)
  rw [updateToken, updateText, if_congr hlisted.symm rfl rfl]

/-- `update_ko` runs on the lines of what it has read. -/
theorem updateKo_eq (io : ListIo) (files : Files) (koList fromdir todir : Path) :
    updateKo copies io files koList fromdir todir =
      match readList io files koList with
      | none => some (files, -1)
      | some filePtr =>
        ((linesOf filePtr).foldlM (updateText copies fromdir todir) (files, 0)).map
          fun s => (s.1, 1) := by
  unfold updateKo linesOf
  cases hread : readList io files koList with
  | none => rfl
  | some filePtr =>
    dsimp only
    rw [strsepEach_cstr (by decide) (nul_mem_readList hread)
      fun s _ _ => updateToken_eq fromdir todir s]

/-! ## The copies -/

/-- Both paths of a line fit their arrays. -/
def FitsLine (fromdir todir : Path) (line : List UInt8) : Prop :=
  isListed line = true →
    (targetOf fromdir line).length < fileSize ∧ (targetOf todir line).length < fileSize

theorem updateText_listed {fromdir todir : Path} {line : List UInt8} (s : Files × Nat)
    (hlisted : isListed line = true) :
    updateText copies fromdir todir s line =
      if (targetOf fromdir line).length < fileSize ∧ (targetOf todir line).length < fileSize then
        some (fsCopyFile (copies s.2) s.1 (targetOf fromdir line) (targetOf todir line), s.2 + 1)
      else none := by
  rw [updateText, if_pos hlisted, sprintf, sprintf, ite_and]
  split_ifs <;> rfl

theorem updateText_not_listed {fromdir todir : Path} {line : List UInt8} (s : Files × Nat)
    (hlisted : ¬ isListed line = true) :
    updateText copies fromdir todir s line = some (s.1, s.2 + 1) := by
  rw [updateText, if_neg hlisted]

theorem isSome_updateText (fromdir todir : Path) (s : Files × Nat) (line : List UInt8) :
    (updateText copies fromdir todir s line).isSome ↔ FitsLine fromdir todir line := by
  unfold FitsLine
  by_cases hlisted : isListed line = true
  · rw [updateText_listed s hlisted, imp_iff_right hlisted]
    split_ifs with hfits
    · exact iff_of_true rfl hfits
    · exact iff_of_false Bool.false_ne_true hfits
  · rw [updateText_not_listed s hlisted]
    exact iff_of_true rfl fun h => absurd h hlisted

/-- What the copy of a line leaves at the target of a name. -/
def lineLeaves (copies : Nat → CopyIo) (files : Files) (fromdir name : Path)
    (line : List UInt8 × Nat) : Option (Option (List UInt8)) :=
  if line.1 = name ∧ isListed line.1 then
    leaves false false (copies line.2) (files (targetOf fromdir line.1))
  else none

/-- What the copies of a name leave at its target, one after the other; the lines are
numbered from `k`. -/
def copiesOf (copies : Nat → CopyIo) (files : Files) (fromdir name : Path)
    (lines : List (List UInt8)) (k : Nat) : List (Option (List UInt8)) :=
  (lines.zipIdx k).filterMap (lineLeaves copies files fromdir name)

section Dirs

variable {fromdir todir : Path} (hdirs : ∀ a b, targetOf fromdir a ≠ targetOf todir b)
include hdirs

/-- What a line does in the two directories. -/
theorem updateText_spec {cur cur' : Files} {k k' : Nat} {line : List UInt8}
    (hstep : updateText copies fromdir todir (cur, k) line = some (cur', k')) :
    k' = k + 1 ∧ (∀ name, cur' (targetOf fromdir name) = cur (targetOf fromdir name)) ∧
      ∀ name, cur' (targetOf todir name) =
        (lineLeaves copies cur fromdir name (line, k)).getD (cur (targetOf todir name)) := by
  unfold lineLeaves
  by_cases hlisted : isListed line = true
  · rw [updateText_listed _ hlisted] at hstep
    split_ifs at hstep
    cases hstep
    rw [fsCopyFile, copyFile_of_ne (hdirs line line)]
    refine ⟨rfl, fun name => ?_, fun name => ?_⟩
    · cases leaves false false (copies k) (cur (targetOf fromdir line)) with
      | none => rfl
      | some left => exact Function.update_of_ne (hdirs name line) ..
    · by_cases hname : line = name
      · rw [if_pos ⟨hname, hlisted⟩, hname]
        cases leaves false false (copies k) (cur (targetOf fromdir name)) with
        | none => rfl
        | some left => exact Function.update_self ..
      · rw [if_neg fun h => hname h.1]
        have hne : targetOf todir name ≠ targetOf todir line := fun h => hname (targetOf_inj h).symm
        cases leaves false false (copies k) (cur (targetOf fromdir line)) with
        | none => rfl
        | some left => exact Function.update_of_ne hne ..
  · rw [updateText_not_listed _ hlisted] at hstep
    cases hstep
    refine ⟨rfl, fun _ => rfl, fun name => ?_⟩
    rw [if_neg fun h => hlisted h.2]
    rfl

/-- The loop: the last copy of a name that touches its target decides. -/
theorem foldlM_updateText {lines : List (List UInt8)} {cur cur' files : Files} {k k' : Nat}
    (hsrc : ∀ name, cur (targetOf fromdir name) = files (targetOf fromdir name))
    (hrun : lines.foldlM (updateText copies fromdir todir) (cur, k) = some (cur', k'))
    (name : Path) :
    cur' (targetOf todir name) =
      lastLeft (copiesOf copies files fromdir name lines k) (cur (targetOf todir name)) := by
  induction lines generalizing cur k with
  | nil =>
    cases hrun
    rfl
  | cons line lines ih =>
    rw [List.foldlM_cons] at hrun
    obtain ⟨⟨cur₁, k₁⟩, hstep, hrest⟩ := Option.bind_eq_some_iff.mp hrun
    obtain ⟨rfl, hfrom, hto⟩ := updateText_spec hdirs hstep
    -- no line has written to the sources
    have hline : lineLeaves copies cur fromdir name (line, k) =
        lineLeaves copies files fromdir name (line, k) := by
      rw [lineLeaves, lineLeaves, hsrc]
    rw [ih (fun a => (hfrom a).trans (hsrc a)) hrest, hto name, hline, copiesOf, copiesOf,
      List.zipIdx_cons, List.filterMap_cons]
    cases lineLeaves copies files fromdir name (line, k) with
    | none => rfl
    | some left => exact (lastLeft_cons left _ _).symm

end Dirs

/-! ## Safety of the update -/

theorem usbOut_ne_libOut (a b : Path) : targetOf usbOut a ≠ targetOf libOut b := by
  intro h
  have husb : (targetOf usbOut a)[1]? = some 109 := rfl
  have hlib : (targetOf libOut b)[1]? = some 102 := rfl
  rw [h, hlib] at husb
  exact absurd husb (by decide)

/-- The names on a list. -/
def listed (content : List UInt8) : List Path := (linesOf content).filter isListed

/-- A listed file is there, and its contents are in the target directory. -/
def Copied (files files' : Files) (name : Path) : Prop :=
  ∃ content, files (targetOf usbOut name) = some content ∧
    files' (targetOf libOut name) = some content

/-- With a release list on the disk, the directory is removed and the system restarted
only if every listed file has been copied. `files₁` are the files behind
`analysis_copylist`. -/
def UpdateSafe (deleteOutDirAfterUpdate : Bool) (io : UpdateIo) (files files₁ : Files) : Prop :=
  ∀ content, files₁ release = some content →
    ∃ files' acts, cbPasswordUpdate deleteOutDirAfterUpdate io files = some (files', acts) ∧
      (.rmdir usbOut ∈ acts ∨ .reboot ∈ acts → ∀ name ∈ listed content, Copied files₁ files' name)

/-- If `update_ko` gets as far as its loop, all paths fit, and every listed file is there
and the last copy that touches its target leaves its contents there. -/
def CopiesAll (io : UpdateIo) (files₁ : Files) : Prop :=
  ∀ content filePtr, files₁ release = some content →
    readList io.release files₁ release = some filePtr →
    (∀ line ∈ linesOf filePtr, FitsLine usbOut libOut line) ∧
      ∀ name ∈ listed content, ∃ bytes, files₁ (targetOf usbOut name) = some bytes ∧
        lastLeft (copiesOf io.copies files₁ usbOut name (linesOf filePtr) 0)
          (files₁ (targetOf libOut name)) = some bytes

/-- `cb_password_update` when the list is there. -/
theorem cbPasswordUpdate_eq {deleteOutDirAfterUpdate : Bool} {io : UpdateIo}
    {files files₁ : Files} {ret : Int}
    (hcopylist : analysisCopylist io.copylistCopies io.copylist files copylistConf =
      some (files₁, ret)) (hrelease : (files₁ release).isSome) :
    cbPasswordUpdate deleteOutDirAfterUpdate io files =
      match readList io.release files₁ release with
      | none => some (files₁, [])
      | some filePtr =>
        ((linesOf filePtr).foldlM (updateText io.copies usbOut libOut) (files₁, 0)).map fun s =>
          (s.1, (if deleteOutDirAfterUpdate then [.rmdir usbOut] else []) ++
            [.chmod libOut, .reboot]) := by
  unfold cbPasswordUpdate
  rw [hcopylist]
  show (if (files₁ release).isSome = true then _ else _) = _
  rw [if_pos hrelease, updateKo_eq]
  cases readList io.release files₁ release with
  | none => rfl
  | some filePtr =>
    dsimp only
    cases (linesOf filePtr).foldlM (updateText io.copies usbOut libOut) (files₁, 0) with
    | none => rfl
    | some s => rfl

/-- The loop of `update_ko` and what follows it. -/
theorem exists_updateKo_iff (copies : Nat → CopyIo) (files₁ : Files) (lines : List (List UInt8))
    (names : List Path) {acts : List Act} (hreboot : .reboot ∈ acts) :
    (∃ files' acts', (lines.foldlM (updateText copies usbOut libOut) (files₁, 0)).map
        (fun s => (s.1, acts)) = some (files', acts') ∧
      (.rmdir usbOut ∈ acts' ∨ .reboot ∈ acts' → ∀ name ∈ names, Copied files₁ files' name)) ↔
    (∀ line ∈ lines, FitsLine usbOut libOut line) ∧
      ∀ name ∈ names, ∃ bytes, files₁ (targetOf usbOut name) = some bytes ∧
        lastLeft (copiesOf copies files₁ usbOut name lines 0) (files₁ (targetOf libOut name)) =
          some bytes := by
  have hfits : (lines.foldlM (updateText copies usbOut libOut) (files₁, 0)).isSome ↔
      ∀ line ∈ lines, FitsLine usbOut libOut line :=
    isSome_foldlM (isSome_updateText usbOut libOut) lines (files₁, 0)
  cases hrun : lines.foldlM (updateText copies usbOut libOut) (files₁, 0) with
  | none =>
    rw [hrun] at hfits
    constructor
    · rintro ⟨files', acts', hnone, -⟩
      cases hnone
    · rintro ⟨hall, -⟩
      exact absurd (hfits.mpr hall) Bool.false_ne_true
  | some s =>
    rw [hrun] at hfits
    have hlast := foldlM_updateText usbOut_ne_libOut (fun _ => rfl) hrun
    constructor
    · rintro ⟨_, _, hsome, hsafe⟩
      cases hsome
      refine ⟨hfits.mp rfl, fun name hname => ?_⟩
      obtain ⟨bytes, hfrom, hto⟩ := hsafe (.inr hreboot) name hname
      exact ⟨bytes, hfrom, by rw [← hlast, hto]⟩
    · rintro ⟨-, hcopied⟩
      refine ⟨s.1, acts, rfl, fun _ name hname => ?_⟩
      obtain ⟨bytes, hfrom, hto⟩ := hcopied name hname
      exact ⟨bytes, hfrom, by rw [hlast, hto]⟩

/-- **The update is safe** exactly if all copies are complete or none is made. -/
theorem updateSafe_iff (deleteOutDirAfterUpdate : Bool) (io : UpdateIo) (files : Files) :
    ∃ files₁ ret, analysisCopylist io.copylistCopies io.copylist files copylistConf =
      some (files₁, ret) ∧
      (UpdateSafe deleteOutDirAfterUpdate io files files₁ ↔ CopiesAll io files₁) := by
  obtain ⟨files₁, ret, hcopylist⟩ :=
    exists_analysisCopylist io.copylistCopies io.copylist files copylistConf
  refine ⟨files₁, ret, hcopylist, ?_⟩
  unfold UpdateSafe CopiesAll
  refine forall_congr' fun content => ?_
  rw [forall_comm]
  refine forall_congr' fun hcontent => ?_
  have hrelease : (files₁ release).isSome := by
    rw [hcontent]
    rfl
  rw [cbPasswordUpdate_eq hcopylist hrelease]
  cases readList io.release files₁ release with
  | none =>
    refine iff_of_true ⟨files₁, [], rfl, fun hact => ?_⟩ fun filePtr hread => ?_
    · rcases hact with hact | hact <;> cases hact
    · cases hread
  | some filePtr =>
    dsimp only
    rw [exists_updateKo_iff io.copies files₁ (linesOf filePtr) (listed content)
      (List.mem_append_right _ (List.mem_cons_of_mem _ List.mem_cons_self))]
    exact ⟨fun h _ hread => by cases hread; exact h, fun h => h filePtr rfl⟩

/-- A list of one file, and the file. -/
def lidbgKo : Path := ascii "lidbg.ko"

def oneFile : Files := fun path =>
  if path = release then some lidbgKo
  else if path = targetOf usbOut lidbgKo then some [1] else none

/-- The list is read, and the target of the copy can not be opened. -/
def unopened : UpdateIo where
  copylist := ⟨true, 0⟩
  copylistCopies _ := ⟨false, false, false, true, 0, fun _ => 0, 0⟩
  release := ⟨true, 8⟩
  copies _ := ⟨false, false, false, true, 0, fun _ => 0, 0⟩
  entries := none

/-- The system restarts without the file, and the only copy of it is removed. -/
theorem not_updateSafe :
    ¬ ∀ (deleteOutDirAfterUpdate : Bool) (io : UpdateIo) (files files₁ : Files) (ret : Int),
      analysisCopylist io.copylistCopies io.copylist files copylistConf = some (files₁, ret) →
      UpdateSafe deleteOutDirAfterUpdate io files files₁ := by
  intro hall
  obtain ⟨files', acts, hrun, hsafe⟩ := hall true unopened oneFile oneFile (-1) rfl lidbgKo rfl
  have hres : files' (targetOf libOut lidbgKo) = none ∧ .reboot ∈ acts := by
    cases hrun
    exact ⟨rfl, by decide⟩
  have hlines : linesOf lidbgKo = [lidbgKo] := by
    rw [linesOf, cstr_of_notMem (by decide), List.splitOn_eq_singleton (by decide)]
  have hmem : lidbgKo ∈ listed lidbgKo := by
    rw [listed, hlines]
    decide
  obtain ⟨content, -, hto⟩ := hsafe (.inr hres.2) lidbgKo hmem
  rw [hres.1] at hto
  cases hto

end Lidbg.FsUpdate
