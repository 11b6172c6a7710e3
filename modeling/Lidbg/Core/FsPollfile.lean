import Lidbg.Core.FsKeyvalueMeaning
import Lidbg.Core.FsConf
import Lidbg.Core.MemLog

/-!
# Following the configuration files (`thread_pollfile_func`, `core/lidbg_fs_conf.c`)

A thread looks at the modification times of three files every few seconds, and reads a file again
when its time is another than the one it remembers. Others write the files meanwhile. The time is
remembered first and the file read behind it, so that a write in between is not lost; but a time
says the second only, and the times are first remembered some while after the files were loaded.
The file of commands is not loaded before: it is read when its time changes.

- `follows_iff`: what was last read from a file is what it holds, whenever it is not about to be
  read and the remembered time is the file's, exactly if no write of the run is one that the time
  does not show, nobody else remembers the time of a file that was not read, and there is memory
  to read it.
- `conf_inForce`: in such a run, the variable of an entry has the number of the file's last line
  of its key, if nothing else sets it.
- `pass_reads`: one pass of the loop reads the files whose time is another, and these only.
-/

namespace Lidbg.FsPollfile

open Machine FsKeyvalueUpdate
open FsKeyvalue hiding updateLine updateLines updateList
open MemLog (RtcTime)

/-! ## The code -/

/-- `core_sd_path`, `driver_sd_path` and `cmd_sd_path`. -/
inductive File where
  | core
  | driver
  | cmd
deriving DecidableEq

/-- What the thread does next: `update_file_tm`, file by file, and its loop, where a file is
opened once for its time and once more to be read. -/
inductive Pc where
  | stamp (f : File)
  | sleep
  | look (f : File)
  | act (f : File)
deriving DecidableEq

/-- The files with their times, the times remembered, and the drivers' variables. `applied` is
not in the source: what was last read from each file, if it was. -/
structure State (ι : Type) where
  files : File → Option (RtcTime × List UInt8)
  pretm : File → RtcTime
  pc : Pc
  ints : ι → Int32
  isFsWorkEnable : Bool
  applied : File → Option (List UInt8)

/-- The lists of the files, `g_pollfile_ms`, and what the callbacks and the commands of
`LIDBG_NODE` do to the variables. -/
structure Conf (ι κ : Type) where
  list : File → List (StringDev ι κ)
  pollfileMs : ι
  run : CallbackCall κ → (ι → Int32) → ι → Int32
  command : List UInt8 → (ι → Int32) → ι → Int32

/-- The thread goes on, with memory for a file or without; and what others do: they write the
files, `fs_save_list_to_file` calls `update_file_tm` behind its own writes, and the drivers,
the commands and `thread_udisk_conf` set variables. -/
inductive Event (ι : Type) where
  | thread (allocated : Bool)
  | put (f : File) (mtime : RtcTime) (text : List UInt8)
  | remove (f : File)
  | restamp (f : File)
  | workEnable (en : Bool)
  | setInts (ints : ι → Int32)

inductive Obs (ι κ : Type) where
  | updateList (f : File) (ret : Int) (calls : List (EntryCall ι κ))
  | launchFileCmd (commands : List (List UInt8))

/-- `is_tm_updated`. -/
def isTmUpdated (pretm newtm : RtcTime) : Bool :=
  !(pretm.tmSec == newtm.tmSec && pretm.tmMin == newtm.tmMin && pretm.tmHour == newtm.tmHour &&
    pretm.tmMday == newtm.tmMday && pretm.tmMon == newtm.tmMon && pretm.tmYear == newtm.tmYear)

variable {ι κ : Type}

/-- `get_file_mftime`. -/
def getFileMftime (s : State ι) (f : File) : Option RtcTime := (s.files f).map Prod.fst

/-- What a file holds. -/
def textOf (s : State ι) (f : File) : Option (List UInt8) := (s.files f).map Prod.snd

/-- One of the calls of `update_file_tm`. -/
def updateFileTm (s : State ι) (f : File) : State ι :=
  match getFileMftime s f with
  | some tm => { s with pretm := Function.update s.pretm f tm }
  | none => s

/-- `is_file_tm_updated`. -/
def isFileTmUpdated (s : State ι) (f : File) : State ι × Bool :=
  match getFileMftime s f with
  | some tm =>
    if isTmUpdated (s.pretm f) tm then
      ({ s with pretm := Function.update s.pretm f tm }, true)
    else (s, false)
  | none => (s, false)

def afterStamp : File → Pc
  | .core => .stamp .driver
  | .driver => .stamp .cmd
  | .cmd => .sleep

def afterLook : File → Pc
  | .core => .look .driver
  | .driver => .look .cmd
  | .cmd => .sleep

/-- What was read last, behind a reading of `f`. -/
def lastRead (s : State ι) (f : File) (allocated : Bool) : File → Option (List UInt8) :=
  match textOf s f, allocated with
  | some text, true => Function.update s.applied f (some text)
  | _, _ => s.applied

/-- What `launch_file_cmd` writes to `LIDBG_NODE`; the byte that it may read past its buffer makes
no difference to it. -/
def commandsWritten (file : Option (List UInt8)) (allocated : Bool) : List (List UInt8) :=
  match file, allocated with
  | some text, true => ((cstr text).splitOn 10).flatMap FsConf.lineWrites
  | _, _ => []

section
variable [DecidableEq ι] (conf : Conf ι κ)

/-- The variables behind the commands of the file. -/
def launched (s : State ι) (allocated : Bool) : ι → Int32 :=
  (commandsWritten (textOf s .cmd) allocated).foldl (fun ints c => conf.command c ints) s.ints

/-- `update_list` or `launch_file_cmd`, for a file with another time. -/
def pollAct (s : State ι) (f : File) (allocated : Bool) : Option (State ι × List (Obs ι κ)) :=
  let s' := { s with pc := afterLook f, applied := lastRead s f allocated }
  match f with
  | .cmd =>
    some ({ s' with ints := launched conf s allocated },
      [.launchFileCmd (commandsWritten (textOf s f) allocated)])
  | _ =>
    (updateList conf.run (textOf s f) allocated (conf.list f) s.ints).map fun (ret, _, u) =>
      ({ s' with ints := u.ints }, [.updateList f ret u.calls])

/-- `thread_pollfile_func`. -/
def threadPollfile (s : State ι) (allocated : Bool) : Option (State ι × List (Obs ι κ)) :=
  match s.pc with
  | .stamp f => some ({ updateFileTm s f with pc := afterStamp f }, [])
  | .sleep =>
    if s.ints conf.pollfileMs ≠ 0 ∧ s.isFsWorkEnable = true then
      some ({ s with pc := .look .core }, [])
    else some (s, [])
  | .look f =>
    -- the time is remembered here; the file is read by a step of its own
    let (s', updated) := isFileTmUpdated s f
    some ({ s' with pc := if updated then .act f else afterLook f }, [])
  | .act f => pollAct conf s f allocated

def pollStep : Step (State ι) (Event ι) (Obs ι κ) := fun s e =>
  match e with
  | .thread allocated => threadPollfile conf s allocated
  | .put f mtime text =>
    some ({ s with files := Function.update s.files f (some (mtime, text)) }, [])
  | .remove f => some ({ s with files := Function.update s.files f none }, [])
  | .restamp f => some (updateFileTm s f, [])
  | .workEnable en => some ({ s with isFsWorkEnable := en }, [])
  | .setInts ints => some ({ s with ints := ints }, [])

end

/-- The thread's steps, with memory for what it reads. -/
def threadSteps (n : Nat) : List (Event ι) := List.replicate n (.thread true)

/-! ## What the time shows -/

/-- Two times are the same exactly if all six fields are. -/
theorem isTmUpdated_eq_false {pretm newtm : RtcTime} :
    isTmUpdated pretm newtm = false ↔ pretm = newtm := by
  cases pretm
  cases newtm
  simp [isTmUpdated, and_assoc]

/-- The time of the file is still to be remembered for the first time. -/
def Unstamped (f : File) : Pc → Prop
  | .stamp .core => True
  | .stamp .driver => f ≠ .core
  | .stamp .cmd => f = .cmd
  | _ => False

/-- The remembered time of the file does not show that it is other than `mtime`. -/
def Unseen (s : State ι) (f : File) (mtime : RtcTime) : Prop :=
  s.pc ≠ .act f ∧ (Unstamped f s.pc ∨ s.pretm f = mtime)

/-- Where the time shows nothing, the file is as it was last read. -/
def FollowsFile (f : File) (s : State ι) : Prop :=
  ∀ mtime text, s.files f = some (mtime, text) → Unseen s f mtime → s.applied f = some text

/-- The file has just been read, or it is not there and was never read. `fs_fill_list` leaves
the core's and the drivers' files so at boot. -/
def Loaded (f : File) (s : State ι) : Prop := s.applied f = textOf s f

/-- A write that the time does not show leaves the text as it was last read; a file is read when
its time says so, or is as it was; and others remember the time of a file that is as it was. -/
def StepShown (f : File) (s : State ι) : Event ι → Prop
  | .put g mtime text => g = f → Unseen s f mtime → s.applied f = some text
  | .thread allocated => s.pc = .act f → allocated = false →
      ∀ mtime text, s.files f = some (mtime, text) → s.pretm f = mtime → s.applied f = some text
  | .restamp g => g = f → s.pc ≠ .act f →
      ∀ mtime text, s.files f = some (mtime, text) → s.applied f = some text
  | _ => True

/-- A file that has just been read is as it was read, whatever time is remembered. -/
theorem Loaded.followsFile {f : File} {s : State ι} (h : Loaded f s) : FollowsFile f s := by
  intro mtime text hfile _
  rw [h, textOf, hfile]
  rfl

/-- A time that is about to be remembered was not yet. -/
theorem unstamped_self (f : File) : Unstamped f (.stamp f) := by
  cases f <;> simp [Unstamped]

/-- What is still to be remembered was so before. -/
theorem unstamped_afterStamp {f g : File} (h : Unstamped f (afterStamp g)) :
    Unstamped f (.stamp g) := by
  cases f <;> cases g <;> simp [Unstamped, afterStamp] at h ⊢

/-- In the loop all times are remembered. -/
theorem not_unstamped_afterLook (f g : File) : ¬ Unstamped f (afterLook g) := by
  cases g <;> exact id

/-- Behind a look no file is about to be read. -/
theorem afterLook_ne_act (f g : File) : afterLook f ≠ .act g := by
  cases f <;> simp [afterLook]

/-- A reading of another file. -/
theorem lastRead_of_ne {s : State ι} {f g : File} (h : f ≠ g) (allocated : Bool) :
    lastRead s g allocated f = s.applied f := by
  unfold lastRead
  cases textOf s g with
  | none => rfl
  | some text =>
    cases allocated with
    | false => rfl
    | true => exact Function.update_of_ne h _ _

/-- A file that is not there is not read. -/
theorem lastRead_none {s : State ι} {f : File} (h : textOf s f = none) (allocated : Bool) :
    lastRead s f allocated = s.applied := by
  unfold lastRead
  rw [h]

/-- Nor is one without memory. -/
theorem lastRead_false (s : State ι) (f : File) : lastRead s f false = s.applied := by
  unfold lastRead
  cases textOf s f <;> rfl

/-- A reading of the file itself. -/
theorem lastRead_self {s : State ι} {f : File} {text : List UInt8} (h : textOf s f = some text) :
    lastRead s f true f = some text := by
  unfold lastRead
  rw [h]
  exact Function.update_self f (some text) s.applied

/-- Only the time of the one file changes, and is then that of the file. -/
theorem updateFileTm_eq (s : State ι) (g : File) :
    ∃ pretm, updateFileTm s g = { s with pretm := pretm } ∧ (∀ f, f ≠ g → pretm f = s.pretm f) ∧
      ∀ tm, getFileMftime s g = some tm → pretm g = tm := by
  unfold updateFileTm
  cases getFileMftime s g with
  | none => exact ⟨s.pretm, rfl, fun _ _ => rfl, nofun⟩
  | some tm =>
    refine ⟨_, rfl, fun f hfg => Function.update_of_ne hfg tm s.pretm, fun tm' heq => ?_⟩
    cases heq
    exact Function.update_self g tm s.pretm

/-- Either the file has another time, which is remembered then, or nothing changes. -/
theorem isFileTmUpdated_cases (s : State ι) (g : File) :
    (∃ tm, getFileMftime s g = some tm ∧ s.pretm g ≠ tm ∧
      isFileTmUpdated s g = ({ s with pretm := Function.update s.pretm g tm }, true)) ∨
    (isFileTmUpdated s g = (s, false) ∧ ∀ tm, getFileMftime s g = some tm → s.pretm g = tm) := by
  unfold isFileTmUpdated
  cases getFileMftime s g with
  | none => exact .inr ⟨rfl, nofun⟩
  | some tm =>
    cases hupd : isTmUpdated (s.pretm g) tm with
    | true =>
      refine .inl ⟨tm, rfl, fun heq => ?_, if_pos hupd⟩
      rw [isTmUpdated_eq_false.mpr heq] at hupd
      cases hupd
    | false =>
      refine .inr ⟨if_neg (Bool.not_eq_true _ ▸ hupd), fun tm' heq => ?_⟩
      cases heq
      exact isTmUpdated_eq_false.mp hupd

/-- A step of others, or of the thread on another file. -/
theorem FollowsFile.moved {f : File} {s s' : State ι} (h : FollowsFile f s)
    (hfiles : s'.files f = s.files f) (happlied : s'.applied f = s.applied f)
    (hunseen : ∀ mtime text, s.files f = some (mtime, text) → Unseen s' f mtime →
      Unseen s f mtime) : FollowsFile f s' := by
  intro mtime text hfile hun
  rw [hfiles] at hfile
  rw [happlied]
  exact h mtime text hfile (hunseen mtime text hfile hun)

section
variable [DecidableEq ι] {conf : Conf ι κ}

/-- The variables behind a reading. -/
def actInts (conf : Conf ι κ) (s : State ι) (f : File) (allocated : Bool) : ι → Int32 :=
  match f with
  | .cmd => launched conf s allocated
  | f => (updateLines conf.run (conf.list f) ⟨s.ints, []⟩
      (linesRead (textOf s f) allocated)).ints

/-- Reading a file never fails. -/
theorem pollAct_eq (conf : Conf ι κ) (s : State ι) (f : File) (allocated : Bool) :
    ∃ o, pollAct conf s f allocated = some ({ s with
      pc := afterLook f
      applied := lastRead s f allocated
      ints := actInts conf s f allocated }, o) := by
  unfold pollAct actInts
  cases f with
  | cmd => exact ⟨_, rfl⟩
  | core | driver =>
    dsimp only
    rw [updateList_eq]
    exact ⟨_, rfl⟩

/-- **What a step does** to the variables and to what was read: it reads a file, sets
variables, or leaves both alone. -/
theorem pollStep_cases {s s' : State ι} {e : Event ι} {o : List (Obs ι κ)}
    (h : pollStep conf s e = some (s', o)) :
    (∃ g allocated, s.pc = .act g ∧ e = .thread allocated ∧ s' = { s with
      pc := afterLook g
      applied := lastRead s g allocated
      ints := actInts conf s g allocated }) ∨
    (∃ ints, e = .setInts ints ∧ s' = { s with ints := ints }) ∨
    (s'.ints = s.ints ∧ s'.applied = s.applied) := by
  cases e with
  | put g mtime text | remove g | workEnable en =>
    cases h
    exact .inr (.inr ⟨rfl, rfl⟩)
  | setInts ints =>
    cases h
    exact .inr (.inl ⟨ints, rfl, rfl⟩)
  | restamp g =>
    obtain ⟨pretm, heq, -⟩ := updateFileTm_eq s g
    cases h
    rw [heq]
    exact .inr (.inr ⟨rfl, rfl⟩)
  | thread allocated =>
    change threadPollfile conf s allocated = some (s', o) at h
    unfold threadPollfile at h
    cases hs : s.pc with
    | act g =>
      -- the only step of the thread that reads a file
      obtain ⟨o', hact⟩ := pollAct_eq conf s g allocated
      rw [hs] at h
      cases hact.symm.trans h
      exact .inl ⟨g, allocated, rfl, rfl, rfl⟩
    | stamp g =>
      obtain ⟨pretm, heq, -⟩ := updateFileTm_eq s g
      rw [hs] at h
      dsimp only at h
      rw [heq] at h
      cases h
      exact .inr (.inr ⟨rfl, rfl⟩)
    | sleep =>
      rw [hs] at h
      dsimp only at h
      split_ifs at h <;> cases h <;> exact .inr (.inr ⟨rfl, rfl⟩)
    | look g =>
      rw [hs] at h
      dsimp only at h
      rcases isFileTmUpdated_cases s g with ⟨tm, -, -, heq⟩ | ⟨heq, -⟩ <;>
        · rw [heq] at h
          cases h
          exact .inr (.inr ⟨rfl, rfl⟩)

/-- The thread's step, unless it reads the file. -/
theorem threadPollfile_follows (conf : Conf ι κ) {f : File} {s : State ι} (h : FollowsFile f s)
    (hpc : s.pc ≠ .act f) (allocated : Bool) :
    ∃ s' o, threadPollfile conf s allocated = some (s', o) ∧ FollowsFile f s' := by
  unfold threadPollfile
  cases hs : s.pc with
  | stamp g =>
    obtain ⟨pretm, heq, hpretm, -⟩ := updateFileTm_eq s g
    dsimp only
    rw [heq]
    refine ⟨_, _, rfl, h.moved rfl rfl fun mtime text hfile hun => ⟨hpc, ?_⟩⟩
    rw [hs]
    by_cases hfg : f = g
    · -- its time was not remembered before, so nothing could be seen
      exact .inl (hfg ▸ unstamped_self f)
    · exact hun.2.imp unstamped_afterStamp fun hm => (hpretm f hfg).symm.trans hm
  | sleep =>
    dsimp only
    split_ifs
    · refine ⟨_, _, rfl, h.moved rfl rfl fun mtime text hfile hun => ⟨hpc, .inr ?_⟩⟩
      exact hun.2.resolve_left id
    · exact ⟨s, [], rfl, h⟩
  | look g =>
    dsimp only
    rcases isFileTmUpdated_cases s g with ⟨tm, -, -, heq⟩ | ⟨heq, -⟩ <;> rw [heq]
    · refine ⟨_, _, rfl, h.moved rfl rfl fun mtime text hfile hun => ⟨hpc, .inr ?_⟩⟩
      have hm := hun.2.resolve_left id
      by_cases hfg : f = g
      · -- the file is about to be read
        exact absurd (hfg ▸ rfl) hun.1
      · exact (Function.update_of_ne hfg tm s.pretm).symm.trans hm
    · refine ⟨_, _, rfl, h.moved rfl rfl fun mtime text hfile hun => ⟨hpc, .inr ?_⟩⟩
      exact hun.2.resolve_left (not_unstamped_afterLook f g)
  | act g =>
    -- the reading of another file
    have hfg : f ≠ g := by
      rintro rfl
      exact hpc hs
    obtain ⟨o, hact⟩ := pollAct_eq conf s g allocated
    refine ⟨_, o, hact, h.moved rfl (lastRead_of_ne hfg allocated) fun mtime text _ hun => ?_⟩
    exact ⟨hpc, .inr (hun.2.resolve_left (not_unstamped_afterLook f g))⟩

/-- **A step never fails, and keeps following the file** exactly if it is a shown one. -/
theorem pollStep_follows (conf : Conf ι κ) (f : File) (s : State ι) (e : Event ι)
    (h : FollowsFile f s) :
    ∃ s' o, pollStep conf s e = some (s', o) ∧ (FollowsFile f s' ↔ StepShown f s e) := by
  cases e with
  | put g mtime text =>
    refine ⟨_, _, rfl, fun h' hg hun => ?_, fun hshown mtime' text' hfile hun => ?_⟩
    · subst hg
      exact h' mtime text (Function.update_self g _ _) hun
    · dsimp only at hfile
      by_cases hg : g = f
      · subst hg
        rw [Function.update_self] at hfile
        cases hfile
        exact hshown rfl hun
      · rw [Function.update_of_ne (Ne.symm hg)] at hfile
        exact h mtime' text' hfile hun
  | remove g =>
    refine ⟨_, _, rfl, iff_of_true (fun mtime text hfile hun => ?_) trivial⟩
    dsimp only at hfile
    by_cases hg : g = f
    · subst hg
      rw [Function.update_self] at hfile
      cases hfile
    · rw [Function.update_of_ne (Ne.symm hg)] at hfile
      exact h mtime text hfile hun
  | restamp g =>
    obtain ⟨pretm, heq, hframe, hstamp⟩ := updateFileTm_eq s g
    refine ⟨_, _, rfl, ?_⟩
    rw [heq]
    by_cases hg : g = f
    · subst hg
      refine ⟨fun h' _ hpc mtime text hfile => ?_, fun hshown mtime text hfile hun => ?_⟩
      · exact h' mtime text hfile ⟨hpc, .inr (hstamp mtime (congrArg (Option.map Prod.fst) hfile))⟩
      · exact hshown rfl hun.1 mtime text hfile
    · refine iff_of_true (h.moved rfl rfl fun mtime text _ hun => ⟨hun.1, ?_⟩)
        fun heq' => absurd heq' hg
      exact hun.2.imp_right (hframe f (Ne.symm hg)).symm.trans
  | workEnable en | setInts ints => exact ⟨_, _, rfl, iff_of_true h trivial⟩
  | thread allocated =>
    by_cases hpc : s.pc = .act f
    · obtain ⟨o, hact⟩ := pollAct_eq conf s f allocated
      refine ⟨_, o, by rw [pollStep, threadPollfile, hpc]; exact hact, ?_⟩
      have hseen (mtime : RtcTime) (hm : s.pretm f = mtime) : Unseen { s with
          pc := afterLook f
          applied := lastRead s f allocated
          ints := actInts conf s f allocated } f mtime :=
        ⟨afterLook_ne_act f f, .inr hm⟩
      cases allocated with
      | true =>
        -- what it holds now is read, whatever was written since its time was remembered
        refine iff_of_true (fun mtime text hfile _ => ?_) fun _ heq => by cases heq
        have htext : textOf s f = some text := by
          rw [textOf]
          exact congrArg (Option.map Prod.snd) hfile
        exact lastRead_self htext
      | false =>
        have hkept : lastRead s f false = s.applied := lastRead_false s f
        refine ⟨fun h' _ _ mtime text hfile hm => ?_, fun hshown mtime text hfile hun => ?_⟩
        · rw [← hkept]
          exact h' mtime text hfile (hseen mtime hm)
        · show lastRead s f false f = text
          rw [hkept]
          exact hshown hpc rfl mtime text hfile
            (hun.2.resolve_left (not_unstamped_afterLook f f))
    · obtain ⟨s', o, hstep, hfollows⟩ := threadPollfile_follows conf h hpc allocated
      exact ⟨s', o, hstep, iff_of_true hfollows fun heq => absurd heq hpc⟩

/-- **The thread follows a file** from where it was loaded, exactly while its time shows what is
written to it. -/
theorem follows_iff (conf : Conf ι κ) (f : File) {s₀ : State ι} (hload : Loaded f s₀)
    (events : List (Event ι)) :
    Throughout (pollStep conf) (FollowsFile f) s₀ events ↔
      StepsMeet (pollStep conf) (fun _ _ s e => StepShown f s e) s₀ events :=
  throughout_iff (pollStep_follows conf f) hload.followsFile events

/-- One entry, in the list of the core's file. -/
def oneEntry : Conf Unit Unit where
  list
    | .core => [intEntry]
    | _ => []
  pollfileMs := ()
  run := leaveAlone
  command _ ints := ints

/-- A time, of which the seconds are given. -/
def second (n : Int32) : RtcTime := ⟨n, 0, 0, 1, 0, 100⟩

/-- The core's file alone, of some second. -/
def oneFile (mtime : RtcTime) (text : List UInt8) (pc : Pc) (applied : Option (List UInt8)) :
    State Unit where
  files := Function.update (fun _ => none) .core (some (mtime, text))
  pretm := fun _ => second 0
  pc := pc
  ints := fun _ => 1
  isFsWorkEnable := true
  applied := Function.update (fun _ => none) .core applied

/-- A write within the remembered second is not seen. -/
theorem follows_iff_sameSecond :
    ¬ Throughout (pollStep oneEntry) (FollowsFile .core)
      (oneFile (second 1) (ascii "k=1") (.stamp .core) (some (ascii "k=1")))
      (threadSteps 3 ++ [.put .core (second 1) (ascii "k=2")]) := by
  intro h
  have hload : Loaded .core
      (oneFile (second 1) (ascii "k=1") (.stamp .core) (some (ascii "k=1"))) := rfl
  have hmeet := (follows_iff oneEntry .core hload _).mp h
  have hput := hmeet (threadSteps 3) _ List.prefix_rfl _ _ rfl rfl ⟨nofun, .inr rfl⟩
  exact absurd hput (by decide)

/-! ## A pass over the files -/

/-- The time of the file is remembered, and it was read exactly if its time was another. -/
def Passed (f : File) (s s' : State ι) : Prop :=
  (s.files f = none → s'.pretm f = s.pretm f ∧ s'.applied f = s.applied f) ∧
    ∀ mtime text, s.files f = some (mtime, text) → s'.pretm f = mtime ∧
      (s.pretm f = mtime → s'.applied f = s.applied f) ∧
      (s.pretm f ≠ mtime → s'.applied f = some text)

/-- The thread looks at `f`, and at nothing else, between the two states. -/
structure Looked (f : File) (s s' : State ι) : Prop where
  pc : s'.pc = afterLook f
  files : s'.files = s.files
  passed : Passed f s s'
  frame : ∀ g, g ≠ f → s'.pretm g = s.pretm g ∧ s'.applied g = s.applied g

/-- A look at a file, with the reading if there is one, takes two steps at most. -/
theorem look_reads (conf : Conf ι κ) {f : File} {s : State ι} (hpc : s.pc = .look f) :
    ∃ n ≤ 2, ∃ s' o, run (pollStep conf) s (threadSteps n) = some (s', o) ∧ Looked f s s' := by
  have hlook : pollStep conf s (.thread true) = some ({ (isFileTmUpdated s f).1 with
      pc := if (isFileTmUpdated s f).2 then .act f else afterLook f }, []) := by
    change threadPollfile conf s true = _
    unfold threadPollfile
    rw [hpc]
  rcases isFileTmUpdated_cases s f with ⟨tm, hg, hother, heq⟩ | ⟨heq, hsame⟩ <;> rw [heq] at hlook
  · -- another time: it is remembered, and the file read by the next step
    obtain ⟨o, hact⟩ := pollAct_eq conf
      { s with pretm := Function.update s.pretm f tm, pc := .act f } f true
    refine ⟨2, le_rfl, _, _, run_cons_eq hlook (run_singleton hact), rfl, rfl,
      ⟨fun hfile => ?_, fun mtime text hfile => ?_⟩, fun g hne => ⟨?_, lastRead_of_ne hne true⟩⟩
    · rw [getFileMftime, hfile] at hg
      cases hg
    · have hm : tm = mtime := by
        rw [getFileMftime] at hg
        exact Option.some.inj (hg.symm.trans (congrArg (Option.map Prod.fst) hfile))
      subst hm
      exact ⟨Function.update_self f tm s.pretm, fun heq => absurd heq hother,
        fun _ => lastRead_self (congrArg (Option.map Prod.snd) hfile)⟩
    · exact Function.update_of_ne hne tm s.pretm
  · refine ⟨1, by decide, _, _, run_singleton hlook, rfl, rfl,
      ⟨fun _ => ⟨rfl, rfl⟩, fun mtime text hfile => ?_⟩, fun _ _ => ⟨rfl, rfl⟩⟩
    have hm := hsame mtime (congrArg (Option.map Prod.fst) hfile)
    exact ⟨hm, fun _ => rfl, fun hne => absurd hm hne⟩

omit [DecidableEq ι] in
/-- What one look leaves alone before. -/
theorem Looked.passed_of_ne {f g : File} {s s₁ s' : State ι} (h : Looked f s s₁) (hg : g ≠ f)
    (hpassed : Passed g s₁ s') : Passed g s s' := by
  unfold Passed at hpassed ⊢
  rwa [h.files, (h.frame g hg).1, (h.frame g hg).2] at hpassed

omit [DecidableEq ι] in
/-- What one look leaves alone behind. -/
theorem Passed.looked_of_ne {f g : File} {s s₁ s' : State ι} (hpassed : Passed g s s₁)
    (h : Looked f s₁ s') (hg : g ≠ f) : Passed g s s' := by
  unfold Passed at hpassed ⊢
  rwa [← (h.frame g hg).1, ← (h.frame g hg).2] at hpassed

/-- **A pass reads what has another time**: from the top of the loop, when nobody writes meanwhile
and there is memory, the thread sleeps again after at most six steps; then the times of all
files are remembered, and those whose time was another than the one remembered, and only
those, were read as they are. -/
theorem pass_reads (conf : Conf ι κ) {s : State ι} (hpc : s.pc = .look .core) :
    ∃ n ≤ 6, ∃ s' o, run (pollStep conf) s (threadSteps n) = some (s', o) ∧
      s'.pc = .sleep ∧ s'.files = s.files ∧ ∀ f, Passed f s s' := by
  obtain ⟨n₁, hn₁, s₁, o₁, hrun₁, hcore⟩ := look_reads conf hpc
  obtain ⟨n₂, hn₂, s₂, o₂, hrun₂, hdriver⟩ := look_reads conf (f := .driver) hcore.pc
  obtain ⟨n₃, hn₃, s₃, o₃, hrun₃, hcmd⟩ := look_reads conf (f := .cmd) hdriver.pc
  have hrun := run_append (run_append hrun₁ hrun₂) hrun₃
  rw [threadSteps, threadSteps, threadSteps, ← List.replicate_add, ← List.replicate_add] at hrun
  refine ⟨n₁ + n₂ + n₃, by omega, s₃, _, hrun, hcmd.pc,
    hcmd.files.trans (hdriver.files.trans hcore.files), fun f => ?_⟩
  cases f with
  | core => exact (hcore.passed.looked_of_ne hdriver nofun).looked_of_ne hcmd nofun
  | driver => exact hcore.passed_of_ne nofun (hdriver.passed.looked_of_ne hcmd nofun)
  | cmd => exact hcore.passed_of_ne nofun (hdriver.passed_of_ne nofun hcmd.passed)

/-- Another time for the core's file alone. -/
theorem pass_reads_oneFile :
    ∃ n ≤ 6, ∃ s o, run (pollStep oneEntry)
        (oneFile (second 1) (ascii "k=2") (.look .core) none) (threadSteps n) = some (s, o) ∧
      s.pc = .sleep ∧ s.applied .core = some (ascii "k=2") ∧ s.applied .cmd = none := by
  obtain ⟨n, hn, s, o, hrun, hpc, -, hpassed⟩ := pass_reads oneEntry
    (s := oneFile (second 1) (ascii "k=2") (.look .core) none) rfl
  have hother : (oneFile (second 1) (ascii "k=2") (.look .core) none).pretm .core ≠ second 1 :=
    fun heq => absurd (congrArg RtcTime.tmSec heq) (by decide)
  exact ⟨n, hn, s, o, hrun, hpc, ((hpassed .core).2 (second 1) _ rfl).2.2 hother,
    ((hpassed .cmd).1 rfl).2⟩

/-! ## What the variables have -/

/-- The lines of an entry's key in a text. -/
def ownLinesOf (pos : StringDev ι κ) (text : List UInt8) : List (List UInt8 × List UInt8) :=
  ownLines pos (linesRead (some text) true)

/-- The variable of an entry has the number of the last line of its key that was read. -/
def HasRead (f : File) (pos : StringDev ι κ) (var : ι) (s : State ι) : Prop :=
  ∀ text, s.applied f = some text →
    ∀ kv, (ownLinesOf pos text).getLast? = some kv → s.ints var = strtoulInt kv.2

/-- An entry of a file's list: no other has its variable, and the callbacks leave the variables
alone. -/
structure Registered (conf : Conf ι κ) (f : File) (pos : StringDev ι κ) (var : ι) : Prop where
  file : f ≠ .cmd
  listed : pos ∈ conf.list f
  bound : pos.intValue = some var
  distinct : ((conf.list .core ++ conf.list .driver).filterMap StringDev.intValue).Nodup
  quiet : ∀ call ints, conf.run call ints = ints

/-- Neither others nor the commands of the file set the variable to something else. -/
def VarLeft (conf : Conf ι κ) (var : ι) (s : State ι) : Event ι → Prop
  | .setInts ints => ints var = s.ints var
  | .thread allocated => s.pc = .act .cmd → launched conf s allocated var = s.ints var
  | _ => True

/-- Without memory no line is read. -/
theorem linesRead_false (file : Option (List UInt8)) : linesRead file false = [] := by
  cases file with
  | none => rfl
  | some text => rw [linesRead, if_pos (.inl Bool.false_ne_true)]

/-- Lines leave a variable alone that no entry is bound to. -/
theorem updateLines_of_ne {run : CallbackCall κ → (ι → Int32) → ι → Int32}
    (hrun : ∀ call ints, run call ints = ints) {clientList : List (StringDev ι κ)} {var : ι}
    (hlist : ∀ pos ∈ clientList, pos.intValue ≠ some var)
    (lines : List (List UInt8 × List UInt8)) (s : UpdateState ι κ) :
    (updateLines run clientList s lines).ints var = s.ints var := by
  induction lines generalizing s with
  | nil => rfl
  | cons kv lines ih => exact (ih _).trans (updateLine_of_ne hrun kv s hlist).1

section
variable {f : File} {pos : StringDev ι κ} {var : ι}

omit [DecidableEq ι] in
/-- The entries of the file itself have different variables. -/
theorem Registered.distinct_own (h : Registered conf f pos var) :
    ((conf.list f).filterMap StringDev.intValue).Nodup := by
  have hboth := h.distinct
  rw [List.filterMap_append, List.nodup_append] at hboth
  cases f with
  | core => exact hboth.1
  | driver => exact hboth.2.1
  | cmd => exact absurd rfl h.file

omit [DecidableEq ι] in
/-- The entries of the other file. -/
theorem Registered.other (h : Registered conf f pos var) {g : File} (hfg : f ≠ g)
    (hg : g ≠ .cmd) : ∀ pos' ∈ conf.list g, pos'.intValue ≠ some var := by
  intro pos' hmem' hpos'
  have hboth := h.distinct
  rw [List.filterMap_append, List.nodup_append] at hboth
  have hown : var ∈ (conf.list f).filterMap StringDev.intValue :=
    List.mem_filterMap.mpr ⟨pos, h.listed, h.bound⟩
  have hother : var ∈ (conf.list g).filterMap StringDev.intValue :=
    List.mem_filterMap.mpr ⟨pos', hmem', hpos'⟩
  cases f with
  | core =>
    cases g with
    | core => exact hfg rfl
    | driver => exact hboth.2.2 var hown var hother rfl
    | cmd => exact hg rfl
  | driver =>
    cases g with
    | core => exact hboth.2.2 var hother var hown rfl
    | driver => exact hfg rfl
    | cmd => exact hg rfl
  | cmd => exact h.file rfl

/-- A file is read. -/
theorem Registered.act (h : Registered conf f pos var) {s : State ι} (hread : HasRead f pos var s)
    (g : File) (allocated : Bool)
    (hleft : g = .cmd → launched conf s allocated var = s.ints var) : HasRead f pos var { s with
      pc := afterLook g
      applied := lastRead s g allocated
      ints := actInts conf s g allocated } := by
  intro text hlast kv hkv
  dsimp only at hlast ⊢
  by_cases hfg : f = g
  · subst hfg
    have hints : actInts conf s f allocated = (updateLines conf.run (conf.list f) ⟨s.ints, []⟩
        (linesRead (textOf s f) allocated)).ints := by
      unfold actInts
      cases f with
      | cmd => exact absurd rfl h.file
      | core | driver => rfl
    rw [hints]
    cases htext : textOf s f with
    | none =>
      rw [lastRead_none htext] at hlast
      exact hread text hlast kv hkv
    | some text' =>
      cases allocated with
      | false =>
        -- no memory for the lines: nothing is read, and nothing set
        rw [lastRead_false] at hlast
        rw [linesRead_false]
        exact hread text hlast kv hkv
      | true =>
        rw [lastRead_self htext] at hlast
        cases hlast
        -- of the lines of the file the last one of the key counts
        have hown := (updateLines_own h.quiet h.distinct_own h.listed h.bound
          (linesRead (some text) true) ⟨s.ints, []⟩).1
        rw [hown, lastNumber]
        rw [ownLinesOf] at hkv
        rw [hkv]
        rfl
  · -- the other lists have no entry on the variable
    rw [lastRead_of_ne hfg] at hlast
    refine Eq.trans ?_ (hread text hlast kv hkv)
    unfold actInts
    cases g with
    | cmd => exact hleft rfl
    | core | driver => exact updateLines_of_ne h.quiet (h.other hfg nofun) _ _

/-- A step that leaves the variable alone keeps what was read in it. -/
theorem Registered.step (h : Registered conf f pos var) {s s' : State ι} {e : Event ι}
    {o : List (Obs ι κ)} (hread : HasRead f pos var s) (hleft : VarLeft conf var s e)
    (hstep : pollStep conf s e = some (s', o)) : HasRead f pos var s' := by
  rcases pollStep_cases hstep with ⟨g, allocated, hpc, rfl, rfl⟩ | ⟨ints, rfl, rfl⟩ |
    ⟨hints, happlied⟩
  · refine h.act hread g allocated fun hg => hleft ?_
    rw [hpc, hg]
  · intro text hlast kv hkv
    exact Eq.trans hleft (hread text hlast kv hkv)
  · intro text hlast kv hkv
    rw [happlied] at hlast
    rw [hints]
    exact hread text hlast kv hkv

/-- **The configuration is in force**: where the time shows nothing, the variable of an entry has
the number of the file's last line of its key. -/
theorem conf_inForce (h : Registered conf f pos var) {s₀ : State ι} (hload : Loaded f s₀)
    (hread : HasRead f pos var s₀) {events : List (Event ι)}
    (hmeet : StepsMeet (pollStep conf) (fun _ _ s e => StepShown f s e ∧ VarLeft conf var s e) s₀
      events)
    {s : State ι} {o : List (Obs ι κ)}
    (hrun : run (pollStep conf) s₀ events = some (s, o)) :
    ∀ mtime text, s.files f = some (mtime, text) → Unseen s f mtime →
      ∀ kv, (ownLinesOf pos text).getLast? = some kv → s.ints var = strtoulInt kv.2 := by
  intro mtime text hfile hun kv hkv
  have hshown : StepsMeet (pollStep conf) (fun _ _ s e => StepShown f s e) s₀ events :=
    fun pre e hpre s o hrun => (hmeet pre e hpre s o hrun).1
  have hleft : StepsMeet (pollStep conf) (fun _ _ s e => VarLeft conf var s e) s₀ events :=
    fun pre e hpre s o hrun => (hmeet pre e hpre s o hrun).2
  have hfollows : FollowsFile f s :=
    (throughout_iff (pollStep_follows conf f) hload.followsFile events).mpr hshown events
      List.prefix_rfl s o hrun
  have hkeep : ∀ s e s' (o : List (Obs ι κ)), HasRead f pos var s → VarLeft conf var s e →
      pollStep conf s e = some (s', o) → HasRead f pos var s' ∧ ∀ w ∈ o, True :=
    fun _ _ _ _ hr hl hs => ⟨h.step hr hl hs, fun _ _ => trivial⟩
  have hhas : HasRead f pos var s := (run_preserves_meet hkeep hread hleft hrun).1
  exact hhas text (hfollows mtime text hfile hun) kv hkv

end

/-- A write of another second, which the thread reads in its next turn. -/
theorem conf_inForce_oneFile :
    ∃ n s o, run (pollStep oneEntry)
        (oneFile (second 1) (ascii "k=1") (.look .core) (some (ascii "k=1")))
        (.put .core (second 2) (ascii "k=2") :: threadSteps n) = some (s, o) ∧ s.ints () = 2 := by
  have hlines : ∀ text ∈ [ascii "k=1", ascii "k=2"], text.splitOn 10 = [text] := fun text h =>
    List.splitOn_eq_singleton (by revert text; decide)
  have hown : ∀ text ∈ [ascii "k=1", ascii "k=2"],
      (ownLinesOf intEntry text).getLast? = some (ascii "k", text.drop 2) := by
    intro text h
    have hread : linesRead (some text) true = [(ascii "k", text.drop 2)] := by
      have hnul : 0 ∉ text := by revert text; decide
      have hne : text ≠ [] := by revert text; decide
      rw [linesRead, if_neg (by simpa using hne), fileLines, cstr_of_notMem hnul, hlines text h]
      revert text
      decide
    rw [ownLinesOf, hread]
    rfl
  have hregistered : Registered oneEntry .core intEntry () :=
    ⟨by decide, List.mem_cons_self, rfl, by decide, fun _ _ => rfl⟩
  let s₀ := oneFile (second 1) (ascii "k=1") (.look .core) (some (ascii "k=1"))
  let s₁ : State Unit := { s₀ with
    files := Function.update s₀.files .core (some (second 2, ascii "k=2")) }
  have hput : pollStep oneEntry s₀ (.put .core (second 2) (ascii "k=2")) = some (s₁, []) := rfl
  have hload : Loaded .core s₀ := rfl
  have hread : HasRead .core intEntry () s₀ := by
    intro text hlast kv hkv
    cases hlast
    rw [hown _ List.mem_cons_self] at hkv
    cases hkv
    rfl
  obtain ⟨n, -, s, o, hrun, hlooked⟩ := look_reads oneEntry (s := s₁) (f := .core) rfl
  have hmeet : StepsMeet (pollStep oneEntry)
      (fun _ _ s e => StepShown .core s e ∧ VarLeft oneEntry () s e) s₀
      (.put .core (second 2) (ascii "k=2") :: threadSteps n) := by
    refine (stepsMeet_cons_iff hput).mpr ⟨⟨fun _ hun => ?_, trivial⟩, ?_⟩
    · -- the time that is remembered is an older one
      exact absurd (congrArg RtcTime.tmSec (hun.2.resolve_left id)) (by decide)
    · intro pre e hpre s _ _
      have he : e = .thread true :=
        List.eq_of_mem_replicate (hpre.subset (List.mem_append_right pre List.mem_cons_self))
      rw [he]
      exact ⟨fun _ hfalse => absurd hfalse (by decide), fun _ => congrFun (List.foldl_fixed _) ()⟩
  have hall := run_cons_eq hput hrun
  have hfile : s.files .core = some (second 2, ascii "k=2") := by
    rw [hlooked.files]
    rfl
  have hunseen : Unseen s .core (second 2) := by
    refine ⟨?_, .inr (hlooked.passed.2 (second 2) (ascii "k=2") rfl).1⟩
    rw [hlooked.pc]
    decide
  exact ⟨n, s, _, hall, conf_inForce hregistered hload hread hmeet hall _ _ hfile hunseen _
    (hown _ (List.mem_cons_of_mem _ List.mem_cons_self))⟩

end

end Lidbg.FsPollfile
