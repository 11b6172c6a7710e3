import Lidbg.Machine.CStr
import Lidbg.Machine.Run
import Mathlib.Tactic.SplitIfs

/-!
# The kill scan (`drivers/fastboot/lidbg_fastboot.c`, `drivers/acc/lidbg_acc.c`)

`fastboot_task_kill_exclude` walks over all processes. One whose name neither
starts with a protected prefix nor is in `fastboot_kill_list` is recorded in the
next row of `kill_process`, with its name as the format of `sprintf`, and
killed. The copy in the driver of `acc` has the kill commented out.
-/

namespace Lidbg.KillScan

open Machine

/-- `struct task_struct`: `comm` has sixteen bytes. -/
structure Task where
  pid : Int32
  comm : CStr
  short : comm.chars.length ≤ 15

/-- `sprintf` with a format and no arguments: `%%` is a percent sign, any other
conversion is undefined. -/
def format : List UInt8 → Option (List UInt8)
  | [] => some []
  | 37 :: 37 :: rest => (format rest).map (37 :: ·)
  | 37 :: _ => none
  | b :: rest => (format rest).map (b :: ·)

/-- The rows of `kill_process`, and their size. -/
def killRows : Nat := 32

def killRowSize : Nat := 25

/-- The chain of `strncmp`. -/
def isProtected (prefixes : List (List UInt8)) (p : Task) : Bool :=
  prefixes.any fun pre => pre.isPrefixOf p.comm.chars

/-- The walk over `fastboot_kill_list`. -/
def isListed (killList : List CStr) (p : Task) : Bool :=
  killList.any fun key => p.comm == key

/-- One process, with the rows that are in use; `none` if there is no next row,
or the name is no format or does not fit. Killed processes are observed. -/
def killStep (kills : Bool) (prefixes : List (List UInt8)) (killList : List CStr) :
    Step (List (List UInt8)) Task Int32 := fun rows p =>
  if isProtected prefixes p then some (rows, [])
  else if isListed killList p then some (rows, [])
  else if rows.length < killRows then do
    -- `sprintf(kill_process[j++], p->comm)`
    let text ← format p.comm.chars
    let row ← sprintf killRowSize text
    some (rows ++ [row], if kills then [p.pid] else [])
  else none

namespace Fastboot

def prefixes : List (List UInt8) :=
  [ascii "flush", ascii "mtdblock", ascii "kworker", ascii "yaffs", ascii "irq",
    ascii "migration", ascii "mmcqd", ascii "Fly", ascii "fly", ascii "flyaudio",
    ascii "ksdioirqd", ascii "jbd2", ascii "ext4", ascii "scsi", ascii "loop",
    ascii "ServiceHandler", ascii "system", ascii "ksoftirqd", ascii "ftf", ascii "lidbg_"]

/-- `fastboot_task_kill_exclude`: the rows, and who was killed. -/
def fastbootTaskKillExclude (killList : List CStr) (tasks : List Task) :
    Option (List (List UInt8) × List Int32) :=
  run (killStep true prefixes killList) [] tasks

end Fastboot

namespace Acc

def prefixes : List (List UInt8) :=
  Fastboot.prefixes ++ [ascii "thread"]

/-- `fastboot_task_kill_exclude`. -/
def fastbootTaskKillExclude (killList : List CStr) (tasks : List Task) :
    Option (List (List UInt8) × List Int32) :=
  run (killStep false prefixes killList) [] tasks

end Acc

/-- A process that is neither protected nor listed. -/
def Selected (prefixes : List (List UInt8)) (killList : List CStr) (p : Task) : Prop :=
  (∀ pre ∈ prefixes, ¬ pre <+: p.comm.chars) ∧ ∀ key ∈ killList, p.comm ≠ key

instance (prefixes : List (List UInt8)) (killList : List CStr) (p : Task) :
    Decidable (Selected prefixes killList p) :=
  inferInstanceAs (Decidable (_ ∧ _))

def selected (prefixes : List (List UInt8)) (killList : List CStr) (tasks : List Task) :
    List Task :=
  tasks.filter fun p => Selected prefixes killList p

/-- The scan stays in its rows, records the names of these processes in order,
and kills them. -/
def KillsExactly (result : Option (List (List UInt8) × List Int32)) (targets : List Task) : Prop :=
  result = some (targets.map fun p => p.comm.chars, targets.map fun p => p.pid)

/-! ## Formats -/

theorem length_format_le {s text : List UInt8} (h : format s = some text) :
    text.length ≤ s.length := by
  fun_induction format s generalizing text with
  | case1 =>
    cases h
    exact Nat.le_refl 0
  | case2 rest ih =>
    obtain ⟨text', htext, rfl⟩ := Option.map_eq_some_iff.mp h
    have hle := ih htext
    simp only [List.length_cons]
    omega
  | case3 => cases h
  | case4 b rest _ _ ih =>
    obtain ⟨text', htext, rfl⟩ := Option.map_eq_some_iff.mp h
    have hle := ih htext
    simp only [List.length_cons]
    omega

/-- A text is its own format exactly if it has no percent sign. -/
theorem format_eq_self_iff (s : List UInt8) : format s = some s ↔ 37 ∉ s := by
  fun_induction format s with
  | case1 => simp
  | case2 rest ih =>
    refine iff_of_false ?_ (by simp)
    intro h
    obtain ⟨text, htext, heq⟩ := Option.map_eq_some_iff.mp h
    cases heq
    exact absurd (length_format_le htext) (Nat.not_succ_le_self _)
  | case3 => simp
  | case4 b rest _ hne ih =>
    have hb : ¬ 37 = b := fun h => hne h.symm
    rw [List.mem_cons, not_or, and_iff_right hb, ← ih]
    simp

/-! ## The scan -/

section Scan

variable {kills : Bool} {prefixes : List (List UInt8)} {killList : List CStr}

theorem selected_iff (p : Task) :
    Selected prefixes killList p ↔
      isProtected prefixes p = false ∧ isListed killList p = false := by
  simp [Selected, isProtected, isListed]

theorem killStep_spared {p : Task} (h : ¬ Selected prefixes killList p)
    (rows : List (List UInt8)) :
    killStep kills prefixes killList rows p = some (rows, []) := by
  rw [selected_iff, not_and_or, Bool.not_eq_false, Bool.not_eq_false] at h
  rw [killStep]
  by_cases hprotected : isProtected prefixes p = true
  · rw [if_pos hprotected]
  · rw [if_neg hprotected, if_pos (h.resolve_left hprotected)]

/-- A process that is selected takes the next row, and its name is the format of
what is stored there. -/
theorem killStep_selected {p : Task} (h : Selected prefixes killList p)
    (rows : List (List UInt8)) :
    killStep kills prefixes killList rows p =
      if rows.length < killRows then
        (format p.comm.chars).map fun text => (rows ++ [text], if kills then [p.pid] else [])
      else none := by
  obtain ⟨hprotected, hlisted⟩ := (selected_iff p).mp h
  rw [killStep, if_neg (by simp [hprotected]), if_neg (by simp [hlisted])]
  congr 1
  cases hformat : format p.comm.chars with
  | none => rfl
  | some text =>
    have hfit : text.length < killRowSize := by
      have hle := length_format_le hformat
      have hshort := p.short
      unfold killRowSize
      omega
    simp [sprintf, hfit]

/-- The step for a selected process, taken apart. -/
theorem killStep_selected_eq_some {p : Task} (h : Selected prefixes killList p)
    {rows rows' : List (List UInt8)} {killed : List Int32}
    (hstep : killStep kills prefixes killList rows p = some (rows', killed)) :
    ∃ text, rows.length < killRows ∧ format p.comm.chars = some text ∧
      rows' = rows ++ [text] := by
  rw [killStep_selected h] at hstep
  by_cases hrow : rows.length < killRows
  · rw [if_pos hrow] at hstep
    obtain ⟨text, htext, heq⟩ := Option.map_eq_some_iff.mp hstep
    cases heq
    exact ⟨text, hrow, htext, rfl⟩
  · rw [if_neg hrow] at hstep
    cases hstep

/-- Rows that are in use stay. -/
theorem rows_prefix {rows rows' : List (List UInt8)} {tasks : List Task} {killed : List Int32}
    (h : run (killStep kills prefixes killList) rows tasks = some (rows', killed)) :
    rows <+: rows' := by
  refine run_preserves (I := fun r => rows <+: r) ?_ List.prefix_rfl h
  intro r p r' o hr hstep
  by_cases hp : Selected prefixes killList p
  · obtain ⟨text, -, -, rfl⟩ := killStep_selected_eq_some hp hstep
    exact hr.trans (List.prefix_append r [text])
  · rw [killStep_spared hp] at hstep
    cases hstep
    exact hr

theorem selected_cons_pos {p : Task} (h : Selected prefixes killList p) (tasks : List Task) :
    selected prefixes killList (p :: tasks) = p :: selected prefixes killList tasks := by
  simp [selected, h]

theorem selected_cons_neg {p : Task} (h : ¬ Selected prefixes killList p) (tasks : List Task) :
    selected prefixes killList (p :: tasks) = selected prefixes killList tasks := by
  simp [selected, h]

/-- The names that are selected fit into the rows, as they are. -/
def FitRows (used : Nat) (targets : List Task) : Prop :=
  used + targets.length ≤ killRows ∧ ∀ p ∈ targets, 37 ∉ p.comm.chars

theorem run_killStep {tasks : List Task} {rows : List (List UInt8)}
    (h : FitRows rows.length (selected prefixes killList tasks)) :
    run (killStep kills prefixes killList) rows tasks =
      some (rows ++ (selected prefixes killList tasks).map fun p => p.comm.chars,
        if kills then (selected prefixes killList tasks).map fun p => p.pid else []) := by
  induction tasks generalizing rows with
  | nil => cases kills <;> simp [selected]
  | cons p tasks ih =>
    by_cases hp : Selected prefixes killList p
    · rw [selected_cons_pos hp] at h ⊢
      obtain ⟨hlen, hplain⟩ := h
      rw [List.forall_mem_cons] at hplain
      rw [List.length_cons] at hlen
      have hrow : rows.length < killRows := by omega
      have hstep : killStep kills prefixes killList rows p =
          some (rows ++ [p.comm.chars], if kills then [p.pid] else []) := by
        rw [killStep_selected hp, if_pos hrow, (format_eq_self_iff _).mpr hplain.1]
        rfl
      have hfit : FitRows (rows ++ [p.comm.chars]).length (selected prefixes killList tasks) := by
        refine ⟨?_, hplain.2⟩
        rw [List.length_append, List.length_singleton]
        omega
      rw [run_cons_eq hstep (ih hfit)]
      cases kills <;> simp
    · rw [selected_cons_neg hp] at h ⊢
      exact run_cons_eq (killStep_spared hp rows) (ih h)

theorem fitRows_of_run {tasks : List Task} {rows : List (List UInt8)} {killed : List Int32}
    (hrows : rows.length ≤ killRows)
    (h : run (killStep kills prefixes killList) rows tasks =
      some (rows ++ (selected prefixes killList tasks).map fun p => p.comm.chars, killed)) :
    FitRows rows.length (selected prefixes killList tasks) := by
  induction tasks generalizing rows killed with
  | nil => exact ⟨hrows, fun p hp => nomatch hp⟩
  | cons p tasks ih =>
    obtain ⟨rows₁, o, o', hstep, hrest, -⟩ := run_cons_inv h
    by_cases hp : Selected prefixes killList p
    · rw [selected_cons_pos hp] at hrest ⊢
      obtain ⟨text, hrow, htext, rfl⟩ := killStep_selected_eq_some hp hstep
      -- what was recorded first is what the format made of the first name
      have hname : text = p.comm.chars := by
        have hprefix := rows_prefix hrest
        rw [List.prefix_append_right_inj, List.map_cons] at hprefix
        exact (List.cons_prefix_cons.mp hprefix).1
      subst hname
      have hlen : (rows ++ [p.comm.chars]).length = rows.length + 1 := by simp
      have hfit : FitRows (rows ++ [p.comm.chars]).length (selected prefixes killList tasks) := by
        rw [List.map_cons, List.append_cons rows _ (List.map _ _)] at hrest
        exact ih (by omega) hrest
      refine ⟨?_, List.forall_mem_cons.mpr ⟨(format_eq_self_iff _).mp htext, hfit.2⟩⟩
      have hle := hfit.1
      rw [hlen] at hle
      rw [List.length_cons]
      omega
    · rw [killStep_spared hp] at hstep
      cases hstep
      rw [selected_cons_neg hp] at hrest ⊢
      exact ih hrows hrest

end Scan

/-- **The kill scan** of the fastboot driver is exact if and only if the
selected processes fit into the rows and none has a percent sign in its name;
that of the acc driver, if and only if there is no process to kill. -/
theorem killsExactly_iff (killList : List CStr) (tasks : List Task) :
    (KillsExactly (Fastboot.fastbootTaskKillExclude killList tasks)
        (selected Fastboot.prefixes killList tasks) ↔
      (selected Fastboot.prefixes killList tasks).length ≤ 32 ∧
        ∀ p ∈ selected Fastboot.prefixes killList tasks, 37 ∉ p.comm.chars) ∧
    (KillsExactly (Acc.fastbootTaskKillExclude killList tasks)
        (selected Acc.prefixes killList tasks) ↔
      selected Acc.prefixes killList tasks = []) := by
  have hzero : ([] : List (List UInt8)).length ≤ killRows := Nat.zero_le _
  constructor
  · have hiff : FitRows 0 (selected Fastboot.prefixes killList tasks) ↔
        (selected Fastboot.prefixes killList tasks).length ≤ 32 ∧
          ∀ p ∈ selected Fastboot.prefixes killList tasks, 37 ∉ p.comm.chars := by
      rw [FitRows, Nat.zero_add]
      rfl
    rw [← hiff]
    exact ⟨fun h => fitRows_of_run hzero h, fun hfit => run_killStep hfit⟩
  · have hrun : FitRows 0 (selected Acc.prefixes killList tasks) →
        Acc.fastbootTaskKillExclude killList tasks =
          some ((selected Acc.prefixes killList tasks).map fun p => p.comm.chars, []) :=
      fun hfit => run_killStep hfit
    constructor
    · intro h
      have heq := h.symm.trans (hrun (fitRows_of_run hzero h))
      simpa using heq
    · intro hnone
      rw [hnone] at hrun ⊢
      exact hrun ⟨Nat.zero_le _, fun p hp => nomatch hp⟩

/-- A process whose name is a conversion, and more processes than rows. -/
def conversion : Task := ⟨7, ⟨ascii "%d", by decide⟩, by decide⟩

def shell : Task := ⟨8, ⟨ascii "sh", by decide⟩, by decide⟩

theorem kill_scan_fails :
    ¬ KillsExactly (Fastboot.fastbootTaskKillExclude [] [conversion])
      (selected Fastboot.prefixes [] [conversion]) ∧
    ¬ KillsExactly (Fastboot.fastbootTaskKillExclude [] (List.replicate 33 shell))
      (selected Fastboot.prefixes [] (List.replicate 33 shell)) := by
  unfold KillsExactly
  constructor <;> decide

end Lidbg.KillScan
