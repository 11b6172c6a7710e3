import Lidbg.Drivers.Fastboot
import Lidbg.Machine.CInt
import Mathlib.Data.Int.Order.Basic

/-!
# How long fast boot waits (`drivers/fastboot/lidbg_fastboot.c`)

A wakelock that another driver holds keeps the system from suspending.
`thread_fastboot_suspend` looks once a second, and when it has waited long enough it powers
the system on again (a quick resume) and counts this in `wakelock_occur_count`, or forces the
suspend. The count begins again when the suspend is forced or comes, when the early suspend is
over, and when the last wait that was too long is ten minutes ago.

`quick_resumes_bounded`: whatever the locks do, and with all the driver's calls and threads
interleaved in any order, there are at most `max 5 haslock_resume_times` quick resumes until
the count begins again, and the thread has looked a bounded number of times.
-/

namespace Lidbg.Fastboot

open Machine Drivers

/-- The suspend thread looks at the status, there is a quick resume, or the count of these
begins again. -/
inductive Outcome where
  | look
  | quick
  | reset
deriving DecidableEq

/-- The reset of the count in a wait that was too long, and the quick resume. -/
def outcome (s : State) (now : UInt32) (a : Action) : Option Outcome :=
  match a with
  | .showWakelock => if now - s.lockResumeLastTime > 600 * 1000 then some .reset else none
  | .setPowerState 1 => some .quick
  | _ => none

/-- The outcomes of one event. -/
def outcomes (boardV1V2 : Bool) (s : State) (e : Event) : List Outcome :=
  match e with
  | .resume => [.reset]
  | .suspendThread adsp now now' =>
    match s.suspendTask with
    | .wait => []
    | .loop _ =>
      if s.suspendPending = .earlySuspendPending then
        .look :: (threadFastbootSuspend boardV1V2 s adsp now now').2.filterMap (outcome s now)
      else [.reset]
    | .force => [.reset]
  | _ => []

/-- The driver, seen by its outcomes. -/
def retryStep (boardV1V2 : Bool) : Step State Event Outcome := fun s e =>
  some ((fastbootEvent boardV1V2 s e).1, outcomes boardV1V2 s e)

/-- One more outcome; `since` are those since the count began, the last first. -/
def sinceNext (since : List Outcome) (w : Outcome) : List Outcome :=
  if w = .reset then [] else w :: since

/-- The outcomes since the count began. -/
def sinceReset (o : List Outcome) : List Outcome := o.foldl sinceNext []

/-- What happened since the last reset, over one more outcome after the other. -/
theorem sinceReset_append (o ws : List Outcome) :
    sinceReset (o ++ ws) = ws.foldl sinceNext (sinceReset o) := List.foldl_append

@[simp] theorem sinceReset_look (o : List Outcome) :
    sinceReset (o ++ [.look]) = .look :: sinceReset o := sinceReset_append o _

@[simp] theorem sinceReset_look_quick (o : List Outcome) :
    sinceReset (o ++ [.look, .quick]) = .quick :: .look :: sinceReset o := sinceReset_append o _

@[simp] theorem sinceReset_reset (o ws : List Outcome) :
    sinceReset (o ++ .reset :: ws) = ws.foldl sinceNext [] := sinceReset_append o _

@[simp] theorem sinceReset_look_reset (o ws : List Outcome) :
    sinceReset (o ++ .look :: .reset :: ws) = ws.foldl sinceNext [] := sinceReset_append o _

/-! ## What the thread does when it looks -/

/-- A quick resume for a clock or a lock that cannot be ignored, a wait that was too long and
ends in a quick resume, or in the forced suspend, or one more second to wait. -/
inductive Looked (s : State) (t : Nat) (s' : State) (o : List Outcome) : Prop where
  | blocked (hwait : s'.suspendTask = .wait) (hfew : s.wakelockOccurCount < 5)
      (hcount : s'.wakelockOccurCount = s.wakelockOccurCount + 1) (ho : o = [.look, .quick])
  | timeout (hwait : s'.suspendTask = .wait)
      (hfew : s'.wakelockOccurCount ≤ s.config.haslockResumeTimes)
      (hcount : s'.wakelockOccurCount = s.wakelockOccurCount + 1 ∧ o = [.look, .quick] ∨
        s'.wakelockOccurCount = 1 ∧ o = [.look, .reset, .quick])
  | forced (hforce : s'.suspendTask = .force) (ho : o = [.look] ∨ o = [.look, .reset])
  | again (hloop : s'.suspendTask = .loop (t + 1))
      (hearly : ((t + 1 : Nat) : Int) < s.config.maxWaitUnlockTime.toInt)
      (hcount : s'.wakelockOccurCount = s.wakelockOccurCount) (ho : o = [.look])

@[simp] theorem filterMap_killTasks (s s' : State) (now : UInt32) :
    (killTasks s).filterMap (outcome s' now) = [] := by
  unfold killTasks
  split <;> rfl

/-- A wait that was too long is a look. -/
theorem looked_timeout (s : State) (t : Nat) (now now' : UInt32) :
    Looked s t (suspendTimeout s now now').1
      (.look :: (suspendTimeout s now now').2.filterMap (outcome s now)) := by
  unfold suspendTimeout
  by_cases hlong : now - s.lockResumeLastTime > 600 * 1000
  · have hreset : outcome s now .showWakelock = some .reset := if_pos hlong
    simp only [if_pos hlong]
    split
    · next hfew =>
      refine .timeout rfl hfew (.inr ⟨rfl, ?_⟩)
      rw [List.filterMap_cons_some hreset]
      rfl
    · refine .forced rfl (.inr ?_)
      rw [List.filterMap_cons_some hreset]
      rfl
  · have hnone : outcome s now .showWakelock = none := if_neg hlong
    simp only [if_neg hlong]
    split
    · next hfew =>
      refine .timeout rfl hfew (.inl ⟨rfl, ?_⟩)
      rw [List.filterMap_cons_none hnone]
      rfl
    · refine .forced rfl (.inl ?_)
      rw [List.filterMap_cons_none hnone]
      rfl

/-- So is a wait for the locks. -/
theorem looked_suspendWait (boardV1V2 : Bool) (s : State) (t : Nat) (adsp : Bool)
    (now now' : UInt32) :
    Looked s t (suspendWait boardV1V2 s (t + 1) adsp now now').1
      (.look :: (suspendWait boardV1V2 s (t + 1) adsp now now').2.filterMap (outcome s now)) := by
  -- `list_active_locks` leaves alone all that the outcomes are about
  have hlist (s' : State) (o : List Outcome) :
      Looked (if boardV1V2 then s else listActiveLocks s adsp) t s' o → Looked s t s' o := by
    intro h
    cases boardV1V2 with
    | true => exact h
    | false =>
      cases h with
      | blocked hwait hfew hcount ho => exact .blocked hwait hfew hcount ho
      | timeout hwait hfew hcount => exact .timeout hwait hfew hcount
      | forced hforce ho => exact .forced hforce ho
      | again hloop hearly hcount ho => exact .again hloop hearly hcount ho
  have houtcome :
      outcome s now = outcome (if boardV1V2 then s else listActiveLocks s adsp) now := by
    cases boardV1V2 <;> rfl
  refine hlist _ _ ?_
  rw [houtcome]
  unfold suspendWait
  dsimp only
  generalize (if boardV1V2 then s else listActiveLocks s adsp) = s₁
  split
  · next hblock => exact .blocked rfl hblock.2.2 rfl rfl
  · split
    · exact looked_timeout s₁ t now now'
    · next hearly => exact .again rfl (Int.not_le.mp hearly) rfl rfl

/-- Every turn of the loop is a look. -/
theorem looked (boardV1V2 : Bool) {s : State} {t : Nat} (adsp : Bool) (now now' : UInt32)
    (hloop : s.suspendTask = .loop t) (hpending : s.suspendPending = .earlySuspendPending) :
    Looked s t (threadFastbootSuspend boardV1V2 s adsp now now').1
      (outcomes boardV1V2 s (.suspendThread adsp now now')) := by
  unfold outcomes threadFastbootSuspend
  simp only [hloop, if_pos hpending, List.filterMap_append, filterMap_killTasks, List.nil_append]
  split
  · next hclk => exact .blocked rfl hclk.2 rfl rfl
  · exact looked_suspendWait boardV1V2 s t adsp now now'

/-! ## The bound -/

/-- What a configuration may be set to. -/
def Limits (h W : Int) (config : Config) : Prop :=
  config.haslockResumeTimes.toInt ≤ h ∧ config.maxWaitUnlockTime.toInt ≤ W

/-- How often the thread has looked since the early suspend, at most. -/
def SuspendPc.looked (W : Int) : SuspendPc → Int
  | .wait => 0
  | .loop timeCount => timeCount
  | .force => W

/-- The count is that of the quick resumes, unless it is about to be set to zero. -/
structure Retries (h W : Int) (o : List Outcome) (s : State) : Prop where
  limits : Limits h W s.config
  counted : s.suspendTask ≠ .force →
    s.wakelockOccurCount.toInt = (sinceReset o).count .quick
  quicks : ((sinceReset o).count .quick : Int) ≤ max 5 h
  waits : ∀ t, s.suspendTask = .loop t → (t : Int) < W
  looks : ((sinceReset o).count .look : Int) ≤
    (sinceReset o).count .quick * W + s.suspendTask.looked W

variable {h W : Int} {o : List Outcome} {s s' : State}

/-- An event that is not seen, and leaves the count and the thread alone. -/
theorem Retries.frame (hI : Retries h W o s) (hlimits : Limits h W s'.config)
    (hcount : s'.wakelockOccurCount = s.wakelockOccurCount)
    (htask : s'.suspendTask = s.suspendTask) : Retries h W (o ++ []) s' where
  limits := hlimits
  counted := by
    rw [hcount, htask, List.append_nil]
    exact hI.counted
  quicks := by
    rw [List.append_nil]
    exact hI.quicks
  waits := by
    rw [htask]
    exact hI.waits
  looks := by
    rw [htask, List.append_nil]
    exact hI.looks

/-- There are never less than no looks. -/
theorem SuspendPc.looked_nonneg (hW : 0 < W) (pc : SuspendPc) : 0 ≤ pc.looked W := by
  cases pc with
  | wait => exact Int.le_refl 0
  | loop t => exact Int.natCast_nonneg t
  | force => exact Int.le_of_lt hW

/-- The count begins again. -/
theorem Retries.reset (hI : Retries h W o s) (hW : 0 < W)
    (hlimits : Limits h W s'.config) (hcount : s'.wakelockOccurCount = 0)
    (htask : s'.suspendTask = s.suspendTask ∨ s'.suspendTask = .wait) :
    Retries h W (o ++ [.reset]) s' where
  limits := hlimits
  counted := by
    intro _
    rw [hcount, sinceReset_reset]
    rfl
  quicks := by
    rw [sinceReset_reset]
    exact Int.le_trans (Int.natCast_nonneg 5) (Int.le_max_left 5 h)
  waits := by
    intro t ht
    cases htask with
    | inl hsame => exact hI.waits t (hsame ▸ ht)
    | inr hwait => exact absurd (hwait.symm.trans ht) SuspendPc.noConfusion
  looks := by
    have hnonneg := s'.suspendTask.looked_nonneg hW
    simpa using hnonneg

/-- The thread looks, and powers the system on. -/
theorem Retries.quick (hlimits : Limits h W s'.config) (hwait : s'.suspendTask = .wait)
    (hcounted : s'.wakelockOccurCount.toInt = (sinceReset o).count .quick)
    (hquicks : s'.wakelockOccurCount.toInt ≤ max 5 h)
    (hlooks : ((sinceReset o).count .look : Int) ≤ (sinceReset o).count .quick * W) :
    Retries h W o s' where
  limits := hlimits
  counted := fun _ => hcounted
  quicks := hcounted ▸ hquicks
  waits := by
    intro t ht
    exact absurd (hwait.symm.trans ht) SuspendPc.noConfusion
  looks := by
    rw [hwait]
    exact Int.le_trans hlooks (Int.le_add_of_nonneg_right (Int.le_refl 0))

/-- The thread looks, and has waited too long. -/
theorem Retries.force (hlimits : Limits h W s'.config) (hforce : s'.suspendTask = .force)
    (hquicks : ((sinceReset o).count .quick : Int) ≤ max 5 h)
    (hlooks : ((sinceReset o).count .look : Int) ≤
      (sinceReset o).count .quick * W + W) : Retries h W o s' where
  limits := hlimits
  counted := fun hne => absurd hforce hne
  quicks := hquicks
  waits := by
    intro t ht
    exact absurd (hforce.symm.trans ht) SuspendPc.noConfusion
  looks := by
    rw [hforce]
    exact hlooks

/-- A look keeps the bounds. -/
theorem Retries.look (hI : Retries h W o s) (hh : h < 2 ^ 31 - 1) (hW : 0 < W) {t : Nat}
    {ws : List Outcome} (hloop : s.suspendTask = .loop t) (hconfig : s'.config = s.config)
    (hlooked : Looked s t s' ws) : Retries h W (o ++ ws) s' := by
  have hcounted := hI.counted (by rw [hloop]; exact SuspendPc.noConfusion)
  have hquicks := hI.quicks
  have hwaits := hI.waits t hloop
  have hlooks := hI.looks
  rw [hloop, show SuspendPc.looked W (.loop t) = t from rfl] at hlooks
  have hlimits : Limits h W s'.config := hconfig ▸ hI.limits
  have hnext : (s.wakelockOccurCount + 1).toInt = s.wakelockOccurCount.toInt + 1 :=
    toInt_add_one (by omega) (by omega)
  -- a quick resume uses up at most the looks of one wait
  have hmore : ((sinceReset o).count .look : Int) + 1 ≤
      ((sinceReset o).count .quick + 1) * W := by
    rw [Int.add_mul, Int.one_mul]
    omega
  cases hlooked with
  | blocked hwait hfew hcount ho =>
    have hfew : s.wakelockOccurCount.toInt < 5 := Int32.lt_iff_toInt_lt.mp hfew
    subst ho
    refine .quick hlimits hwait ?_ ?_ ?_
    · simp [hcount, hnext, hcounted]
    · rw [hcount, hnext]
      omega
    · simpa using hmore
  | timeout hwait hfew hcount =>
    have hfew : s'.wakelockOccurCount.toInt ≤ h :=
      Int.le_trans (Int32.le_iff_toInt_le.mp hfew) hI.limits.1
    have hbound : s'.wakelockOccurCount.toInt ≤ max 5 h :=
      Int.le_trans hfew (Int.le_max_right 5 h)
    obtain ⟨hcount, rfl⟩ | ⟨hcount, rfl⟩ := hcount
    · refine .quick hlimits hwait ?_ hbound ?_
      · simp [hcount, hnext, hcounted]
      · simpa using hmore
    · refine .quick hlimits hwait ?_ hbound ?_
      · rw [hcount, sinceReset_look_reset]
        rfl
      · rw [sinceReset_look_reset]
        show (0 : Int) ≤ 1 * W
        omega
  | forced hforce ho =>
    obtain rfl | rfl := ho
    · refine .force hlimits hforce ?_ ?_
      · simpa using hquicks
      · simp
        omega
    · refine .force hlimits hforce ?_ ?_
      · rw [sinceReset_look_reset]
        show (0 : Int) ≤ max 5 h
        omega
      · rw [sinceReset_look_reset]
        show (0 : Int) ≤ 0 * W + W
        omega
  | again hloop' hearly hcount ho =>
    subst ho
    have hW := hI.limits.2
    refine ⟨hlimits, fun _ => ?_, ?_, ?_, ?_⟩
    · rw [hcount, hcounted]
      simp
    · simpa using hquicks
    · intro t' ht'
      cases hloop'.symm.trans ht'
      omega
    · rw [hloop']
      simp [SuspendPc.looked]
      omega

/-! ## One event, and every run -/

/-- The suspend thread does not change the configuration. -/
theorem config_threadFastbootSuspend (boardV1V2 : Bool) (s : State) (adsp : Bool)
    (now now' : UInt32) :
    (threadFastbootSuspend boardV1V2 s adsp now now').1.config = s.config := by
  unfold threadFastbootSuspend
  cases s.suspendTask with
  | wait => dsimp only; split <;> rfl
  | force => dsimp only; split <;> rfl
  | loop timeCount =>
    dsimp only
    split
    · split
      · rfl
      · unfold suspendWait suspendTimeout quickResume listActiveLocks
        cases boardV1V2 <;> simp <;> split_ifs <;> rfl
    · rfl

/-- A turn of the suspend thread keeps the bounds. -/
theorem Retries.suspendThread (boardV1V2 : Bool) (hh : h < 2 ^ 31 - 1) (hW : 0 < W)
    (adsp : Bool) (now now' : UInt32) (hI : Retries h W o s) :
    Retries h W (o ++ outcomes boardV1V2 s (.suspendThread adsp now now'))
      (threadFastbootSuspend boardV1V2 s adsp now now').1 := by
  have hconfig := config_threadFastbootSuspend boardV1V2 s adsp now now'
  have hlimits := hconfig ▸ hI.limits
  cases htask : s.suspendTask with
  | wait =>
    unfold outcomes threadFastbootSuspend
    simp only [htask]
    split
    · have hcounted := hI.counted (by rw [htask]; exact SuspendPc.noConfusion)
      have hlooks := hI.looks
      rw [htask] at hlooks
      rw [List.append_nil]
      refine ⟨hI.limits, fun _ => hcounted, hI.quicks, ?_, hlooks⟩
      intro t ht
      cases ht
      exact hW
    · exact hI.frame hI.limits rfl rfl
  | loop t =>
    by_cases hpending : s.suspendPending = .earlySuspendPending
    · exact hI.look hh hW htask hconfig (looked boardV1V2 adsp now now' htask hpending)
    · unfold outcomes threadFastbootSuspend
      simp only [htask, if_neg hpending]
      exact hI.reset hW hI.limits rfl (.inr rfl)
  | force =>
    unfold outcomes threadFastbootSuspend
    simp only [htask]
    split
    · exact hI.reset hW hI.limits rfl (.inr rfl)
    · exact hI.reset hW hI.limits rfl (.inr rfl)

/-- **An event keeps the counts** of quick resumes and looks within their bounds. -/
theorem Retries.step (boardV1V2 : Bool) (hh : h < 2 ^ 31 - 1) (hW : 0 < W) (e : Event)
    (hconfig : ∀ config, e = .setConfig config → Limits h W config) (hI : Retries h W o s) :
    Retries h W (o ++ outcomes boardV1V2 s e) (fastbootEvent boardV1V2 s e).1 := by
  cases e with
  | earlySuspend => exact hI.frame hI.limits rfl rfl
  | lateResume =>
    show Retries h W (o ++ []) (lateResume s).1
    unfold lateResume
    dsimp only
    split
    · exact hI.frame hI.limits rfl rfl
    · exact hI.frame hI.limits rfl rfl
  | resume => exact hI.reset hW hI.limits rfl (.inl rfl)
  | suspendThread adsp now now' => exact hI.suspendThread boardV1V2 hh hW adsp now now'
  | resumeThread =>
    show Retries h W (o ++ []) (threadFastbootResume s).1
    unfold threadFastbootResume
    cases s.resumeTask with
    | wait =>
      dsimp only
      split
      · exact hI.frame hI.limits rfl rfl
      · exact hI.frame hI.limits rfl rfl
    | powerOn | settle => exact hI.frame hI.limits rfl rfl
  | setStatus status => exact hI.frame hI.limits rfl rfl
  | setConfig config => exact hI.frame (hconfig config rfl) rfl rfl

theorem retries_probe (hh : 0 ≤ h) (hW : 5 ≤ W) : Retries h W [] fastbootProbe where
  limits := ⟨hh, hW⟩
  counted := fun _ => rfl
  quicks := Int.le_trans (Int.natCast_nonneg 5) (Int.le_max_left 5 h)
  waits := by
    intro t ht
    cases ht
  looks := by
    show (0 : Int) ≤ 0 * W + 0
    omega

/-- **Locks that do not go away are waited for a bounded number of times**: then the suspend is
forced, if neither it comes, nor the early suspend is over, nor two waits that were too long are
ten minutes apart. -/
theorem quick_resumes_bounded (boardV1V2 : Bool) {events : List Event} (hh0 : 0 ≤ h)
    (hh : h < 2 ^ 31 - 1) (hW : 5 ≤ W)
    (hconfig : ∀ config, .setConfig config ∈ events → Limits h W config)
    (hrun : run (retryStep boardV1V2) fastbootProbe events = some (s, o)) :
    ((sinceReset o).count .quick : Int) ≤ max 5 h ∧
      ((sinceReset o).count .look : Int) ≤ (max 5 h + 1) * W := by
  have hmeet := stepsMeet_of_forall
    (C := fun e => ∀ config, e = Event.setConfig config → Limits h W config)
    (fun e he config heq => hconfig config (heq ▸ he)) (retryStep boardV1V2) fastbootProbe
  have hpos : 0 < W := Int.lt_of_lt_of_le (by decide) hW
  have hI : Retries h W ([] ++ o) s := run_preserves_observed_meet
    (fun o s e s' o' hI hC hs => by
      cases hs
      exact hI.step boardV1V2 hh hpos e hC)
    (retries_probe hh0 hW) hmeet hrun
  rw [List.nil_append] at hI
  refine ⟨hI.quicks, ?_⟩
  have hlooked : s.suspendTask.looked W ≤ W := by
    cases htask : s.suspendTask with
    | wait => exact Int.le_of_lt hpos
    | loop t => exact Int.le_of_lt (hI.waits t htask)
    | force => exact Int.le_refl W
  calc ((sinceReset o).count .look : Int)
      ≤ (sinceReset o).count .quick * W + s.suspendTask.looked W := hI.looks
    _ ≤ max 5 h * W + W :=
      Int.add_le_add (Int.mul_le_mul_of_nonneg_right hI.quicks (Int.le_of_lt hpos)) hlooked
    _ = (max 5 h + 1) * W := by rw [Int.add_mul, Int.one_mul]

/-- A wait of five seconds for a lock that stays, and the system powered on again. -/
def lockedAttempt : List Event :=
  [.setStatus .earlySuspendPending, .earlySuspend] ++
    List.replicate 6 (.suspendThread false 1000 1000) ++ [.lateResume]

/-- With the repository's configuration: three attempts, and the fourth is forced. -/
def lockedAttempts : List Event :=
  .setConfig ⟨0, 3, 5⟩ :: (List.replicate 4 lockedAttempt).flatten

theorem quick_resumes_bounded_locked : ∃ s o,
    run (retryStep false) fastbootProbe lockedAttempts = some (s, o) ∧
      s.suspendTask = .force ∧ (sinceReset o).count .quick = 3 ∧
      ((sinceReset o).count .quick : Int) ≤ max 5 3 ∧
      ((sinceReset o).count .look : Int) ≤ (max 5 3 + 1) * 5 := by
  have hrun : (run (retryStep false) fastbootProbe lockedAttempts).map
      (fun r => (r.1.suspendTask, (sinceReset r.2).count .quick)) = some (.force, 3) := by
    decide +kernel
  obtain ⟨⟨s, o⟩, hrun, hfacts⟩ := Option.map_eq_some_iff.mp hrun
  obtain ⟨hforce, hcount⟩ := Prod.mk.inj hfacts
  refine ⟨s, o, hrun, hforce, hcount, ?_⟩
  refine quick_resumes_bounded false (h := 3) (W := 5) (by decide) (by decide) (by decide) ?_ hrun
  intro config hmem
  have hconfig : config = ⟨0, 3, 5⟩ := by
    simpa [lockedAttempts, lockedAttempt] using hmem
  rw [hconfig]
  exact ⟨by decide, by decide⟩

end Lidbg.Fastboot
