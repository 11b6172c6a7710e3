import Lidbg.Core.TsEventGate

/-!
# What `launch_cmd` compares (`core/lidbg_ts_event.c`)

`strcmp` is given `prepare_cmd`, which has room for six digits and nothing behind them.
`launch_cmd` is only called when the sixth is there.

`compared_terminated_iff`: no comparison finds a NUL in the array, so that a run is
without fault only as long as none is made.
-/

namespace Lidbg.TsEvent

open Machine

variable {κ : Type}

/-- A call `strcmp` of `prepare_cmd` with a password. -/
structure Compared where
  prepareCmd : Vector UInt8 cmdMax
  password : List UInt8

/-- Those of `launch_cmd`, and of `call_password_cb` in it. -/
def launchCompares (s : State κ) (behind : CStr) : List Compared :=
  (if s.gIsTeEnable ≠ 0 then [] else [⟨s.prepareCmd, passwordTeOn⟩]) ++
    if s.gIsTeEnable ≠ 0 ∨ cmdString s behind = passwordTeOn then
      s.tePasswordList.map fun pos => ⟨s.prepareCmd, pos.password.chars⟩
    else []

/-- Those of `getnum_andanalysis` behind its `while(g_curr_tspara.press)`. -/
def analyseCompares (s : State κ) (num : Nat) (behind : CStr) : List Compared :=
  if clear = num then []
  else
    match devrectList[num]? with
    | none => []
    | some rect =>
      if h : s.prepareCmdpos < cmdMax then
        let s' := { s with
          prepareCmd := s.prepareCmd.set s.prepareCmdpos rect.name h
          prepareCmdpos := s.prepareCmdpos + 1 }
        if s'.prepareCmdpos ≥ cmdMax then launchCompares s' behind else []
      else []

/-- Those of a step. -/
def compares (s : State κ) : Event κ → List Compared
  | .turn behind =>
    match s.waiting with
    | some num => if s.gCurrTspara.press then [] else analyseCompares s num behind
    | none => []
  | _ => []

/-- The thread, observed at its comparisons. -/
def compareStep (effect : κ → Int → Int) : Step (State κ) (Event κ) Compared := fun s e =>
  (step effect s e).map fun r => (r.1, compares s e)

/-- The turn finds the sixth digit released. -/
def SixthDigit (s : State κ) (e : Event κ) : Prop :=
  (∃ behind, e = .turn behind) ∧ (∃ num, s.waiting = some num ∧ num ≠ clear) ∧
    s.gCurrTspara.press = false ∧ s.prepareCmdpos + 1 = cmdMax

/-- With something to compare it with. -/
def Launches (s : State κ) (e : Event κ) : Prop :=
  SixthDigit s e ∧ (s.gIsTeEnable = 0 ∨ s.tePasswordList ≠ [])

/-! ## What is typed -/

/-- What has been typed holds no NUL, and there is room for a digit. -/
structure Typing (s : State κ) : Prop where
  room : s.prepareCmdpos < cmdMax
  digits : 0 ∉ s.prepareCmd.toList.take s.prepareCmdpos
  waits : ∀ num, s.waiting = some num → num ≤ 3

theorem typing_start : Typing (κ := κ) State.start where
  room := Nat.zero_lt_succ 5
  digits := List.not_mem_nil
  waits _ h := nomatch h

/-- With the position at 0 nothing has been typed. -/
theorem Typing.reset {s s' : State κ} (h : Typing s) (hpos : s'.prepareCmdpos = 0)
    (hwaiting : s'.waiting = s.waiting) : Typing s' where
  room := hpos ▸ Nat.zero_lt_succ 5
  digits := by
    rw [hpos, List.take_zero]
    exact List.not_mem_nil
  waits num hnum := h.waits num (hwaiting ▸ hnum)

/-- One more digit holds no NUL either. -/
theorem Typing.nul_notMem_set {s : State κ} (h : Typing s) {num : Nat} (hnum : num ≤ 3) :
    0 ∉ (s.prepareCmd.set s.prepareCmdpos (digitOf num) h.room).toList.take
      (s.prepareCmdpos + 1) := by
  rw [take_set]
  exact List.not_mem_append h.digits fun h0 =>
    nul_ne_digitOf hnum (List.mem_singleton.mp h0)

theorem teRegistPassword_cmd (s : State κ) (password : Option CStr) (cb : Option κ) :
    (teRegistPassword s password cb).prepareCmd = s.prepareCmd ∧
      (teRegistPassword s password cb).waiting = s.waiting := by
  rcases password with _ | p
  · exact ⟨rfl, rfl⟩
  rcases cb with _ | c
  · exact ⟨rfl, rfl⟩
  rw [teRegistPassword]
  split_ifs <;> exact ⟨rfl, rfl⟩

theorem Typing.analyseNum {s : State κ} (h : Typing s) (effect : κ → Int → Int) {num : Nat}
    (hnum : num ≤ 3) (behind : CStr) :
    ∃ s' o, analyseNum effect s num behind = some (s', o) ∧ Typing s' := by
  by_cases hne : clear = num
  · exact ⟨_, _, if_pos hne, h.reset rfl rfl⟩
  · obtain ⟨rect, hrect, hname⟩ := devrectList_name hnum hne
    rw [TsEvent.analyseNum, if_neg hne, hrect]
    dsimp only
    rw [dif_pos h.room, hname]
    split_ifs with hfull
    · exact ⟨_, _, rfl, h.reset rfl rfl⟩
    · exact ⟨_, _, rfl, ⟨Nat.lt_of_not_le hfull, h.nul_notMem_set hnum, h.waits⟩⟩

/-- **A step leaves room for a digit.** -/
theorem Typing.step {s : State κ} (h : Typing s) (effect : κ → Int → Int) (e : Event κ) :
    ∃ s' o, step effect s e = some (s', o) ∧ Typing s' := by
  cases e with
  | regist password cb =>
    obtain ⟨hcmd, hwaiting⟩ := teRegistPassword_cmd s password cb
    have hpos := teRegistPassword_cmdpos s password cb
    refine ⟨_, [], rfl, ⟨hpos ▸ h.room, ?_, fun num hnum => h.waits num (hwaiting ▸ hnum)⟩⟩
    rw [hcmd, hpos]
    exact h.digits
  | touch p => exact ⟨_, [], rfl, ⟨h.room, h.digits, h.waits⟩⟩
  | enable v => exact ⟨_, [], rfl, ⟨h.room, h.digits, h.waits⟩⟩
  | scandelay v => exact ⟨_, [], rfl, ⟨h.room, h.digits, h.waits⟩⟩
  | turn behind =>
    show ∃ s' o, threadTeAnalysis effect s behind = some (s', o) ∧ Typing s'
    unfold threadTeAnalysis
    split
    · next num hwait =>
      split_ifs
      · exact ⟨s, [], rfl, h⟩
      · have hrel : Typing { s with waiting := none } := ⟨h.room, h.digits, fun _ hn => nomatch hn⟩
        exact hrel.analyseNum effect (h.waits num hwait) behind
    · split_ifs
      · split
        · next num hnum =>
          refine ⟨_, [], rfl, ⟨h.room, h.digits, fun n hn => ?_⟩⟩
          cases hn
          exact getNum_le hnum
        · exact ⟨s, [], rfl, h⟩
      · exact ⟨s, [], rfl, h⟩

/-! ## What is compared -/

theorem launchCompares_prepareCmd {s : State κ} {behind : CStr} {w : Compared}
    (h : w ∈ launchCompares s behind) : w.prepareCmd = s.prepareCmd := by
  rcases List.mem_append.mp h with h | h
  · split_ifs at h
    · cases h
    · rw [List.mem_singleton.mp h]
  · split_ifs at h
    · obtain ⟨pos, -, rfl⟩ := List.mem_map.mp h
      rfl
    · cases h

theorem launchCompares_eq_nil_iff (s : State κ) (behind : CStr) :
    launchCompares s behind = [] ↔ ¬ (s.gIsTeEnable = 0 ∨ s.tePasswordList ≠ []) := by
  rw [launchCompares, List.append_eq_nil_iff, not_or, not_not]
  by_cases hen : s.gIsTeEnable ≠ 0
  · rw [if_pos hen, if_pos (.inl hen), List.map_eq_nil_iff]
    exact and_congr_left fun _ => iff_of_true rfl hen
  · rw [if_neg hen]
    exact iff_of_false (fun h => nomatch h.1) fun h => hen h.1

/-- The sixth digit leaves six in the array. -/
theorem Typing.analyseCompares {s : State κ} (h : Typing s) {num : Nat} (hnum : num ≤ 3)
    (behind : CStr) :
    (∀ w ∈ analyseCompares s num behind, 0 ∉ w.prepareCmd.toList) ∧
      (analyseCompares s num behind = [] ↔ ¬ ((num ≠ clear ∧ s.prepareCmdpos + 1 = cmdMax) ∧
        (s.gIsTeEnable = 0 ∨ s.tePasswordList ≠ []))) := by
  by_cases hne : clear = num
  · rw [TsEvent.analyseCompares, if_pos hne]
    exact ⟨List.forall_mem_nil _, iff_of_true rfl fun h => h.1.1 hne.symm⟩
  · obtain ⟨rect, hrect, hname⟩ := devrectList_name hnum hne
    rw [TsEvent.analyseCompares, if_neg hne, hrect]
    dsimp only
    rw [dif_pos h.room, hname]
    split_ifs with hfull
    · have hsix : s.prepareCmdpos + 1 = cmdMax := Nat.le_antisymm h.room hfull
      constructor
      · intro w hw
        rw [launchCompares_prepareCmd hw]
        have hnul := h.nul_notMem_set hnum
        rwa [List.take_of_length_le (by rw [Vector.length_toList]; exact hfull)] at hnul
      · rw [launchCompares_eq_nil_iff, and_iff_right ⟨Ne.symm hne, hsix⟩]
    · exact ⟨List.forall_mem_nil _, iff_of_true rfl fun h => hfull h.1.2.ge⟩

/-- **No comparison finds a NUL**, and one is made exactly at a sixth digit with something
to compare it with. -/
theorem Typing.compares {s : State κ} (h : Typing s) (e : Event κ) :
    (∀ w ∈ compares s e, 0 ∉ w.prepareCmd.toList) ∧ (compares s e = [] ↔ ¬ Launches s e) := by
  have hquiet : ∀ {e : Event κ}, (∀ behind, e ≠ .turn behind) → TsEvent.compares s e = [] →
      (∀ w ∈ TsEvent.compares s e, 0 ∉ w.prepareCmd.toList) ∧
        (TsEvent.compares s e = [] ↔ ¬ Launches s e) := by
    intro e hturn hnil
    rw [hnil]
    refine ⟨List.forall_mem_nil _, iff_of_true rfl ?_⟩
    rintro ⟨⟨⟨behind, hbehind⟩, -⟩, -⟩
    exact hturn behind hbehind
  cases e with
  | regist password cb => exact hquiet (fun _ h => nomatch h) rfl
  | touch p => exact hquiet (fun _ h => nomatch h) rfl
  | enable v => exact hquiet (fun _ h => nomatch h) rfl
  | scandelay v => exact hquiet (fun _ h => nomatch h) rfl
  | turn behind =>
    unfold TsEvent.compares Launches SixthDigit
    dsimp only
    cases hwait : s.waiting with
    | none =>
      refine ⟨List.forall_mem_nil _, iff_of_true rfl ?_⟩
      rintro ⟨⟨-, ⟨num, hnum, -⟩, -⟩, -⟩
      cases hnum
    | some num =>
      dsimp only
      by_cases hpress : s.gCurrTspara.press = true
      · rw [if_pos hpress]
        refine ⟨List.forall_mem_nil _, iff_of_true rfl ?_⟩
        rintro ⟨⟨-, -, hreleased, -⟩, -⟩
        cases hpress.symm.trans hreleased
      · rw [if_neg hpress]
        -- the finger is up, so the number is looked at
        obtain ⟨hnul, hnil⟩ := h.analyseCompares (h.waits num hwait) behind
        refine ⟨hnul, hnil.trans (not_congr (and_congr_left fun _ => ?_))⟩
        constructor
        · rintro ⟨hne, hsix⟩
          exact ⟨⟨behind, rfl⟩, ⟨num, rfl, hne⟩, Bool.eq_false_iff.mpr hpress, hsix⟩
        · rintro ⟨-, ⟨num', hnum, hne⟩, -, hsix⟩
          cases hnum
          exact ⟨hne, hsix⟩

/-! ## Runs -/

theorem Typing.compareStep {s : State κ} (h : Typing s) (effect : κ → Int → Int) (e : Event κ) :
    ∃ s', compareStep effect s e = some (s', TsEvent.compares s e) ∧ Typing s' := by
  obtain ⟨s', o, hstep, htyping⟩ := h.step effect e
  exact ⟨s', by rw [TsEvent.compareStep, hstep, Option.map_some], htyping⟩

/-- **A NUL is never found**: in every run, no array compared holds one, and so all of them
do exactly if no turn finds a sixth digit released with something to compare it with. -/
theorem compared_terminated_iff (effect : κ → Int → Int) (events : List (Event κ)) :
    ∃ s o, run (compareStep effect) State.start events = some (s, o) ∧
      (∀ w ∈ o, 0 ∉ w.prepareCmd.toList) ∧
      ((∀ w ∈ o, 0 ∈ w.prepareCmd.toList) ↔
        StepsMeet (compareStep effect) (fun _ _ s e => ¬ Launches s e) State.start events) := by
  obtain ⟨s, o, hrun, -, hnul⟩ := run_invariant'
    (I := fun _ o s => Typing s ∧ ∀ w ∈ o, 0 ∉ (Compared.prepareCmd w).toList)
    (fun _ o s e hI => by
      obtain ⟨s', hstep, htyping⟩ := hI.1.compareStep effect e
      exact ⟨s', _, hstep, htyping, List.forall_mem_append.mpr ⟨hI.2, (hI.1.compares e).1⟩⟩)
    ⟨typing_start, List.forall_mem_nil _⟩ events
  refine ⟨s, o, hrun, hnul, observed_iff (I := Typing) ?_ typing_start hrun⟩
  intro s e s' o htyping hstep
  obtain ⟨t, hstep', htyping'⟩ := htyping.compareStep effect e
  cases hstep'.symm.trans hstep
  obtain ⟨hnul, hnil⟩ := htyping.compares e
  refine ⟨?_, fun _ => htyping'⟩
  rw [← hnil, List.eq_nil_iff_forall_not_mem]
  exact ⟨fun h w hw => hnul w hw (h w hw), fun h w hw => absurd hw (h w)⟩

/-- The six digits of `PASSWORD_TE_ON` are compared without a NUL. -/
theorem teOn_not_terminated :
    ¬ ∀ (events : List (Event Unit)) (s : State Unit) (o : List Compared),
      run (compareStep teEnable) State.start events = some (s, o) →
        ∀ w ∈ o, 0 ∈ w.prepareCmd.toList := by
  intro h
  have hrun : (run (compareStep teEnable) State.start
      (typeTeOn ⟨[], by decide⟩ () ++ [.turn ⟨[], by decide⟩])).map (fun r => r.2) =
        some [⟨#v[48, 48, 49, 49, 50, 50], passwordTeOn⟩,
          ⟨#v[48, 48, 49, 49, 50, 50], passwordTeOn⟩] := rfl
  obtain ⟨⟨s, o⟩, hsome, rfl⟩ := Option.map_eq_some_iff.mp hrun
  exact absurd (h _ s _ hsome _ List.mem_cons_self) (by decide)

end Lidbg.TsEvent
