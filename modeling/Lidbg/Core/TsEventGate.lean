import Lidbg.Core.TsEvent

/-!
# The touch-password gate

What the passwords are for, said of the touches that count and the
registrations made: `typed` spells the digits since the last reset or launch,
`registered` is the first callback given for a word. `GateStep` compares with
that what a step calls.

`gate_iff`: the gate holds in every run whose launches find a NUL right behind
`prepare_cmd`, and for any other string there is a run in which it does not.
-/

namespace Lidbg.TsEvent

open Machine

variable {κ : Type}

/-! ## The gate -/

/-- The name of the corner `num`. -/
def digitOf (num : Nat) : UInt8 := UInt8.ofNat (48 + num)

/-- One more observation after the digits `word`. -/
def typeOne (word : List UInt8) : Obs κ → List UInt8
  | .touch num =>
    if num = clear then []
    else if word.length + 1 = cmdMax then [] else word ++ [digitOf num]
  | .call _ _ => word

/-- The digits typed since the last reset or launch. -/
def typed (seen : List (Obs κ)) : List UInt8 := seen.foldl typeOne []

/-- The callback an event registers for `w`. -/
def registersFor (w : List UInt8) : Event κ → Option κ
  | .regist (some password) (some cb) => if password.chars = w then some cb else none
  | _ => none

/-- The callback registered for `w`: the first one given. -/
def registered (events : List (Event κ)) (w : List UInt8) : Option κ :=
  events.findSome? (registersFor w)

/-- The word a step completes. -/
def completes (seen o : List (Obs κ)) : Option (List UInt8) :=
  match o with
  | .touch num :: _ =>
    if num ≠ clear ∧ (typed seen).length + 1 = cmdMax then some (typed seen ++ [digitOf num])
    else none
  | _ => none

/-- The callbacks a step calls. -/
def calls (o : List (Obs κ)) : List (List UInt8 × κ) :=
  o.filterMap fun
    | .touch _ => none
    | .call password cb => some (password, cb)

/-- What the gate promises of a step from `s` to `s'`. -/
structure GateStep (events : List (Event κ)) (seen : List (Obs κ)) (s : State κ)
    (o : List (Obs κ)) (s' : State κ) : Prop where
  guarded : ∀ c ∈ calls o, s.gIsTeEnable ≠ 0 ∨ c.1 = passwordTeOn
  exact : calls o =
    match completes seen o with
    | some w =>
      if s.gIsTeEnable ≠ 0 ∨ w = passwordTeOn then
        ((registered events w).map fun cb => (w, cb)).toList
      else []
    | none => []
  once : (calls o).length ≤ 1
  cmdpos : s.prepareCmdpos < cmdMax ∧ s'.prepareCmdpos < cmdMax

/-- Every step of the run keeps the gate's promise, and none leaves the buffer. -/
def Gate (effect : κ → Int → Int) (events : List (Event κ)) : Prop :=
  ∀ pre e, pre ++ [e] <+: events → ∃ s seen s' o,
    run (step effect) State.start pre = some (s, seen) ∧
    step effect s e = some (s', o) ∧ GateStep pre seen s o s'

/-! ## The invariant -/

/-- The word that is typed, over one more observation after the other. -/
theorem typed_append (seen o : List (Obs κ)) :
    typed (seen ++ o) = o.foldl typeOne (typed seen) :=
  List.foldl_append

/-- A word stays with the callback that it was first registered with. -/
theorem registered_snoc (events : List (Event κ)) (e : Event κ) (w : List UInt8) :
    registered (events ++ [e]) w = (registered events w).or (registersFor w e) := by
  rw [registered, List.findSome?_append, List.findSome?_singleton]
  rfl

/-- The state spells what was typed and holds what was registered. -/
structure Inv (events : List (Event κ)) (seen : List (Obs κ)) (s : State κ) : Prop where
  cmdpos : s.prepareCmdpos = (typed seen).length
  room : (typed seen).length < cmdMax
  cmd : s.prepareCmd.toList.take s.prepareCmdpos = typed seen
  digits : 0 ∉ typed seen
  list : ∀ w, (callPasswordCb s.tePasswordList w).map
      (fun pos => (pos.password.chars, pos.cbPassword)) =
    ((registered events w).map fun cb => (w, cb)).toList
  waits : ∀ num, s.waiting = some num → num ≤ 3

/-- Nothing is registered and nothing typed. -/
theorem inv_start : Inv (κ := κ) [] [] State.start where
  cmdpos := rfl
  room := Nat.zero_lt_succ 5
  cmd := rfl
  digits := List.not_mem_nil
  list _ := rfl
  waits _ h := nomatch h

/-- What is called is known from `exact` alone. -/
theorem gateStep_of_exact {events : List (Event κ)} {seen o : List (Obs κ)} {s s' : State κ}
    (hexact : calls o =
      match completes seen o with
      | some w =>
        if s.gIsTeEnable ≠ 0 ∨ w = passwordTeOn then
          ((registered events w).map fun cb => (w, cb)).toList
        else []
      | none => [])
    (hpos : s.prepareCmdpos < cmdMax ∧ s'.prepareCmdpos < cmdMax) :
    GateStep events seen s o s' := by
  refine ⟨?_, hexact, ?_, hpos⟩
  · intro c hc
    rw [hexact] at hc
    split at hc
    · split_ifs at hc with hopen
      · obtain ⟨cb, -, rfl⟩ := Option.map_eq_some_iff.mp (Option.mem_toList.mp hc)
        exact hopen
      · cases hc
    · cases hc
  · rw [hexact]
    split
    · split_ifs
      · exact Option.length_toList_le
      · exact Nat.zero_le 1
    · exact Nat.zero_le 1

/-- A step that is not seen calls nothing. -/
theorem gateStep_nil {events : List (Event κ)} {seen : List (Obs κ)} {s s' : State κ}
    (h : Inv events seen s) (hpos : s'.prepareCmdpos = s.prepareCmdpos) :
    GateStep events seen s [] s' := by
  refine gateStep_of_exact rfl ?_
  rw [hpos, h.cmdpos]
  exact ⟨h.room, h.room⟩

/-- An event other than a registration changes nothing that was registered. -/
theorem Inv.snoc {events : List (Event κ)} {seen : List (Obs κ)} {s : State κ} {e : Event κ}
    (h : Inv events seen s) (he : ∀ w, registersFor w e = none) : Inv (events ++ [e]) seen s :=
  { h with
    list := fun w => by
      rw [registered_snoc, he w, Option.or_none]
      exact h.list w }

/-- A password exists exactly if it would be called. -/
theorem isPasswordExist_iff (list : List (DevPassword κ)) (password : CStr) :
    isPasswordExist list password = true ↔ callPasswordCb list password.chars ≠ [] := by
  rw [isPasswordExist, callPasswordCb, List.any_eq_true, Ne, List.filter_eq_nil_iff]
  simp only [decide_eq_true_eq]
  exact ⟨fun ⟨pos, hmem, heq⟩ hall => hall pos hmem heq, fun h => by
    by_contra hno
    exact h fun pos hmem heq => hno ⟨pos, hmem, heq⟩⟩

/-- Nothing is called for a word exactly if it is not registered. -/
theorem Inv.callPasswordCb_eq_nil_iff {events : List (Event κ)} {seen : List (Obs κ)}
    {s : State κ} (h : Inv events seen s) (w : List UInt8) :
    callPasswordCb s.tePasswordList w = [] ↔ registered events w = none := by
  have hw := h.list w
  cases hreg : registered events w with
  | none =>
    rw [hreg] at hw
    simpa using hw
  | some cb =>
    rw [hreg] at hw
    refine ⟨fun hnil => ?_, fun hno => nomatch hno⟩
    rw [hnil] at hw
    cases hw

/-- A registration leaves what is typed. -/
theorem teRegistPassword_cmdpos (s : State κ) (password : Option CStr) (cb : Option κ) :
    (teRegistPassword s password cb).prepareCmdpos = s.prepareCmdpos := by
  rcases password with _ | p
  · rfl
  rcases cb with _ | c
  · rfl
  rw [teRegistPassword]
  split_ifs <;> rfl

/-- **A registration** takes effect if it is the first for its word. -/
theorem inv_regist {events : List (Event κ)} {seen : List (Obs κ)} {s : State κ}
    (password : Option CStr) (cb : Option κ) (h : Inv events seen s) :
    Inv (events ++ [.regist password cb]) seen (teRegistPassword s password cb) := by
  rcases password with _ | p
  · exact h.snoc fun _ => rfl
  rcases cb with _ | c
  · exact h.snoc fun _ => rfl
  have hexist := isPasswordExist_iff s.tePasswordList p
  rw [Ne, h.callPasswordCb_eq_nil_iff] at hexist
  rw [teRegistPassword]
  by_cases he : isPasswordExist s.tePasswordList p = true
  · -- the word is taken, and the list stays
    rw [if_pos he]
    refine { h with list := fun w => ?_ }
    rw [h.list w, registered_snoc, registersFor]
    by_cases hw : p.chars = w
    · subst hw
      cases hreg : registered events p.chars with
      | none => exact absurd hreg (hexist.mp he)
      | some c' => rfl
    · rw [if_neg hw, Option.or_none]
  · -- the word is new, and goes to the front of the list
    rw [if_neg he]
    have hreg : registered events p.chars = none := by
      by_contra hne
      exact he (hexist.mpr hne)
    refine { h with list := fun w => ?_ }
    rw [registered_snoc, registersFor, callPasswordCb, List.filter_cons]
    by_cases hw : p.chars = w
    · subst hw
      have hnil := (h.callPasswordCb_eq_nil_iff p.chars).mpr hreg
      rw [callPasswordCb] at hnil
      rw [if_pos (decide_eq_true rfl), if_pos rfl, hreg, hnil]
      rfl
    · rw [if_neg (by rw [decide_eq_true_eq]; exact hw), if_neg hw, Option.or_none]
      exact h.list w

/-! ## The turn of the thread -/

/-- A touch stands for one of four numbers. -/
theorem getNum_le {p : Tspara} {num : Nat} (h : getNum p = some num) : num ≤ 3 := by
  obtain ⟨r, hr, rfl⟩ := Option.map_eq_some_iff.mp h
  have hmem := List.mem_of_find?_eq_some hr
  have hall : ∀ r ∈ devrectList, r.id ≤ 3 := by decide
  exact hall r hmem

/-- A corner below `clear` has its digit for a name. -/
theorem devrectList_name {num : Nat} (h : num ≤ 3) (hne : clear ≠ num) :
    ∃ rect, devrectList[num]? = some rect ∧ rect.name = digitOf num := by
  have hlt : num < 3 := Nat.lt_of_le_of_ne h (Ne.symm hne)
  rcases num with _ | _ | _ | num
  · exact ⟨_, rfl, rfl⟩
  · exact ⟨_, rfl, rfl⟩
  · exact ⟨_, rfl, rfl⟩
  · omega

/-- The character of a number is not the NUL. -/
theorem nul_ne_digitOf {num : Nat} (h : num ≤ 3) : (0 : UInt8) ≠ digitOf num := by
  rw [digitOf, Ne, ← UInt8.toNat_inj, UInt8.toNat_ofNat']
  show ¬ 0 = (48 + num) % 256
  omega

/-- One more character behind those that are typed. -/
theorem take_set {s : State κ} (h : s.prepareCmdpos < cmdMax) (name : UInt8) :
    (s.prepareCmd.set s.prepareCmdpos name h).toList.take (s.prepareCmdpos + 1) =
      s.prepareCmd.toList.take s.prepareCmdpos ++ [name] := by
  rw [Vector.toList_set, List.take_succ_eq_append_getElem (by simpa using h),
    List.getElem_set_self, List.take_set_of_le (Nat.le_refl _)]

/-- The calls that are seen are those that are made. -/
theorem calls_map (l : List (DevPassword κ)) :
    calls (l.map fun pos => Obs.call pos.password.chars pos.cbPassword) =
      l.map fun pos => (pos.password.chars, pos.cbPassword) := by
  rw [calls, List.filterMap_map]
  exact congrFun List.filterMap_eq_map l

/-- Calls type nothing. -/
theorem typeOne_calls (word : List UInt8) (l : List (DevPassword κ)) :
    (l.map fun pos => Obs.call pos.password.chars pos.cbPassword).foldl typeOne word = word := by
  induction l with
  | nil => rfl
  | cons pos l ih => exact ih

/-- With nothing typed and the position at 0 the invariant says nothing of the
buffer. -/
theorem Inv.reset {events : List (Event κ)} {seen seen' : List (Obs κ)} {s s' : State κ}
    (h : Inv events seen s) (htyped : typed seen' = []) (hpos : s'.prepareCmdpos = 0)
    (hlist : s'.tePasswordList = s.tePasswordList) (hwaiting : s'.waiting = s.waiting) :
    Inv events seen' s' where
  cmdpos := by rw [htyped, hpos, List.length_nil]
  room := by
    rw [htyped]
    exact Nat.zero_lt_succ 5
  cmd := by rw [htyped, hpos, List.take_zero]
  digits := by
    rw [htyped]
    exact List.not_mem_nil
  list w := by
    rw [hlist]
    exact h.list w
  waits num hnum := h.waits num (hwaiting ▸ hnum)

/-- A reset. -/
theorem resetCmd_gate {events : List (Event κ)} {seen : List (Obs κ)} {s : State κ}
    (h : Inv events seen s) :
    Inv events (seen ++ [.touch clear]) (resetCmd s) ∧
      GateStep events seen s [.touch clear] (resetCmd s) := by
  have htyped : typed (seen ++ [.touch clear]) = [] := by
    rw [typed_append]
    rfl
  refine ⟨h.reset htyped rfl rfl rfl, ?_⟩
  refine ⟨fun _ hc => (nomatch hc), rfl, Nat.zero_le 1, ?_, Nat.zero_lt_succ 5⟩
  rw [h.cmdpos]
  exact h.room

/-- A touch completes a word if it fills the buffer. -/
theorem completes_touch (seen : List (Obs κ)) (num : Nat) (o : List (Obs κ)) :
    completes seen (.touch num :: o) =
      if num ≠ clear ∧ (typed seen).length + 1 = cmdMax then
        some (typed seen ++ [digitOf num])
      else none := rfl

/-- A digit that is not the sixth. -/
theorem digit_gate {events : List (Event κ)} {seen : List (Obs κ)} {s : State κ} {num : Nat}
    (h : Inv events seen s) (hnum : num ≤ 3) (hne : clear ≠ num)
    (hpos : s.prepareCmdpos < cmdMax) (hroom : s.prepareCmdpos + 1 < cmdMax) :
    let s' := { s with
      prepareCmd := s.prepareCmd.set s.prepareCmdpos (digitOf num) hpos
      prepareCmdpos := s.prepareCmdpos + 1 }
    Inv events (seen ++ [.touch num]) s' ∧ GateStep events seen s [.touch num] s' := by
  have hlen : (typed seen).length + 1 ≠ cmdMax := by
    rw [← h.cmdpos]
    exact Nat.ne_of_lt hroom
  have htyped : typed (seen ++ [.touch num]) = typed seen ++ [digitOf num] := by
    rw [typed_append, List.foldl_cons, List.foldl_nil, typeOne, if_neg (Ne.symm hne), if_neg hlen]
  refine ⟨{ h with cmdpos := ?_, room := ?_, cmd := ?_, digits := ?_ }, ?_⟩
  · rw [htyped, List.length_append, List.length_singleton, ← h.cmdpos]
  · rw [htyped, List.length_append, List.length_singleton, ← h.cmdpos]
    exact hroom
  · rw [htyped]
    exact (take_set hpos _).trans (by rw [h.cmd])
  · rw [htyped]
    exact List.not_mem_append h.digits
      (fun h0 => nul_ne_digitOf hnum (List.mem_singleton.mp h0))
  · refine ⟨fun _ hc => (nomatch hc), ?_, Nat.zero_le 1, hpos, hroom⟩
    rw [completes_touch, if_neg fun hc => hlen hc.2]
    rfl

/-- What `strcmp` sees of six digits with a NUL right behind them. -/
theorem cmdString_full {s : State κ} {w : List UInt8} {behind : CStr}
    (hw : s.prepareCmd.toList = w) (h0 : 0 ∉ w) : cmdString s behind = w ++ behind.chars := by
  rw [cmdString, hw]
  exact cstr_append_nul (List.not_mem_append h0 behind.nul_notMem) []

/-- **The sixth digit**: the launch calls what is registered for the word, if
the gate is open for it, and the buffer is empty again. -/
theorem launchCmd_gate {events : List (Event κ)} {seen : List (Obs κ)} {s : State κ} {num : Nat}
    {behind : CStr} (effect : κ → Int → Int) (h : Inv events seen s) (hnum : num ≤ 3)
    (hne : clear ≠ num) (hpos : s.prepareCmdpos < cmdMax)
    (hfull : s.prepareCmdpos + 1 ≥ cmdMax) (hb : behind.chars = []) :
    let r := launchCmd effect { s with
      prepareCmd := s.prepareCmd.set s.prepareCmdpos (digitOf num) hpos
      prepareCmdpos := s.prepareCmdpos + 1 } behind
    Inv events (seen ++ .touch num :: r.2) r.1 ∧
      GateStep events seen s (.touch num :: r.2) r.1 := by
  have hlen : (typed seen).length + 1 = cmdMax := by
    rw [← h.cmdpos]
    exact Nat.le_antisymm hpos hfull
  generalize hs : { s with
    prepareCmd := s.prepareCmd.set s.prepareCmdpos (digitOf num) hpos
    prepareCmdpos := s.prepareCmdpos + 1 } = s₁
  have hlist : s₁.tePasswordList = s.tePasswordList := by rw [← hs]
  have henable : s₁.gIsTeEnable = s.gIsTeEnable := by rw [← hs]
  have hwaiting : s₁.waiting = s.waiting := by rw [← hs]
  -- six digits and the NUL behind them: `strcmp` sees the word typed
  have hword : cmdString s₁ behind = typed seen ++ [digitOf num] := by
    have htoList : s₁.prepareCmd.toList = typed seen ++ [digitOf num] := by
      rw [← h.cmd, ← take_set hpos, ← hs]
      exact (List.take_of_length_le (by rw [Vector.length_toList]; exact hfull)).symm
    rw [cmdString_full htoList, hb, List.append_nil]
    exact List.not_mem_append h.digits
      (fun h0 => nul_ne_digitOf hnum (List.mem_singleton.mp h0))
  have hcalls : calls (.touch num :: (launchCmd effect s₁ behind).2) =
      if s.gIsTeEnable ≠ 0 ∨ typed seen ++ [digitOf num] = passwordTeOn then
        ((registered events (typed seen ++ [digitOf num])).map
          fun cb => (typed seen ++ [digitOf num], cb)).toList
      else [] := by
    show calls ((launched s₁ behind).map _) = _
    rw [calls_map, launched, hword, hlist, henable]
    split_ifs
    · exact h.list _
    · rfl
  have htyped : typed (seen ++ .touch num :: (launchCmd effect s₁ behind).2) = [] := by
    rw [typed_append, List.foldl_cons, typeOne, if_neg (Ne.symm hne), if_pos hlen]
    exact typeOne_calls [] _
  refine ⟨h.reset htyped rfl hlist hwaiting, gateStep_of_exact ?_ ⟨hpos, Nat.zero_lt_succ 5⟩⟩
  rw [completes_touch, if_pos ⟨Ne.symm hne, hlen⟩]
  exact hcalls

/-- **A released touch.** -/
theorem analyseNum_gate {events : List (Event κ)} {seen : List (Obs κ)} {s : State κ} {num : Nat}
    {behind : CStr} (effect : κ → Int → Int) (h : Inv events seen s) (hnum : num ≤ 3)
    (hb : behind.chars = []) :
    ∃ s' o, analyseNum effect s num behind = some (s', o) ∧ Inv events (seen ++ o) s' ∧
      GateStep events seen s o s' := by
  by_cases hne : clear = num
  · subst hne
    exact ⟨_, _, if_pos rfl, resetCmd_gate h⟩
  · obtain ⟨rect, hrect, hname⟩ := devrectList_name hnum hne
    have hpos : s.prepareCmdpos < cmdMax := by
      rw [h.cmdpos]
      exact h.room
    rw [analyseNum, if_neg hne, hrect]
    dsimp only
    rw [dif_pos hpos, hname]
    by_cases hfull : s.prepareCmdpos + 1 ≥ cmdMax
    · rw [if_pos hfull]
      exact ⟨_, _, rfl, launchCmd_gate effect h hnum hne hpos hfull hb⟩
    · rw [if_neg hfull]
      exact ⟨_, _, rfl, digit_gate h hnum hne hpos (Nat.lt_of_not_le hfull)⟩

/-- A step that is not seen. -/
theorem silent_gate {events events' : List (Event κ)} {seen : List (Obs κ)} {s s' : State κ}
    (h : Inv events seen s) (h' : Inv events' seen s')
    (hpos : s'.prepareCmdpos = s.prepareCmdpos) :
    Inv events' (seen ++ []) s' ∧ GateStep events seen s [] s' := by
  rw [List.append_nil]
  exact ⟨h', gateStep_nil h hpos⟩

/-- **One turn of the thread**: only a released touch is seen. -/
theorem threadTeAnalysis_gate {events : List (Event κ)} {seen : List (Obs κ)} {s : State κ}
    {behind : CStr} (effect : κ → Int → Int) (h : Inv events seen s) (hb : behind.chars = []) :
    ∃ s' o, threadTeAnalysis effect s behind = some (s', o) ∧ Inv events (seen ++ o) s' ∧
      GateStep events seen s o s' := by
  unfold threadTeAnalysis
  split
  · next num hwait =>
    split_ifs
    · exact ⟨s, [], rfl, silent_gate h h rfl⟩
    · have hrel : Inv events seen { s with waiting := none } :=
        { h with waits := fun _ hn => nomatch hn }
      obtain ⟨s', o, hrun, hinv, hgate⟩ := analyseNum_gate effect hrel (h.waits num hwait) hb
      exact ⟨s', o, hrun, hinv, hgate.guarded, hgate.exact, hgate.once, hgate.cmdpos⟩
  · -- no touch is open: a press is only noted
    split_ifs
    · split
      · next num hnum =>
        have hwaits : Inv events seen { s with waiting := some num } := by
          refine { h with waits := fun n hn => ?_ }
          cases hn
          exact getNum_le hnum
        exact ⟨_, [], rfl, silent_gate h hwaits rfl⟩
      · exact ⟨s, [], rfl, silent_gate h h rfl⟩
    · exact ⟨s, [], rfl, silent_gate h h rfl⟩

/-! ## Runs -/

/-- What the memory behind `prepare_cmd` has to be when the thread runs. -/
def NulBehind (e : Event κ) : Prop :=
  ∀ behind, e = .turn behind → behind.chars = []

/-- **A step keeps the gate's promise** and the invariant, if a NUL is behind `prepare_cmd`. -/
theorem step_gate {events : List (Event κ)} {seen : List (Obs κ)} {s : State κ} {e : Event κ}
    (effect : κ → Int → Int) (h : Inv events seen s) (he : NulBehind e) :
    ∃ s' o, step effect s e = some (s', o) ∧ Inv (events ++ [e]) (seen ++ o) s' ∧
      GateStep events seen s o s' := by
  cases e with
  | regist password cb =>
    exact ⟨_, [], rfl,
      silent_gate h (inv_regist password cb h) (teRegistPassword_cmdpos s password cb)⟩
  | touch p =>
    have hinv : Inv events seen { s with gCurrTspara := p } := { h with }
    exact ⟨_, [], rfl, silent_gate h (hinv.snoc fun _ => rfl) rfl⟩
  | enable v =>
    have hinv : Inv events seen { s with gIsTeEnable := v } := { h with }
    exact ⟨_, [], rfl, silent_gate h (hinv.snoc fun _ => rfl) rfl⟩
  | scandelay v =>
    have hinv : Inv events seen { s with gTeScandelayMs := v } := { h with }
    exact ⟨_, [], rfl, silent_gate h (hinv.snoc fun _ => rfl) rfl⟩
  | turn behind =>
    obtain ⟨s', o, hrun, hinv, hgate⟩ := threadTeAnalysis_gate effect h (he behind rfl)
    exact ⟨s', o, hrun, hinv.snoc fun _ => rfl, hgate⟩

/-- The gate holds in a run with a NUL behind `prepare_cmd` at each turn. -/
theorem gate_of_nulBehind (effect : κ → Int → Int) {events : List (Event κ)}
    (h : ∀ e ∈ events, NulBehind e) : Gate effect events := by
  intro pre e hpre
  have hmem : ∀ e' ∈ pre ++ [e], NulBehind e' := fun e' he' => h e' (hpre.subset he')
  have hmeet := stepsMeet_of_forall
    (fun e' he' => hmem e' (List.mem_append_left [e] he')) (step effect) State.start
  obtain ⟨s, seen, hrun, hinv⟩ := run_invariant
    (fun _ _ _ _ hI hP => by
      obtain ⟨s', o, hstep, hinv, -⟩ := step_gate effect hI hP
      exact ⟨s', o, hstep, hinv⟩)
    inv_start hmeet
  obtain ⟨s', o, hstep, -, hgate⟩ :=
    step_gate effect hinv (hmem e (List.mem_append_right pre List.mem_cons_self))
  exact ⟨s, seen, s', o, hrun, hstep, hgate⟩

/-! ## No NUL behind the buffer -/

/-- One touch in the middle of corner `num`, and its release. -/
def tap (behind : CStr) (num : Nat) : List (Event κ) :=
  match devrectList[num]? with
  | none => []
  | some rect =>
    [.touch ⟨rect.x0 + 50, rect.y0 + 50, true⟩, .turn behind,
     .touch ⟨rect.x0 + 50, rect.y0 + 50, false⟩, .turn behind]

/-- `PASSWORD_TE_ON` registered, and typed up to the last release. -/
def typeTeOn (behind : CStr) (cb : κ) : List (Event κ) :=
  .regist (some ⟨passwordTeOn, by decide⟩) (some cb) ::
    ([0, 0, 1, 1, 2, 2].flatMap (tap behind)).dropLast

/-- The thread then waits for the last release, with five digits typed. -/
def typedTeOn (cb : κ) : State κ where
  tePasswordList := [⟨⟨passwordTeOn, by decide⟩, cb⟩]
  gCurrTspara := ⟨50, 550, false⟩
  prepareCmd := #v[48, 48, 49, 49, 50, 0]
  prepareCmdpos := 5
  gIsTeEnable := 0
  gTeScandelayMs := 100
  waiting := some 2

/-- The word is typed, and the thread has still to look at it. -/
theorem run_typeTeOn (effect : κ → Int → Int) (behind : CStr) (cb : κ) :
    run (step effect) State.start (typeTeOn behind cb) =
      some (typedTeOn cb, [.touch 0, .touch 0, .touch 1, .touch 1, .touch 2]) := by
  rfl

/-- The last release makes them six. -/
def sixTyped (cb : κ) : State κ :=
  { typedTeOn cb with
    prepareCmd := #v[48, 48, 49, 49, 50, 50]
    prepareCmdpos := 6
    waiting := none }

/-- With anything but a NUL behind the buffer, `PASSWORD_TE_ON` is not
recognised. -/
theorem launched_sixTyped {behind : CStr} (hb : behind.chars ≠ []) (cb : κ) :
    launched (sixTyped cb) behind = [] := by
  have hword : (sixTyped cb).prepareCmd.toList = passwordTeOn := rfl
  rw [launched, if_neg]
  rintro (h | h)
  · exact h rfl
  · rw [cmdString_full hword (by decide)] at h
    exact hb (List.append_right_eq_self.mp h)

/-- With anything behind the buffer the typed word is another one. -/
theorem not_gate_typeTeOn (effect : κ → Int → Int) {behind : CStr} (hb : behind.chars ≠ [])
    (cb : κ) : ¬ Gate effect (typeTeOn behind cb ++ [.turn behind]) := by
  intro hgate
  obtain ⟨s, seen, s', o, hrun, hstep, hpromise⟩ := hgate _ _ List.prefix_rfl
  rw [run_typeTeOn] at hrun
  cases hrun
  have hlast : step effect (typedTeOn cb) (.turn behind) =
      some ((launchCmd effect (sixTyped cb) behind).1,
        .touch 2 :: (launched (sixTyped cb) behind).map
          fun pos => .call pos.password.chars pos.cbPassword) := rfl
  rw [hlast, launched_sixTyped hb] at hstep
  cases hstep
  -- the word is complete and registered, and nothing was called
  have hword : completes (κ := κ) [.touch 0, .touch 0, .touch 1, .touch 1, .touch 2]
      [.touch 2] = some passwordTeOn := by
    have htyped : typed (κ := κ) [.touch 0, .touch 0, .touch 1, .touch 1, .touch 2] =
        [48, 48, 49, 49, 50] := rfl
    rw [completes_touch, htyped, if_pos (by decide)]
    rfl
  have hregistered : registered (typeTeOn behind cb) passwordTeOn = some cb := rfl
  have hexact := hpromise.exact
  rw [List.map_nil, hword] at hexact
  dsimp only at hexact
  rw [if_pos (.inr rfl), hregistered] at hexact
  cases hexact

theorem turn_mem_tap {behind b : CStr} {num : Nat} (h : Event.turn (κ := κ) b ∈ tap behind num) :
    b = behind := by
  unfold tap at h
  split at h
  · cases h
  · simpa using h

/-- **The gate holds exactly when a NUL stands right behind `prepare_cmd`**:
with any other string there, one run at least breaks it. -/
theorem gate_iff [Inhabited κ] (effect : κ → Int → Int) (behind : CStr) :
    behind.chars = [] ↔
      ∀ events, (∀ b, Event.turn b ∈ events → b = behind) → Gate effect events := by
  constructor
  · intro hb events hall
    refine gate_of_nulBehind effect fun e he b hturn => ?_
    subst hturn
    rw [hall b he]
    exact hb
  · intro hgate
    by_contra hb
    refine not_gate_typeTeOn effect hb default (hgate _ fun b hmem => ?_)
    rcases List.mem_append.mp hmem with hmem | hmem
    · rcases List.mem_cons.mp hmem with h | hmem
      · cases h
      · obtain ⟨num, -, hnum⟩ := List.mem_flatMap.mp (List.mem_of_mem_dropLast hmem)
        exact turn_mem_tap hnum
    · cases List.mem_singleton.mp hmem
      rfl

/-- What `cb_password_te_enable` does to the flag. -/
def teEnable (_ : Unit) (_ : Int) : Int := 1

/-- With a `0` behind the buffer, the six touches of `PASSWORD_TE_ON` open
nothing. -/
theorem teOn_not_called :
    ¬ Gate teEnable (typeTeOn ⟨ascii "0", by decide⟩ () ++ [.turn ⟨ascii "0", by decide⟩]) ∧
    (run (step teEnable) State.start
        (typeTeOn ⟨ascii "0", by decide⟩ () ++ [.turn ⟨ascii "0", by decide⟩])).map
      (fun r => (r.1.gIsTeEnable, calls r.2)) = some (0, []) :=
  ⟨not_gate_typeTeOn teEnable (by decide) (), rfl⟩

end Lidbg.TsEvent
