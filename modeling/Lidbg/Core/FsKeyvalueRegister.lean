import Lidbg.Core.FsKeyvalue

/-!
# Variables and callbacks hooked into the configuration

A driver that registers a variable or a callback for a key relies on the return
value of `get_int_value`: from then on the variable follows the configuration,
and the callback hears of its changes. An entry has room for one variable and
one callback, but `get_int_value` returns 1 whether it used that room or not.

`follows`: over every run whose registrations and updates meet `StepOk`, what
was promised is kept after every update.
-/

namespace Lidbg.FsKeyvalue

open Machine

variable {ι κ : Type}

/-- A list, and the variables of the drivers. -/
structure Config (ι κ : Type) where
  clientList : List (StringDev ι κ)
  ints : ι → Int32

/-- `register` is `fs_get_intvalue`; `FS_REGISTER_INT` is a `store` of the
default and a `register`. -/
inductive Op (ι κ : Type) where
  | register (key : CStr) (intValue : Option ι) (callback : Option κ)
  | store (var : ι) (x : Int32)
  | update (file : Option (List UInt8))

inductive Obs (ι κ : Type) where
  | registered (key : CStr) (intValue : Option ι) (callback : Option κ) (ret : Int)
  | called (call : CallbackCall κ)

def step [DecidableEq ι] : Step (Config ι κ) (Op ι κ) (Obs ι κ) := fun s op =>
  match op with
  | .register key intValue callback =>
    (getIntValue s.clientList s.ints key intValue callback).map fun r =>
      (⟨r.1, r.2.1⟩, [.registered key intValue callback r.2.2])
  | .store var x => some ({ s with ints := Function.update s.ints var x }, [])
  | .update file =>
    some ({ s with ints := (updateList file s.clientList s.ints).1 },
      (updateList file s.clientList s.ints).2.map .called)

/-- The list as `bfs_fill_list` reads it. -/
def bootList (boot : List (CStr × Option CStr)) : List (StringDev ι κ) :=
  boot.map fun kv => ⟨kv.1, kv.2, none, none⟩

/-! ## What the configuration says -/

/-- The configured text of a key, if it has one. -/
abbrev Conf := List UInt8 → Option (List UInt8)

/-- The first entry of a key counts. -/
def bootConf (boot : List (CStr × Option CStr)) : Conf := fun key =>
  ((boot.find? fun kv => kv.1.chars = key).bind Prod.snd).map CStr.chars

/-- Each line configures its key. -/
def readConf (lines : List (List UInt8 × List UInt8)) (conf : Conf) : Conf :=
  lines.foldl (fun conf kv => Function.update conf kv.1 (some kv.2)) conf

/-- The configuration after the operations: that of the boot file, then of every
file read. -/
def configured (boot : List (CStr × Option CStr)) (ops : List (Op ι κ)) : Conf :=
  ops.foldl (fun conf op =>
    match op with
    | .update (some file) => readConf (fileLines file) conf
    | _ => conf) (bootConf boot)

/-- A registration of the variable for the key returned success. -/
def VarPromised (o : List (Obs ι κ)) (key : CStr) (var : ι) : Prop :=
  ∃ callback, Obs.registered key (some var) callback 1 ∈ o

/-- A registration of the callback for the key returned success. -/
def CallbackPromised (o : List (Obs ι κ)) (key : CStr) (cb : κ) : Prop :=
  ∃ intValue, Obs.registered key intValue (some cb) 1 ∈ o

/-- The value of a key changes: as a number, if a variable holds it. -/
def Changes (o : List (Obs ι κ)) (key : CStr) (old new : Option (List UInt8)) : Prop :=
  old ≠ new ∧ ((∃ var, VarPromised o key var) → old.map strtoulInt ≠ new.map strtoulInt)

/-- What an update owes to the registrations before it. -/
structure UpdateFollows (o : List (Obs ι κ)) (conf conf' : Conf) (ints' : ι → Int32)
    (o' : List (Obs ι κ)) : Prop where
  vars : ∀ key var, VarPromised o key var →
    ∀ text, conf' key.chars = some text → ints' var = strtoulInt text
  calls : ∀ key cb, CallbackPromised o key cb →
    Changes o key (conf key.chars) (conf' key.chars) →
    ∃ value, .called ⟨cb, key.chars, value⟩ ∈ o'

section Follows

variable [DecidableEq ι]

/-- No step of the run fails, and every update pays what it owes. -/
def Follows (boot : List (CStr × Option CStr)) (ints : ι → Int32) (ops : List (Op ι κ)) : Prop :=
  ∀ pre op, pre ++ [op] <+: ops → ∃ s o s' o',
    run step ⟨bootList boot, ints⟩ pre = some (s, o) ∧ step s op = some (s', o') ∧
    ∀ file, op = .update file →
      UpdateFollows o (configured boot pre) (configured boot (pre ++ [op])) s'.ints o'

/-! ## Which steps keep their promises -/

/-- The registration finds room in the entry, or finds there what it brings. -/
def RegisterOk (conf : Conf) (s : Config ι κ) (key : CStr) (pos : StringDev ι κ)
    (intValue : Option ι) (callback : Option κ) : Prop :=
  (∀ bound ∈ pos.intValue,
    intValue = some bound ∧ (callback = none ∨ callback = pos.callback)) ∧
  (pos.intValue = none →
    (callback = none ∨ pos.callback = none ∨ callback = pos.callback) ∧
    ∀ var ∈ intValue, (∀ q ∈ s.clientList, q.intValue ≠ some var) ∧ pos.yourvalue ≠ none ∧
      (conf key.chars).map strtoulInt = pos.yourvalue.map fun value => strtoulInt value.chars)

/-- A registration is `RegisterOk` for the entry it finds; a hooked variable is
not stored to; and an update whose lines for an entry without a variable all
carry its boot value comes while that is the configured value. -/
def StepOk (boot : List (CStr × Option CStr)) (ops : List (Op ι κ)) (_ : List (Obs ι κ))
    (s : Config ι κ) (op : Op ι κ) : Prop :=
  match op with
  | .register key intValue callback =>
    ∀ pos ∈ firstEntry s.clientList key,
      RegisterOk (configured boot ops) s key pos intValue callback
  | .store var x => ∀ q ∈ s.clientList, q.intValue = some var → x = s.ints var
  | .update none => True
  | .update (some file) =>
    ∀ pos ∈ s.clientList, pos.intValue = none → pos.callback ≠ none →
      (∀ kv ∈ fileLines file, kv.1 = pos.yourkey.chars →
        ∀ value ∈ pos.yourvalue, value.chars = kv.2) →
      readConf (fileLines file) (configured boot ops) pos.yourkey.chars =
        configured boot ops pos.yourkey.chars

instance [DecidableEq κ] (conf : Conf) (s : Config ι κ) (key : CStr) (pos : StringDev ι κ)
    (intValue : Option ι) (callback : Option κ) :
    Decidable (RegisterOk conf s key pos intValue callback) :=
  inferInstanceAs (Decidable (_ ∧ _))

instance [DecidableEq κ] (boot : List (CStr × Option CStr)) (ops : List (Op ι κ))
    (o : List (Obs ι κ)) (s : Config ι κ) (op : Op ι κ) : Decidable (StepOk boot ops o s op) :=
  match op with
  | .register key _ _ => inferInstanceAs (Decidable (∀ pos ∈ firstEntry s.clientList key, _))
  | .store _ _ => inferInstanceAs (Decidable (∀ q ∈ s.clientList, _))
  | .update none => inferInstanceAs (Decidable True)
  | .update (some _) => inferInstanceAs (Decidable (∀ pos ∈ s.clientList, _))

end Follows

/-! ## The loop of `get_int_value` -/

/-- The list with another entry in the place of the first of a key. -/
def replaceFirst (key : CStr) (pos' : StringDev ι κ) : List (StringDev ι κ) → List (StringDev ι κ)
  | [] => []
  | pos :: rest => if pos.yourkey = key then pos' :: rest else pos :: replaceFirst key pos' rest

/-- The first entry of a key is in the list, and has the key. -/
theorem firstEntry_mem {clientList : List (StringDev ι κ)} {key : CStr} {pos : StringDev ι κ}
    (h : firstEntry clientList key = some pos) : pos ∈ clientList ∧ pos.yourkey = key :=
  ⟨List.mem_of_find?_eq_some h, by simpa using List.find?_some h⟩

/-- Replacing an entry by one of its key changes what is found for that key
only. -/
theorem firstEntry_replaceFirst {clientList : List (StringDev ι κ)} {key : CStr}
    {pos pos' : StringDev ι κ} (hfirst : firstEntry clientList key = some pos)
    (hkey : pos'.yourkey = key) (k : CStr) :
    firstEntry (replaceFirst key pos' clientList) k =
      if k = key then some pos' else firstEntry clientList k := by
  induction clientList with
  | nil => cases hfirst
  | cons q rest ih =>
    rw [firstEntry_cons] at hfirst
    rw [replaceFirst]
    by_cases hq : q.yourkey = key
    · rw [if_pos hq, firstEntry_cons, firstEntry_cons, hkey, hq]
      by_cases hk : k = key
      · rw [if_pos hk.symm, if_pos hk]
      · rw [if_neg (Ne.symm hk), if_neg hk, if_neg (Ne.symm hk)]
    · rw [if_neg hq] at hfirst
      rw [if_neg hq, firstEntry_cons, firstEntry_cons, ih hfirst]
      by_cases hk : k = key
      · rw [if_pos hk, if_neg (fun h => hq (h.trans hk)), if_pos hk]
      · rw [if_neg hk, if_neg hk]

/-- What is in the list behind a replacement. -/
theorem mem_replaceFirst {clientList : List (StringDev ι κ)} {key : CStr} {pos' q : StringDev ι κ}
    (h : q ∈ replaceFirst key pos' clientList) : q = pos' ∨ q ∈ clientList := by
  induction clientList with
  | nil => cases h
  | cons p rest ih =>
    rw [replaceFirst] at h
    split_ifs at h
    · rcases List.mem_cons.mp h with rfl | h
      · exact .inl rfl
      · exact .inr (List.mem_cons_of_mem p h)
    · rcases List.mem_cons.mp h with rfl | h
      · exact .inr List.mem_cons_self
      · exact (ih h).imp_right (List.mem_cons_of_mem p)

/-- An entry replaced by itself. -/
theorem replaceFirst_self {clientList : List (StringDev ι κ)} {key : CStr} {pos : StringDev ι κ}
    (hfirst : firstEntry clientList key = some pos) :
    replaceFirst key pos clientList = clientList := by
  induction clientList with
  | nil => rfl
  | cons q rest ih =>
    rw [firstEntry_cons] at hfirst
    rw [replaceFirst]
    split_ifs at hfirst ⊢ with hq
    · rw [Option.some.inj hfirst]
    · rw [ih hfirst]

section Loop

variable [DecidableEq ι]

/-- No entry, no success. -/
theorem getIntValue_none {clientList : List (StringDev ι κ)} {key : CStr} (ints : ι → Int32)
    (intValue : Option ι) (callback : Option κ) (hfirst : firstEntry clientList key = none) :
    ∃ ret, getIntValue clientList ints key intValue callback = some (clientList, ints, ret) ∧
      ret ≠ 1 := by
  have hloop : ∀ l : List (StringDev ι κ), firstEntry l key = none →
      hookFirst key intValue callback l ints = some (l, ints, -1) := by
    intro l hl
    induction l with
    | nil => rfl
    | cons q rest ih =>
      rw [firstEntry_cons] at hl
      split_ifs at hl with hq
      rw [hookFirst, if_neg hq, ih hl]
  cases clientList with
  | nil => exact ⟨-2, rfl, by decide⟩
  | cons q rest => exact ⟨-1, hloop _ hfirst, by decide⟩

/-- **One registration** works on the first entry of its key. -/
theorem getIntValue_hook {clientList : List (StringDev ι κ)} {key : CStr} {pos : StringDev ι κ}
    (hfirst : firstEntry clientList key = some pos) (ints : ι → Int32) (intValue : Option ι)
    (callback : Option κ) :
    getIntValue clientList ints key intValue callback =
      (hookEntry pos ints intValue callback).map fun r =>
        (replaceFirst key r.1 clientList, r.2, 1) := by
  have hloop : hookFirst key intValue callback clientList ints =
      (hookEntry pos ints intValue callback).map fun r =>
        (replaceFirst key r.1 clientList, r.2, 1) := by
    induction clientList with
    | nil => cases hfirst
    | cons q rest ih =>
      rw [firstEntry_cons] at hfirst
      unfold hookFirst replaceFirst
      split_ifs at hfirst ⊢ with hq
      · cases hfirst
        cases hookEntry pos ints intValue callback <;> rfl
      · rw [ih hfirst]
        cases hookEntry pos ints intValue callback <;> rfl
  cases clientList with
  | nil => cases hfirst
  | cons q rest => exact hloop

/-- The hook of an entry that is there. -/
theorem getIntValue_some {clientList : List (StringDev ι κ)} {key : CStr} {pos pos' : StringDev ι κ}
    {ints ints' : ι → Int32} {intValue : Option ι} {callback : Option κ}
    (hfirst : firstEntry clientList key = some pos)
    (hhook : hookEntry pos ints intValue callback = some (pos', ints')) :
    getIntValue clientList ints key intValue callback =
      some (replaceFirst key pos' clientList, ints', 1) := by
  rw [getIntValue_hook hfirst, hhook]
  rfl

/-- An entry that has the variable already. -/
theorem hookEntry_bound {pos : StringDev ι κ} {bound : ι} (hint : pos.intValue = some bound)
    (ints : ι → Int32) (callback : Option κ) :
    hookEntry pos ints (some bound) callback = some (pos, ints) := by
  unfold hookEntry
  rw [hint]
  dsimp only
  rw [Function.update_eq_self]

/-- A callback alone is added to the entry. -/
theorem hookEntry_callback {pos : StringDev ι κ} (hint : pos.intValue = none)
    (ints : ι → Int32) (callback : Option κ) :
    hookEntry pos ints none callback =
      some ({ pos with callback := callback.or pos.callback }, ints) := by
  unfold hookEntry
  rw [hint]

/-- A variable takes the value of the entry, and the text goes. -/
theorem hookEntry_var {pos : StringDev ι κ} {value : CStr} (hint : pos.intValue = none)
    (hval : pos.yourvalue = some value) (ints : ι → Int32) (var : ι) (callback : Option κ) :
    hookEntry pos ints (some var) callback =
      some ({ pos with
          intValue := some var, yourvalue := none, callback := callback.or pos.callback },
        Function.update ints var (strtoulInt value.chars)) := by
  unfold hookEntry
  rw [hint, hval]

end Loop

/-! ## A file, and a hooked variable -/

section File

variable [DecidableEq ι]

/-- Every entry that has `var` hooked has the key. -/
def OwnedBy (clientList : List (StringDev ι κ)) (key : CStr) (var : ι) : Prop :=
  ∀ q ∈ clientList, q.intValue = some var → q.yourkey = key

/-- A line sets an owned variable if it is a line of the key. -/
theorem updateLine_owned {clientList : List (StringDev ι κ)} {key : CStr} {pos : StringDev ι κ}
    {var : ι} (hfirst : firstEntry clientList key = some pos) (hint : pos.intValue = some var)
    (hown : OwnedBy clientList key var) (kv : List UInt8 × List UInt8) (ints : ι → Int32) :
    (updateLine kv.1 kv.2 clientList ints).1 var =
      if key.chars = kv.1 then strtoulInt kv.2 else ints var := by
  obtain ⟨hmem, hkey⟩ := firstEntry_mem hfirst
  rw [updateLine_ints]
  by_cases hk : key.chars = kv.1
  · rw [if_pos ⟨pos, hmem, hkey ▸ hk, hint⟩, if_pos hk]
  · rw [if_neg hk, if_neg]
    rintro ⟨q, hq, hqkey, hqint⟩
    exact hk (hown q hq hqint ▸ hqkey)

/-- **A file keeps an owned variable at the configured value.** -/
theorem updateLines_follow {clientList : List (StringDev ι κ)} {key : CStr} {pos : StringDev ι κ}
    {var : ι} (hfirst : firstEntry clientList key = some pos) (hint : pos.intValue = some var)
    (hown : OwnedBy clientList key var) (lines : List (List UInt8 × List UInt8)) {conf : Conf}
    {ints : ι → Int32} (h : (conf key.chars).map strtoulInt = some (ints var)) :
    (readConf lines conf key.chars).map strtoulInt =
      some ((updateLines clientList lines ints).1 var) := by
  induction lines generalizing conf ints with
  | nil => exact h
  | cons kv lines ih =>
    show (readConf lines (Function.update conf kv.1 (some kv.2)) key.chars).map strtoulInt =
      some ((updateLines clientList lines (updateLine kv.1 kv.2 clientList ints).1).1 var)
    refine ih ?_
    rw [updateLine_owned hfirst hint hown]
    by_cases hk : key.chars = kv.1
    · rw [if_pos hk, ← hk, Function.update_self, Option.map_some]
    · rw [if_neg hk, Function.update_of_ne hk]
      exact h

/-- A file that changes an owned variable calls the callback of its entry. -/
theorem updateLines_call_int {clientList : List (StringDev ι κ)} {key : CStr}
    {pos : StringDev ι κ} {var : ι} {cb : κ} (hfirst : firstEntry clientList key = some pos)
    (hint : pos.intValue = some var) (hcb : pos.callback = some cb)
    (hown : OwnedBy clientList key var) {lines : List (List UInt8 × List UInt8)}
    {ints : ι → Int32} (h : (updateLines clientList lines ints).1 var ≠ ints var) :
    ∃ value, ⟨cb, key.chars, value⟩ ∈ (updateLines clientList lines ints).2 := by
  induction lines generalizing ints with
  | nil => exact absurd rfl h
  | cons kv lines ih =>
    rw [updateLines]
    by_cases hsame : (updateLine kv.1 kv.2 clientList ints).1 var = ints var
    · have hrest : (updateLines clientList lines (updateLine kv.1 kv.2 clientList ints).1).1 var ≠
          (updateLine kv.1 kv.2 clientList ints).1 var := by
        rw [hsame]
        exact h
      obtain ⟨value, hvalue⟩ := ih hrest
      exact ⟨value, List.mem_append_right _ hvalue⟩
    · -- this line is one of the key, and differs
      rw [updateLine_owned hfirst hint hown] at hsame
      split_ifs at hsame with hk
      · have hdiff : Differs kv.2 pos ints := by
          rw [Differs, hint]
          exact Ne.symm hsame
        refine ⟨kv.2, List.mem_append_left _ ?_⟩
        rw [← hk]
        exact updateLine_call hfirst hdiff hcb
      · exact absurd rfl hsame

/-- A line that differs from the boot value calls the callback of an entry
without a variable. -/
theorem updateLines_call_text {clientList : List (StringDev ι κ)} {key : CStr}
    {pos : StringDev ι κ} {cb : κ} {yourvalue : CStr}
    (hfirst : firstEntry clientList key = some pos) (hint : pos.intValue = none)
    (hcb : pos.callback = some cb) (hval : pos.yourvalue = some yourvalue)
    {lines : List (List UInt8 × List UInt8)}
    {kv : List UInt8 × List UInt8} (hkv : kv ∈ lines) (hk : kv.1 = key.chars)
    (hne : yourvalue.chars ≠ kv.2) (ints : ι → Int32) :
    ∃ value, ⟨cb, key.chars, value⟩ ∈ (updateLines clientList lines ints).2 := by
  induction lines generalizing ints with
  | nil => cases hkv
  | cons kv' lines ih =>
    rw [updateLines]
    rcases List.mem_cons.mp hkv with rfl | hkv
    · have hdiff : Differs kv.2 pos ints := by
        rw [Differs, hint, hval]
        exact hne
      refine ⟨kv.2, List.mem_append_left _ ?_⟩
      rw [hk]
      exact updateLine_call hfirst hdiff hcb
    · obtain ⟨value, hvalue⟩ := ih hkv _
      exact ⟨value, List.mem_append_right _ hvalue⟩

end File

/-! ## The invariant -/

/-- What was promised is hooked in, and hooked variables hold the configured
values. -/
structure Inv (boot : List (CStr × Option CStr)) (ops : List (Op ι κ)) (o : List (Obs ι κ))
    (s : Config ι κ) : Prop where
  var : ∀ key var, VarPromised o key var →
    ∃ pos, firstEntry s.clientList key = some pos ∧ pos.intValue = some var
  promised : ∀ key pos var, firstEntry s.clientList key = some pos →
    pos.intValue = some var → VarPromised o key var
  callback : ∀ key cb, CallbackPromised o key cb →
    ∃ pos, firstEntry s.clientList key = some pos ∧ pos.callback = some cb
  value : ∀ key pos var, firstEntry s.clientList key = some pos → pos.intValue = some var →
    (configured boot ops key.chars).map strtoulInt = some (s.ints var)
  own : ∀ p ∈ s.clientList, ∀ var, p.intValue = some var → OwnedBy s.clientList p.yourkey var

/-- What is configured, one operation later. -/
theorem configured_snoc (boot : List (CStr × Option CStr)) (ops : List (Op ι κ)) (op : Op ι κ) :
    configured boot (ops ++ [op]) =
      match op with
      | .update (some file) => readConf (fileLines file) (configured boot ops)
      | _ => configured boot ops := by
  rw [configured, List.foldl_append]
  rfl

/-- The list of the boot, before any operation. -/
theorem inv_boot (boot : List (CStr × Option CStr)) (ints : ι → Int32) :
    Inv (κ := κ) boot [] [] ⟨bootList boot, ints⟩ := by
  have hnone : ∀ pos ∈ bootList (ι := ι) (κ := κ) boot, pos.intValue = none := by
    intro pos hpos
    obtain ⟨kv, -, rfl⟩ := List.mem_map.mp hpos
    rfl
  refine ⟨?_, ?_, ?_, ?_, ?_⟩
  · rintro key var ⟨callback, h⟩
    cases h
  · intro key pos var hfirst hint
    rw [hnone pos (firstEntry_mem hfirst).1] at hint
    cases hint
  · rintro key cb ⟨intValue, h⟩
    cases h
  · intro key pos var hfirst hint
    rw [hnone pos (firstEntry_mem hfirst).1] at hint
    cases hint
  · intro p hp var hint
    rw [hnone p hp] at hint
    cases hint

/-! ## What is promised -/

/-- A registration with success promises its variable. -/
theorem varPromised_snoc (o : List (Obs ι κ)) (k : CStr) (intValue : Option ι)
    (callback : Option κ) (ret : Int) (key : CStr) (var : ι) :
    VarPromised (o ++ [.registered k intValue callback ret]) key var ↔
      VarPromised o key var ∨ (key = k ∧ intValue = some var ∧ ret = 1) := by
  constructor
  · rintro ⟨cb, h⟩
    rcases List.mem_append.mp h with h | h
    · exact .inl ⟨cb, h⟩
    · cases List.mem_singleton.mp h
      exact .inr ⟨rfl, rfl, rfl⟩
  · rintro (⟨cb, h⟩ | ⟨rfl, rfl, rfl⟩)
    · exact ⟨cb, List.mem_append_left _ h⟩
    · exact ⟨callback, List.mem_append_right _ List.mem_cons_self⟩

/-- It promises its callback, too. -/
theorem callbackPromised_snoc (o : List (Obs ι κ)) (k : CStr) (intValue : Option ι)
    (callback : Option κ) (ret : Int) (key : CStr) (cb : κ) :
    CallbackPromised (o ++ [.registered k intValue callback ret]) key cb ↔
      CallbackPromised o key cb ∨ (key = k ∧ callback = some cb ∧ ret = 1) := by
  constructor
  · rintro ⟨var, h⟩
    rcases List.mem_append.mp h with h | h
    · exact .inl ⟨var, h⟩
    · cases List.mem_singleton.mp h
      exact .inr ⟨rfl, rfl, rfl⟩
  · rintro (⟨var, h⟩ | ⟨rfl, rfl, rfl⟩)
    · exact ⟨var, List.mem_append_left _ h⟩
    · exact ⟨intValue, List.mem_append_right _ List.mem_cons_self⟩

/-- Calls promise nothing. -/
theorem registered_mem_append_called {o : List (Obs ι κ)} {calls : List (CallbackCall κ)}
    {key : CStr} {intValue : Option ι} {callback : Option κ} {ret : Int} :
    .registered key intValue callback ret ∈ o ++ calls.map Obs.called ↔
      .registered key intValue callback ret ∈ o := by
  rw [List.mem_append, or_iff_left]
  intro h
  obtain ⟨call, -, hcall⟩ := List.mem_map.mp h
  cases hcall

/-! ## One step keeps the invariant -/

/-- A step that leaves the configuration, the list and the hooked variables
alone, and promises nothing new. -/
theorem Inv.keep {boot : List (CStr × Option CStr)} {ops ops' : List (Op ι κ)}
    {o o' : List (Obs ι κ)} {s : Config ι κ} {ints' : ι → Int32} (h : Inv boot ops o s)
    (hconf : configured boot ops' = configured boot ops)
    (hvar : ∀ key var, VarPromised o' key var ↔ VarPromised o key var)
    (hcb : ∀ key cb, CallbackPromised o' key cb ↔ CallbackPromised o key cb)
    (hints : ∀ q ∈ s.clientList, ∀ var, q.intValue = some var → ints' var = s.ints var) :
    Inv boot ops' o' ⟨s.clientList, ints'⟩ where
  var key var hp := h.var key var ((hvar key var).mp hp)
  promised key pos var hfirst hint := (hvar key var).mpr (h.promised key pos var hfirst hint)
  callback key cb hp := h.callback key cb ((hcb key cb).mp hp)
  value key pos var hfirst hint := by
    show _ = some (ints' var)
    rw [hconf, hints pos (firstEntry_mem hfirst).1 var hint]
    exact h.value key pos var hfirst hint
  own := h.own

/-- Where there is room for a callback, one promised earlier stays. -/
theorem or_of_room {callback old : Option κ} {cb : κ}
    (hroom : callback = none ∨ old = none ∨ callback = old) (hold : old = some cb) :
    callback.or old = some cb := by
  rcases hroom with rfl | rfl | rfl
  · exact hold
  · cases hold
  · rw [hold]
    rfl

/-- **A variable or a callback is hooked** into an entry that has room. -/
theorem inv_hook {boot : List (CStr × Option CStr)} {ops : List (Op ι κ)} {o : List (Obs ι κ)}
    {s : Config ι κ} {key : CStr} {pos pos' : StringDev ι κ} {intValue : Option ι}
    {callback : Option κ} {ints' : ι → Int32} (h : Inv boot ops o s)
    (hfirst : firstEntry s.clientList key = some pos) (hnone : pos.intValue = none)
    (hkey : pos'.yourkey = key) (hint : pos'.intValue = intValue)
    (hcb : pos'.callback = callback.or pos.callback)
    (hroom : callback = none ∨ pos.callback = none ∨ callback = pos.callback)
    (hfree : ∀ var ∈ intValue, ∀ q ∈ s.clientList, q.intValue ≠ some var)
    (hset : ∀ var ∈ intValue, (configured boot ops key.chars).map strtoulInt = some (ints' var))
    (hother : ∀ var, intValue ≠ some var → ints' var = s.ints var) :
    Inv boot (ops ++ [.register key intValue callback])
      (o ++ [.registered key intValue callback 1])
      ⟨replaceFirst key pos' s.clientList, ints'⟩ where
  var k var hp := by
    show ∃ p, firstEntry (replaceFirst key pos' s.clientList) k = some p ∧ _
    rw [firstEntry_replaceFirst hfirst hkey]
    rcases (varPromised_snoc o key intValue callback 1 k var).mp hp with hold | ⟨rfl, hvar, -⟩
    · obtain ⟨p, hpfirst, hpint⟩ := h.var k var hold
      by_cases hk : k = key
      · -- nothing was promised for an entry without a variable
        rw [hk, hfirst] at hpfirst
        cases hpfirst
        rw [hnone] at hpint
        cases hpint
      · rw [if_neg hk]
        exact ⟨p, hpfirst, hpint⟩
    · rw [if_pos rfl]
      exact ⟨pos', rfl, hint.trans hvar⟩
  promised k p var hp hpint := by
    rw [firstEntry_replaceFirst hfirst hkey] at hp
    rw [varPromised_snoc]
    split_ifs at hp with hk
    · cases hp
      exact .inr ⟨hk, hint.symm.trans hpint, rfl⟩
    · exact .inl (h.promised k p var hp hpint)
  callback k cb hp := by
    show ∃ p, firstEntry (replaceFirst key pos' s.clientList) k = some p ∧ _
    rw [firstEntry_replaceFirst hfirst hkey]
    rcases (callbackPromised_snoc o key intValue callback 1 k cb).mp hp with hold | ⟨rfl, hvar, -⟩
    · obtain ⟨p, hpfirst, hpcb⟩ := h.callback k cb hold
      by_cases hk : k = key
      · rw [hk, hfirst] at hpfirst
        cases hpfirst
        rw [if_pos hk]
        exact ⟨pos', rfl, hcb.trans (or_of_room hroom hpcb)⟩
      · rw [if_neg hk]
        exact ⟨p, hpfirst, hpcb⟩
    · rw [if_pos rfl]
      refine ⟨pos', rfl, ?_⟩
      rw [hcb, hvar]
      rfl
  value k p var hp hpint := by
    rw [firstEntry_replaceFirst hfirst hkey] at hp
    rw [configured_snoc]
    split_ifs at hp with hk
    · cases hp
      rw [hk]
      exact hset var (hint.symm.trans hpint)
    · have hne : intValue ≠ some var := fun heq =>
        hfree var heq p (firstEntry_mem hp).1 hpint
      show _ = some (ints' var)
      rw [hother var hne]
      exact h.value k p var hp hpint
  own p hp var hpint q hq hqint := by
    -- the variable hooked is new to the list, so it is in one entry only
    rcases mem_replaceFirst hp with hpnew | hpold
    · rcases mem_replaceFirst hq with hqnew | hqold
      · rw [hpnew, hqnew]
      · rw [hpnew, hint] at hpint
        exact absurd hqint (hfree var hpint q hqold)
    · rcases mem_replaceFirst hq with hqnew | hqold
      · rw [hqnew, hint] at hqint
        exact absurd hpint (hfree var hqint p hpold)
      · exact h.own p hpold var hpint q hqold hqint

/-- An entry is asked again for the variable it has. -/
theorem inv_again {boot : List (CStr × Option CStr)} {ops : List (Op ι κ)} {o : List (Obs ι κ)}
    {s : Config ι κ} {key : CStr} {pos : StringDev ι κ} {bound : ι} {callback : Option κ}
    (h : Inv boot ops o s) (hfirst : firstEntry s.clientList key = some pos)
    (hint : pos.intValue = some bound) (hcb : callback = none ∨ callback = pos.callback) :
    Inv boot (ops ++ [.register key (some bound) callback])
      (o ++ [.registered key (some bound) callback 1]) s where
  var k var hp := by
    rcases (varPromised_snoc o key (some bound) callback 1 k var).mp hp with hold | ⟨rfl, hvar, -⟩
    · exact h.var k var hold
    · exact ⟨pos, hfirst, hint.trans hvar⟩
  promised k p var hp hpint := by
    rw [varPromised_snoc]
    exact .inl (h.promised k p var hp hpint)
  callback k cb hp := by
    rcases (callbackPromised_snoc o key (some bound) callback 1 k cb).mp hp with
      hold | ⟨rfl, hnew, -⟩
    · exact h.callback k cb hold
    · rcases hcb with hcb | hcb
      · rw [hcb] at hnew
        cases hnew
      · exact ⟨pos, hfirst, hcb.symm.trans hnew⟩
  value k p var hp hpint := by
    rw [configured_snoc]
    exact h.value k p var hp hpint
  own := h.own

section Step

variable [DecidableEq ι]

/-- A registration of a key that is in the list. -/
theorem step_register_some {s : Config ι κ} {key : CStr} {pos pos' : StringDev ι κ}
    {ints' : ι → Int32} {intValue : Option ι} {callback : Option κ}
    (hfirst : firstEntry s.clientList key = some pos)
    (hhook : hookEntry pos s.ints intValue callback = some (pos', ints')) :
    step s (.register key intValue callback) =
      some (⟨replaceFirst key pos' s.clientList, ints'⟩,
        [.registered key intValue callback 1]) := by
  rw [step, getIntValue_some hfirst hhook]
  rfl

/-- **A registration**, if it is `RegisterOk`. -/
theorem step_register {boot : List (CStr × Option CStr)} {ops : List (Op ι κ)}
    {o : List (Obs ι κ)} {s : Config ι κ} {key : CStr} {intValue : Option ι}
    {callback : Option κ} (h : Inv boot ops o s)
    (hok : StepOk boot ops o s (.register key intValue callback)) :
    ∃ s' o', step s (.register key intValue callback) = some (s', o') ∧
      Inv boot (ops ++ [.register key intValue callback]) (o ++ o') s' := by
  cases hfirst : firstEntry s.clientList key with
  | none =>
    -- nothing is found, and the return value promises nothing
    obtain ⟨ret, hget, hret⟩ := getIntValue_none s.ints intValue callback hfirst
    refine ⟨s, [.registered key intValue callback ret], ?_, ?_⟩
    · rw [step, hget]
      rfl
    · refine h.keep (configured_snoc boot ops _) ?_ ?_ fun _ _ _ _ => rfl
      · intro k var
        rw [varPromised_snoc]
        exact or_iff_left fun hc => hret hc.2.2
      · intro k cb
        rw [callbackPromised_snoc]
        exact or_iff_left fun hc => hret hc.2.2
  | some pos =>
    obtain ⟨hbound, hunbound⟩ := hok pos hfirst
    rcases hint : pos.intValue with _ | bound
    · obtain ⟨hroom, hvar⟩ := hunbound hint
      have hkey : pos.yourkey = key := (firstEntry_mem hfirst).2
      rcases intValue with _ | var
      · refine ⟨_, _, step_register_some hfirst (hookEntry_callback hint s.ints callback), ?_⟩
        exact inv_hook h hfirst hint hkey hint rfl hroom (fun _ hv => nomatch hv)
          (fun _ hv => nomatch hv) fun _ _ => rfl
      · obtain ⟨hfree, hsome, hconf⟩ := hvar var rfl
        obtain ⟨value, hval⟩ := Option.ne_none_iff_exists'.mp hsome
        rw [hval, Option.map_some] at hconf
        refine ⟨_, _, step_register_some hfirst (hookEntry_var hint hval s.ints var callback), ?_⟩
        refine inv_hook h hfirst hint hkey rfl rfl hroom ?_ ?_ ?_
        · rintro v ⟨⟩
          exact hfree
        · rintro v ⟨⟩
          rw [Function.update_self]
          exact hconf
        · intro v hv
          exact Function.update_of_ne (fun heq => hv (by rw [heq])) _ _
    · -- the entry has its variable already, and has to be asked for the same
      obtain ⟨rfl, hcb⟩ := hbound bound hint
      refine ⟨_, _, step_register_some hfirst (hookEntry_bound hint s.ints callback), ?_⟩
      rw [replaceFirst_self hfirst]
      exact inv_again h hfirst hint hcb

/-- A hooked variable is stored its own value. -/
theorem step_store {boot : List (CStr × Option CStr)} {ops : List (Op ι κ)} {o : List (Obs ι κ)}
    {s : Config ι κ} {var : ι} {x : Int32} (h : Inv boot ops o s)
    (hok : StepOk boot ops o s (.store var x)) :
    Inv boot (ops ++ [.store var x]) (o ++ [])
      ⟨s.clientList, Function.update s.ints var x⟩ := by
  rw [List.append_nil]
  refine h.keep (configured_snoc boot ops _) (fun _ _ => Iff.rfl) (fun _ _ => Iff.rfl) ?_
  intro q hq v hv
  by_cases hvar : v = var
  · subst hvar
    rw [Function.update_self]
    exact hok q hq hv
  · exact Function.update_of_ne hvar _ _

/-- **An update** keeps the hooked variables at the configured values. -/
theorem step_update {boot : List (CStr × Option CStr)} {ops : List (Op ι κ)} {o : List (Obs ι κ)}
    {s : Config ι κ} (h : Inv boot ops o s) (file : Option (List UInt8)) :
    Inv boot (ops ++ [.update file])
      (o ++ (updateList file s.clientList s.ints).2.map .called)
      ⟨s.clientList, (updateList file s.clientList s.ints).1⟩ := by
  have hvar : ∀ key var, VarPromised (o ++ (updateList file s.clientList s.ints).2.map .called)
      key var ↔ VarPromised o key var :=
    fun key var => exists_congr fun _ => registered_mem_append_called
  have hcb : ∀ key cb, CallbackPromised (o ++ (updateList file s.clientList s.ints).2.map .called)
      key cb ↔ CallbackPromised o key cb :=
    fun key cb => exists_congr fun _ => registered_mem_append_called
  cases file with
  | none => exact h.keep (configured_snoc boot ops _) hvar hcb fun _ _ _ _ => rfl
  | some file =>
    refine ⟨fun key var hp => h.var key var ((hvar key var).mp hp),
      fun key pos var hfirst hint => (hvar key var).mpr (h.promised key pos var hfirst hint),
      fun key cb hp => h.callback key cb ((hcb key cb).mp hp), ?_, h.own⟩
    intro key pos var hfirst hint
    obtain ⟨hmem, hkey⟩ := firstEntry_mem hfirst
    rw [configured_snoc, updateList_some]
    exact updateLines_follow hfirst hint (hkey ▸ h.own pos hmem var hint) (fileLines file)
      (h.value key pos var hfirst hint)

/-- **An update pays what it owes**, unless its lines for an entry without a
variable all carry a boot value that is configured no longer. -/
theorem update_follows {boot : List (CStr × Option CStr)} {ops : List (Op ι κ)}
    {o : List (Obs ι κ)} {s : Config ι κ} {file : Option (List UInt8)} (h : Inv boot ops o s)
    (hok : StepOk boot ops o s (.update file)) :
    UpdateFollows o (configured boot ops) (configured boot (ops ++ [.update file]))
      (updateList file s.clientList s.ints).1
      ((updateList file s.clientList s.ints).2.map .called) := by
  have h' := step_update h file
  constructor
  · intro key var hp text htext
    -- a promised variable: its entry has the value of the file after the update
    obtain ⟨pos, hfirst, hint⟩ := h.var key var hp
    have hvalue := h'.value key pos var hfirst hint
    rw [htext, Option.map_some, Option.some.injEq] at hvalue
    exact hvalue.symm
  · rintro key cb hp ⟨hne, hnum⟩
    obtain ⟨pos, hfirst, hcb⟩ := h.callback key cb hp
    obtain ⟨hmem, hkey⟩ := firstEntry_mem hfirst
    rcases file with _ | file
    · rw [configured_snoc] at hne
      exact absurd rfl hne
    -- a promised callback: some line of the file calls it
    suffices hcalled : ∃ value, ⟨cb, key.chars, value⟩ ∈
        (updateLines s.clientList (fileLines file) s.ints).2 by
      obtain ⟨value, hvalue⟩ := hcalled
      rw [updateList_some]
      exact ⟨value, List.mem_map_of_mem hvalue⟩
    rcases hint : pos.intValue with _ | var
    · -- the text changes, so some line differs from the boot value
      rw [configured_snoc] at hne
      have hline := mt (hok pos hmem hint (by rw [hcb]; exact Option.some_ne_none cb))
        (by rw [hkey]; exact Ne.symm hne)
      push Not at hline
      obtain ⟨kv, hkv, hk, value, hval, hdiff⟩ := hline
      exact updateLines_call_text hfirst hint hcb hval hkv (hkey ▸ hk) hdiff s.ints
    · -- the number changes, so the variable does
      have hown : OwnedBy s.clientList key var := hkey ▸ h.own pos hmem var hint
      have hvalue' := h'.value key pos var hfirst hint
      rw [updateList_some] at hvalue'
      refine updateLines_call_int hfirst hint hcb hown fun hsame => ?_
      apply hnum ⟨var, h.promised key pos var hfirst hint⟩
      rw [h.value key pos var hfirst hint, hvalue']
      exact congrArg some hsame.symm

/-! ## Runs -/

/-- **An allowed step does not fail, and keeps the invariant.** -/
theorem step_inv {boot : List (CStr × Option CStr)} {ops : List (Op ι κ)} {o : List (Obs ι κ)}
    {s : Config ι κ} {op : Op ι κ} (h : Inv boot ops o s) (hok : StepOk boot ops o s op) :
    ∃ s' o', step s op = some (s', o') ∧ Inv boot (ops ++ [op]) (o ++ o') s' := by
  cases op with
  | register key intValue callback => exact step_register h hok
  | store var x => exact ⟨_, _, rfl, step_store h hok⟩
  | update file => exact ⟨_, _, rfl, step_update h file⟩

/-- **Registered variables and callbacks follow the configuration** in every run
whose steps are `StepOk`. -/
theorem follows (boot : List (CStr × Option CStr)) (ints : ι → Int32) (ops : List (Op ι κ))
    (hok : StepsMeet step (StepOk boot) ⟨bootList boot, ints⟩ ops) : Follows boot ints ops := by
  intro pre op hpre
  obtain ⟨s, o, hrun, hinv⟩ := run_invariant (I := Inv boot)
    (fun _ _ _ _ hI hP => step_inv hI hP) (inv_boot boot ints)
    (hok.of_prefix ((List.prefix_append pre [op]).trans hpre))
  have hop := hok pre op hpre s o hrun
  obtain ⟨s', o', hstep, -⟩ := step_inv hinv hop
  refine ⟨s, o, s', o', hrun, hstep, ?_⟩
  rintro file rfl
  cases hstep
  exact update_follows hinv hop

end Step

/-- A boot file with one key. -/
def gpsKey : CStr := ⟨ascii "gps_debug_en", by decide⟩

def gpsBoot : List (CStr × Option CStr) := [(gpsKey, some ⟨ascii "0", by decide⟩)]

/-- The file, edited. -/
def gpsEdited : List UInt8 := ascii "gps_debug_en=1\n"

/-- A variable and a callback registered together, and an edited file. -/
theorem follows_gps :
    Follows gpsBoot (fun _ : Nat => 0)
      [.register gpsKey (some 0) (some ()), .update (some gpsEdited)] :=
  follows gpsBoot (fun _ => 0) _ (by decide +kernel)

/-- Two drivers that register a variable each for one key. -/
def twoVariables : List (Op Nat Unit) :=
  [.register gpsKey (some 0) none, .register gpsKey (some 1) none]

/-- Both registrations return success, and the second variable stays at the old
value. -/
theorem twoVariables_stale :
    (run step ⟨bootList gpsBoot, fun _ => 7⟩ (twoVariables ++ [.update (some gpsEdited)])).map
      (fun r => (r.1.ints 0, r.1.ints 1)) = some (1, 0) ∧
    ¬ Follows gpsBoot (fun _ => 7) (twoVariables ++ [.update (some gpsEdited)]) := by
  have hrun : (run step ⟨bootList gpsBoot, fun _ => 7⟩
      (twoVariables ++ [.update (some gpsEdited)])).map
        (fun r => (r.1.ints 0, r.1.ints 1)) = some (1, 0) := by
    decide +kernel
  refine ⟨hrun, fun hfollows => ?_⟩
  obtain ⟨s, o, s', o', hpre, hstep, hupdate⟩ := hfollows twoVariables _ List.prefix_rfl
  rw [run_snoc hpre hstep] at hrun
  have hstale : s'.ints 1 = 0 := by
    have := Option.some.inj hrun
    exact (Prod.mk.inj this).2
  have hpromise : VarPromised o gpsKey 1 := by
    cases hpre
    exact ⟨none, List.mem_cons_of_mem _ List.mem_cons_self⟩
  have hfresh := (hupdate _ rfl).vars gpsKey 1 hpromise (ascii "1") (by decide +kernel)
  rw [hstale] at hfresh
  exact absurd hfresh (by decide)

end Lidbg.FsKeyvalue
