import Lidbg.Core.I2c
import Lidbg.Machine.Run
import Mathlib.Logic.Function.Basic

/-!
# Transfers at the same time (`core/lidbg_i2c.c`)

All transfers on a bus share the client of its entry: each stores its chip's address there
and reads it back, once for every message. `USE_I2C_LOCK` is not defined, so others come
between.

- `calls_asAlone`: where nobody stores another address before the last read, every call
  returns what it returns alone, over every interleaving.
- `calls_own_iff`: no schedule sends a message to another chip exactly if no two calls
  of a bus are for different chips.
-/

namespace Lidbg.I2c

open Machine

/-- The arguments of a call of `i2c_api_do_xfer`. -/
structure XferCall where
  busId : Int32
  chipAddr : UInt8
  subAddr : UInt32
  mode : Int32
  buf : List UInt8
  size : UInt32

/-- How many messages get the address of the client. -/
def XferMode.reads : XferMode → Nat
  | .recv => 2
  | .recvSubaddr2bytes => 2
  | .recvSaf7741 => 2
  | .recvSubaddr3bytes => 2
  | _ => 1

/-- The cases of the `switch`, with the addresses as they were read for the first message
and the last. -/
def xferRead (core : I2cCore) (first last : UInt16) (subAddr : UInt32) (buf : List UInt8)
    (size : UInt32) : XferMode → Int32 × List UInt8 :=
  let sent : I2cMsg := ⟨last, false, size.toUInt16, buf⟩
  let received : I2cMsg := ⟨last, true, size.toUInt16, buf⟩
  let select : I2cMsg := ⟨saf7741I2cAddrForTef7000 >>> 1, false, 3, [0x00, 0xff, 0xff]⟩
  fun
  | .send => core.transfer [sent]
  | .recv => core.transfer [⟨first, false, 1, [subAddr.toUInt8]⟩, received]
  | .sendNoSubaddr => (core.masterSend last buf size, buf)
  | .recvSubaddr2bytes =>
    core.transfer [⟨first, false, 2, (subAddrBytes subAddr).drop 1⟩, received]
  | .recvNoSubaddr => core.transfer [received]
  | .recvSaf7741 => core.transfer [⟨first, false, 3, subAddrBytes subAddr⟩, received]
  | .recvSubaddr3bytes => core.transfer [⟨first, false, 3, subAddrBytes subAddr⟩, received]
  | .sendTef7000 => core.transfer [select, sent]
  | .recvTef7000 => core.transfer [select, received]

/-- Where a call is: not begun, before it looks for the entry, before it stores the address
there, between its reads, before it clears the flag, or over. -/
inductive Place where
  | away
  | lookingUp
  | storing (entry : Nat)
  | reading (entry : Nat) (mode : XferMode) (addrs : List UInt16)
  | leaving (ret : Int32) (buf : List UInt8)
  | returned

/-- The messages of a transfer by their addresses, and what a call returns. -/
inductive Obs where
  | sent (i : Nat) (addrs : List UInt16)
  | returned (i : Nat) (ret : Int32) (buf : List UInt8)

/-- `lidbg_i2c_running`, `i2c_api_list` and the calls. -/
structure State where
  running : Int32
  apis : List I2cApi
  places : Nat → Place

def State.init (apis : List I2cApi) : State := ⟨0, apis, fun _ => .away⟩

def State.moveTo (s : State) (i : Nat) (place : Place) : State :=
  { s with places := Function.update s.places i place }

section Model

variable (core : I2cCore) (calls : Nat → XferCall)

/-- The next move of call `i`; `none` if it is over, or follows a null entry. -/
def step : Step State Nat Obs := fun s i =>
  let c := calls i
  match s.places i with
  | .away => some ({ s with running := 1 }.moveTo i .lookingUp, [])
  | .lookingUp =>
    match getI2cApi s.apis c.busId with
    | none => some (s.moveTo i .returned, [.returned i (-enodev) c.buf])
    | some entry => some (s.moveTo i (.storing entry), [])
  | .storing entry =>
    let s := { s with
      apis := s.apis.modify entry fun api => { api with addr := c.chipAddr.toUInt16 } }
    match XferMode.ofInt? c.mode with
    | none => some (s.moveTo i .returned, [.returned i (-einval) c.buf])
    | some mode => some (s.moveTo i (.reading entry mode []), [])
  | .reading entry mode addrs =>
    if addrs.length < mode.reads then
      match s.apis[entry]? with
      | none => none
      | some api => some (s.moveTo i (.reading entry mode (addrs ++ [api.addr])), [])
    else
      let (ret, buf) :=
        xferRead core (addrs.headD 0) (addrs.getLastD 0) c.subAddr c.buf c.size mode
      some (s.moveTo i (.leaving ret buf), [.sent i addrs])
  | .leaving ret buf =>
    some ({ s with running := 0 }.moveTo i .returned, [.returned i ret buf])
  | .returned => none

end Model

/-- What a call returns if there is no other. -/
def alone (core : I2cCore) (apis : List I2cApi) (c : XferCall) : Option (Int32 × List UInt8) :=
  (i2cApiDoXfer core c.busId c.chipAddr c.subAddr c.mode c.buf c.size ⟨0, apis⟩).map
    fun r => (r.1, r.2.1)

section Calls

variable {core : I2cCore} {calls : Nat → XferCall} {apis : List I2cApi}

/-- A call stores its address only while nobody is between the reads of another one. -/
def Apart (calls : Nat → XferCall) (s : State) (j : Nat) : Prop :=
  ∀ entry, s.places j = .storing entry → ∀ i mode addrs,
    s.places i = .reading entry mode addrs → addrs.length < mode.reads →
      (calls i).chipAddr = (calls j).chipAddr

/-- Every message goes to the chip of its call. -/
def Obs.Own (calls : Nat → XferCall) : Obs → Prop
  | .sent i addrs => ∀ addr ∈ addrs, addr = (calls i).chipAddr.toUInt16
  | .returned _ _ _ => True

/-- And a call returns what it does alone. -/
def Obs.AsAlone (core : I2cCore) (apis : List I2cApi) (calls : Nat → XferCall) : Obs → Prop
  | .sent i addrs => (Obs.sent i addrs).Own calls
  | .returned i ret buf => alone core apis (calls i) = some (ret, buf)

theorem Obs.AsAlone.own {w : Obs} (h : w.AsAlone core apis calls) : w.Own calls := by
  cases w with
  | sent i addrs => exact h
  | returned i ret buf => trivial

/-! ## One call alone -/

theorem alone_of_none {c : XferCall} (h : getI2cApi apis c.busId = none) :
    alone core apis c = some (-enodev, c.buf) := by
  simp [alone, i2cApiDoXfer, h]

theorem exists_entry {busId : Int32} {entry : Nat} (h : getI2cApi apis busId = some entry) :
    ∃ api, apis[entry]? = some api ∧ api.nr = busId := by
  obtain ⟨hlt, hnr, -⟩ := List.findIdx?_eq_some_iff_getElem.mp h
  exact ⟨apis[entry], List.getElem?_eq_getElem hlt, of_decide_eq_true hnr⟩

variable (core) in
theorem alone_of_some {c : XferCall} {entry : Nat} (h : getI2cApi apis c.busId = some entry) :
    alone core apis c =
      match XferMode.ofInt? c.mode with
      | none => some (-einval, c.buf)
      | some mode => some (xfer core c.chipAddr.toUInt16 c.subAddr c.buf c.size mode) := by
  obtain ⟨api, hapi, -⟩ := exists_entry h
  unfold alone
  simp only [i2cApiDoXfer, h, Option.isNone_some, Bool.false_eq_true, if_false,
    Option.bind_eq_bind, Option.bind_some, List.getElem?_modify_eq, hapi]
  cases XferMode.ofInt? c.mode <;> rfl

/-- With one address, the messages are those of `i2c_api_do_xfer`. -/
theorem xferRead_self (addr : UInt16) (subAddr : UInt32) (buf : List UInt8) (size : UInt32)
    (mode : XferMode) : xferRead core addr addr subAddr buf size mode =
      xfer core addr subAddr buf size mode := by
  cases mode <;> rfl

theorem headD_of_all {addrs : List UInt16} {addr : UInt16} (hne : addrs ≠ [])
    (h : ∀ a ∈ addrs, a = addr) : addrs.headD 0 = addr ∧ addrs.getLastD 0 = addr := by
  obtain ⟨first, rest, rfl⟩ := List.exists_cons_of_ne_nil hne
  refine ⟨h first List.mem_cons_self, ?_⟩
  rw [List.getLastD_cons, List.getLastD_eq_getLast?]
  cases hlast : rest.getLast? with
  | none => exact h first List.mem_cons_self
  | some last => exact h last (List.mem_cons_of_mem first (List.mem_of_getLast? hlast))

theorem XferMode.reads_pos (mode : XferMode) : 0 < mode.reads := by
  cases mode <;> simp [XferMode.reads]

/-! ## One move -/

/-- What is known of a call by its place. -/
def PlaceOk (core : I2cCore) (calls : Nat → XferCall) (apis now : List I2cApi) (i : Nat) :
    Place → Prop
  | .storing entry => getI2cApi apis (calls i).busId = some entry
  | .reading entry mode addrs =>
    getI2cApi apis (calls i).busId = some entry ∧ XferMode.ofInt? (calls i).mode = some mode ∧
      (∀ addr ∈ addrs, addr = (calls i).chipAddr.toUInt16) ∧
      (addrs.length < mode.reads → ∀ api, now[entry]? = some api →
        api.addr = (calls i).chipAddr.toUInt16)
  | .leaving ret buf => alone core apis (calls i) = some (ret, buf)
  | _ => True

/-- The entries are those of the start, and so much is known of every call. -/
structure Kept (core : I2cCore) (calls : Nat → XferCall) (apis : List I2cApi) (s : State) :
    Prop where
  nrs : s.apis.map I2cApi.nr = apis.map I2cApi.nr
  place : ∀ i, PlaceOk core calls apis s.apis i (s.places i)

theorem getI2cApi_congr {apis now : List I2cApi}
    (h : now.map I2cApi.nr = apis.map I2cApi.nr) (busId : Int32) :
    getI2cApi now busId = getI2cApi apis busId := by
  have hmap : ∀ l : List I2cApi,
      getI2cApi l busId = (l.map I2cApi.nr).findIdx? fun nr => nr = busId := by
    intro l
    rw [List.findIdx?_map]
    rfl
  rw [hmap, hmap, h]

theorem map_nr_modify (apis : List I2cApi) (entry : Nat) (addr : UInt16) :
    (apis.modify entry fun api => { api with addr := addr }).map I2cApi.nr =
      apis.map I2cApi.nr := by
  refine List.ext_getElem? fun k => ?_
  simp only [List.getElem?_map, List.getElem?_modify]
  cases apis[k]? with
  | none => rfl
  | some api => by_cases hk : entry = k <;> simp [hk]

theorem Kept.moveTo {s : State} (h : Kept core calls apis s) {i : Nat} {place : Place}
    (hplace : PlaceOk core calls apis s.apis i place) (running : Int32) :
    Kept core calls apis ({ s with running := running }.moveTo i place) where
  nrs := h.nrs
  place j := by
    by_cases hj : j = i
    · subst hj
      simpa [State.moveTo] using hplace
    · simpa [State.moveTo, Function.update_of_ne hj] using h.place j

/-- A store leaves alone what others have yet to read. -/
theorem Kept.store {s : State} (h : Kept core calls apis s) {i entry : Nat}
    (hat : s.places i = .storing entry) (hapart : Apart calls s i) {place : Place}
    (hplace : PlaceOk core calls apis
      (s.apis.modify entry fun api => { api with addr := (calls i).chipAddr.toUInt16 }) i place) :
    Kept core calls apis (({ s with
      apis := s.apis.modify entry fun api =>
        { api with addr := (calls i).chipAddr.toUInt16 } } : State).moveTo i place) where
  nrs := (map_nr_modify ..).trans h.nrs
  place j := by
    by_cases hj : j = i
    · subst hj
      simpa [State.moveTo] using hplace
    · have hok := h.place j
      simp only [State.moveTo, Function.update_of_ne hj]
      cases hpj : s.places j with
      | reading entry' mode addrs =>
        rw [hpj] at hok
        obtain ⟨hentry, hmode, haddrs, hnow⟩ := hok
        refine ⟨hentry, hmode, haddrs, fun hmore api hapi => ?_⟩
        by_cases heq : entry = entry'
        · subst heq
          have hchip := hapart entry hat j mode addrs hpj hmore
          rw [List.getElem?_modify_eq] at hapi
          obtain ⟨api', -, rfl⟩ := Option.map_eq_some_iff.mp hapi
          rw [hchip]
        · rw [List.getElem?_modify_ne _ _ heq] at hapi
          exact hnow hmore api hapi
      | _ => rwa [hpj] at hok

/-- **One move keeps what is known**, and what is seen of it is as alone. -/
theorem Kept.step {s s' : State} {o : List Obs} {i : Nat} (h : Kept core calls apis s)
    (hapart : Apart calls s i) (hs : step core calls s i = some (s', o)) :
    Kept core calls apis s' ∧ ∀ w ∈ o, w.AsAlone core apis calls := by
  have hok := h.place i
  unfold I2c.step at hs
  cases hat : s.places i with
  | away =>
    rw [hat] at hs
    cases hs
    have hplace : PlaceOk core calls apis s.apis i .lookingUp := trivial
    exact ⟨h.moveTo hplace 1, List.forall_mem_nil _⟩
  | lookingUp =>
    rw [hat] at hs
    have hlook := getI2cApi_congr h.nrs (calls i).busId
    dsimp only at hs
    split at hs
    · next hnone =>
      cases hs
      rw [hlook] at hnone
      have hplace : PlaceOk core calls apis s.apis i .returned := trivial
      exact ⟨h.moveTo hplace s.running, by simpa [Obs.AsAlone] using alone_of_none hnone⟩
    · next entry hsome =>
      cases hs
      rw [hlook] at hsome
      have hplace : PlaceOk core calls apis s.apis i (.storing entry) := hsome
      exact ⟨h.moveTo hplace s.running, List.forall_mem_nil _⟩
  | storing entry =>
    rw [hat] at hs hok
    dsimp only at hs
    have halone := alone_of_some core hok
    split at hs
    · next hmode =>
      -- `i2c_api_xfer` has no such mode: the call is over
      cases hs
      rw [hmode] at halone
      exact ⟨h.store hat hapart trivial, by simpa [Obs.AsAlone] using halone⟩
    · next mode hmode =>
      cases hs
      -- what it is about to read is what it has just stored
      refine ⟨h.store hat hapart ⟨hok, hmode, List.forall_mem_nil _, fun _ api hapi => ?_⟩,
        List.forall_mem_nil _⟩
      rw [List.getElem?_modify_eq] at hapi
      obtain ⟨api', -, rfl⟩ := Option.map_eq_some_iff.mp hapi
      rfl
  | reading entry mode addrs =>
    rw [hat] at hs hok
    obtain ⟨hentry, hmode, haddrs, hnow⟩ := hok
    dsimp only at hs
    split at hs
    · next hmore =>
      split at hs
      · cases hs
      · next api hapi =>
        cases hs
        -- it reads its own address, as long as nobody has stored another
        have hplace : PlaceOk core calls apis s.apis i
            (.reading entry mode (addrs ++ [api.addr])) := by
          refine ⟨hentry, hmode, fun a ha => ?_, fun _ => hnow hmore⟩
          rcases List.mem_append.mp ha with ha | ha
          · exact haddrs a ha
          · rw [List.mem_singleton.mp ha, hnow hmore api hapi]
        exact ⟨h.moveTo hplace s.running, List.forall_mem_nil _⟩
    · next hdone =>
      -- all addresses read are its own, so the transfer is the one it makes alone
      cases hs
      have hne : addrs ≠ [] := by
        rintro rfl
        exact hdone mode.reads_pos
      obtain ⟨hfirst, hlast⟩ := headD_of_all hne haddrs
      have halone := alone_of_some core hentry
      rw [hmode] at halone
      have hplace : PlaceOk core calls apis s.apis i (.leaving
          (xferRead core (addrs.headD 0) (addrs.getLastD 0) (calls i).subAddr (calls i).buf
            (calls i).size mode).1
          (xferRead core (addrs.headD 0) (addrs.getLastD 0) (calls i).subAddr (calls i).buf
            (calls i).size mode).2) := by
        rw [hfirst, hlast, xferRead_self]
        exact halone
      exact ⟨h.moveTo hplace s.running, by simpa [Obs.AsAlone, Obs.Own] using haddrs⟩
  | leaving ret buf =>
    rw [hat] at hs hok
    cases hs
    have halone : alone core apis (calls i) = some (ret, buf) := hok
    have hplace : PlaceOk core calls apis s.apis i .returned := trivial
    exact ⟨h.moveTo hplace 0, by simpa [Obs.AsAlone] using halone⟩
  | returned =>
    rw [hat] at hs
    cases hs

theorem Kept.init : Kept core calls apis (State.init apis) :=
  ⟨rfl, fun _ => trivial⟩

/-- **Apart, calls do what they do alone.** In a run in which a call stores its chip's
address only while no other call on that entry has still to read its own, every message
goes to the chip of its call, and every call returns what `i2c_api_do_xfer` returns. -/
theorem calls_asAlone {schedule : List Nat} {s : State} {o : List Obs}
    (hmeet : StepsMeet (step core calls) (fun _ _ s i => Apart calls s i) (State.init apis)
      schedule)
    (hrun : run (step core calls) (State.init apis) schedule = some (s, o)) :
    ∀ w ∈ o, w.AsAlone core apis calls :=
  (run_preserves_meet (fun _ _ _ _ h hapart hs => h.step hapart hs) Kept.init hmeet hrun).2

/-- Two callers read the same chip, each taking its turn after every move of the other. -/
theorem calls_asAlone_recv :
    let core : I2cCore := ⟨fun _ => (2, [0x2a]), fun _ _ _ => 0⟩
    let calls : Nat → XferCall := fun i => ⟨1, 0x62, UInt32.ofNat i, 1, [0], 1⟩
    ∃ s o, run (step core calls) (State.init [⟨0, 0, none⟩, ⟨1, 0, none⟩])
        [7, 8, 7, 8, 7, 8, 7, 8, 7, 8, 7, 8, 7, 8] = some (s, o) ∧
      ∀ w ∈ o, w.AsAlone core [⟨0, 0, none⟩, ⟨1, 0, none⟩] calls := by
  intro core calls
  have hsome : (run (step core calls) (State.init [⟨0, 0, none⟩, ⟨1, 0, none⟩])
      [7, 8, 7, 8, 7, 8, 7, 8, 7, 8, 7, 8, 7, 8]).isSome = true := by decide +kernel
  obtain ⟨⟨s, o⟩, hrun⟩ := Option.isSome_iff_exists.mp hsome
  exact ⟨s, o, hrun, calls_asAlone (fun _ _ _ _ _ _ _ _ _ _ _ _ _ => rfl) hrun⟩

/-! ## Which calls cannot be mixed up -/

/-- No two calls on one bus are for different chips, as far as they send anything. -/
def OneChip (apis : List I2cApi) (calls : Nat → XferCall) : Prop :=
  ∀ i j, (calls i).busId = (calls j).busId → (getI2cApi apis (calls i).busId).isSome →
    (XferMode.ofInt? (calls i).mode).isSome → (calls i).chipAddr = (calls j).chipAddr

theorem busId_eq {b b' : Int32} {entry : Nat} (h : getI2cApi apis b = some entry)
    (h' : getI2cApi apis b' = some entry) : b = b' := by
  obtain ⟨api, hapi, hnr⟩ := exists_entry h
  obtain ⟨api', hapi', hnr'⟩ := exists_entry h'
  cases hapi.symm.trans hapi'
  exact hnr.symm.trans hnr'

theorem Kept.apart {s : State} (h : Kept core calls apis s) (hchip : OneChip apis calls)
    (j : Nat) : Apart calls s j := by
  intro entry hat i mode addrs hati _
  have hj := h.place j
  rw [hat] at hj
  have hi := h.place i
  rw [hati] at hi
  obtain ⟨hentry, hmode, -, -⟩ := hi
  refine hchip i j (busId_eq hentry hj) ?_ ?_
  · rw [hentry]
    rfl
  · rw [hmode]
    rfl

variable (core) in
/-- Three moves bring a call to where it has stored its address. -/
theorem run_stores {s : State} {i entry : Nat} (haway : s.places i = .away)
    (hentry : getI2cApi s.apis (calls i).busId = some entry) :
    ∃ s' o, run (step core calls) s [i, i, i] = some (s', o) ∧
      s'.apis = s.apis.modify entry
        (fun api => { api with addr := (calls i).chipAddr.toUInt16 }) ∧
      (∀ k, k ≠ i → s'.places k = s.places k) ∧
      ∀ mode, XferMode.ofInt? (calls i).mode = some mode →
        s'.places i = .reading entry mode [] := by
  let s₁ : State := { s with running := 1 }.moveTo i .lookingUp
  let s₂ := s₁.moveTo i (.storing entry)
  have h₁ : step core calls s i = some (s₁, []) := by
    simp only [step, haway]
    rfl
  -- the look-up, and then the store of the chip's address
  have h₂ : step core calls s₁ i = some (s₂, []) := by
    have hat : s₁.places i = .lookingUp := Function.update_self ..
    have hlook : getI2cApi s₁.apis (calls i).busId = some entry := hentry
    simp only [step, hat, hlook]
    rfl
  have hat : s₂.places i = .storing entry := Function.update_self ..
  have hothers : ∀ place, ∀ k, k ≠ i →
      Function.update s₂.places i place k = s.places k := by
    intro place k hk
    simp [s₂, s₁, State.moveTo, Function.update_of_ne hk]
  -- the address is stored before the mode is looked at
  cases hmode : XferMode.ofInt? (calls i).mode with
  | none =>
    have h₃ : step core calls s₂ i = some (({ s₂ with
        apis := s₂.apis.modify entry fun api =>
          { api with addr := (calls i).chipAddr.toUInt16 } } : State).moveTo i .returned,
        [.returned i (-einval) (calls i).buf]) := by
      simp only [step, hat, hmode]
    refine ⟨_, _, run_cons_eq h₁ (run_cons_eq h₂ (run_singleton h₃)), rfl, hothers _, ?_⟩
    intro mode h
    cases h
  | some mode =>
    have h₃ : step core calls s₂ i = some (({ s₂ with
        apis := s₂.apis.modify entry fun api =>
          { api with addr := (calls i).chipAddr.toUInt16 } } : State).moveTo i
        (.reading entry mode []), []) := by
      simp only [step, hat, hmode]
    refine ⟨_, _, run_cons_eq h₁ (run_cons_eq h₂ (run_singleton h₃)), rfl, hothers _, ?_⟩
    intro mode' h
    cases h
    exact Function.update_self ..

variable (core) in
/-- A call that is not disturbed sends the address its client now has. -/
theorem run_reads {i entry : Nat} {mode : XferMode} {api : I2cApi} :
    ∀ (n : Nat) {s : State} {addrs : List UInt16}, s.apis[entry]? = some api →
      s.places i = .reading entry mode addrs → addrs.length + n = mode.reads →
      ∃ s' o, run (step core calls) s (List.replicate (n + 1) i) = some (s', o) ∧
        .sent i (addrs ++ List.replicate n api.addr) ∈ o
  | 0, s, addrs, _, hat, hlen => by
    have hdone : ¬ addrs.length < mode.reads := by omega
    let r := xferRead core (addrs.headD 0) (addrs.getLastD 0) (calls i).subAddr (calls i).buf
      (calls i).size mode
    have hs : step core calls s i = some (s.moveTo i (.leaving r.1 r.2), [.sent i addrs]) := by
      simp only [step, hat, if_neg hdone]
      rfl
    exact ⟨_, _, run_singleton hs, by simp⟩
  | n + 1, s, addrs, hapi, hat, hlen => by
    have hmore : addrs.length < mode.reads := by omega
    have hs : step core calls s i =
        some (s.moveTo i (.reading entry mode (addrs ++ [api.addr])), []) := by
      simp only [step, hat, if_pos hmore, hapi]
    have hlen' : (addrs ++ [api.addr]).length + n = mode.reads := by
      rw [List.length_append, List.length_singleton]
      omega
    obtain ⟨s', o, hrun, hsent⟩ := run_reads n (s := s.moveTo i _) hapi
      (Function.update_self ..) hlen'
    refine ⟨s', o, run_cons_eq hs hrun, ?_⟩
    rwa [List.append_assoc, List.singleton_append, ← List.replicate_succ] at hsent

/-- **Without the lock, one chip a bus.** Over every schedule of any number of calls every
message goes to the chip of its call, if and only if no call shares its bus with a call
for another chip. -/
theorem calls_own_iff :
    (∀ schedule s o, run (step core calls) (State.init apis) schedule = some (s, o) →
      ∀ w ∈ o, w.Own calls) ↔ OneChip apis calls := by
  constructor
  · intro h i j hbus hsome hmode
    by_cases hij : i = j
    · rw [hij]
    -- `j` stores its address between the store of `i` and its first read
    obtain ⟨entry, hentry⟩ := Option.isSome_iff_exists.mp hsome
    obtain ⟨mode, hmode⟩ := Option.isSome_iff_exists.mp hmode
    obtain ⟨s₁, o₁, hrun₁, hapis₁, hothers₁, hat₁⟩ :=
      run_stores core (s := State.init apis) rfl hentry
    have hentry₁ : getI2cApi s₁.apis (calls j).busId = some entry := by
      rw [hapis₁, ← hbus]
      exact (getI2cApi_congr (map_nr_modify ..) _).trans hentry
    obtain ⟨s₂, o₂, hrun₂, hapis₂, hothers₂, -⟩ :=
      run_stores core (hothers₁ j (Ne.symm hij)) hentry₁
    have hat₂ : s₂.places i = .reading entry mode [] := by
      rw [hothers₂ i hij, hat₁ mode hmode]
    obtain ⟨api, hapi, -⟩ := exists_entry hentry₁
    have hapi₂ : s₂.apis[entry]? = some { api with addr := (calls j).chipAddr.toUInt16 } := by
      rw [hapis₂, List.getElem?_modify_eq, hapi]
      rfl
    obtain ⟨s₃, o₃, hrun₃, hsent⟩ := run_reads core mode.reads hapi₂ hat₂ (by simp)
    have hown := h _ _ _ (run_append hrun₁ (run_append hrun₂ hrun₃)) _
      (List.mem_append_right _ (List.mem_append_right _ hsent))
    have haddr := hown (calls j).chipAddr.toUInt16
      (by simp [Nat.pos_iff_ne_zero.mp mode.reads_pos])
    exact (UInt8.toUInt16_inj.mp haddr).symm
  · intro hchip schedule s o hrun
    have hkept : Kept core calls apis s ∧ ∀ w ∈ o, w.Own calls := by
      refine run_preserves_meet (P := fun _ _ => True) (fun s i s' o h _ hs => ?_) Kept.init
        (stepsMeet_of_forall (fun _ _ => trivial) _ _) hrun
      obtain ⟨hkept, halone⟩ := h.step (h.apart hchip i) hs
      exact ⟨hkept, fun w hw => (halone w hw).own⟩
    exact hkept.2

end Calls

end Lidbg.I2c
