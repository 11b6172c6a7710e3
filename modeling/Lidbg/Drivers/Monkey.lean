import Lidbg.Machine.Run
import Mathlib.Logic.Function.Basic
import Mathlib.Tactic.SplitIfs

/-!
# The monkey (`drivers/monkey/lidbg_monkey.c`)

A thread switches a pin on and off for as long as it is told to, for fixed times or for
random ones below a limit. It reads every setting where it needs it, while commands write
the settings one by one.

`monkey_draws_iff` is about every order of the thread's steps and the writes: no random
number is ever asked for below 0 exactly if there are no three moments, in this order, at
which the monkey is enabled, random times are on and the limit is 0.
-/

namespace Lidbg.Drivers.Monkey

open Machine

/-! ## The settings -/

/-- The settings; what there is one of for the pin on and one for the pin off is written
with `true` and `false`. -/
inductive Key where
  | monkeyEnable
  | random (on : Bool)
  | ms (on : Bool)
  | gpioPin
deriving DecidableEq

/-- Their values. -/
abbrev Keys : Type := Key → Int32

/-- What a command does to the device, one access after the other. -/
inductive Write where
  | set (key : Key) (value : Int32)
  | complete
deriving DecidableEq

/-- `monkey_run`. -/
def monkeyRun (enable : Int32) : List Write :=
  if enable = 0 then [.set .monkeyEnable 0] else [.set .monkeyEnable 1, .complete]

/-- `monkey_config`. -/
def monkeyConfig (gpio onEn offEn onMs offMs : Int32) : List Write :=
  [.set .gpioPin gpio, .set (.random true) onEn, .set (.random false) offEn,
    .set (.ms true) onMs, .set (.ms false) offMs]

/-- The command `monkey`. -/
def monkeyCommand (enable gpio onEn offEn onMs offMs : Int32) : List Write :=
  monkeyRun enable ++ monkeyConfig gpio onEn offEn onMs offMs

/-- The values after a write. -/
def Write.apply (keys : Keys) : Write → Keys
  | .set key value => Function.update keys key value
  | .complete => keys

/-- The values after writes. -/
def after (keys : Keys) (writes : List Write) : Keys :=
  writes.foldl Write.apply keys

/-! ## The thread -/

/-- Where `monkey_work` and `monkey_work_func` stand. -/
inductive Pc where
  | check
  | wait
  | ms (on : Bool)
  | random (on : Bool)
  | draw (on : Bool)
  | callback (on : Bool)

/-- What is to be seen from outside: `lidbg_get_random_number`, `SOC_IO_Output` and
`msleep`. -/
inductive Op where
  | getRandomNumber (numMax : UInt32)
  | output (gpio : Int32) (level : Bool)
  | msleep (ms : Int32)

/-- `struct monkey_dev`, with the count of the completion, and the thread. -/
structure Dev where
  keys : Keys
  done : Nat
  sleepMs : Int32
  pc : Pc

/-- The device and the thread at its start, with the settings as they are registered. -/
def Dev.init (keys : Keys) : Dev := ⟨keys, 0, 0, .check⟩

/-- `lidbg_get_random_number`, with what `get_random_bytes` gave. -/
def lidbgGetRandomNumber (ret numMax : UInt32) : UInt32 := ret % numMax

/-- `monkey_cmn_callback`. -/
def Dev.monkeyCmnCallback (s : Dev) (on : Bool) : Bool × List Op :=
  (true, [.output (s.keys .gpioPin) on, .msleep s.sleepMs])

/-- One step of the thread; `ret` is what `get_random_bytes` gives. -/
def Dev.work (s : Dev) (ret : UInt32) : Dev × List Op :=
  match s.pc with
  | .check => ({ s with pc := if s.keys .monkeyEnable ≠ 0 then .ms true else .wait }, [])
  | .wait => if s.done = 0 then (s, []) else ({ s with done := s.done - 1, pc := .check }, [])
  | .ms on => ({ s with sleepMs := s.keys (.ms on), pc := .random on }, [])
  | .random on =>
    ({ s with pc := if s.keys (.random on) ≠ 0 then .draw on else .callback on }, [])
  | .draw on =>
    let numMax := (s.keys (.ms on)).toUInt32
    ({ s with sleepMs := ⟨lidbgGetRandomNumber ret numMax⟩, pc := .callback on },
      [.getRandomNumber numMax])
  | .callback on =>
    let (abortMonkey, ops) := s.monkeyCmnCallback on
    let keys := if abortMonkey = true then s.keys else Function.update s.keys .monkeyEnable 0
    ({ s with keys, pc := if on = true then .ms false else .check }, ops)

/-- An access by a command. -/
def Dev.write (s : Dev) (w : Write) : Dev :=
  { s with keys := w.apply s.keys, done := if w = .complete then s.done + 1 else s.done }

/-- A step of the thread, or an access. -/
inductive Event where
  | worker (ret : UInt32)
  | write (w : Write)

def Event.write? : Event → Option Write
  | .worker _ => none
  | .write w => some w

def monkeyStep : Step Dev Event Op := fun s e =>
  match e with
  | .worker ret => some (s.work ret)
  | .write w => some (s.write w, [])

/-- Three moments in the course of the writes: enabled, random, and no limit. -/
def Exposed (keys : Keys) (writes : List Write) (on : Bool) : Prop :=
  ∃ p q r, p <+: q ∧ q <+: r ∧ r <+: writes ∧ after keys p .monkeyEnable ≠ 0 ∧
    after keys q (.random on) ≠ 0 ∧ after keys r (.ms on) = 0

/-! ## What the thread has seen -/

theorem after_snoc (keys : Keys) (writes : List Write) (w : Write) :
    after keys (writes ++ [w]) = w.apply (after keys writes) := by
  rw [after, List.foldl_append]
  rfl

/-- At some moment the monkey was enabled. -/
def SawEnable (keys : Keys) (writes : List Write) : Prop :=
  ∃ p, p <+: writes ∧ after keys p .monkeyEnable ≠ 0

/-- At some later moment random times were on. -/
def SawRandom (keys : Keys) (writes : List Write) (on : Bool) : Prop :=
  ∃ p q, p <+: q ∧ q <+: writes ∧ after keys p .monkeyEnable ≠ 0 ∧ after keys q (.random on) ≠ 0

theorem SawEnable.mono {keys : Keys} {writes more : List Write} (h : SawEnable keys writes)
    (hmore : writes <+: more) : SawEnable keys more := by
  obtain ⟨p, hp, henable⟩ := h
  exact ⟨p, hp.trans hmore, henable⟩

theorem SawRandom.mono {keys : Keys} {writes more : List Write} {on : Bool}
    (h : SawRandom keys writes on) (hmore : writes <+: more) : SawRandom keys more on := by
  obtain ⟨p, q, hp, hq, hboth⟩ := h
  exact ⟨p, q, hp, hq.trans hmore, hboth⟩

theorem Exposed.mono {keys : Keys} {writes more : List Write} {on : Bool}
    (h : Exposed keys writes on) (hmore : writes <+: more) : Exposed keys more on := by
  obtain ⟨p, q, r, hp, hq, hr, hall⟩ := h
  exact ⟨p, q, r, hp, hq, hr.trans hmore, hall⟩

/-- What the thread has seen where it stands. -/
def PcSeen (keys : Keys) (writes : List Write) : Pc → Prop
  | .check => True
  | .wait => True
  | .ms _ => SawEnable keys writes
  | .random _ => SawEnable keys writes
  | .draw on => SawRandom keys writes on
  | .callback _ => SawEnable keys writes

theorem PcSeen.mono {keys : Keys} {writes more : List Write} {pc : Pc}
    (h : PcSeen keys writes pc) (hmore : writes <+: more) : PcSeen keys more pc := by
  cases pc with
  | check => trivial
  | wait => trivial
  | ms on => exact SawEnable.mono h hmore
  | random on => exact SawEnable.mono h hmore
  | draw on => exact SawRandom.mono h hmore
  | callback on => exact SawEnable.mono h hmore

/-- A limit of 0 that was asked for. -/
def Explained (keys : Keys) (writes : List Write) (ops : List Op) : Prop :=
  Op.getRandomNumber 0 ∈ ops → ∃ on, Exposed keys writes on

/-- What holds in the course of a schedule. -/
structure Seen (keys : Keys) (schedule : List Event) (ops : List Op) (s : Dev) : Prop where
  keys_eq : s.keys = after keys (schedule.filterMap Event.write?)
  pc : PcSeen keys (schedule.filterMap Event.write?) s.pc
  explained : Explained keys (schedule.filterMap Event.write?) ops

theorem eq_zero_of_toUInt32 {value : Int32} (h : 0 = value.toUInt32) : value = 0 := by
  cases value
  exact congrArg Int32.ofUInt32 h.symm

/-- **One step of the thread**: it changes no setting, and what it goes on to, and the limit
it asks for, are explained by what it has seen. -/
theorem Dev.work_spec {keys : Keys} {writes : List Write} {s : Dev}
    (hkeys : s.keys = after keys writes) (hpc : PcSeen keys writes s.pc) (ret : UInt32) :
    (s.work ret).1.keys = s.keys ∧ PcSeen keys writes (s.work ret).1.pc ∧
      Explained keys writes (s.work ret).2 := by
  have hquiet : Explained keys writes [] := fun h => absurd h List.not_mem_nil
  obtain ⟨current, done, sleepMs, pc⟩ := s
  obtain rfl : current = after keys writes := hkeys
  cases pc with
  | check =>
    refine ⟨rfl, ?_, hquiet⟩
    show PcSeen keys writes (if _ then _ else _)
    split_ifs with henable
    · exact ⟨writes, List.prefix_rfl, henable⟩
    · trivial
  | wait =>
    unfold work
    dsimp only
    split_ifs
    · exact ⟨rfl, trivial, hquiet⟩
    · exact ⟨rfl, trivial, hquiet⟩
  | ms on => exact ⟨rfl, hpc, hquiet⟩
  | random on =>
    obtain ⟨p, hp, henable⟩ := hpc
    refine ⟨rfl, ?_, hquiet⟩
    show PcSeen keys writes (if _ then _ else _)
    split_ifs with hrandom
    · exact ⟨p, writes, hp, List.prefix_rfl, henable, hrandom⟩
    · exact ⟨p, hp, henable⟩
  | draw on =>
    obtain ⟨p, q, hp, hq, henable, hrandom⟩ := hpc
    refine ⟨rfl, ⟨p, hp.trans hq, henable⟩, fun hmem => ?_⟩
    -- the bound that is drawn with is zero only if the one that was read is
    have hzero := Op.getRandomNumber.inj (List.mem_singleton.mp hmem)
    exact ⟨on, p, q, writes, hp, hq, List.prefix_rfl, henable, hrandom, eq_zero_of_toUInt32 hzero⟩
  | callback on =>
    refine ⟨rfl, ?_, fun hmem => ?_⟩
    · cases on with
      | true => exact hpc
      | false => trivial
    · cases hmem with
      | tail _ h => cases h with | tail _ h => exact absurd h List.not_mem_nil

theorem Seen.step {keys : Keys} {schedule : List Event} {ops : List Op} {s : Dev}
    (h : Seen keys schedule ops s) (e : Event) :
    ∃ s' new, monkeyStep s e = some (s', new) ∧
      Seen keys (schedule ++ [e]) (ops ++ new) s' := by
  have hjoin : ∀ {writes : List Write} {ops new : List Op}, Explained keys writes ops →
      Explained keys writes new → Explained keys writes (ops ++ new) := fun hops hnew hmem =>
    (List.mem_append.mp hmem).elim hops hnew
  cases e with
  | worker ret =>
    obtain ⟨hkeys, hpc, hexplained⟩ := Dev.work_spec h.keys_eq h.pc ret
    have hwrites : (schedule ++ [Event.worker ret]).filterMap Event.write? =
        schedule.filterMap Event.write? := by
      rw [List.filterMap_append]
      exact List.append_nil _
    refine ⟨(s.work ret).1, (s.work ret).2, rfl, ?_, ?_, ?_⟩
    · rw [hwrites, hkeys, h.keys_eq]
    · rwa [hwrites]
    · rw [hwrites]
      exact hjoin h.explained hexplained
  | write w =>
    have hwrites : (schedule ++ [Event.write w]).filterMap Event.write? =
        schedule.filterMap Event.write? ++ [w] := List.filterMap_append
    have hmore := List.prefix_append (schedule.filterMap Event.write?) [w]
    refine ⟨_, _, rfl, ?_, ?_, ?_⟩
    · rw [hwrites, after_snoc, ← h.keys_eq]
      rfl
    · rw [hwrites]
      exact h.pc.mono hmore
    · rw [hwrites, List.append_nil]
      intro hmem
      obtain ⟨on, hexposed⟩ := h.explained hmem
      exact ⟨on, hexposed.mono hmore⟩

theorem run_seen (keys : Keys) (schedule : List Event) :
    ∃ s ops, run monkeyStep (.init keys) schedule = some (s, ops) ∧ Seen keys schedule ops s :=
  have hinit : Seen keys [] [] (.init keys) :=
    ⟨rfl, trivial, fun h => absurd h List.not_mem_nil⟩
  run_invariant' (I := Seen keys) (fun _ _ _ e h => h.step e) hinit schedule

/-! ## What the thread can be made to see -/

/-- A state that some schedule with these writes comes to. -/
def Reaches (keys : Keys) (writes : List Write) (s : Dev) : Prop :=
  ∃ schedule ops, schedule.filterMap Event.write? = writes ∧
    run monkeyStep (.init keys) schedule = some (s, ops)

theorem Reaches.keys_eq {keys : Keys} {writes : List Write} {s : Dev}
    (h : Reaches keys writes s) : s.keys = after keys writes := by
  obtain ⟨schedule, ops, rfl, hrun⟩ := h
  obtain ⟨s', ops', hrun', hseen⟩ := run_seen keys schedule
  cases hrun.symm.trans hrun'
  exact hseen.keys_eq

theorem Reaches.worker {keys : Keys} {writes : List Write} {s : Dev} (h : Reaches keys writes s)
    (ret : UInt32) : Reaches keys writes (s.work ret).1 := by
  obtain ⟨schedule, ops, rfl, hrun⟩ := h
  have hstep : monkeyStep s (.worker ret) = some (s.work ret) := rfl
  refine ⟨schedule ++ [.worker ret], _, ?_, run_snoc hrun hstep⟩
  rw [List.filterMap_append]
  exact List.append_nil _

/-- The thread can wait while more is written. -/
theorem Reaches.writes {keys : Keys} {writes more : List Write} {s : Dev}
    (h : Reaches keys writes s) (hmore : writes <+: more) :
    ∃ s', Reaches keys more s' ∧ s'.pc = s.pc := by
  obtain ⟨rest, rfl⟩ := hmore
  induction rest using List.reverseRecOn with
  | nil => exact ⟨s, (List.append_nil writes).symm ▸ h, rfl⟩
  | append_singleton rest w ih =>
    obtain ⟨s', ⟨schedule, ops, hwrites, hrun⟩, hpc⟩ := ih
    have hstep : monkeyStep s' (.write w) = some (s'.write w, []) := rfl
    refine ⟨s'.write w, ⟨schedule ++ [.write w], _, ?_, run_snoc hrun hstep⟩, hpc⟩
    rw [List.filterMap_append, hwrites, ← List.append_assoc]
    rfl

/-- A phase of the thread whose random times are on and whose limit is 0 asks for a random
number below 0. -/
theorem exists_draw {keys : Keys} {q r : List Write} {s : Dev} {on : Bool}
    (h : Reaches keys q s) (hpc : s.pc = .random on) (hrandom : after keys q (.random on) ≠ 0)
    (hqr : q <+: r) (hms : after keys r (.ms on) = 0) :
    ∃ schedule, schedule.filterMap Event.write? = r ∧ ∃ s' ops,
      run monkeyStep (.init keys) schedule = some (s', ops) ∧ Op.getRandomNumber 0 ∈ ops := by
  have hdraw : (s.work 0).1.pc = .draw on := by
    unfold Dev.work
    rw [hpc]
    exact if_pos (h.keys_eq ▸ hrandom)
  obtain ⟨s', hreach, hpc'⟩ := (h.worker 0).writes hqr
  have hlimit : s'.keys (.ms on) = 0 := by rw [hreach.keys_eq, hms]
  have hask : (s'.work 0).2 = [.getRandomNumber 0] := by
    unfold Dev.work
    rw [hpc', hdraw]
    dsimp only
    rw [hlimit]
    rfl
  obtain ⟨schedule, ops, rfl, hrun⟩ := hreach
  have hstep : monkeyStep s' (.worker 0) = some (s'.work 0) := rfl
  refine ⟨schedule ++ [.worker 0], ?_, _, _, run_snoc hrun hstep, ?_⟩
  · rw [List.filterMap_append]
    exact List.append_nil _
  · show Op.getRandomNumber 0 ∈ ops ++ (s'.work 0).2
    rw [hask]
    exact List.mem_append_right _ (List.mem_singleton_self _)

theorem Dev.work_ms {s : Dev} {on : Bool} (h : s.pc = .ms on) (ret : UInt32) :
    (s.work ret).1.pc = .random on := by
  unfold work
  rw [h]

theorem Dev.work_random {s : Dev} {on : Bool} (h : s.pc = .random on) (ret : UInt32) :
    (s.work ret).1.pc = .draw on ∨ (s.work ret).1.pc = .callback on := by
  unfold work
  rw [h]
  exact (Decidable.em (s.keys (.random on) ≠ 0)).imp (fun h => if_pos h) fun h => if_neg h

theorem Dev.work_draw {s : Dev} {on : Bool} (h : s.pc = .draw on) (ret : UInt32) :
    (s.work ret).1.pc = .callback on := by
  unfold work
  rw [h]

theorem Dev.work_callback {s : Dev} (h : s.pc = .callback true) (ret : UInt32) :
    (s.work ret).1.pc = .ms false := by
  unfold work
  rw [h]
  rfl

/-- An enabled monkey comes to each of its two phases. -/
theorem reaches_random {keys : Keys} {p : List Write} (henable : after keys p .monkeyEnable ≠ 0)
    (on : Bool) : ∃ s, Reaches keys p s ∧ s.pc = .random on := by
  have hstart : Reaches keys [] (.init keys) := ⟨[], [], rfl, rfl⟩
  obtain ⟨s, hcheck, hpc⟩ := hstart.writes List.nil_prefix
  have hms : (s.work 0).1.pc = .ms true := by
    unfold Dev.work
    rw [hpc]
    exact if_pos (hcheck.keys_eq ▸ henable)
  have hon := (hcheck.worker 0).worker 0
  have hrandom := Dev.work_ms hms 0
  cases on with
  | true => exact ⟨_, hon, hrandom⟩
  | false =>
    -- the first phase is over with or without a random number
    have hcallback : ∃ t, Reaches keys p t ∧ t.pc = .callback true := by
      rcases Dev.work_random hrandom 0 with hdraw | hcallback
      · exact ⟨_, (hon.worker 0).worker 0, Dev.work_draw hdraw 0⟩
      · exact ⟨_, hon.worker 0, hcallback⟩
    obtain ⟨t, ht, htpc⟩ := hcallback
    exact ⟨_, (ht.worker 0).worker 0, Dev.work_ms (Dev.work_callback htpc 0) 0⟩

/-- **Random delays**: in every order of the thread's steps and the writes a random number
is asked for below some limit other than 0, exactly if there are no three moments at which
the monkey is enabled, then random times are on, and then their limit is 0. -/
theorem monkey_draws_iff (keys : Keys) (writes : List Write) :
    (∀ schedule, schedule.filterMap Event.write? <+: writes →
      ∃ s ops, run monkeyStep (.init keys) schedule = some (s, ops) ∧
        Op.getRandomNumber 0 ∉ ops) ↔ ∀ on, ¬ Exposed keys writes on := by
  constructor
  · rintro h on ⟨p, q, r, hpq, hqr, hr, henable, hrandom, hms⟩
    obtain ⟨s, hreach, hpc⟩ := reaches_random henable on
    obtain ⟨t, hreach', hpc'⟩ := hreach.writes hpq
    obtain ⟨schedule, rfl, s', ops, hrun, hmem⟩ :=
      exists_draw hreach' (hpc'.trans hpc) hrandom hqr hms
    obtain ⟨s'', ops', hrun', hnot⟩ := h schedule hr
    cases hrun.symm.trans hrun'
    exact hnot hmem
  · intro h schedule hwrites
    obtain ⟨s, ops, hrun, hseen⟩ := run_seen keys schedule
    refine ⟨s, ops, hrun, fun hmem => ?_⟩
    obtain ⟨on, hexposed⟩ := hseen.explained hmem
    exact h on (hexposed.mono hwrites)

/-- The settings before any is made. -/
def defaults : Keys := fun _ => 0

/-- With `monkey_work_en` and `random_on_en` set and `on_ms` at its default, the thread's
fourth step asks for a random number below 0. -/
theorem monkey_divides_by_zero :
    ¬ ∀ (keys : Keys) (schedule : List Event) (s : Dev) (ops : List Op),
      run monkeyStep (.init keys) schedule = some (s, ops) → Op.getRandomNumber 0 ∉ ops := by
  intro h
  exact h (Function.update (Function.update defaults .monkeyEnable 1) (.random true) 1)
    (List.replicate 4 (.worker 0)) _ _ rfl List.mem_cons_self

/-- The command `monkey` enables before it configures: from the defaults it is exposed
whatever limits it sets. -/
theorem monkeyCommand_exposed {enable onEn : Int32} (henable : enable ≠ 0) (hon : onEn ≠ 0)
    (gpio offEn onMs offMs : Int32) :
    Exposed defaults (monkeyCommand enable gpio onEn offEn onMs offMs) true := by
  have hrun : monkeyRun enable = [.set .monkeyEnable 1, .complete] := if_neg henable
  -- the moment at which random times are on and the limit is not yet set
  let writes : List Write :=
    [.set .monkeyEnable 1, .complete, .set .gpioPin gpio, .set (.random true) onEn]
  have hcommand : monkeyCommand enable gpio onEn offEn onMs offMs = writes ++
      [.set (.random false) offEn, .set (.ms true) onMs, .set (.ms false) offMs] := by
    rw [monkeyCommand, hrun]
    rfl
  refine ⟨writes, writes, writes, List.prefix_rfl, List.prefix_rfl,
    hcommand ▸ List.prefix_append _ _, ?_, hon, ?_⟩
  · show (1 : Int32) ≠ 0
    decide
  · rfl

end Lidbg.Drivers.Monkey
