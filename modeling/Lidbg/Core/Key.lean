import Lidbg.Machine.KeyDev

/-!
# Keys (`core/lidbg_key.c`)

`lidbg_key_report` tells the input device `lidbg_key` that a key goes down, up, or both. It
is called from many drivers and takes no lock, so that two clicks may come between each other.

`keys_released`: whatever the order, a key that is down is one that a caller is about to
release, if each caller that presses a key releases it later.
-/

namespace Lidbg.Key

open Machine Machine.KeyDev

/-! ## Key codes -/

abbrev keyReserved : UInt32 := 0

abbrev keyEnter : UInt32 := 28

abbrev keyHome : UInt32 := 102

abbrev keyUp : UInt32 := 103

abbrev keyLeft : UInt32 := 105

abbrev keyRight : UInt32 := 106

abbrev keyEnd : UInt32 := 107

abbrev keyDown : UInt32 := 108

abbrev keyMute : UInt32 := 113

abbrev keyVolumedown : UInt32 := 114

abbrev keyVolumeup : UInt32 := 115

abbrev keyPower : UInt32 := 116

abbrev keyPause : UInt32 := 119

abbrev keyMenu : UInt32 := 139

abbrev keySleep : UInt32 := 142

abbrev keyWakeup : UInt32 := 143

abbrev keyBack : UInt32 := 158

abbrev keyHomepage : UInt32 := 172

abbrev keyNext : UInt32 := 407

abbrev keyPrevious : UInt32 := 412

/-- `KEY_RELEASED`. -/
abbrev keyReleased : UInt32 := 0

/-- `KEY_PRESSED`. -/
abbrev keyPressed : UInt32 := 1

/-- `KEY_PRESSED_RELEASED`. -/
abbrev keyPressedReleased : UInt32 := 2

/-- `lidbg_keycode`. -/
def lidbgKeycode : List UInt32 :=
  [keyMenu, keyHome, keyBack, keyDown, keyUp, keyRight, keyLeft, keyVolumedown, keyVolumeup,
   keyPause, keyMute, keyPower, keySleep, keyWakeup, keyEnter, keyEnd, keyHomepage]

/-- The device of `lidbg_key_init`. -/
def lidbgKeyInit : KeyDev where
  keybit := fun code => lidbgKeycode.contains code
  down := fun _ => false

/-- The code that is reported: on other platforms than the msm8x25 HOME is HOMEPAGE. -/
def keyValueOf (msm8x25 : Bool) (keyValue : UInt32) : UInt32 :=
  if ¬ msm8x25 ∧ keyValue = keyHome then keyHomepage else keyValue

/-- `lidbg_key_report`. -/
def lidbgKeyReport (msm8x25 : Bool) (keyValue type : UInt32) : List KeyReport :=
  if type = keyPressed ∨ type = keyReleased then
    [(keyValueOf msm8x25 keyValue, decide (type ≠ 0))]
  else click (keyValueOf msm8x25 keyValue)

/-! ## Callers -/

/-- A call of `lidbg_key_report`. -/
structure Call where
  keyValue : UInt32
  type : UInt32

/-- The calls of one thread. -/
def thread (msm8x25 : Bool) (calls : List Call) : List KeyReport :=
  calls.flatMap fun c => lidbgKeyReport msm8x25 c.keyValue c.type

/-- A key that is pressed is released, or clicked, later on. -/
def Paired : List Call → Prop
  | [] => True
  | c :: calls =>
    (c.type = keyPressed → ∃ c' ∈ calls, c'.keyValue = c.keyValue ∧ c'.type ≠ keyPressed) ∧
      Paired calls

/-- All but a press ends with the release. -/
theorem release_mem (msm8x25 : Bool) {c : Call} (h : c.type ≠ keyPressed) :
    (keyValueOf msm8x25 c.keyValue, false) ∈ lidbgKeyReport msm8x25 c.keyValue c.type := by
  unfold lidbgKeyReport
  split
  · next htype =>
    obtain hpressed | hreleased := htype
    · exact absurd hpressed h
    · simp [hreleased]
  · exact List.mem_cons_of_mem _ List.mem_cons_self

theorem released_thread (msm8x25 : Bool) {calls : List Call} (h : Paired calls) :
    Released (thread msm8x25 calls) := by
  induction calls with
  | nil => exact released_nil
  | cons c calls ih =>
    obtain ⟨hc, hcalls⟩ := h
    have hrest := ih hcalls
    show Released (lidbgKeyReport msm8x25 c.keyValue c.type ++ thread msm8x25 calls)
    unfold lidbgKeyReport
    split
    · next htype =>
      refine released_cons (fun hvalue => ?_) hrest
      have hpressed : c.type = keyPressed := htype.resolve_right (of_decide_eq_true hvalue)
      obtain ⟨c', hc', hkey, hne⟩ := hc hpressed
      refine List.mem_flatMap.mpr ⟨c', hc', ?_⟩
      rw [← hkey]
      exact release_mem msm8x25 hne
    · refine released_cons (fun _ => List.mem_cons_self) ?_
      exact released_cons (fun hvalue => by cases hvalue) hrest

/-- **No key is stuck**: whatever threads report keys, in whatever order their reports come, a
key that is down is one that a thread is about to release, and when all are through no key is
down. -/
theorem keys_released (msm8x25 : Bool) {threads : List (List Call)}
    (hpaired : ∀ calls ∈ threads, Paired calls) {schedule : List Nat}
    {s : KeyDev × List (Prog KeyReport (fun _ => Unit) Unit)} {o : List (Nat × KeyReport)}
    (hrun : run (interleave keyHandler)
      (lidbgKeyInit, (threads.map (thread msm8x25)).map reports) schedule = some (s, o)) :
    (∀ code, s.1.down code = true → ∃ rest, reports rest ∈ s.2 ∧ (code, false) ∈ rest) ∧
      ((∀ p ∈ s.2, p = .done ()) → ∀ code, s.1.down code = false) := by
  obtain ⟨rests, hrests, hpending⟩ := down_pending (fun _ => rfl) (fun rs hrs => by
    obtain ⟨calls, hcalls, rfl⟩ := List.mem_map.mp hrs
    exact released_thread msm8x25 (hpaired calls hcalls)) hrun
  have hdown (code : UInt32) (h : s.1.down code = true) :
      ∃ rest, reports rest ∈ s.2 ∧ (code, false) ∈ rest := by
    obtain ⟨-, rest, hmem, hin⟩ := hpending code h
    exact ⟨rest, hrests ▸ List.mem_map_of_mem hmem, hin⟩
  refine ⟨hdown, fun hdone code => ?_⟩
  by_contra hne
  obtain ⟨rest, hmem, hin⟩ := hdown code (by simpa using hne)
  cases rest with
  | nil => cases hin
  | cons r rest => cases hdone _ hmem

/-- A long press of the power key. -/
def longPress : List Call := [⟨keyPower, keyPressed⟩, ⟨keyPower, keyReleased⟩]

/-- It ends well with a click of the same key in between. -/
theorem keys_released_power : ∃ s o,
    run (interleave keyHandler) (lidbgKeyInit,
      ([longPress, [⟨keyPower, keyPressedReleased⟩]].map (thread false)).map reports)
        [0, 1, 1, 0] = some (s, o) ∧ ∀ code, s.1.down code = false := by
  refine ⟨_, _, rfl, ?_⟩
  have hlong : Paired longPress := by
    refine ⟨fun _ => ⟨_, List.mem_cons_self, rfl, by decide⟩, fun h => ?_, trivial⟩
    cases h
  have hclick : Paired [⟨keyPower, keyPressedReleased⟩] := by
    refine ⟨fun h => ?_, trivial⟩
    cases h
  have hpaired := List.forall_mem_cons.mpr ⟨hlong, List.forall_mem_singleton.mpr hclick⟩
  refine (@keys_released false _ hpaired [0, 1, 1, 0] _ _ rfl).2 ?_
  exact List.forall_mem_cons.mpr ⟨rfl, List.forall_mem_singleton.mpr rfl⟩

end Lidbg.Key
