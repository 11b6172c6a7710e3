import Lidbg.Core.Key
import Mathlib.Data.List.Basic

/-!
# Keys on the AD converter
(`drivers/devices/devices.c`, `drivers/msm8x26_devices/msm8226_devices.c`)

The keys of the steering wheel are resistors on a few AD channels. `thread_key` scans the
channels ten times a second, and reports a key when a scan finds none and the last one did.

- `keys_shown`: the input device shows one click for each stretch of scans that find keys, that
  of the last of them, if the device has the key.
- `unreachable_msm8x25`: of the table of the msm8x25, only HOME, MENU and BACK are ever shown,
  and the USB port is never switched: the other rows are on channels that are not scanned, or
  are keys that the device does not have.
-/

namespace Lidbg.AdKey

open Machine Machine.KeyDev Key

/-- A row of `ad_key`. -/
structure AdKeyRemap where
  ch : UInt32
  adValue : UInt32
  key : UInt32

/-- What differs between the two platforms. -/
structure Board where
  msm8x25 : Bool
  adKey : List AdKeyRemap
  adOffset : UInt32
  adValMax : UInt32
  channels : List UInt32

/-- `devices.c`. -/
def msm8x25 : Board where
  msm8x25 := true
  adKey :=
    [⟨0, 530, keyReserved⟩, ⟨2, 1548, keyNext⟩, ⟨2, 2040, keyPrevious⟩, ⟨2, 2517, keyHome⟩,
     ⟨1, 1034, keyVolumeup⟩, ⟨1, 1530, keyVolumedown⟩, ⟨4, 1108, keyMenu⟩, ⟨4, 1372, keyBack⟩]
  adOffset := 100
  adValMax := 3300
  channels := [4, 2]

/-- `msm8226_devices.c`. -/
def msm8x26 : Board where
  msm8x25 := false
  adKey := [⟨35, 2200000, keyHome⟩, ⟨37, 2000000, keyMenu⟩, ⟨37, 2200000, keyBack⟩]
  adOffset := 100000
  adValMax := 3300000
  channels := [35, 37]

section Scan

variable (b : Board)

/-- The index of a key in the table, or `0xff`. -/
abbrev KeyId : Type := Option (Fin b.adKey.length)

/-- `find_ad_key`, when `SOC_ADC_Get` leaves `val`: it is compared as an `int` first, and then
as a `u32`. -/
def findAdKey (ch val : UInt32) : KeyId b :=
  if b.adValMax.toInt32 < val.toInt32 then none
  else
    b.adKey.findFinIdx? fun r =>
      ch = r.ch ∧ r.adValue - b.adOffset < val ∧ val < r.adValue + b.adOffset

/-- The key of one scan. -/
def scanKey (adc : UInt32 → UInt32) : KeyId b :=
  b.channels.findSome? fun ch => findAdKey b ch (adc ch)

/-- The variables of the thread. -/
structure State where
  isKeyScanEn : Bool
  oldKey : KeyId b
  usbIdHost : Bool

/-- A turn of `thread_key`, with what the converter has on each channel, and the display going
on or off. -/
inductive Event where
  | scan (adc : UInt32 → UInt32)
  | display (unblank : Bool)

/-- A call of `SOC_Key_Report`, and the switch of the USB port. -/
inductive Action where
  | keyReport (keyValue type : UInt32)
  | usbId (host : Bool)
deriving DecidableEq

/-- `key_scan`. -/
def keyScan (s : State b) (adc : UInt32 → UInt32) : State b × List Action :=
  let key := scanKey b adc
  match s.oldKey, key with
  | some old, none =>
    let report := Action.keyReport b.adKey[old].key keyPressedReleased
    -- only on the msm8x25
    if b.msm8x25 ∧ old.val = 0 then
      ({ s with oldKey := key, usbIdHost := !s.usbIdHost }, [report, .usbId (!s.usbIdHost)])
    else ({ s with oldKey := key }, [report])
  | _, _ => ({ s with oldKey := key }, [])

/-- One event; on the msm8x25 the display is not asked for. -/
def adStep : Step (State b) Event Action := fun s e =>
  match e with
  | .scan adc => some (if s.isKeyScanEn then keyScan b s adc else (s, []))
  | .display unblank => some (if b.msm8x25 then s else { s with isKeyScanEn := unblank }, [])

def init : State b where
  isKeyScanEn := b.msm8x25
  oldKey := none
  usbIdHost := true

/-- What the input device is told. -/
def showStep : Step KeyDev Action KeyReport := fun dev a =>
  match a with
  | .keyReport keyValue type => run keyStep dev (lidbgKeyReport b.msm8x25 keyValue type)
  | .usbId _ => some (dev, [])

/-- The scans, while they are enabled. -/
def scans (isKeyScanEn : Bool) : List Event → List (KeyId b)
  | [] => []
  | .scan adc :: events =>
    if isKeyScanEn then scanKey b adc :: scans isKeyScanEn events else scans isKeyScanEn events
  | .display unblank :: events => scans (if b.msm8x25 then isKeyScanEn else unblank) events

end Scan

/-! ## Clicks -/

section Clicks

variable {ι : Type} [DecidableEq ι]

/-- The last key of each stretch of keys, apart from one that is not over. -/
def clicks (samples : List (Option ι)) : List ι :=
  (samples.splitOn none).dropLast.filterMap fun stretch => stretch.getLast?.join

@[simp] theorem clicks_nil : clicks ([] : List (Option ι)) = [] := rfl

@[simp] theorem clicks_singleton (k : ι) : clicks [some k] = [] := by
  simp [clicks, List.splitOn_cons_eq_if_modifyHead]

theorem clicks_none_cons (samples : List (Option ι)) :
    clicks (none :: samples) = clicks samples := by
  have hne := List.splitOn_ne_nil none samples
  have hsplit : (none :: samples).splitOn none = [] :: samples.splitOn none := by
    simp [List.splitOn_cons_eq_if_modifyHead]
  rw [clicks, hsplit, List.dropLast_cons_of_ne_nil hne, List.filterMap_cons_none rfl]
  rfl

theorem clicks_some_none (k : ι) (samples : List (Option ι)) :
    clicks (some k :: none :: samples) = k :: clicks samples := by
  have hne := List.splitOn_ne_nil none samples
  have hsplit : (some k :: none :: samples).splitOn none = [some k] :: samples.splitOn none := by
    simp [List.splitOn_cons_eq_if_modifyHead]
  rw [clicks, hsplit, List.dropLast_cons_of_ne_nil hne, List.filterMap_cons]
  rfl

/-- A key right behind another takes its place. -/
theorem clicks_some_some (k k' : ι) (samples : List (Option ι)) :
    clicks (some k :: some k' :: samples) = clicks (some k' :: samples) := by
  obtain ⟨stretch, rest, hrest⟩ :=
    List.exists_cons_of_ne_nil (List.splitOn_ne_nil none samples)
  have hsplit (l : List (Option ι)) (h : l.splitOn none = stretch :: rest) (k : ι) :
      (some k :: l).splitOn none = (some k :: stretch) :: rest := by
    simp [List.splitOn_cons_eq_if_modifyHead, h]
  have hsplit' : (some k :: some k' :: samples).splitOn none =
      (some k :: some k' :: stretch) :: rest := by
    simp [List.splitOn_cons_eq_if_modifyHead, hrest]
  rw [clicks, clicks, hsplit', hsplit samples hrest]
  cases rest with
  | nil => rfl
  | cons stretch' rest =>
    rw [List.dropLast_cons_cons, List.dropLast_cons_cons, List.filterMap_cons, List.filterMap_cons,
      List.getLast?_cons_cons]

end Clicks

/-! ## The pipeline -/

section Pipeline

variable {b : Board}

/-- The events of the input device for one key. -/
def shown (b : Board) (k : Fin b.adKey.length) : List KeyReport :=
  if lidbgKeyInit.keybit (keyValueOf b.msm8x25 b.adKey[k].key) then
    click (keyValueOf b.msm8x25 b.adKey[k].key)
  else []

/-- A key, as the device is told. -/
theorem showStep_keyReport (b : Board) (k : Fin b.adKey.length) :
    showStep b lidbgKeyInit (.keyReport (b.adKey.get k).key keyPressedReleased) =
      some (lidbgKeyInit, shown b k) :=
  run_click (fun _ => rfl) _

/-- What one scan shows. -/
def shownBy (b : Board) (old key : KeyId b) : List KeyReport :=
  match old, key with
  | some k, none => shown b k
  | _, _ => []

theorem keyScan_shows (s : State b) (adc : UInt32 → UInt32) :
    (keyScan b s adc).1.oldKey = scanKey b adc ∧
      (keyScan b s adc).1.isKeyScanEn = s.isKeyScanEn ∧
      run (showStep b) lidbgKeyInit (keyScan b s adc).2 =
        some (lidbgKeyInit, shownBy b s.oldKey (scanKey b adc)) := by
  unfold keyScan shownBy
  dsimp only
  split
  · next old hold hkey =>
    have hreport := showStep_keyReport b old
    split
    · refine ⟨rfl, rfl, ?_⟩
      have husb : showStep b lidbgKeyInit (.usbId (!s.usbIdHost)) = some (lidbgKeyInit, []) := rfl
      have hrun := run_cons_eq hreport (run_cons_eq husb (run_nil _))
      rwa [List.append_nil, List.append_nil] at hrun
    · refine ⟨rfl, rfl, ?_⟩
      have hrun := run_cons_eq hreport (run_nil _)
      rwa [List.append_nil] at hrun
  · exact ⟨rfl, rfl, rfl⟩

/-- The keys that are still to be shown, of the one that was found last and those to come. -/
def toShow (b : Board) (s : State b) (events : List Event) : List KeyReport :=
  (clicks ((s.oldKey.map some).toList ++ scans b s.isKeyScanEn events)).flatMap (shown b)

/-- One scan, and the rest. -/
theorem toShow_scan (s s' : State b) (adc : UInt32 → UInt32) (events : List Event)
    (hen : s.isKeyScanEn = true) (hkey : s'.oldKey = scanKey b adc)
    (hen' : s'.isKeyScanEn = s.isKeyScanEn) :
    toShow b s (.scan adc :: events) =
      shownBy b s.oldKey (scanKey b adc) ++ toShow b s' events := by
  have hscans : scans b s.isKeyScanEn (.scan adc :: events) =
      scanKey b adc :: scans b s.isKeyScanEn events := by
    rw [scans, if_pos hen]
  unfold toShow shownBy
  rw [hscans, hkey, hen']
  cases s.oldKey with
  | none =>
    cases scanKey b adc with
    | none => exact congrArg (List.flatMap (shown b)) (clicks_none_cons _)
    | some k => rfl
  | some old =>
    cases scanKey b adc with
    | none => exact congrArg (List.flatMap (shown b)) (clicks_some_none old _)
    | some k => exact congrArg (List.flatMap (shown b)) (clicks_some_some old k _)

theorem run_shows (s : State b) (events : List Event) :
    ∃ s', run (pipe (adStep b) (showStep b)) (s, lidbgKeyInit) events =
      some ((s', lidbgKeyInit), toShow b s events) := by
  induction events generalizing s with
  | nil =>
    refine ⟨s, ?_⟩
    have hnone : toShow b s [] = [] := by
      unfold toShow scans
      cases s.oldKey <;> simp
    rw [hnone]
    rfl
  | cons e events ih =>
    cases e with
    | display unblank =>
      obtain ⟨s', hrun⟩ := ih (if b.msm8x25 then s else { s with isKeyScanEn := unblank })
      refine ⟨s', (run_cons_eq (pipe_step rfl rfl) hrun).trans ?_⟩
      have hsame : toShow b (if b.msm8x25 then s else { s with isKeyScanEn := unblank }) events =
          toShow b s (.display unblank :: events) := by
        unfold toShow
        rw [scans]
        split <;> rfl
      rw [hsame, List.nil_append]
    | scan adc =>
      by_cases hen : s.isKeyScanEn = true
      · obtain ⟨hkey, hen', hshow⟩ := keyScan_shows s adc
        obtain ⟨s', hrun⟩ := ih (keyScan b s adc).1
        refine ⟨s', ?_⟩
        rw [toShow_scan s _ adc events hen hkey hen']
        refine run_cons_eq (pipe_step ?_ hshow) hrun
        exact congrArg some (if_pos hen)
      · obtain ⟨s', hrun⟩ := ih s
        refine ⟨s', (run_cons_eq (pipe_step (congrArg some (if_neg hen)) rfl) hrun).trans ?_⟩
        have hsame : toShow b s (.scan adc :: events) = toShow b s events := by
          unfold toShow
          rw [scans, if_neg hen]
        rw [hsame, List.nil_append]

/-- **One click for each stretch of scans that find keys**, that of its last key. -/
theorem keys_shown (b : Board) (events : List Event) :
    ∃ s', run (pipe (adStep b) (showStep b)) (init b, lidbgKeyInit) events =
      some ((s', lidbgKeyInit), (clicks (scans b b.msm8x25 events)).flatMap (shown b)) :=
  run_shows (init b) events

/-! ## What is never shown -/

/-- A key that is found is on a channel that is scanned. -/
theorem ch_of_scanKey {adc : UInt32 → UInt32} {k : Fin b.adKey.length}
    (h : scanKey b adc = some k) : (b.adKey.get k).ch ∈ b.channels := by
  obtain ⟨ch, hch, hfind⟩ := List.exists_of_findSome?_eq_some h
  unfold findAdKey at hfind
  split at hfind
  · cases hfind
  · have hrow := (List.findFinIdx?_eq_some_iff.mp hfind).1
    have hrow' : ch = (b.adKey.get k).ch ∧ _ := of_decide_eq_true hrow
    rw [← hrow'.1]
    exact hch

/-- The key of the last scan is on a channel that is scanned. -/
def Scanned (s : State b) : Prop := ∀ k, s.oldKey = some k → b.adKey[k].ch ∈ b.channels

theorem scanned_keyScan (s : State b) (adc : UInt32 → UInt32) : Scanned (keyScan b s adc).1 := by
  intro k hk
  rw [(keyScan_shows s adc).1] at hk
  exact ch_of_scanKey hk

theorem scanned_init : Scanned (init b) := by
  intro k hk
  cases hk

end Pipeline

/-- The rows of the table that are on channels that are scanned. -/
theorem scanned_row {k : Fin msm8x25.adKey.length}
    (h : msm8x25.adKey[k].ch ∈ msm8x25.channels) :
    k.val ≠ 0 ∧ ∀ r ∈ shown msm8x25 k, r.1 ∈ [keyHome, keyMenu, keyBack] := by
  have hall : (List.finRange msm8x25.adKey.length).all fun k =>
      !msm8x25.channels.contains msm8x25.adKey[k].ch ||
        (k.val != 0 && (shown msm8x25 k).all fun r => [keyHome, keyMenu, keyBack].contains r.1) := by
    decide +kernel
  have hk := List.all_eq_true.mp hall k (List.mem_finRange k)
  rw [Bool.or_eq_true, Bool.not_eq_true', Bool.and_eq_true] at hk
  rcases hk with hch | ⟨hne, hshown⟩
  · rw [List.contains_iff_mem.mpr h] at hch
    cases hch
  · exact ⟨bne_iff_ne.mp hne, fun r hr =>
      List.contains_iff_mem.mp (List.all_eq_true.mp hshown r hr)⟩

theorem shown_keyScan {s : State msm8x25} (hs : Scanned s) (adc : UInt32 → UInt32) :
    (∀ host, Action.usbId host ∉ (keyScan msm8x25 s adc).2) ∧
      ∀ r ∈ shownBy msm8x25 s.oldKey (scanKey msm8x25 adc), r.1 ∈ [keyHome, keyMenu, keyBack] := by
  unfold keyScan shownBy
  dsimp only
  split
  · next old hold hkey =>
    obtain ⟨hne, hshown⟩ := scanned_row (hs old hold)
    rw [if_neg (fun h => hne h.2)]
    exact ⟨fun host => by simp, hshown⟩
  · exact ⟨fun host => List.not_mem_nil, fun r hr => absurd hr List.not_mem_nil⟩

/-- One event keeps the key scanned, and switches nothing. -/
theorem adStep_msm8x25 {s s' : State msm8x25} {e : Event} {o : List Action} (hs : Scanned s)
    (h : adStep msm8x25 s e = some (s', o)) :
    Scanned s' ∧ (∀ host, Action.usbId host ∉ o) ∧
      ∀ dev p, run (showStep msm8x25) lidbgKeyInit o = some (dev, p) →
        dev = lidbgKeyInit ∧ ∀ r ∈ p, r.1 ∈ [keyHome, keyMenu, keyBack] := by
  have hquiet : ∀ dev p, run (showStep msm8x25) lidbgKeyInit [] = some (dev, p) →
      dev = lidbgKeyInit ∧ ∀ r ∈ p, r.1 ∈ [keyHome, keyMenu, keyBack] := by
    intro dev p hrun
    cases hrun
    exact ⟨rfl, List.forall_mem_nil _⟩
  cases e with
  | display unblank =>
    cases h
    exact ⟨hs, fun host => List.not_mem_nil, hquiet⟩
  | scan adc =>
    rw [adStep, Option.some.injEq] at h
    split at h
    · obtain ⟨husb, hshown⟩ := shown_keyScan hs adc
      have hscan := scanned_keyScan s adc
      have hrun := (keyScan_shows s adc).2.2
      rw [h] at husb hscan hrun
      refine ⟨hscan, husb, fun dev p hp => ?_⟩
      cases hrun.symm.trans hp
      exact ⟨rfl, hshown⟩
    · cases h
      exact ⟨hs, fun host => List.not_mem_nil, hquiet⟩

/-- **On the msm8x25** the USB port is never switched, and no keys but HOME, MENU and BACK are
shown, whatever the converter has. -/
theorem unreachable_msm8x25 (events : List Event) :
    (∀ s o, run (adStep msm8x25) (init msm8x25) events = some (s, o) →
      ∀ host, Action.usbId host ∉ o) ∧
    ∀ s o, run (pipe (adStep msm8x25) (showStep msm8x25)) (init msm8x25, lidbgKeyInit) events =
      some (s, o) → ∀ r ∈ o, r.1 ∈ [keyHome, keyMenu, keyBack] := by
  constructor
  · intro s o hrun host hmem
    have hI : Scanned s ∧ ∀ w ∈ o, ∀ host, w ≠ Action.usbId host :=
      run_preserves_meet (I := Scanned) (P := fun _ _ => True) (fun s e s' o hs _ h => ?_)
        scanned_init (fun _ _ _ _ _ _ => trivial) hrun
    · exact hI.2 _ hmem host rfl
    · obtain ⟨hs', husb, -⟩ := adStep_msm8x25 hs h
      refine ⟨hs', fun w hw host' heq => husb host' ?_⟩
      rwa [← heq]
  · intro s o hrun
    have hI : (Scanned s.1 ∧ s.2 = lidbgKeyInit) ∧
        ∀ r ∈ o, r.1 ∈ [keyHome, keyMenu, keyBack] :=
      run_preserves_meet (I := fun s => Scanned s.1 ∧ s.2 = lidbgKeyInit) (P := fun _ _ => True)
        (fun s e s' o hs _ h => ?_) ⟨scanned_init, rfl⟩ (fun _ _ _ _ _ _ => trivial) hrun
    · exact hI.2
    · obtain ⟨s, dev⟩ := s
      obtain ⟨hs, rfl⟩ := hs
      rw [pipe] at h
      split at h
      · cases h
      · next s₁ p hstep =>
        split at h
        · cases h
        · next dev₁ q hshow =>
          cases h
          obtain ⟨hs₁, -, hall⟩ := adStep_msm8x25 hs hstep
          obtain ⟨rfl, hshown⟩ := hall dev₁ _ hshow
          exact ⟨⟨hs₁, rfl⟩, hshown⟩

end Lidbg.AdKey
