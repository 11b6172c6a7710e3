import Lidbg.Machine.InputMt

/-!
# `lidbg_touch_report` (`core/lidbg_ts.c`)

A touchscreen driver fills `struct lidbg_ts_data` with its contacts and passes it
on. The loop of `lidbg_touch_report` runs over `i` as a slot, since it tests and
sets bit `i` of the words, and as a place in the arrays, since it reports what
stands there.
-/

namespace Lidbg.Ts

open Machine

/-- `GTP_MAX_TOUCH`. -/
abbrev maxTouch : Nat := 5

/-- The arrays of `struct lidbg_ts_data` at one index. -/
structure Contact where
  x : Nat
  y : Nat
  w : Nat
  id : Nat
deriving DecidableEq

/-- An index behind the contacts, as `kzalloc` has left it. -/
def noContact : Contact := ⟨0, 0, 0, 0⟩

/-- The device, `touch_index` and `*pre_touch`. -/
structure TouchState where
  dev : InputDev maxTouch
  touchIndex : BitVec 16
  preTouch : BitVec 16

/-- A contact reported in its slot. -/
def touchDown (dev : InputDev maxTouch) (c : Contact) : InputDev maxTouch :=
  ((((dev.inputMtSlot c.id).inputMtReportSlotState true).inputReportAbs .mtPositionX c.x
    |>.inputReportAbs .mtPositionY c.y).inputReportAbs .mtTouchMajor c.w).inputReportAbs
    .mtWidthMajor c.w

/-- A slot released. -/
def touchUp (dev : InputDev maxTouch) (slot : Nat) : InputDev maxTouch :=
  (dev.inputMtSlot slot).inputMtReportSlotState false

/-- The body of the loop. -/
def reportStep (pdata : Nat → Contact) (s : TouchState) (i : Nat) : TouchState :=
  let dev := s.dev.inputMtSlot (pdata i).id
  if bitSet s.touchIndex i then
    { dev := touchDown dev (pdata i)
      preTouch := setBit s.preTouch i
      touchIndex := setBit s.touchIndex (pdata (i + 1)).id }
  else
    { s with dev := touchUp dev i, preTouch := clearBit s.preTouch i }

/-- `lidbg_touch_report`. -/
def lidbgTouchReport (pdata : Nat → Contact) (s : TouchState) : TouchState :=
  (List.range maxTouch).foldl (reportStep pdata) s

/-! ## What is reported -/

/-- A slot that shows a contact. -/
def shown (c : Contact) : MtSlot := ⟨true, c.x, c.y, c.w, c.w⟩

/-- A slot after its release. -/
def released (slot : MtSlot) : MtSlot := { slot with active := false }

theorem slots_touchDown (dev : InputDev maxTouch) {c : Contact} (h : c.id < maxTouch) :
    (touchDown dev c).slots = Function.update dev.slots c.id (shown c) := by
  unfold touchDown InputDev.inputMtReportSlotState InputDev.inputReportAbs
  simp only [InputDev.modifySlot_modifySlot, InputDev.slots_modifySlot, InputDev.slots_inputMtSlot,
    InputDev.slot_inputMtSlot h]
  rfl

theorem slots_touchUp (dev : InputDev maxTouch) {slot : Nat} (h : slot < maxTouch) :
    (touchUp dev slot).slots = Function.update dev.slots slot (released (dev.slots slot)) := by
  unfold touchUp InputDev.inputMtReportSlotState
  simp only [InputDev.slots_modifySlot, InputDev.slots_inputMtSlot, InputDev.slot_inputMtSlot h]
  rfl

/-- What counts of a state: the two words as sets of bits, and the slots. -/
structure View where
  touch : Nat → Bool
  pre : Nat → Bool
  slots : Nat → MtSlot

def TouchState.view (s : TouchState) : View :=
  ⟨bitSet s.touchIndex, bitSet s.preTouch, s.dev.slots⟩

/-- The body of the loop, on views. -/
def viewStep (pdata : Nat → Contact) (v : View) (i : Nat) : View :=
  if v.touch i then
    { touch := fun j => decide (j = (pdata (i + 1)).id) || v.touch j
      pre := fun j => decide (j = i) || v.pre j
      slots := Function.update v.slots (pdata i).id (shown (pdata i)) }
  else
    { v with
      pre := fun j => decide (j ≠ i) && v.pre j
      slots := Function.update v.slots i (released (v.slots i)) }

theorem view_reportStep {pdata : Nat → Contact} (hid : ∀ i, (pdata i).id < maxTouch)
    (s : TouchState) {i : Nat} (hi : i < maxTouch) :
    (reportStep pdata s i).view = viewStep pdata s.view i := by
  unfold reportStep viewStep TouchState.view
  dsimp only
  split_ifs
  · have hid' := Nat.lt_trans (hid (i + 1)) (by decide : maxTouch < 16)
    have hi' := Nat.lt_trans hi (by decide : maxTouch < 16)
    rw [View.mk.injEq, slots_touchDown _ (hid i), InputDev.slots_inputMtSlot]
    exact ⟨funext (bitSet_setBit hid' _), funext (bitSet_setBit hi' _), rfl⟩
  · rw [View.mk.injEq, slots_touchUp _ hi, InputDev.slots_inputMtSlot]
    exact ⟨rfl, funext (bitSet_clearBit _ i), rfl⟩

theorem view_lidbgTouchReport {pdata : Nat → Contact} (hid : ∀ i, (pdata i).id < maxTouch)
    (s : TouchState) :
    (lidbgTouchReport pdata s).view = (List.range maxTouch).foldl (viewStep pdata) s.view := by
  have hall : ∀ i ∈ List.range maxTouch, i < maxTouch := fun i => List.mem_range.mp
  unfold lidbgTouchReport
  generalize List.range maxTouch = is at hall
  induction is generalizing s with
  | nil => rfl
  | cons i is ih =>
    rw [List.forall_mem_cons] at hall
    rw [List.foldl_cons, List.foldl_cons, ih _ hall.2, view_reportStep hid s hall.1]

/-! ## Stretches of the loop -/

/-- The loop from `a` over `n` indices. -/
def stretch (pdata : Nat → Contact) (a n : Nat) (v : View) : View :=
  (List.range' a n).foldl (viewStep pdata) v

theorem stretch_succ (pdata : Nat → Contact) (a n : Nat) (v : View) :
    stretch pdata a (n + 1) v = viewStep pdata (stretch pdata a n v) (a + n) := by
  rw [stretch, List.range'_concat, List.foldl_append, Nat.one_mul]
  rfl

theorem stretch_append (pdata : Nat → Contact) (a m n : Nat) (v : View) :
    stretch pdata a (m + n) v = stretch pdata (a + m) n (stretch pdata a m v) := by
  rw [stretch, ← List.range'_append_1, List.foldl_append]
  rfl

variable {pdata : Nat → Contact}

/-- While the contacts stand at their own index, each is reported in its slot. -/
theorem stretch_down {v : View} (htouch : ∀ j, v.touch j = decide (j = (pdata 0).id)) {m : Nat}
    (hid : ∀ i < m, (pdata i).id = i) :
    stretch pdata 0 m v =
      { touch := fun j => decide (j < m ∨ j = (pdata m).id)
        pre := fun j => decide (j < m) || v.pre j
        slots := fun j => if j < m then shown (pdata j) else v.slots j } := by
  induction m with
  | zero =>
    refine (View.mk.injEq ..).mpr ⟨funext fun j => ?_, funext fun j => ?_, funext fun j => ?_⟩
    · rw [htouch, decide_eq_decide.mpr (or_iff_right (Nat.not_lt_zero j))]
    · rw [decide_eq_false (Nat.not_lt_zero j), Bool.false_or]
    · exact (if_neg (Nat.not_lt_zero j)).symm
  | succ m ih =>
    have hm : (pdata m).id = m := hid m (Nat.lt_succ_self m)
    rw [stretch_succ, ih fun i hi => hid i (Nat.lt_succ_of_lt hi), Nat.zero_add, viewStep,
      if_pos (decide_eq_true (.inr hm.symm)), hm]
    refine (View.mk.injEq ..).mpr ⟨funext fun j => ?_, funext fun j => ?_, funext fun j => ?_⟩
    · rw [Bool.eq_iff_iff]
      simp only [Bool.or_eq_true, decide_eq_true_eq]
      omega
    · have hbits : (decide (j = m) || decide (j < m)) = decide (j < m + 1) := by
        rw [Bool.eq_iff_iff]
        simp only [Bool.or_eq_true, decide_eq_true_eq]
        omega
      rw [← Bool.or_assoc, hbits]
    · rw [Function.update_apply]
      dsimp only
      rcases Nat.lt_trichotomy j m with hj | rfl | hj
      · rw [if_neg (Nat.ne_of_lt hj), if_pos hj, if_pos (Nat.lt_succ_of_lt hj)]
      · rw [if_pos rfl, if_pos (Nat.lt_succ_self j)]
      · rw [if_neg (Nat.ne_of_gt hj), if_neg (Nat.lt_asymm hj), if_neg (by omega)]

/-- Where no bit is set, the slots are released. -/
theorem stretch_up {v : View} {a n : Nat} (htouch : ∀ j, a ≤ j → j < a + n → v.touch j = false) :
    stretch pdata a n v =
      { touch := v.touch
        pre := fun j => decide (¬ (a ≤ j ∧ j < a + n)) && v.pre j
        slots := fun j => if a ≤ j ∧ j < a + n then released (v.slots j) else v.slots j } := by
  induction n with
  | zero =>
    refine (View.mk.injEq ..).mpr ⟨rfl, funext fun j => ?_, funext fun j => ?_⟩
    · rw [decide_eq_true (by omega), Bool.true_and]
    · exact (if_neg (by omega)).symm
  | succ n ih =>
    rw [stretch_succ, ih fun j ha hj => htouch j ha (by omega), viewStep,
      htouch (a + n) (by omega) (by omega), if_neg Bool.false_ne_true]
    refine (View.mk.injEq ..).mpr ⟨rfl, funext fun j => ?_, funext fun j => ?_⟩
    · have hbits : (decide (j ≠ a + n) && decide (¬ (a ≤ j ∧ j < a + n))) =
          decide (¬ (a ≤ j ∧ j < a + (n + 1))) := by
        rw [Bool.eq_iff_iff]
        simp only [Bool.and_eq_true, decide_eq_true_eq]
        omega
      rw [← Bool.and_assoc, hbits]
    · rw [Function.update_apply]
      dsimp only
      rw [if_neg (by omega : ¬ (a ≤ a + n ∧ a + n < a + n))]
      by_cases hj : j = a + n
      · rw [if_pos hj, hj, if_pos (by omega)]
      · rw [if_neg hj]
        exact if_congr (by omega) rfl rfl

/-- A bit that a stretch sets is the id of a contact behind one of its indices. -/
theorem touch_stretch {v : View} {a n j : Nat} (h : (stretch pdata a n v).touch j) :
    v.touch j ∨ ∃ i, a ≤ i ∧ i < a + n ∧ j = (pdata (i + 1)).id := by
  induction n with
  | zero => exact .inl h
  | succ n ih =>
    rw [stretch_succ, viewStep] at h
    split_ifs at h
    · rw [Bool.or_eq_true, decide_eq_true_eq] at h
      rcases h with hj | h
      · exact .inr ⟨a + n, by omega, by omega, hj⟩
      · exact (ih h).imp_right fun ⟨i, ha, hi, hj⟩ => ⟨i, ha, by omega, hj⟩
    · exact (ih h).imp_right fun ⟨i, ha, hi, hj⟩ => ⟨i, ha, by omega, hj⟩

/-- Each index writes its own bit of `*pre_touch`. -/
theorem pre_stretch {v : View} {a n j : Nat} (h : ¬ (a ≤ j ∧ j < a + n)) :
    (stretch pdata a n v).pre j = v.pre j := by
  induction n with
  | zero => rfl
  | succ n ih =>
    have hj : j ≠ a + n := by omega
    rw [stretch_succ, viewStep]
    split_ifs
    · dsimp only
      rw [decide_eq_false hj, Bool.false_or, ih (by omega)]
    · dsimp only
      rw [decide_eq_true hj, Bool.true_and, ih (by omega)]

/-! ## The contacts of a report -/

/-- `n` contacts in ascending order of their ids, and zeros behind them. -/
structure Ascending (pdata : Nat → Contact) (n : Nat) : Prop where
  id_lt : ∀ i < n, (pdata i).id < maxTouch
  id_mono : ∀ i j, i < j → j < n → (pdata i).id < (pdata j).id
  rest : ∀ i, n ≤ i → pdata i = noContact

/-- After a report the active slots are those of the contacts, each with its own
coordinates, and `*pre_touch` is the set of their ids. -/
structure Agrees (pdata : Nat → Contact) (n : Nat) (slots : Nat → MtSlot)
    (pre : Nat → Bool) : Prop where
  down : ∀ i < n, slots (pdata i).id = shown (pdata i)
  up : ∀ j < maxTouch, (∀ i < n, (pdata i).id ≠ j) → (slots j).active = false
  pre : ∀ j, pre j = true ↔ ∃ i < n, (pdata i).id = j

/-- The contacts stand at the places of their ids. -/
def InPlace (pdata : Nat → Contact) (n : Nat) : Prop :=
  ∀ i < n, (pdata i).id = i

/-- Only the last of several contacts stands before the place of its id, its slot
showed it before the report, and all coordinates of the first contact are zero: the
zeros found at the place of that id are then what the first slot is to show. -/
def LastAhead (pdata : Nat → Contact) (n : Nat) (slots : Nat → MtSlot) : Prop :=
  ∃ m, n = m + 2 ∧ InPlace pdata (m + 1) ∧ m + 1 < (pdata (m + 1)).id ∧
    pdata 0 = noContact ∧ slots (pdata (m + 1)).id = shown (pdata (m + 1))

namespace Ascending

variable {n : Nat} (h : Ascending pdata n)
include h

theorem id_lt_maxTouch (i : Nat) : (pdata i).id < maxTouch := by
  by_cases hi : i < n
  · exact h.id_lt i hi
  · rw [h.rest i (Nat.le_of_not_lt hi)]
    decide

theorem le_id {i : Nat} (hi : i < n) : i ≤ (pdata i).id := by
  induction i with
  | zero => exact Nat.zero_le _
  | succ i ih =>
    have hmono := h.id_mono i (i + 1) (Nat.lt_succ_self i) hi
    have := ih (Nat.lt_of_succ_lt hi)
    omega

theorem le_maxTouch : n ≤ maxTouch := by
  cases n with
  | zero => exact Nat.zero_le _
  | succ n => exact Nat.lt_of_le_of_lt (h.le_id n.lt_succ_self) (h.id_lt n n.lt_succ_self)

/-- A contact that does not stand at the place of its id is followed by such contacts
only, so there is a first one. -/
theorem inPlace_or : InPlace pdata n ∨ ∃ m < n, InPlace pdata m ∧ m < (pdata m).id := by
  by_contra hno
  push Not at hno
  obtain ⟨hplace, hno⟩ := hno
  refine hplace fun i => ?_
  induction i using Nat.strong_induction_on with
  | _ i ih =>
    intro hi
    exact Nat.le_antisymm (hno i hi fun j hj => ih j hj (hj.trans hi)) (h.le_id hi)

end Ascending

/-! ## The report and its contacts -/

/-- The first bit is that of the first contact, and `*pre_touch` has bits for the
slots only. -/
structure Ready (pdata : Nat → Contact) (n : Nat) (v : View) : Prop where
  touch : ∀ j, v.touch j = decide (0 < n ∧ j = (pdata 0).id)
  pre : ∀ j, maxTouch ≤ j → v.pre j = false

section Report

variable {n : Nat} {v : View} (h : Ascending pdata n) (hv : Ready pdata n v)
include h hv

/-- Contacts in place are all reported, and the slots behind them released. -/
theorem agrees_of_inPlace (hplace : InPlace pdata n) :
    Agrees pdata n (stretch pdata 0 maxTouch v).slots (stretch pdata 0 maxTouch v).pre := by
  have hn : n ≤ maxTouch := h.le_maxTouch
  -- up to the last contact; with none this stretch is empty
  have hdown : ∃ touch, (∀ j, n ≤ j → touch j = false) ∧ stretch pdata 0 n v =
      { touch
        pre := fun j => decide (j < n) || v.pre j
        slots := fun j => if j < n then shown (pdata j) else v.slots j } := by
    rcases Nat.eq_zero_or_pos n with rfl | hpos
    · refine ⟨v.touch, fun j _ => ?_, ?_⟩
      · rw [hv.touch, decide_eq_false (by omega)]
      · refine (View.mk.injEq ..).mpr ⟨rfl, funext fun j => ?_, funext fun j => ?_⟩
        · rw [decide_eq_false (Nat.not_lt_zero j), Bool.false_or]
        · exact (if_neg (Nat.not_lt_zero j)).symm
    · have htouch : ∀ j, v.touch j = decide (j = (pdata 0).id) := fun j => by
        rw [hv.touch, decide_eq_decide.mpr (and_iff_right hpos)]
      refine ⟨_, fun j hj => ?_, stretch_down htouch hplace⟩
      -- the last index sets the bit of the zeros behind the contacts, which is bit 0
      rw [h.rest n (Nat.le_refl n)]
      refine decide_eq_false ?_
      rintro (hlt | hid)
      · exact Nat.not_lt.mpr hj hlt
      · have hzero : j = 0 := hid
        omega
  obtain ⟨touch, htouch, hdown⟩ := hdown
  rw [show maxTouch = n + (maxTouch - n) from by omega, stretch_append, hdown, Nat.zero_add,
    stretch_up fun j hj _ => htouch j hj, show n + (maxTouch - n) = maxTouch from by omega]
  refine ⟨fun i hi => ?_, fun j hj hnot => ?_, fun j => ?_⟩
  · dsimp only
    rw [hplace i hi, if_neg (by omega), if_pos hi]
  · have hge : n ≤ j := by
      by_contra hlt
      exact hnot j (Nat.lt_of_not_le hlt) (hplace j (Nat.lt_of_not_le hlt))
    dsimp only
    rw [if_pos ⟨hge, hj⟩]
    rfl
  · have hbits : (∃ i < n, (pdata i).id = j) ↔ j < n := by
      refine ⟨fun ⟨i, hi, hij⟩ => ?_, fun hj => ⟨j, hj, hplace j hj⟩⟩
      rw [← hij, hplace i hi]
      exact hi
    rw [hbits]
    have hpre := hv.pre j
    simp only [Bool.and_eq_true, Bool.or_eq_true, decide_eq_true_eq]
    constructor
    · rintro ⟨hj, hlt | hold⟩
      · exact hlt
      · have hlt : j < maxTouch := by
          by_contra hge
          exact absurd (hpre (Nat.le_of_not_lt hge)) (by rw [hold]; decide)
        omega
    · exact fun hj => ⟨by omega, .inl hj⟩

variable {m : Nat} (hm : m < n) (hplace : InPlace pdata m) (hahead : m < (pdata m).id)
include hm hplace hahead

omit h in
/-- Up to the id of the first contact that is not in place, its bit waits and the
slots before it are released. -/
theorem stretch_ahead :
    stretch pdata 0 (pdata m).id v =
      { touch := fun j => decide (j < m ∨ j = (pdata m).id)
        pre := fun j => decide (¬ (m ≤ j ∧ j < (pdata m).id)) && (decide (j < m) || v.pre j)
        slots := fun j =>
          if m ≤ j ∧ j < (pdata m).id then
            released (if j < m then shown (pdata j) else v.slots j)
          else if j < m then shown (pdata j) else v.slots j } := by
  have htouch : ∀ j, v.touch j = decide (j = (pdata 0).id) := fun j => by
    rw [hv.touch, decide_eq_decide.mpr (and_iff_right (Nat.zero_lt_of_lt hm))]
  have hsplit : stretch pdata 0 (pdata m).id v =
      stretch pdata m ((pdata m).id - m) (stretch pdata 0 m v) := by
    have hadd := stretch_append pdata 0 m ((pdata m).id - m) v
    rwa [Nat.add_sub_cancel' (Nat.le_of_lt hahead), Nat.zero_add] at hadd
  rw [hsplit, stretch_down htouch hplace, stretch_up fun j hj hlt => decide_eq_false (by omega),
    Nat.add_sub_cancel' (Nat.le_of_lt hahead)]

/-- With a contact out of place and another behind it, the second one's bit is not
set when the loop comes to it. -/
theorem not_agrees_of_ahead (hlast : m + 1 < n) :
    ¬ Agrees pdata n (stretch pdata 0 maxTouch v).slots (stretch pdata 0 maxTouch v).pre := by
  set k := (pdata m).id with hk
  set l := (pdata (m + 1)).id with hl
  have hkl : k < l := h.id_mono m (m + 1) (Nat.lt_succ_self m) hlast
  have hl5 : l < maxTouch := h.id_lt (m + 1) hlast
  have hview := stretch_ahead hv hm hplace hahead
  rw [← hk] at hview
  have hsplit : stretch pdata 0 l v = stretch pdata k (l - k) (stretch pdata 0 k v) := by
    have hadd := stretch_append pdata 0 k (l - k) v
    rwa [Nat.add_sub_cancel' (Nat.le_of_lt hkl), Nat.zero_add] at hadd
  -- bits set from index `k` on are ids of contacts behind the second one, or zero
  have htouch : (stretch pdata 0 l v).touch l = false := by
    rw [← Bool.not_eq_true, hsplit]
    intro hbit
    rcases touch_stretch hbit with hbit | ⟨i, hki, hil, hid⟩
    · rw [hview] at hbit
      have := of_decide_eq_true hbit
      omega
    · by_cases hi : i + 1 < n
      · exact Nat.ne_of_lt (h.id_mono (m + 1) (i + 1) (by omega) hi) hid
      · rw [h.rest (i + 1) (Nat.le_of_not_lt hi)] at hid
        have hzero : l = 0 := hid
        omega
  have hpre : (stretch pdata 0 maxTouch v).pre l = false := by
    have hadd := stretch_append pdata 0 (l + 1) (maxTouch - (l + 1)) v
    rw [Nat.add_sub_cancel' hl5, Nat.zero_add] at hadd
    rw [hadd, pre_stretch (by omega), stretch_succ, Nat.zero_add, viewStep, htouch,
      if_neg Bool.false_ne_true]
    dsimp only
    rw [decide_eq_false (not_not.mpr rfl), Bool.false_and]
  intro hagrees
  have hbit := (hagrees.pre l).mpr ⟨m + 1, hlast, rfl⟩
  rw [hpre] at hbit
  exact Bool.false_ne_true hbit

/-- With only the last contact out of place, the loop takes its id for a place in the
arrays and reports the zeros it finds there in slot 0. -/
theorem stretch_lastAhead (hlast : n = m + 1) :
    stretch pdata 0 maxTouch v =
      { touch := fun j => decide (j = 0) || decide (j < m ∨ j = (pdata m).id)
        pre := fun j => decide (j < m ∨ j = (pdata m).id)
        slots := fun j =>
          if j = (pdata m).id then v.slots j
          else if j = 0 then shown noContact
          else if j < m then shown (pdata j)
          else if j < maxTouch then released (v.slots j)
          else v.slots j } := by
  set k := (pdata m).id with hk
  have hk5 : k < maxTouch := h.id_lt m hm
  have hview := stretch_ahead hv hm hplace hahead
  rw [← hk] at hview
  have hadd := stretch_append pdata 0 (k + 1) (maxTouch - (k + 1)) v
  rw [Nat.add_sub_cancel' hk5, Nat.zero_add] at hadd
  rw [hadd, stretch_succ, hview, Nat.zero_add, viewStep, if_pos (decide_eq_true (.inr rfl)),
    h.rest k (by omega), h.rest (k + 1) (by omega)]
  -- behind the place `k` no bit is set, and the loop only releases
  have htouch : ∀ j, k + 1 ≤ j → (decide (j = noContact.id) || decide (j < m ∨ j = k)) = false := by
    intro j hj
    have hid : noContact.id = 0 := rfl
    rw [decide_eq_false (by omega), decide_eq_false (by omega), Bool.or_false]
  rw [stretch_up fun j hj _ => htouch j hj, Nat.add_sub_cancel' hk5]
  refine (View.mk.injEq ..).mpr ⟨rfl, funext fun j => ?_, funext fun j => ?_⟩
  · have hold := hv.pre j
    rw [Bool.eq_iff_iff]
    simp only [Bool.and_eq_true, Bool.or_eq_true, decide_eq_true_eq]
    constructor
    · rintro ⟨hj, rfl | ⟨hj', hlt | hbit⟩⟩
      · exact .inr rfl
      · exact .inl hlt
      · have hlt : j < maxTouch := by
          by_contra hge
          exact Bool.false_ne_true ((hold (Nat.le_of_not_lt hge)).symm.trans hbit)
        omega
    · rintro (hlt | rfl)
      · exact ⟨by omega, .inr ⟨by omega, .inl hlt⟩⟩
      · exact ⟨by omega, .inl rfl⟩
  · dsimp only
    have hid : noContact.id = 0 := rfl
    rw [Function.update_apply, hid]
    split_ifs <;> first | rfl | omega

theorem agrees_lastAhead_iff (hlast : n = m + 1) :
    Agrees pdata n (stretch pdata 0 maxTouch v).slots (stretch pdata 0 maxTouch v).pre ↔
      0 < m ∧ pdata 0 = noContact ∧ v.slots (pdata m).id = shown (pdata m) := by
  have hk5 : (pdata m).id < maxTouch := h.id_lt m hm
  rw [stretch_lastAhead h hv hm hplace hahead hlast]
  constructor
  · intro hagrees
    have hslot : v.slots (pdata m).id = shown (pdata m) := by
      have hdown := hagrees.down m hm
      dsimp only at hdown
      rwa [if_pos rfl] at hdown
    -- a single contact out of place has an id above 0, so slot 0 is to be released
    have hpos : 0 < m := by
      by_contra hzero
      obtain rfl : m = 0 := Nat.eq_zero_of_not_pos hzero
      have hup := hagrees.up 0 (by decide) fun i hi => by
        obtain rfl : i = 0 := by omega
        omega
      dsimp only at hup
      rw [if_neg (Nat.ne_of_lt hahead), if_pos rfl] at hup
      exact Bool.false_ne_true hup.symm
    -- slot 0 was reported twice, and the zeros came second
    have hfirst : shown noContact = shown (pdata 0) := by
      have hdown := hagrees.down 0 (by omega)
      dsimp only at hdown
      rwa [hplace 0 hpos, if_neg (by omega), if_pos rfl] at hdown
    refine ⟨hpos, ?_, hslot⟩
    have hid := hplace 0 hpos
    rcases hc : pdata 0 with ⟨x, y, w, id⟩
    rw [hc] at hfirst hid
    obtain ⟨hx, hy, hw⟩ : 0 = x ∧ 0 = y ∧ 0 = w := by
      simpa [shown, noContact] using hfirst
    subst hx hy hw hid
    rfl
  · rintro ⟨hpos, hfirst, hslot⟩
    refine ⟨fun i hi => ?_, fun j hj hnot => ?_, fun j => ?_⟩
    · dsimp only
      rcases Nat.eq_or_lt_of_le (Nat.le_of_lt_succ (hlast ▸ hi)) with rfl | hlt
      · rw [if_pos rfl, hslot]
      · rw [hplace i hlt, if_neg (by omega)]
        rcases Nat.eq_zero_or_pos i with rfl | hi0
        · rw [if_pos rfl, hfirst]
        · rw [if_neg (Nat.ne_of_gt hi0), if_pos hlt]
    · have hk : j ≠ (pdata m).id := (hnot m hm).symm
      have hge : m ≤ j := by
        by_contra hlt
        exact hnot j (by omega) (hplace j (Nat.lt_of_not_le hlt))
      dsimp only
      rw [if_neg hk, if_neg (by omega), if_neg (Nat.not_lt.mpr hge), if_pos hj]
      rfl
    · rw [decide_eq_true_eq]
      constructor
      · rintro (hlt | rfl)
        · exact ⟨j, by omega, hplace j hlt⟩
        · exact ⟨m, hm, rfl⟩
      · rintro ⟨i, hi, rfl⟩
        rcases Nat.eq_or_lt_of_le (Nat.le_of_lt_succ (hlast ▸ hi)) with rfl | hlt
        · exact .inr rfl
        · exact .inl (by rwa [hplace i hlt])

end Report

/-- When a report leaves the slots as its contacts say. -/
theorem agrees_stretch_iff {n : Nat} {v : View} (h : Ascending pdata n) (hv : Ready pdata n v) :
    Agrees pdata n (stretch pdata 0 maxTouch v).slots (stretch pdata 0 maxTouch v).pre ↔
      InPlace pdata n ∨ LastAhead pdata n v.slots := by
  constructor
  · intro hagrees
    rcases h.inPlace_or with hplace | ⟨m, hm, hplace, hahead⟩
    · exact .inl hplace
    · have hlast : n = m + 1 := by
        by_contra hne
        exact not_agrees_of_ahead h hv hm hplace hahead (by omega) hagrees
      obtain ⟨hpos, hfirst, hslot⟩ :=
        (agrees_lastAhead_iff h hv hm hplace hahead hlast).mp hagrees
      obtain ⟨m, rfl⟩ := Nat.exists_eq_add_one.mpr hpos
      exact .inr ⟨m, hlast, hplace, hahead, hfirst, hslot⟩
  · rintro (hplace | ⟨m, hlast, hplace, hahead, hfirst, hslot⟩)
    · exact agrees_of_inPlace h hv hplace
    · exact (agrees_lastAhead_iff h hv (by omega) hplace hahead hlast).mpr
        ⟨Nat.succ_pos m, hfirst, hslot⟩

/-- When `lidbg_touch_report` leaves the slots as its contacts say. -/
theorem agrees_lidbgTouchReport_iff {n : Nat} (h : Ascending pdata n) {s : TouchState}
    (hs : Ready pdata n s.view) :
    Agrees pdata n (lidbgTouchReport pdata s).dev.slots
        (bitSet (lidbgTouchReport pdata s).preTouch) ↔
      InPlace pdata n ∨ LastAhead pdata n s.dev.slots := by
  have hview : (lidbgTouchReport pdata s).view = stretch pdata 0 maxTouch s.view := by
    rw [view_lidbgTouchReport h.id_lt_maxTouch, List.range_eq_range']
    rfl
  have hiff := agrees_stretch_iff h hs
  rw [← hview] at hiff
  exact hiff

/-- Only the bits of the slots are written in `*pre_touch`. -/
theorem preTouch_lidbgTouchReport (pdata : Nat → Contact) (s : TouchState) {j : Nat}
    (hj : maxTouch ≤ j) :
    bitSet (lidbgTouchReport pdata s).preTouch j = bitSet s.preTouch j := by
  unfold lidbgTouchReport
  refine List.foldlRecOn
    (motive := fun t : TouchState => bitSet t.preTouch j = bitSet s.preTouch j) _ _ rfl ?_
  intro t ht i hi
  have hlt : i < maxTouch := List.mem_range.mp hi
  rw [← ht, reportStep]
  split_ifs
  · rw [bitSet_setBit (Nat.lt_trans hlt (by decide)), decide_eq_false (by omega), Bool.false_or]
  · rw [bitSet_clearBit, decide_eq_true (by omega), Bool.true_and]

end Lidbg.Ts
