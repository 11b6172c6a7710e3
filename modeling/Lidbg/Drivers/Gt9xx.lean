import Lidbg.Core.Ts

/-!
# The work function of the touchscreen (`drivers/touchscreen/gt9xx.c`)

The controller sends eight bytes for each contact, in the order of their ids.
`goodix_ts_work_func` unpacks them and hands them to `lidbg_touch_report`. The loop
that did the report here before is still there as a comment.
-/

namespace Lidbg.Gt9xx

open Machine Ts

/-- The input device and the static `pre_touch`. -/
structure GtpState where
  dev : InputDev maxTouch
  preTouch : BitVec 16

/-- `coor_data[lo] | coor_data[lo + 1] << 8`. -/
def coor (coorData : Nat → UInt8) (lo : Nat) : Nat :=
  (coorData lo).toNat ||| (coorData (lo + 1)).toNat <<< 8

/-- `coor_data[pos] & 0x0F`. -/
def coorId (coorData : Nat → UInt8) (pos : Nat) : Nat :=
  (coorData pos).toNat &&& 0x0F

/-- The arrays as `goodix_ts_work_func` fills them. `GTP_CHANGE_X2Y` swaps the
coordinates. -/
def fill (coorData : Nat → UInt8) (i : Nat) : Contact :=
  if i < maxTouch then
    { x := coor coorData (8 * i + 3)
      y := coor coorData (8 * i + 1)
      w := coor coorData (8 * i + 5)
      id := coorId coorData (8 * i) }
  else noContact

/-- `touch_num`, from the byte before the coordinates. -/
def touchNum (finger : UInt8) : Nat :=
  (finger &&& 0x0F).toNat

/-- `touch_index` before the report. -/
def touchIndex (finger : UInt8) (coorData : Nat → UInt8) : BitVec 16 :=
  if touchNum finger ≠ 0 then setBit 0#16 (coorId coorData 0) else 0#16

/-- `goodix_ts_work_func`, after its reads. -/
def goodixTsWorkFunc (finger : UInt8) (coorData : Nat → UInt8) (s : GtpState) : GtpState :=
  if finger &&& 0x80 = 0 then s
  else if maxTouch < touchNum finger then s
  else if s.preTouch ≠ 0#16 ∨ touchNum finger ≠ 0 then
    let report := lidbgTouchReport (fill coorData) ⟨s.dev, touchIndex finger coorData, s.preTouch⟩
    { dev := report.dev, preTouch := report.preTouch }
  else s

/-! ## The loop in the comment -/

/-- What that loop carries. -/
structure LoopState where
  dev : InputDev maxTouch
  preTouch : BitVec 16
  touchIndex : BitVec 16
  pos : Nat
  id : Nat

/-- `gtp_touch_down`. -/
def gtpTouchDown (dev : InputDev maxTouch) (id x y w : Nat) : InputDev maxTouch :=
  touchDown dev ⟨y, x, w, id⟩

/-- `gtp_touch_up`. -/
def gtpTouchUp (dev : InputDev maxTouch) (id : Nat) : InputDev maxTouch :=
  touchUp dev id

def loopStep (coorData : Nat → UInt8) (s : LoopState) (i : Nat) : LoopState :=
  if bitSet s.touchIndex i then
    { dev := gtpTouchDown s.dev s.id (coor coorData (s.pos + 1)) (coor coorData (s.pos + 3))
        (coor coorData (s.pos + 5))
      preTouch := setBit s.preTouch i
      touchIndex := setBit s.touchIndex (coorId coorData (s.pos + 8))
      pos := s.pos + 8
      id := coorId coorData (s.pos + 8) }
  else
    { s with dev := gtpTouchUp s.dev i, preTouch := clearBit s.preTouch i }

/-- The loop, from the same bytes and the same first bit. -/
def loopReport (finger : UInt8) (coorData : Nat → UInt8) (s : GtpState) : LoopState :=
  (List.range maxTouch).foldl (loopStep coorData)
    { dev := s.dev
      preTouch := s.preTouch
      touchIndex := touchIndex finger coorData
      pos := 0
      id := if touchNum finger ≠ 0 then coorId coorData 0 else 0 }

/-! ## What both are given -/

/-- A read with contacts in ascending order of their ids that leads to a report. -/
structure Reads (finger : UInt8) (coorData : Nat → UInt8) (s : GtpState) : Prop where
  ready : finger &&& 0x80 ≠ 0
  contacts : Ascending (fill coorData) (touchNum finger)
  report : s.preTouch ≠ 0#16 ∨ touchNum finger ≠ 0

/-- `pre_touch` has bits for the slots only. -/
def SlotBits (s : GtpState) : Prop :=
  ∀ j, maxTouch ≤ j → bitSet s.preTouch j = false

theorem coorId_lt (coorData : Nat → UInt8) (pos : Nat) : coorId coorData pos < 16 :=
  Nat.lt_of_le_of_lt Nat.and_le_right (by decide)

theorem bitSet_zero (j : Nat) : bitSet 0#16 j = false := by
  rw [bitSet_eq, BitVec.getLsbD_zero]

theorem bitSet_touchIndex (finger : UInt8) (coorData : Nat → UInt8) (j : Nat) :
    bitSet (touchIndex finger coorData) j =
      decide (0 < touchNum finger ∧ j = coorId coorData 0) := by
  unfold touchIndex
  split_ifs with hnum
  · rw [bitSet_setBit (coorId_lt coorData 0), bitSet_zero, Bool.or_false,
      decide_eq_decide.mpr (and_iff_right (Nat.pos_of_ne_zero hnum))]
  · rw [bitSet_zero, decide_eq_false (by omega)]

/-- `pre_touch` starts at zero, and no interrupt gives it other bits. -/
theorem slotBits_zero (dev : InputDev maxTouch) : SlotBits ⟨dev, 0#16⟩ :=
  fun j _ => bitSet_zero j

theorem slotBits_goodixTsWorkFunc (finger : UInt8) (coorData : Nat → UInt8) {s : GtpState}
    (hs : SlotBits s) : SlotBits (goodixTsWorkFunc finger coorData s) := by
  unfold goodixTsWorkFunc
  split_ifs
  · exact hs
  · exact hs
  · exact fun j hj => (preTouch_lidbgTouchReport _ _ hj).trans (hs j hj)
  · exact hs

theorem slotBits_run (reads : List (UInt8 × (Nat → UInt8))) {s : GtpState} (hs : SlotBits s) :
    SlotBits (reads.foldl (fun s r => goodixTsWorkFunc r.1 r.2 s) s) := by
  induction reads generalizing s with
  | nil => exact hs
  | cons r reads ih => exact ih (slotBits_goodixTsWorkFunc r.1 r.2 hs)

/-! ## The old loop -/

theorem fill_of_lt (coorData : Nat → UInt8) {i : Nat} (hi : i < maxTouch) :
    fill coorData i =
      { x := coor coorData (8 * i + 3)
        y := coor coorData (8 * i + 1)
        w := coor coorData (8 * i + 5)
        id := coorId coorData (8 * i) } :=
  if_pos hi

/-- Before slot `i`, `p` contacts have been reported: those with an id below `i`. -/
structure LoopInv (coorData : Nat → UInt8) (n i p : Nat) (s : LoopState) : Prop where
  count : p ≤ n
  pos : s.pos = 8 * p
  id : p < n → s.id = (fill coorData p).id
  touch : ∀ j, i ≤ j → j < maxTouch →
    (bitSet s.touchIndex j = true ↔ p < n ∧ j = (fill coorData p).id)
  behind : ∀ q < p, (fill coorData q).id < i
  ahead : ∀ q, p ≤ q → q < n → i ≤ (fill coorData q).id
  down : ∀ q < p, s.dev.slots (fill coorData q).id = shown (fill coorData q)
  up : ∀ j < i, (∀ q < p, (fill coorData q).id ≠ j) → (s.dev.slots j).active = false
  pre : ∀ j < i, (bitSet s.preTouch j = true ↔ ∃ q < p, (fill coorData q).id = j)
  rest : ∀ j, maxTouch ≤ j → bitSet s.preTouch j = false

section Loop

variable {coorData : Nat → UInt8} {n i p : Nat} {s : LoopState}
  (h : Ascending (fill coorData) n) (hinv : LoopInv coorData n i p s) (hi : i < maxTouch)

include hinv in
theorem coorId_next : coorId coorData (s.pos + 8) = coorId coorData (8 * (p + 1)) := by
  rw [hinv.pos]
  rfl

include h hinv in
/-- What stands at `pos` is contact `p`. -/
theorem slots_loopDown (hp : p < n) (hid : i = (fill coorData p).id) :
    (gtpTouchDown s.dev s.id (coor coorData (s.pos + 1)) (coor coorData (s.pos + 3))
      (coor coorData (s.pos + 5))).slots =
      Function.update s.dev.slots i (shown (fill coorData p)) := by
  have hcontact : (⟨coor coorData (8 * p + 3), coor coorData (8 * p + 1),
      coor coorData (8 * p + 5), (fill coorData p).id⟩ : Contact) = fill coorData p := by
    rw [fill_of_lt coorData (Nat.lt_of_lt_of_le hp h.le_maxTouch)]
  rw [hinv.pos, hinv.id hp, gtpTouchDown, hcontact, slots_touchDown _ (h.id_lt p hp), ← hid]

include h hinv in
/-- The bit that is set now is that of the next contact, if there is one. -/
theorem touch_loopDown (hp : p < n) (hid : i = (fill coorData p).id) {j : Nat} (hj : i + 1 ≤ j)
    (hj5 : j < maxTouch) :
    bitSet (setBit s.touchIndex (coorId coorData (s.pos + 8))) j = true ↔
      p + 1 < n ∧ j = (fill coorData (p + 1)).id := by
  have hold : bitSet s.touchIndex j = false := by
    rw [← Bool.not_eq_true, hinv.touch j (Nat.le_of_succ_le hj) hj5, not_and]
    intro _
    omega
  have hp6 : p + 1 < maxTouch := by
    have := h.le_id hp
    omega
  rw [bitSet_setBit (coorId_lt _ _), hold, Bool.or_false, decide_eq_true_eq, coorId_next hinv,
    fill_of_lt coorData hp6]
  refine ⟨fun hjid => ⟨?_, hjid⟩, And.right⟩
  -- behind the contacts the buffer has zeros, and bit 0 is behind the loop
  by_contra hge
  have hzero : (fill coorData (p + 1)).id = 0 := by
    rw [h.rest (p + 1) (Nat.le_of_not_lt hge)]
    rfl
  rw [fill_of_lt coorData hp6] at hzero
  have hj0 : j = 0 := hjid.trans hzero
  omega

include hinv hi in
/-- The slots that `pre_touch` shows are those of the contacts reported. -/
theorem pre_loopDown (hid : i = (fill coorData p).id) {j : Nat} (hj : j < i + 1) :
    bitSet (setBit s.preTouch i) j = true ↔ ∃ q < p + 1, (fill coorData q).id = j := by
  rw [bitSet_setBit (Nat.lt_trans hi (by decide)), Bool.or_eq_true, decide_eq_true_eq]
  constructor
  · rintro (rfl | hbit)
    · exact ⟨p, p.lt_succ_self, hid.symm⟩
    · by_cases hji : j = i
      · exact ⟨p, p.lt_succ_self, by omega⟩
      · obtain ⟨q, hq, hqj⟩ := (hinv.pre j (by omega)).mp hbit
        exact ⟨q, Nat.lt_succ_of_lt hq, hqj⟩
  · rintro ⟨q, hq, hqj⟩
    rcases Nat.eq_or_lt_of_le (Nat.le_of_lt_succ hq) with rfl | hlt
    · exact .inl (by omega)
    · have hji := hinv.behind q hlt
      exact .inr ((hinv.pre j (by omega)).mpr ⟨q, hlt, hqj⟩)

include h hinv hi

/-- A set bit: the next contact is that of this slot. -/
theorem loopInv_down (hbit : bitSet s.touchIndex i = true) :
    LoopInv coorData n (i + 1) (p + 1) (loopStep coorData s i) := by
  obtain ⟨hp, hid⟩ := (hinv.touch i (Nat.le_refl i) hi).mp hbit
  have hdev := slots_loopDown h hinv hp hid
  rw [loopStep, if_pos hbit]
  refine
    { count := hp
      pos := by rw [hinv.pos]; rfl
      id := fun hp' => ?_
      touch := fun j hj hj5 => touch_loopDown h hinv hp hid hj hj5
      behind := fun q hq => ?_
      ahead := fun q hq hqn => ?_
      down := fun q hq => ?_
      up := fun j hj hnot => ?_
      pre := fun j hj => pre_loopDown hinv hi hid hj
      rest := fun j hj => ?_ }
  · rw [fill_of_lt coorData (Nat.lt_of_lt_of_le hp' h.le_maxTouch)]
    exact coorId_next hinv
  · rcases Nat.eq_or_lt_of_le (Nat.le_of_lt_succ hq) with rfl | hlt
    · omega
    · exact Nat.lt_succ_of_lt (hinv.behind q hlt)
  · have hmono := h.id_mono p q hq hqn
    omega
  · rw [hdev, Function.update_apply]
    rcases Nat.eq_or_lt_of_le (Nat.le_of_lt_succ hq) with rfl | hlt
    · rw [if_pos hid.symm]
    · rw [if_neg (Nat.ne_of_lt (hinv.behind q hlt)), hinv.down q hlt]
  · have hji : j ≠ i := fun hji => hnot p p.lt_succ_self (by omega)
    rw [hdev, Function.update_of_ne hji]
    exact hinv.up j (by omega) fun q hq => hnot q (Nat.lt_succ_of_lt hq)
  · rw [bitSet_setBit (Nat.lt_trans hi (by decide)), decide_eq_false (by omega), Bool.false_or,
      hinv.rest j hj]

/-- A clear bit: no contact has this slot. -/
theorem loopInv_up (hbit : bitSet s.touchIndex i = false) :
    LoopInv coorData n (i + 1) p (loopStep coorData s i) := by
  -- no contact has this id: the ones ahead are later, those behind were earlier
  have hnot : ∀ q, p ≤ q → q < n → (fill coorData q).id ≠ i := by
    intro q hpq hq hid
    rcases Nat.eq_or_lt_of_le hpq with rfl | hlt
    · have hset := (hinv.touch i (Nat.le_refl i) hi).mpr ⟨hq, hid.symm⟩
      exact Bool.false_ne_true (hbit.symm.trans hset)
    · have hmono := h.id_mono p q hlt hq
      have hahead := hinv.ahead p (Nat.le_refl p) (hlt.trans hq)
      omega
  have hnone : ∀ q < p, (fill coorData q).id ≠ i := fun q hq => Nat.ne_of_lt (hinv.behind q hq)
  rw [loopStep, if_neg (by rw [hbit]; exact Bool.false_ne_true)]
  -- the turn releases the one slot
  have hdev : (gtpTouchUp s.dev i).slots =
      Function.update s.dev.slots i (released (s.dev.slots i)) := slots_touchUp s.dev hi
  refine
    { count := hinv.count
      pos := hinv.pos
      id := hinv.id
      touch := fun j hj hj5 => hinv.touch j (Nat.le_of_succ_le hj) hj5
      behind := fun q hq => Nat.lt_succ_of_lt (hinv.behind q hq)
      ahead := fun q hq hqn => ?_
      down := fun q hq => ?_
      up := fun j hj hup => ?_
      pre := fun j hj => ?_
      rest := fun j hj => ?_ }
  · exact Nat.lt_of_le_of_ne (hinv.ahead q hq hqn) (hnot q hq hqn).symm
  · rw [hdev, Function.update_of_ne (hnone q hq), hinv.down q hq]
  · rw [hdev, Function.update_apply]
    split_ifs with hji
    · rfl
    · exact hinv.up j (by omega) hup
  · rw [bitSet_clearBit, Bool.and_eq_true, decide_eq_true_eq]
    by_cases hji : j = i
    · subst hji
      exact ⟨fun hne => absurd rfl hne.1, fun ⟨q, hq, hqj⟩ => absurd hqj (hnone q hq)⟩
    · rw [and_iff_right hji, hinv.pre j (by omega)]
  · rw [bitSet_clearBit, hinv.rest j hj, Bool.and_false]

theorem loopInv_step : ∃ p', LoopInv coorData n (i + 1) p' (loopStep coorData s i) := by
  cases hbit : bitSet s.touchIndex i with
  | true => exact ⟨p + 1, loopInv_down h hinv hi hbit⟩
  | false => exact ⟨p, loopInv_up h hinv hi hbit⟩

end Loop

/-- The loop that was replaced reports every contact. -/
theorem agrees_loopReport {finger : UInt8} {coorData : Nat → UInt8} {s : GtpState}
    (h : Ascending (fill coorData) (touchNum finger)) (hs : SlotBits s) :
    Agrees (fill coorData) (touchNum finger) (loopReport finger coorData s).dev.slots
      (bitSet (loopReport finger coorData s).preTouch) := by
  have hrun : ∀ i, i ≤ maxTouch → ∃ p, LoopInv coorData (touchNum finger) i p
      ((List.range i).foldl (loopStep coorData)
        { dev := s.dev
          preTouch := s.preTouch
          touchIndex := touchIndex finger coorData
          pos := 0
          id := if touchNum finger ≠ 0 then coorId coorData 0 else 0 }) := by
    intro i hi
    induction i with
    | zero =>
      exact ⟨0,
        { count := Nat.zero_le _
          pos := rfl
          id := fun hp => if_pos (Nat.ne_of_gt hp)
          touch := fun j _ _ => by
            show bitSet (touchIndex finger coorData) j = true ↔ _
            rw [bitSet_touchIndex, decide_eq_true_eq]
            rfl
          behind := fun q hq => absurd hq (Nat.not_lt_zero q)
          ahead := fun q _ _ => Nat.zero_le _
          down := fun q hq => absurd hq (Nat.not_lt_zero q)
          up := fun j hj => absurd hj (Nat.not_lt_zero j)
          pre := fun j hj => absurd hj (Nat.not_lt_zero j)
          rest := hs }⟩
    | succ i ih =>
      obtain ⟨p, hinv⟩ := ih (Nat.le_of_succ_le hi)
      rw [List.range_succ, List.foldl_append]
      exact loopInv_step h hinv hi
  obtain ⟨p, hinv⟩ := hrun maxTouch (Nat.le_refl _)
  -- a contact that is left would have an id behind the last slot
  have hall : p = touchNum finger := by
    by_contra hne
    have hp : p < touchNum finger := Nat.lt_of_le_of_ne hinv.count hne
    exact Nat.not_lt.mpr (hinv.ahead p (Nat.le_refl p) hp) (h.id_lt p hp)
  rw [hall] at hinv
  refine ⟨hinv.down, hinv.up, fun j => ?_⟩
  by_cases hj : j < maxTouch
  · exact hinv.pre j hj
  · have hoff : bitSet (loopReport finger coorData s).preTouch j = false :=
      hinv.rest j (Nat.le_of_not_lt hj)
    refine ⟨fun hbit => absurd (hoff.symm.trans hbit) Bool.false_ne_true, fun ⟨q, hq, hqj⟩ => ?_⟩
    exact absurd (hqj ▸ h.id_lt q hq) hj

/-! ## The report that took its place -/

theorem ready_of_reads {finger : UInt8} {coorData : Nat → UInt8} {s : GtpState}
    (hs : SlotBits s) :
    Ready (fill coorData) (touchNum finger)
      (TouchState.view ⟨s.dev, touchIndex finger coorData, s.preTouch⟩) :=
  ⟨bitSet_touchIndex finger coorData, hs⟩

/-- The report is right when the contacts have the ids from 0 on without a gap, and
otherwise only where the zeros behind the contacts happen to stand for the first one
and an older report for the last. -/
theorem agrees_goodixTsWorkFunc_iff {finger : UInt8} {coorData : Nat → UInt8} {s : GtpState}
    (h : Reads finger coorData s) (hs : SlotBits s) :
    Agrees (fill coorData) (touchNum finger) (goodixTsWorkFunc finger coorData s).dev.slots
        (bitSet (goodixTsWorkFunc finger coorData s).preTouch) ↔
      InPlace (fill coorData) (touchNum finger) ∨
        LastAhead (fill coorData) (touchNum finger) s.dev.slots := by
  have hcall : goodixTsWorkFunc finger coorData s =
      ⟨(lidbgTouchReport (fill coorData) ⟨s.dev, touchIndex finger coorData, s.preTouch⟩).dev,
        (lidbgTouchReport (fill coorData)
          ⟨s.dev, touchIndex finger coorData, s.preTouch⟩).preTouch⟩ := by
    rw [goodixTsWorkFunc, if_neg h.ready, if_neg (Nat.not_lt.mpr h.contacts.le_maxTouch),
      if_pos h.report]
  rw [hcall]
  exact agrees_lidbgTouchReport_iff h.contacts (ready_of_reads hs)

/-- A device with all slots released, and one contact with the given id. -/
def idle : GtpState :=
  ⟨⟨0, fun _ => ⟨false, 0, 0, 0, 0⟩⟩, 0#16⟩

def oneContact (id : UInt8) (i : Nat) : UInt8 :=
  if i = 0 then id else if i = 1 then 100 else if i = 3 then 60 else if i = 5 then 9 else 0

theorem ascending_oneContact {id : UInt8} (hid : (id.toNat &&& 0x0F) < maxTouch) :
    Ascending (fill (oneContact id)) 1 := by
  refine ⟨fun i hi => ?_, fun i j hij hj => ?_, fun i hi => ?_⟩
  · obtain rfl : i = 0 := by omega
    exact hid
  · omega
  · by_cases hi5 : i < maxTouch
    · rw [fill_of_lt _ hi5]
      have hzero : ∀ k, 5 < k → oneContact id k = 0 := fun k hk => by
        unfold oneContact
        rw [if_neg (by omega), if_neg (by omega), if_neg (by omega), if_neg (by omega)]
      unfold coor coorId
      simp only [hzero (8 * i) (by omega), hzero (8 * i + 1) (by omega),
        hzero (8 * i + 3) (by omega), hzero (8 * i + 5) (by omega),
        hzero (8 * i + 1 + 1) (by omega), hzero (8 * i + 3 + 1) (by omega),
        hzero (8 * i + 5 + 1) (by omega)]
      rfl
    · exact if_neg hi5

theorem reads_oneContact {id : UInt8} (hid : (id.toNat &&& 0x0F) < maxTouch) :
    Reads 0x81 (oneContact id) idle :=
  ⟨by decide, ascending_oneContact hid, .inr (by decide)⟩

/-- Three contacts with the ids from 0 on, next to each other. -/
def threeContacts (i : Nat) : UInt8 :=
  if 24 ≤ i then 0
  else if i % 8 = 0 then UInt8.ofNat (i / 8)
  else if i % 8 = 1 then UInt8.ofNat (100 + i)
  else if i % 8 = 3 then 60
  else if i % 8 = 5 then 9
  else 0

theorem ascending_threeContacts : Ascending (fill threeContacts) 3 := by
  refine ⟨?_, ?_, fun i hi => ?_⟩
  · decide
  · intro i j hij hj
    have hcases : i = 0 ∧ j = 1 ∨ i = 0 ∧ j = 2 ∨ i = 1 ∧ j = 2 := by omega
    obtain ⟨rfl, rfl⟩ | ⟨rfl, rfl⟩ | ⟨rfl, rfl⟩ := hcases <;> decide
  · match i, hi with
    | 3, _ | 4, _ => decide
    | i + 5, _ => exact if_neg (Nat.not_lt.mpr (Nat.le_add_left 5 i))

theorem agrees_threeContacts :
    Agrees (fill threeContacts) 3 (goodixTsWorkFunc 0x83 threeContacts idle).dev.slots
      (bitSet (goodixTsWorkFunc 0x83 threeContacts idle).preTouch) := by
  have hreads : Reads 0x83 threeContacts idle :=
    ⟨by decide, ascending_threeContacts, .inr (by decide)⟩
  refine (agrees_goodixTsWorkFunc_iff hreads (slotBits_zero _)).mpr (.inl fun i hi => ?_)
  have hi : i < 3 := hi
  match i, hi with
  | 0, _ | 1, _ | 2, _ => decide

/-- The first of several fingers lifted: a contact with id 2 alone leaves slot 0 active. -/
theorem not_agrees_oneContact :
    ¬ ∀ (finger : UInt8) (coorData : Nat → UInt8) (s : GtpState),
      Reads finger coorData s → SlotBits s →
      Agrees (fill coorData) (touchNum finger) (goodixTsWorkFunc finger coorData s).dev.slots
        (bitSet (goodixTsWorkFunc finger coorData s).preTouch) := by
  intro hall
  have hagrees := hall 0x81 (oneContact 2) idle (reads_oneContact (by decide)) (slotBits_zero _)
  have hup := hagrees.up 0 (by decide) fun i hi => by
    obtain rfl : i = 0 := Nat.lt_one_iff.mp hi
    decide
  have hactive : ((goodixTsWorkFunc 0x81 (oneContact 2) idle).dev.slots 0).active = true := by
    decide
  exact Bool.false_ne_true (hup.symm.trans hactive)

end Lidbg.Gt9xx
