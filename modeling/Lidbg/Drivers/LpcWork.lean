import Lidbg.Drivers.LpcFraming

/-!
# From the request line to a delivery (`drivers/lpc/lidbg_lpc.c`)

The MCU pulls a line low while it has bytes. `mcuFirstInit` reads until the line is high,
a hundred times or so, and adds a handler for the falling edge; the handler schedules
`workFlyMCUIIC`, which reads until the line is high. What the MCU has no bytes for it fills.

- `deliveries_inOrder`: the payloads handed over are in order a front of those the MCU has
  put, and all of them when it has no bytes left.
- `hears_iff`: no frame is left waiting for good if and only if the line was high when the
  handler was added; otherwise nothing is read any more.
- `deliveries_drain`: then, enabled, the moves come to an end, and all is handed over.
-/

namespace Lidbg.Lpc

open Machine

/-- What fits `buffFromMCU`. -/
structure Payload where
  bytes : List UInt8
  fits : bytes.length ≤ dataBuffLengthFromMCU

/-- Where `mcuFirstInit` is (before it looks at the line, before a read, before it adds the
handler), or the work (not running, before it looks, before a read). -/
inductive Place where
  | firstLook (count : Nat)
  | firstRead (count : Nat)
  | adding
  | idle
  | look (iReadLen : Nat)
  | read (iReadLen : Nat)

/-- The bytes in the MCU, the interrupt (added, latched), whether the work is scheduled, and
the driver. -/
structure State where
  mcu : List UInt8
  added : Bool
  edge : Bool
  scheduled : Bool
  place : Place
  lpcWorkEn : Bool
  hardware : FlyHardwareInfo

/-- `mcuFirstInit` begins; the MCU has what it has. -/
def State.init : State := ⟨[], false, false, false, .firstLook 0, true, globalHardwareInfo⟩

/-- The MCU puts a frame, `MCUIIC_isr`, the next move of `mcuFirstInit` or the work, and
`lpc_suspend` or `thread_lpc_delay_en`. -/
inductive Event where
  | put (payload : Payload)
  | isr
  | work
  | enable (lpcWorkEn : Bool)

/-- A frame in the MCU, and a call of `LPCdealReadFromMCUAll`. -/
inductive Obs where
  | put (payload : Payload)
  | deal (call : DealCall)

def Obs.putBytes : Obs → Option (List UInt8 × Nat)
  | .put payload => some (payload.bytes, payload.bytes.length)
  | .deal _ => none

def Obs.dealt : Obs → Option (List UInt8 × Nat)
  | .put _ => none
  | .deal call => some call.args

section Model

variable (filler : UInt8)

/-- `SOC_I2C_Rec_Simple` on the MCU: its bytes, and `filler` for those it does not have. -/
def received (mcu : List UInt8) (length : Nat) : List UInt8 :=
  mcu.take length ++ List.replicate (length - mcu.length) filler

/-- `actualReadFromMCU`; nobody uses its result. -/
def actualReadFromMCU (s : State) (length : Nat) : Option (State × List Obs) :=
  if !s.lpcWorkEn then some (s, [])
  else
    match readFromMCUProcessor s.hardware (received filler s.mcu length) with
    | none => none
    | some (hardware, calls, _) =>
      some ({ s with mcu := s.mcu.drop length, hardware := hardware }, calls.map .deal)

/-- `mcuFirstInit` and `workFlyMCUIIC`, move by move. -/
def workStep (s : State) : Option (State × List Obs) :=
  match s.place with
  | .firstLook count =>
    if s.mcu ≠ [] then some ({ s with place := .firstRead (count + 1) }, [])
    else some ({ s with place := .adding }, [])
  | .firstRead count =>
    match actualReadFromMCU filler s 32 with
    | none => none
    | some (s, o) =>
      some ({ s with place := if count > 100 then .adding else .firstLook count }, o)
  | .adding => some ({ s with added := true, place := .idle }, [])
  | .idle =>
    if s.scheduled then some ({ s with scheduled := false, place := .look 12 }, []) else none
  | .look iReadLen =>
    if s.mcu ≠ [] then some ({ s with place := .read iReadLen }, [])
    else some ({ s with place := .idle }, [])
  | .read iReadLen =>
    match actualReadFromMCU filler s iReadLen with
    | none => none
    | some (s, o) => some ({ s with place := .look 16 }, o)

/-- The line falls with the first byte; an edge is lost on whoever has not added a
handler. -/
def step : Step State Event Obs := fun s e =>
  match e with
  | .put payload =>
    some ({ s with
      mcu := s.mcu ++ wire payload.bytes
      edge := s.edge || (s.added && s.mcu.isEmpty) }, [.put payload])
  | .isr => if s.edge then some ({ s with edge := false, scheduled := true }, []) else none
  | .work => workStep filler s
  | .enable lpcWorkEn => some ({ s with lpcWorkEn := lpcWorkEn }, [])

end Model

/-- No handler and no work has anything to do. -/
def Quiet (filler : UInt8) (s : State) : Prop :=
  step filler s .isr = none ∧ step filler s .work = none

section Deliveries

variable {filler : UInt8}

/-! ## What has been read -/

theorem idle : globalHardwareInfo.buffFromMCUProcessorStatus = 0 := rfl

/-- Filler bytes are no header. -/
theorem noHeader_of_forall {l : List UInt8} (h : ∀ b ∈ l, b = filler) : NoHeader l := by
  intro hpair
  have hff := h 0xFF (hpair.subset (by simp))
  have h55 := h 0x55 (hpair.subset (by simp))
  exact absurd (hff.trans h55.symm) (by decide)

/-- The registers are those after the bytes read; with the bytes still in the MCU, these are
the frames put, with fillers before, between and behind them. -/
structure Kept (filler : UInt8) (o : List Obs) (mcu : List UInt8) (hw : FlyHardwareInfo) :
    Prop where
  exists_stream : ∃ fed calls, ∃ segs : List (List UInt8 × List UInt8), ∃ rest,
    run readByte globalHardwareInfo fed = some (hw, calls) ∧
      o.filterMap Obs.dealt = calls.map DealCall.args ∧
      fed ++ mcu = stream segs rest ∧
      o.filterMap Obs.putBytes = segs.map (fun s => (s.2, s.2.length)) ∧
      (∀ s ∈ segs, s.2.length ≤ 128) ∧ (∀ s ∈ segs, ∀ b ∈ s.1, b = filler) ∧
      ∀ b ∈ rest, b = filler

/-- At the start nothing was sent, and nothing is under way. -/
theorem Kept.init : Kept filler [] [] globalHardwareInfo :=
  ⟨[], [], [], [], rfl, rfl, rfl, rfl, List.forall_mem_nil _, List.forall_mem_nil _,
    List.forall_mem_nil _⟩

/-- A packet ends a segment of the stream. -/
theorem stream_snoc (segs : List (List UInt8 × List UInt8)) (rest p : List UInt8) :
    stream segs rest ++ wire p = stream (segs ++ [(rest, p)]) [] := by
  simp [stream]

/-- More filler in front of the next packet. -/
theorem stream_append (segs : List (List UInt8 × List UInt8)) (rest more : List UInt8) :
    stream segs rest ++ more = stream segs (rest ++ more) := by
  simp [stream]

/-- A packet that is put is sent behind all others. -/
theorem Kept.put {o : List Obs} {mcu : List UInt8} {hw : FlyHardwareInfo}
    (h : Kept filler o mcu hw) (payload : Payload) :
    Kept filler (o ++ [.put payload]) (mcu ++ wire payload.bytes) hw := by
  obtain ⟨fed, calls, segs, rest, hrun, hdealt, hfed, hput, hfits, hnoise, hrest⟩ := h
  refine ⟨fed, calls, segs ++ [(rest, payload.bytes)], [], hrun, ?_, ?_, ?_, ?_, ?_,
    List.forall_mem_nil _⟩
  · rw [List.filterMap_append, hdealt]
    simp [Obs.dealt]
  · rw [← List.append_assoc, hfed, stream_snoc]
  · simp [Obs.putBytes, hput]
  · exact List.forall_mem_append.mpr ⟨hfits, by simpa using payload.fits⟩
  · exact List.forall_mem_append.mpr ⟨hnoise, by simpa using hrest⟩

variable (filler) in
/-- What is read with the bytes that stay is what was there, with fillers behind it only if
nothing stays. -/
theorem received_append (mcu : List UInt8) (length : Nat) :
    ∃ more, received filler mcu length ++ mcu.drop length = mcu ++ more ∧
      ∀ b ∈ more, b = filler := by
  rcases Nat.le_total length mcu.length with hle | hle
  · refine ⟨[], ?_, List.forall_mem_nil _⟩
    simp [received, Nat.sub_eq_zero_of_le hle]
  · refine ⟨List.replicate (length - mcu.length) filler, ?_, fun b hb =>
      List.eq_of_mem_replicate hb⟩
    simp [received, List.take_of_length_le hle, List.drop_of_length_le hle]

/-- The calls that are seen are those that were made. -/
theorem map_dealt (calls : List DealCall) :
    (calls.map Obs.deal).filterMap Obs.dealt = calls.map DealCall.args := by
  rw [List.filterMap_map]
  exact congrFun List.filterMap_eq_map calls

/-- A call puts nothing on the wire. -/
theorem map_putBytes (calls : List DealCall) :
    (calls.map Obs.deal).filterMap Obs.putBytes = [] := by
  simp [List.filterMap_map, Function.comp_def, Obs.putBytes]

/-- **A read does not fault**, and hands over what it completes. -/
theorem actualReadFromMCU_spec {o : List Obs} {s : State} (h : Kept filler o s.mcu s.hardware)
    (length : Nat) :
    ∃ mcu hardware o', actualReadFromMCU filler s length =
        some ({ s with mcu := mcu, hardware := hardware }, o') ∧
      Kept filler (o ++ o') mcu hardware ∧
      (s.lpcWorkEn = true → mcu = s.mcu.drop length) := by
  by_cases hen : s.lpcWorkEn = true
  · obtain ⟨fed, calls, segs, rest, hrun, hdealt, hfed, hput, hfits, hnoise, hrest⟩ := h
    obtain ⟨more, hmore, hfill⟩ := received_append filler s.mcu length
    have hstream : fed ++ received filler s.mcu length ++ s.mcu.drop length =
        stream segs (rest ++ more) := by
      rw [List.append_assoc, hmore, ← List.append_assoc, hfed, stream_append]
    have hrest' : ∀ b ∈ rest ++ more, b = filler := List.forall_mem_append.mpr ⟨hrest, hfill⟩
    obtain ⟨hw', calls', hall, -, -⟩ := run_stream segs hfits
      (fun seg hseg => noHeader_of_forall (hnoise seg hseg)) (noHeader_of_forall hrest') idle
    rw [← hstream, List.append_assoc] at hall
    obtain ⟨hw₁, calls₁, calls₂, hrun₁, hrun₂, -⟩ := run_append_inv hall
    cases hrun.symm.trans hrun₁
    obtain ⟨hw₂, calls₃, calls₄, hread, -, -⟩ := run_append_inv hrun₂
    refine ⟨s.mcu.drop length, hw₂, calls₃.map .deal, ?_, ?_, fun _ => rfl⟩
    · simp [actualReadFromMCU, hen, readFromMCUProcessor, hread]
    · refine ⟨fed ++ received filler s.mcu length, calls ++ calls₃, segs, rest ++ more,
        run_append hrun hread, ?_, hstream, ?_, hfits, hnoise, hrest'⟩
      · rw [List.filterMap_append, map_dealt, hdealt, List.map_append]
      · rw [List.filterMap_append, map_putBytes, List.append_nil, hput]
  · refine ⟨s.mcu, s.hardware, [], ?_, ?_, fun h => absurd h hen⟩
    · rw [actualReadFromMCU, if_pos (by simp [hen])]
    · rwa [List.append_nil]

/-- Every move keeps the account, and the driver's own does not fault. -/
theorem Kept.workStep {o : List Obs} {s : State} (h : Kept filler o s.mcu s.hardware) :
    (Lpc.workStep filler s = none ∧ s.place = .idle ∧ s.scheduled = false) ∨
      ∃ s' o', Lpc.workStep filler s = some (s', o') ∧
        Kept filler (o ++ o') s'.mcu s'.hardware := by
  unfold Lpc.workStep
  cases hat : s.place with
  | firstLook count =>
    right
    dsimp only
    split
    · exact ⟨_, _, rfl, by rwa [List.append_nil]⟩
    · exact ⟨_, _, rfl, by rwa [List.append_nil]⟩
  | firstRead count =>
    right
    obtain ⟨mcu, hardware, o', hread, hkept, -⟩ := actualReadFromMCU_spec h 32
    simp only [hread]
    exact ⟨_, _, rfl, hkept⟩
  | adding => exact .inr ⟨_, _, rfl, by rwa [List.append_nil]⟩
  | idle =>
    cases hscheduled : s.scheduled with
    | false => exact .inl ⟨by simp, rfl, rfl⟩
    | true => exact .inr ⟨_, _, if_pos rfl, by rwa [List.append_nil]⟩
  | look iReadLen =>
    right
    dsimp only
    split
    · exact ⟨_, _, rfl, by rwa [List.append_nil]⟩
    · exact ⟨_, _, rfl, by rwa [List.append_nil]⟩
  | read iReadLen =>
    right
    obtain ⟨mcu, hardware, o', hread, hkept, -⟩ := actualReadFromMCU_spec h iReadLen
    simp only [hread]
    exact ⟨_, _, rfl, hkept⟩

/-- No step loses or reorders a packet. -/
theorem Kept.step {o o' : List Obs} {s s' : State} {e : Event}
    (h : Kept filler o s.mcu s.hardware) (hs : Lpc.step filler s e = some (s', o')) :
    Kept filler (o ++ o') s'.mcu s'.hardware := by
  cases e with
  | put payload =>
    cases hs
    exact h.put payload
  | isr =>
    unfold Lpc.step at hs
    dsimp only at hs
    split at hs
    · cases hs
      rwa [List.append_nil]
    · cases hs
  | work =>
    rcases h.workStep with ⟨hnone, -, -⟩ | ⟨t, p, hsome, hkept⟩
    · cases hnone.symm.trans hs
    · cases hsome.symm.trans hs
      exact hkept
  | enable lpcWorkEn =>
    cases hs
    rwa [List.append_nil]

/-- Nor does a run. -/
theorem kept_run {events : List Event} {s s' : State} {o o' : List Obs}
    (h : Kept filler o s.mcu s.hardware) (hrun : run (step filler) s events = some (s', o')) :
    Kept filler (o ++ o') s'.mcu s'.hardware :=
  run_preserves_observed (I := fun o s => Kept filler o s.mcu s.hardware)
    (fun _ _ _ _ _ h hs => h.step hs) h hrun

/-- What has been handed over is in order a front of what was put. -/
theorem Kept.inOrder {o : List Obs} {mcu : List UInt8} {hw : FlyHardwareInfo}
    (h : Kept filler o mcu hw) :
    o.filterMap Obs.dealt <+: o.filterMap Obs.putBytes ∧
      (mcu = [] → o.filterMap Obs.dealt = o.filterMap Obs.putBytes) := by
  obtain ⟨fed, calls, segs, rest, hrun, hdealt, hfed, hput, hfits, hnoise, hrest⟩ := h
  obtain ⟨hw', calls', hall, hcalls', -⟩ := run_stream segs hfits
    (fun seg hseg => noHeader_of_forall (hnoise seg hseg)) (noHeader_of_forall hrest) idle
  rw [← hfed] at hall
  obtain ⟨hw₁, calls₁, calls₂, hrun₁, hrun₂, rfl⟩ := run_append_inv hall
  cases hrun.symm.trans hrun₁
  rw [hdealt, hput, ← hcalls', List.map_append]
  refine ⟨List.prefix_append _ _, ?_⟩
  rintro rfl
  cases hrun₂
  simp

/-- **Every frame once, in order.** Over any interleaving of frames put, interrupts, moves
and suspends, the payloads handed to `LPCdealReadFromMCUAll` are in order a front of those
the MCU has put, and all of them when it has nothing left; and the driver's own moves never
fault: without one, no work is scheduled. -/
theorem deliveries_inOrder {events : List Event} {s : State} {o : List Obs}
    (hrun : run (step filler) State.init events = some (s, o)) :
    o.filterMap Obs.dealt <+: o.filterMap Obs.putBytes ∧
      (s.mcu = [] → o.filterMap Obs.dealt = o.filterMap Obs.putBytes) ∧
      (step filler s .work = none → s.place = .idle ∧ s.scheduled = false) := by
  have hkept : Kept filler o s.mcu s.hardware := kept_run (s := State.init) Kept.init hrun
  refine ⟨hkept.inOrder.1, hkept.inOrder.2, fun hnone => ?_⟩
  rcases hkept.workStep with ⟨-, hidle⟩ | ⟨t, p, hsome, -⟩
  · exact hidle
  · cases hnone.symm.trans hsome

/-- Two frames, the second while the first is read, and a stop of the driver in between. -/
theorem deliveries_inOrder_two :
    ∃ s o, run (step 0xFF) State.init [.work, .work, .put ⟨[0x96, 0, 0x7f], by decide⟩, .isr,
        .work, .work, .enable false, .work, .enable true, .put ⟨[1], by decide⟩, .work, .work,
        .work] = some (s, o) ∧
      o.filterMap Obs.dealt <+: o.filterMap Obs.putBytes ∧
      (s.mcu = [] → o.filterMap Obs.dealt = o.filterMap Obs.putBytes) ∧
      (step 0xFF s .work = none → s.place = .idle ∧ s.scheduled = false) := by
  have hsome : (run (step 0xFF) State.init [.work, .work, .put ⟨[0x96, 0, 0x7f], by decide⟩,
      .isr, .work, .work, .enable false, .work, .enable true, .put ⟨[1], by decide⟩, .work,
      .work, .work]).isSome = true := by decide +kernel
  obtain ⟨⟨s, o⟩, hrun⟩ := Option.isSome_iff_exists.mp hsome
  exact ⟨s, o, hrun, deliveries_inOrder hrun⟩

/-! ## The interrupt and the work -/

/-- The work, as far as it knows of bytes before it reads them. -/
def Place.Serving (mcu : List UInt8) : Place → Prop
  | .idle => True
  | .look iReadLen => 0 < iReadLen
  | .read iReadLen => 0 < iReadLen ∧ mcu ≠ []
  | _ => False

/-- The handler is added, and where the MCU has bytes somebody is on the way to them. -/
structure Awake (s : State) : Prop where
  added : s.added = true
  serving : s.place.Serving s.mcu
  heard : s.mcu ≠ [] → s.edge = true ∨ s.scheduled = true ∨ s.place ≠ .idle

/-- The handler is added, and nobody is on the way to the bytes. -/
structure Deaf (s : State) : Prop where
  edge : s.edge = false
  scheduled : s.scheduled = false
  place : s.place = .idle
  waiting : s.mcu ≠ []

/-- What the work can do, once there is a handler. -/
theorem Awake.work_cases {s s' : State} {o o' : List Obs} (h : Awake s)
    (hkept : Kept filler o s.mcu s.hardware) (hs : Lpc.workStep filler s = some (s', o')) :
    (s.place = .idle ∧ s.scheduled = true ∧
      s' = { s with scheduled := false, place := .look 12 }) ∨
    (∃ iReadLen, s.place = .look iReadLen ∧ 0 < iReadLen ∧ s.mcu ≠ [] ∧
      s' = { s with place := .read iReadLen }) ∨
    (∃ iReadLen, s.place = .look iReadLen ∧ s.mcu = [] ∧ s' = { s with place := .idle }) ∨
    ∃ iReadLen mcu hardware, s.place = .read iReadLen ∧ 0 < iReadLen ∧ s.mcu ≠ [] ∧
      s' = { s with mcu := mcu, hardware := hardware, place := .look 16 } ∧
      (s.lpcWorkEn = true → mcu = s.mcu.drop iReadLen) := by
  have hserving := h.serving
  unfold Lpc.workStep at hs
  cases hat : s.place with
  | idle =>
    rw [hat] at hs
    dsimp only at hs
    split at hs
    · next hscheduled =>
      cases hs
      exact .inl ⟨rfl, hscheduled, rfl⟩
    · cases hs
  | look iReadLen =>
    rw [hat] at hs hserving
    dsimp only at hs
    split at hs
    · next hlow =>
      cases hs
      exact .inr (.inl ⟨iReadLen, rfl, hserving, hlow, rfl⟩)
    · next hhigh =>
      cases hs
      exact .inr (.inr (.inl ⟨iReadLen, rfl, not_not.mp hhigh, rfl⟩))
  | read iReadLen =>
    rw [hat] at hs hserving
    obtain ⟨mcu, hardware, p, hread, -, hdrop⟩ := actualReadFromMCU_spec hkept iReadLen
    simp only [hread] at hs
    cases hs
    exact .inr (.inr (.inr ⟨iReadLen, mcu, hardware, rfl, hserving.1, hserving.2, rfl, hdrop⟩))
  | _ =>
    rw [hat] at hserving
    exact hserving.elim

/-- While the work is awake, every step leaves it so. -/
theorem Awake.step {s s' : State} {e : Event} {o o' : List Obs} (h : Awake s)
    (hkept : Kept filler o s.mcu s.hardware) (hs : Lpc.step filler s e = some (s', o')) :
    Awake s' := by
  cases e with
  | put payload =>
    cases hs
    refine ⟨h.added, ?_, fun _ => ?_⟩
    · have hserving := h.serving
      cases hat : s.place with
      | read iReadLen =>
        rw [hat] at hserving
        exact ⟨hserving.1, by simp [hserving.2]⟩
      | _ =>
        rw [hat] at hserving
        exact hserving
    · by_cases hmcu : s.mcu = []
      · -- the line falls now, and there is a handler
        left
        simp [hmcu, h.added]
      · -- the line was low before, and stays so
        rcases h.heard hmcu with hedge | hothers
        · left
          simp [hedge]
        · exact .inr hothers
  | isr =>
    unfold Lpc.step at hs
    dsimp only at hs
    split at hs
    · cases hs
      exact ⟨h.added, h.serving, fun _ => .inr (.inl rfl)⟩
    · cases hs
  | work =>
    -- the work is left only where the line is seen high
    rcases h.work_cases hkept hs with ⟨-, -, rfl⟩ | ⟨n, -, hn, hlow, rfl⟩ | ⟨n, -, hhigh, rfl⟩ |
      ⟨n, mcu, hardware, -, -, -, rfl, -⟩
    · exact ⟨h.added, Nat.succ_pos 11, fun _ => .inr (.inr (by simp))⟩
    · exact ⟨h.added, ⟨hn, hlow⟩, fun _ => .inr (.inr (by simp))⟩
    · exact ⟨h.added, trivial, fun hlow => absurd hhigh hlow⟩
    · exact ⟨h.added, Nat.succ_pos 15, fun _ => .inr (.inr (by simp))⟩
  | enable lpcWorkEn =>
    cases hs
    exact ⟨h.added, h.serving, h.heard⟩

/-- At rest, nothing waits. -/
theorem Awake.quiet {s : State} {o : List Obs} (h : Awake s)
    (hkept : Kept filler o s.mcu s.hardware) (hquiet : Quiet filler s) : s.mcu = [] := by
  obtain ⟨hisr, hwork⟩ := hquiet
  rcases hkept.workStep with ⟨-, hidle, hscheduled⟩ | ⟨t, p, hsome, -⟩
  · by_contra hmcu
    rcases h.heard hmcu with hedge | hothers
    · simp [Lpc.step, hedge] at hisr
    · simp [hscheduled, hidle] at hothers
  · cases hwork.symm.trans hsome

/-- Nobody hears, and a further frame does not make the line fall. -/
theorem Deaf.step {s s' : State} {e : Event} {o : List Obs} (h : Deaf s)
    (hs : Lpc.step filler s e = some (s', o)) :
    Deaf s' ∧ o.filterMap Obs.dealt = [] := by
  cases e with
  | put payload =>
    cases hs
    refine ⟨⟨?_, h.scheduled, h.place, by simp [h.waiting]⟩, rfl⟩
    simp [h.edge, h.waiting]
  | isr => simp [Lpc.step, h.edge] at hs
  | work => simp [Lpc.step, workStep, h.place, h.scheduled] at hs
  | enable lpcWorkEn =>
    cases hs
    exact ⟨⟨h.edge, h.scheduled, h.place, h.waiting⟩, rfl⟩

/-- A deaf system does nothing with what comes. -/
theorem Deaf.quiet {s : State} (h : Deaf s) : Quiet filler s := by
  constructor
  · simp [Lpc.step, h.edge]
  · simp [Lpc.step, workStep, h.place, h.scheduled]

/-- `mcuFirstInit` is not over. -/
def Place.First : Place → Prop
  | .firstLook _ => True
  | .firstRead _ => True
  | .adding => True
  | _ => False

/-- Before the handler is added there is no interrupt, and no work. -/
def Booting (s : State) : Prop :=
  s.place.First → s.added = false ∧ s.edge = false ∧ s.scheduled = false

/-- Until the interrupt is there, every step leaves it so. -/
theorem Booting.step {s s' : State} {e : Event} {o o' : List Obs} (h : Booting s)
    (hkept : Kept filler o s.mcu s.hardware) (hs : Lpc.step filler s e = some (s', o')) :
    Booting s' := by
  cases e with
  | put payload =>
    cases hs
    intro hfirst
    obtain ⟨hadded, hedge, hscheduled⟩ := h hfirst
    exact ⟨hadded, by simp [hedge, hadded], hscheduled⟩
  | isr =>
    unfold Lpc.step at hs
    dsimp only at hs
    split at hs
    · next hedge =>
      cases hs
      intro hfirst
      exact absurd ((h hfirst).2.1.symm.trans hedge) (by decide)
    · cases hs
  | work =>
    -- a move that stays in `mcuFirstInit` came from there, and touches no flag
    have hs : workStep filler s = some (s', o') := hs
    unfold workStep at hs
    cases hat : s.place with
    | firstLook count =>
      have hno := h (by rw [hat]; trivial)
      rw [hat] at hs
      dsimp only at hs
      split at hs <;> cases hs <;> exact fun _ => hno
    | firstRead count =>
      have hno := h (by rw [hat]; trivial)
      obtain ⟨mcu, hardware, p, hread, -, -⟩ := actualReadFromMCU_spec hkept 32
      rw [hat] at hs
      simp only [hread] at hs
      cases hs
      exact fun _ => hno
    | adding =>
      rw [hat] at hs
      cases hs
      exact False.elim
    | idle =>
      rw [hat] at hs
      dsimp only at hs
      split at hs <;> cases hs
      exact False.elim
    | look iReadLen =>
      rw [hat] at hs
      dsimp only at hs
      split at hs <;> cases hs <;> exact False.elim
    | read iReadLen =>
      obtain ⟨mcu, hardware, p, hread, -, -⟩ := actualReadFromMCU_spec hkept iReadLen
      rw [hat] at hs
      simp only [hread] at hs
      cases hs
      exact False.elim
  | enable lpcWorkEn =>
    cases hs
    exact h

/-- Where `mcuFirstInit` adds the handler. -/
theorem booted {boot : List Event} {s : State} {o : List Obs}
    (hboot : run (step filler) State.init boot = some (s, o)) :
    Kept filler o s.mcu s.hardware ∧ Booting s := by
  have hinit : Kept filler [] State.init.mcu State.init.hardware ∧ Booting State.init :=
    ⟨Kept.init, fun _ => ⟨rfl, rfl, rfl⟩⟩
  exact run_preserves_observed (I := fun o s => Kept filler o s.mcu s.hardware ∧ Booting s)
    (fun _ _ _ _ _ h hs => ⟨h.1.step hs, h.2.step h.1 hs⟩) hinit hboot

theorem run_adding {s s' : State} {events : List Event} {o : List Obs} (hat : s.place = .adding)
    (hrun : run (step filler) s (.work :: events) = some (s', o)) :
    run (step filler) { s with added := true, place := .idle } events = some (s', o) := by
  obtain ⟨t, o₁, o₂, hadd, hrest, rfl⟩ := run_cons_inv hrun
  simp only [step, workStep, hat] at hadd
  cases hadd
  exact hrest

/-- Added with the line high, the handler hears of every byte. -/
theorem awake_run {boot events : List Event} {s s' : State} {o o' : List Obs}
    (hboot : run (step filler) State.init boot = some (s, o)) (hat : s.place = .adding)
    (hhigh : s.mcu = []) (hrun : run (step filler) s (.work :: events) = some (s', o')) :
    Kept filler (o ++ o') s'.mcu s'.hardware ∧ Awake s' := by
  have hawake : Awake { s with added := true, place := .idle } :=
    ⟨rfl, trivial, fun hlow => absurd hhigh hlow⟩
  exact run_preserves_observed (I := fun o s => Kept filler o s.mcu s.hardware ∧ Awake s)
    (fun _ _ _ _ _ h hs => ⟨h.1.step hs, h.2.step h.1 hs⟩) ⟨(booted hboot).1, hawake⟩
    (run_adding hat hrun)

/-- Added with the line low, it hears of none. -/
theorem deaf_run {boot events : List Event} {s s' : State} {o o' : List Obs}
    (hboot : run (step filler) State.init boot = some (s, o)) (hat : s.place = .adding)
    (hlow : s.mcu ≠ []) (hrun : run (step filler) s (.work :: events) = some (s', o')) :
    Deaf s' ∧ o'.filterMap Obs.dealt = [] := by
  obtain ⟨-, hedge, hscheduled⟩ := (booted hboot).2 (by rw [hat]; trivial)
  have hdeaf : Deaf { s with added := true, place := .idle } := ⟨hedge, hscheduled, rfl, hlow⟩
  have hinit : Deaf { s with added := true, place := .idle } ∧ [].filterMap Obs.dealt = [] :=
    ⟨hdeaf, rfl⟩
  refine run_preserves_observed (I := fun o s => Deaf s ∧ o.filterMap Obs.dealt = [])
    (fun o s e s' o' h hs => ?_) hinit (run_adding hat hrun)
  obtain ⟨hdeaf', hnone⟩ := h.1.step hs
  refine ⟨hdeaf', ?_⟩
  rw [List.filterMap_append, h.2, hnone]
  rfl

/-- **The line must be high when the handler is added.** If it is, whenever the handler and
the work have nothing to do the MCU has nothing left, whatever came between; if it is not,
they never have anything to do, and nothing is handed over any more. -/
theorem hears_iff {boot : List Event} {s : State} {o : List Obs}
    (hboot : run (step filler) State.init boot = some (s, o)) (hat : s.place = .adding) :
    ((∀ events s' o', run (step filler) s (.work :: events) = some (s', o') →
        Quiet filler s' → s'.mcu = []) ↔ s.mcu = []) ∧
      (s.mcu ≠ [] → ∀ events s' o', run (step filler) s (.work :: events) = some (s', o') →
        Quiet filler s' ∧ o'.filterMap Obs.dealt = []) := by
  refine ⟨⟨fun h => ?_, fun hhigh events s' o' hrun hquiet => ?_⟩, ?_⟩
  · by_contra hlow
    have hadd : step filler s .work = some ({ s with added := true, place := .idle }, []) := by
      simp only [step, workStep, hat]
    have hrun := run_singleton hadd
    have hquiet : Quiet filler { s with added := true, place := .idle } :=
      (deaf_run hboot hat hlow hrun).1.quiet
    exact hlow (h [] { s with added := true, place := .idle } [] hrun hquiet)
  · obtain ⟨hkept, hawake⟩ := awake_run hboot hat hhigh hrun
    exact hawake.quiet hkept hquiet
  · intro hlow events s' o' hrun
    obtain ⟨hdeaf, hnone⟩ := deaf_run hboot hat hlow hrun
    exact ⟨hdeaf.quiet, hnone⟩

/-- A frame comes between the last look at the line and `SOC_IO_ISR_Add`. -/
theorem hears_iff_late :
    let s : State := ⟨wire [0x96], false, false, false, .adding, true, globalHardwareInfo⟩
    ((∀ events s' o', run (step 0) s (.work :: events) = some (s', o') →
        Quiet 0 s' → s'.mcu = []) ↔ s.mcu = []) ∧
      (s.mcu ≠ [] → ∀ events s' o', run (step 0) s (.work :: events) = some (s', o') →
        Quiet 0 s' ∧ o'.filterMap Obs.dealt = []) := by
  intro s
  have hboot : run (step 0) State.init [.work, .put ⟨[0x96], by decide⟩] =
      some (s, [.put ⟨[0x96], by decide⟩]) := rfl
  exact hears_iff hboot rfl

/-! ## How long the work runs -/

def Place.weight : Place → Nat
  | .look _ => 1
  | _ => 0

/-- How many moves are left at most. -/
def State.left (s : State) : Nat :=
  2 * s.mcu.length + s.place.weight + (if s.scheduled then 2 else 0) + (if s.edge then 3 else 0)

/-- Each move of the interrupt or the work leaves less to do. -/
theorem Awake.left_step {s s' : State} {e : Event} {o o' : List Obs} (h : Awake s)
    (hkept : Kept filler o s.mcu s.hardware) (hen : s.lpcWorkEn = true)
    (he : e = .isr ∨ e = .work) (hs : Lpc.step filler s e = some (s', o')) :
    s'.left + 1 ≤ s.left ∧ s'.lpcWorkEn = true := by
  rcases he with rfl | rfl
  · unfold Lpc.step at hs
    dsimp only at hs
    split at hs
    · next hedge =>
      cases hs
      refine ⟨?_, hen⟩
      simp only [State.left, hedge, if_true, Bool.false_eq_true, if_false]
      split <;> omega
    · cases hs
  · rcases h.work_cases hkept hs with ⟨hat, hscheduled, rfl⟩ | ⟨n, hat, hn, hlow, rfl⟩ |
      ⟨n, hat, hhigh, rfl⟩ | ⟨n, mcu, hardware, hat, hn, hlow, rfl, hdrop⟩
    · refine ⟨?_, hen⟩
      simp only [State.left, hat, hscheduled, Place.weight, if_true, Bool.false_eq_true, if_false]
      omega
    · refine ⟨?_, hen⟩
      simp only [State.left, hat, Place.weight]
      omega
    · refine ⟨?_, hen⟩
      simp only [State.left, hat, Place.weight]
      omega
    · refine ⟨?_, hen⟩
      have hpos := List.length_pos_iff.mpr hlow
      simp only [State.left, hat, Place.weight, hdrop hen, List.length_drop]
      omega

/-- **Nothing is left behind.** With the handler added while the line was high, from any
state reached with the driver enabled the handler and the work are done after at most so
many moves if nothing more is put, and then every frame put has been handed over. -/
theorem deliveries_drain {boot events moves : List Event} {s s' s'' : State}
    {o o' o'' : List Obs} (hboot : run (step filler) State.init boot = some (s, o))
    (hat : s.place = .adding) (hhigh : s.mcu = [])
    (hrun : run (step filler) s (.work :: events) = some (s', o')) (hen : s'.lpcWorkEn = true)
    (hmoves : ∀ e ∈ moves, e = .isr ∨ e = .work)
    (hrest : run (step filler) s' moves = some (s'', o'')) :
    moves.length ≤ s'.left ∧ (Quiet filler s'' →
      (o ++ o' ++ o'').filterMap Obs.dealt = (o ++ o' ++ o'').filterMap Obs.putBytes) := by
  obtain ⟨hkept, hawake⟩ := awake_run hboot hat hhigh hrun
  refine ⟨?_, fun hquiet => ?_⟩
  · have hmeasure := run_measure (C := fun e => e = .isr ∨ e = .work) (m := State.left)
      (I := fun o s => Kept filler o s.mcu s.hardware ∧ Awake s ∧ s.lpcWorkEn = true)
      (fun o s e s' o' h he hs => by
        obtain ⟨hless, hen'⟩ := h.2.1.left_step h.1 h.2.2 he hs
        exact ⟨⟨h.1.step hs, h.2.1.step h.1 hs, hen'⟩, hless⟩)
      ⟨hkept, hawake, hen⟩ hmoves hrest
    omega
  · have hall := awake_run hboot hat hhigh (run_append hrun hrest)
    rw [← List.append_assoc] at hall
    exact hall.1.inOrder.2 (hall.2.quiet hall.1 hquiet)

/-- Two frames, once the handler is added, and the moves that hand them over. -/
theorem deliveries_drain_two :
    let first : Payload := ⟨[0x96, 0, 0x7f], by decide⟩
    let second : Payload := ⟨[1], by decide⟩
    let s' : State := ⟨wire first.bytes ++ wire second.bytes, true, true, false, .idle, true,
      globalHardwareInfo⟩
    ∃ s'' o'', run (step 0xFF) s' [.isr, .work, .work, .work, .work] = some (s'', o'') ∧
      5 ≤ s'.left ∧ (Quiet 0xFF s'' →
        ([] ++ [Obs.put first, Obs.put second] ++ o'').filterMap Obs.dealt =
          ([] ++ [Obs.put first, Obs.put second] ++ o'').filterMap Obs.putBytes) := by
  intro first second s'
  have hsome : (run (step 0xFF) s' [.isr, .work, .work, .work, .work]).isSome = true := by
    decide +kernel
  obtain ⟨⟨s'', o''⟩, hrest⟩ := Option.isSome_iff_exists.mp hsome
  let s : State := ⟨[], false, false, false, .adding, true, globalHardwareInfo⟩
  have hboot : run (step 0xFF) State.init [.work] = some (s, []) := rfl
  have hrun : run (step 0xFF) s [.work, .put first, .put second] =
      some (s', [.put first, .put second]) := rfl
  exact ⟨s'', o'', hrest, deliveries_drain hboot rfl rfl hrun rfl (by simp) hrest⟩

end Deliveries

end Lidbg.Lpc
