import Lidbg.Hal.Userver
import Mathlib.Data.List.Infix

/-!
# The daemon runs what it just received

The buffer is static, the index of the terminator is the unchecked return value
of the receive, and `parse_uevent` steps one byte past the last field. So a call
acts on its own message alone exactly when the receive succeeds and the walk
ends inside the message (`SelfContained`); for every other result of the receive
there are earlier messages after which the call leaves the buffer
(`sound_iff`).
-/

namespace Lidbg.Userver

open Machine

/-- The walk over `b` ends in `b`: at an empty field, or at its end behind a
NUL. -/
def Closed (b : List UInt8) : Prop :=
  b = [] ∨ b.head? = some 0 ∨ b.getLast? = some 0 ∨ [0, 0] <:+: b

instance (b : List UInt8) : Decidable (Closed b) :=
  inferInstanceAs (Decidable (_ ∨ _ ∨ _ ∨ _))

/-! ## The walk over a message -/

theorem closed_of_notMem {s : List UInt8} (hs : 0 ∉ s) : Closed s ↔ s = [] := by
  refine ⟨?_, .inl⟩
  rintro (h | h | h | h)
  · exact h
  · exact absurd (List.mem_of_head? h) hs
  · exact absurd (List.mem_of_getLast? h) hs
  · exact absurd (h.subset List.mem_cons_self) hs

theorem infix_append_nul {s : List UInt8} (hs : 0 ∉ s) (rest : List UInt8) :
    [0, 0] <:+: s ++ 0 :: rest ↔ rest.head? = some 0 ∨ [0, 0] <:+: rest := by
  induction s with
  | nil =>
    rw [List.nil_append, List.infix_cons_iff, List.cons_prefix_cons]
    refine or_congr_left ?_
    cases rest with
    | nil => simp
    | cons b rest => simp [eq_comm]
  | cons b s ih =>
    rw [List.mem_cons, not_or] at hs
    rw [List.cons_append, List.infix_cons_iff, List.cons_prefix_cons, ih hs.2]
    exact or_iff_right fun h => hs.1 h.1

theorem closed_append_nul {s : List UInt8} (hs : 0 ∉ s) (hne : s ≠ []) (rest : List UInt8) :
    Closed (s ++ 0 :: rest) ↔ Closed rest := by
  have hhead : (s ++ 0 :: rest).head? ≠ some 0 := by
    rw [List.head?_append_of_ne_nil _ hne]
    exact fun h => hs (List.mem_of_head? h)
  have hlast : (s ++ 0 :: rest).getLast? = some 0 ↔ rest = [] ∨ rest.getLast? = some 0 := by
    rw [List.getLast?_append_cons]
    cases rest with
    | nil => simp
    | cons b rest => simp [List.getLast?_cons_cons]
  rw [Closed, Closed, hlast, infix_append_nul hs]
  constructor
  · rintro (h | h | (h | h) | h | h)
    · exact absurd h (List.append_ne_nil_of_right_ne_nil s (List.cons_ne_nil 0 rest))
    · exact absurd h hhead
    · exact .inl h
    · exact .inr (.inr (.inl h))
    · exact .inr (.inl h)
    · exact .inr (.inr (.inr h))
  · rintro (h | h | h | h)
    · exact .inr (.inr (.inl (.inl h)))
    · exact .inr (.inr (.inr (.inl h)))
    · exact .inr (.inr (.inl (.inr h)))
    · exact .inr (.inr (.inr (.inr h)))

/-- **A closed message is parsed without a look behind it; any other sends the
walk behind its terminator.** -/
theorem parse_message (b : List UInt8) (uevent : Uevent) :
    ∃ uevent', ∀ tail, parse uevent (b ++ 0 :: tail) =
      if Closed b then some uevent' else parse uevent' tail := by
  -- induction over the fields of the message
  induction hn : b.length using Nat.strong_induction_on generalizing b uevent with
  | _ n ih =>
    by_cases hnil : b = []
    · subst hnil
      exact ⟨uevent, fun tail => (if_pos (.inl rfl)).symm⟩
    rcases exists_str_or_notMem b with ⟨s, rest, hs, rfl⟩ | hs
    · by_cases hempty : s = []
      · -- an empty field: the loop condition fails
        subst hempty
        exact ⟨uevent, fun tail => (if_pos (.inr (.inl rfl))).symm⟩
      · have hlt : rest.length < n := by
          rw [← hn, List.length_append, List.length_cons]
          omega
        obtain ⟨uevent', h⟩ := ih rest.length hlt rest (readField uevent s).1 rfl
        refine ⟨uevent', fun tail => ?_⟩
        rw [List.append_assoc, List.cons_append, parse_field uevent hs hempty, h tail]
        simp only [closed_append_nul hs hempty]
    · -- no NUL left: the field ends at the terminator, and the walk steps over it
      refine ⟨(readField uevent b).1, fun tail => ?_⟩
      rw [parse_field uevent hs hnil, if_neg (fun h => hnil ((closed_of_notMem hs).mp h))]

/-! ## The property and its condition -/

/-- The call runs no more than its message asks for: it stays in the buffer,
and runs what it would run on a fresh one; a failed receive runs nothing. -/
def Sound (history : List Recv) (r : Recv) : Prop :=
  ∃ msg os msg' o, run lidbgUeventCallback Msg.zeroed history = some (msg, os) ∧
    lidbgUeventCallback msg r = some (msg', [o]) ∧
    (∀ i ∈ o.terminator, 0 ≤ i ∧ i ≤ msgLen) ∧
    (∃ fresh p, lidbgUeventCallback Msg.zeroed r = some (fresh, [p]) ∧ o.system = p.system) ∧
    (r = .failed → o.system = none)

/-- The receive succeeds, and its message either ends the walk or is one byte
short of filling the buffer, whose last byte is a NUL. -/
def SelfContained : Recv → Prop
  | .failed => False
  | .received b _ => Closed b ∨ b.length + 1 = msgLen

/-- **One step**: a self-contained message is parsed from itself, whatever the
buffer held. -/
theorem parse_selfContained {r : Recv} (h : SelfContained r) :
    ∃ uevent, ∀ msg : Msg, parseUevent ((msg.recv r).terminate r.n).bytes = some uevent := by
  cases r with
  | failed => exact absurd h id
  | received b hb =>
    obtain ⟨uevent, hparse⟩ := parse_message b nullUevent
    refine ⟨uevent, fun msg => ?_⟩
    rw [bytes_received, parseUevent, hparse]
    by_cases hc : Closed b
    · rw [if_pos hc]
    · -- one byte is left behind the terminator, and it is a NUL
      have hlen : b.length + 1 = msgLen := h.resolve_left hc
      have hlast : msg.bytes.drop msgLen = [0] := by
        have hlt : msgLen < msg.bytes.length := by
          rw [msg.length_bytes]
          exact Nat.lt_succ_self _
        have h0 := msg.nul_last
        rw [List.getElem?_eq_getElem hlt, Option.some.injEq] at h0
        rw [List.drop_eq_getElem_cons hlt, h0, List.drop_of_length_le]
        rw [msg.length_bytes]
      rw [if_neg hc, hlen, hlast, parse_nul]

/-- A run of self-contained messages stays in the buffer. -/
theorem run_selfContained {history : List Recv} (h : ∀ q ∈ history, SelfContained q) :
    ∃ msg os, run lidbgUeventCallback Msg.zeroed history = some (msg, os) := by
  have hmeet := stepsMeet_of_forall h lidbgUeventCallback Msg.zeroed
  obtain ⟨msg, os, hrun, -⟩ := run_invariant (I := fun _ _ _ => True)
    (fun _ _ msg q _ hq => by
      obtain ⟨uevent, hparse⟩ := parse_selfContained hq
      obtain ⟨msg', o, hcall, -⟩ := callback_of_parse (hparse msg)
      exact ⟨msg', [o], hcall, trivial⟩)
    trivial hmeet
  exact ⟨msg, os, hrun⟩

theorem sound_of_selfContained {history : List Recv} {r : Recv}
    (hh : ∀ q ∈ history, SelfContained q) (hr : SelfContained r) : Sound history r := by
  obtain ⟨msg, os, hrun⟩ := run_selfContained hh
  obtain ⟨uevent, hparse⟩ := parse_selfContained hr
  obtain ⟨msg', o, hcall, hterm, hsys⟩ := callback_of_parse (hparse msg)
  obtain ⟨fresh, p, hcall', -, hsys'⟩ := callback_of_parse (hparse Msg.zeroed)
  refine ⟨msg, os, msg', o, hrun, hcall, ?_, ⟨fresh, p, hcall', hsys.trans hsys'.symm⟩, ?_⟩
  · intro i hi
    rw [hterm, Option.mem_some_iff] at hi
    subst hi
    refine ⟨?_, r.n_le⟩
    cases r with
    | failed => exact absurd hr id
    | received b hb => exact Int.natCast_nonneg _
  · rintro rfl
    exact absurd hr id

/-! ## Every other result leaves the buffer -/

/-- A message whose walk ends at its first byte, and which fills the buffer
with a text behind it. -/
def spray : Recv :=
  .received (0 :: List.replicate 511 65) (by rw [List.length_cons, List.length_replicate])

theorem selfContained_spray : SelfContained spray :=
  .inl (.inr (.inl rfl))

/-- What it leaves behind the first byte. -/
theorem run_spray : ∃ msg os, run lidbgUeventCallback Msg.zeroed [spray] = some (msg, os) ∧
    msg.bytes = 0x20 :: (List.replicate 511 65 ++ [0]) := by
  have hbytes : ((Msg.zeroed.recv spray).terminate spray.n).bytes =
      0 :: (List.replicate 511 65 ++ [0]) := by
    rw [spray, bytes_received, List.drop_of_length_le]
    · rfl
    · rw [List.length_cons, List.length_replicate]
      exact Nat.le_of_eq Msg.zeroed.length_bytes
  have hparse : parseUevent ((Msg.zeroed.recv spray).terminate spray.n).bytes =
      some nullUevent := by
    rw [hbytes, parseUevent, parse_nul]
  obtain ⟨os, hcall⟩ := callback_transfer hparse (by decide) (by decide)
  have hlen : (spray.n - 1).toNat = 511 := by
    show ((0 :: List.replicate 511 (65 : UInt8)).length - 1 : Int).toNat = 511
    rw [List.length_cons, List.length_replicate]
    rfl
  refine ⟨_, os, run_singleton hcall, ?_⟩
  show memreplace _ 0 0x20 (spray.n - 1) = _
  rw [memreplace, hbytes, hlen, show (511 : Nat) = 510 + 1 from rfl, List.take_succ_cons,
    List.drop_succ_cons, List.take_append_of_le_length, List.drop_append_of_le_length,
    List.take_replicate, List.drop_replicate, List.map_cons, List.map_replicate]
  · show 0x20 :: List.replicate 510 65 ++ (List.replicate 1 65 ++ [0]) =
      0x20 :: (List.replicate (510 + 1) 65 ++ [0])
    rw [List.cons_append, ← List.append_assoc, List.replicate_append_replicate]
  · rw [List.length_replicate]
    omega
  · rw [List.length_replicate]
    omega

/-- A failed receive puts the terminator in front of the buffer. -/
theorem not_sound_failed (history : List Recv) : ¬ Sound history .failed := by
  rintro ⟨msg, os, msg', o, -, hcall, hterm, -⟩
  cases hparse : parseUevent ((msg.recv .failed).terminate Recv.failed.n).bytes with
  | none =>
    rw [callback_of_parse_none hparse] at hcall
    cases hcall
  | some uevent =>
    obtain ⟨msg'', o', hcall', hterm', -⟩ := callback_of_parse hparse
    rw [hcall] at hcall'
    cases hcall'
    exact absurd (hterm (-1) hterm').1 (by decide)

/-- A message that does not end the walk lets it run into what the spray left,
which ends with the buffer. -/
theorem not_sound_spray {b : List UInt8} {hb : b.length ≤ msgLen}
    (h : ¬ SelfContained (.received b hb)) : ¬ Sound [spray] (.received b hb) := by
  obtain ⟨hc, hlen⟩ := not_or.mp h
  rintro ⟨msg, os, msg', o, hrun, hcall, -⟩
  obtain ⟨msg₁, os₁, hrun₁, hbytes⟩ := run_spray
  rw [hrun] at hrun₁
  cases hrun₁
  obtain ⟨uevent, hparse⟩ := parse_message b nullUevent
  have hnone : parseUevent ((msg.recv (.received b hb)).terminate
      (Recv.received b hb).n).bytes = none := by
    rw [bytes_received, parseUevent, hparse, if_neg hc, hbytes, List.drop_succ_cons]
    by_cases hfull : b.length = msgLen
    · rw [hfull, List.drop_of_length_le, parse_nil]
      rw [List.length_append, List.length_replicate, List.length_singleton]
    · -- letters up to the last byte of the buffer, and nothing behind its NUL
      have hle : b.length < 511 := by
        have h512 : msgLen = 512 := rfl
        omega
      have hA : (0 : UInt8) ∉ List.replicate (511 - b.length) 65 := by
        intro h0
        exact absurd (List.mem_replicate.mp h0).2 (by decide)
      have hne : List.replicate (511 - b.length) (65 : UInt8) ≠ [] := by
        rw [Ne, List.replicate_eq_nil_iff]
        omega
      rw [List.drop_append_of_le_length (by rw [List.length_replicate]; omega),
        List.drop_replicate, parse_field uevent hA hne, parse_nil]
  rw [callback_of_parse_none hnone] at hcall
  cases hcall

/-- **A call acts on its own message alone, after every run of self-contained
messages, exactly when its message is self-contained.** -/
theorem sound_iff (r : Recv) :
    SelfContained r ↔ ∀ history, (∀ q ∈ history, SelfContained q) → Sound history r := by
  constructor
  · intro hr history hh
    exact sound_of_selfContained hh hr
  · intro hsound
    by_contra hr
    cases r with
    | failed => exact not_sound_failed [] (hsound [] fun _ hq => nomatch hq)
    | received b hb =>
      refine not_sound_spray hr (hsound [spray] fun q hq => ?_)
      rw [List.mem_singleton.mp hq]
      exact selfContained_spray

/-- A command, as the kernel sends it. -/
def rebootMessage : List UInt8 :=
  ascii "ACTION=change" ++ 0 :: (ascii "LIDBG_ACTION=shell" ++ 0 ::
    (ascii "LIDBG_PARAMETER=reboot" ++ 0 :: (ascii "DEVNAME=lidbg_uevent" ++ [0])))

/-- After it, a failed receive stores in front of the buffer and runs the
command again. -/
theorem failed_receive_repeats :
    (run lidbgUeventCallback Msg.zeroed [.received rebootMessage (by decide), .failed]).map
        (fun r => r.2.map fun o => (o.terminator, o.system)) =
      some [(some 77, some (ascii "reboot")), (some (-1), some (ascii "reboot"))] ∧
    ¬ Sound [.received rebootMessage (by decide)] .failed :=
  ⟨by decide +kernel, not_sound_failed _⟩

end Lidbg.Userver
