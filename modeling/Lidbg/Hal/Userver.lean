import Lidbg.Machine.Run
import Lidbg.Machine.CStr
import Mathlib.Data.List.Find

/-!
# The uevent daemon (`hal/lidbg_userver/lidbg_userver.c`)

`lidbg_uevent_callback` receives one kernel message into a static buffer, cuts
it into fields, and hands the `LIDBG_PARAMETER` of a message of its own device
to `system()`. A step is one call on the buffer the calls before it left;
`none` is a read behind the buffer.

- `parseLoop`: the pointer walk of `parse_uevent`. It steps over the NUL of a
  field and looks at what follows, so the walk ends inside the message only if
  the message itself ends in a NUL or holds an empty field (`Closed`).
- `sound_iff`: which calls act on their own message alone.
-/

namespace Lidbg.Userver

open Machine

/-- `LIDBG_UEVENT_MSG_LEN`. -/
abbrev msgLen : Nat := 512

/-- `struct uevent`: the string each pointer points at. -/
structure Uevent where
  action : List UInt8
  devpath : List UInt8
  subsystem : List UInt8
  devname : List UInt8
  lidbgAction : List UInt8
  lidbgParameter : Option (List UInt8)
deriving DecidableEq

/-! ## `parse_uevent` -/

/-- The branches of `parse_uevent`, in their order: a prefix, and the pointer
that is set to what follows it. -/
def ueventFields : List (List UInt8 × (Uevent → List UInt8 → Uevent)) :=
  [(ascii "ACTION=", fun uevent s => { uevent with action := s }),
   (ascii "DEVPATH=", fun uevent s => { uevent with devpath := s }),
   (ascii "SUBSYSTEM=", fun uevent s => { uevent with subsystem := s }),
   (ascii "DEVNAME=", fun uevent s => { uevent with devname := s }),
   (ascii "LIDBG_ACTION=", fun uevent s => { uevent with lidbgAction := s }),
   (ascii "LIDBG_PARAMETER=", fun uevent s => { uevent with lidbgParameter := some s })]

/-- The `strncmp` chain: the first prefix that fits moves `msg` behind it. -/
def readField (uevent : Uevent) (msg : List UInt8) : Uevent × List UInt8 :=
  match ueventFields.find? fun field => field.1.isPrefixOf msg with
  | some field =>
    (field.2 uevent (cstr (msg.drop field.1.length)), msg.drop field.1.length)
  | none => (uevent, msg)

/-- `while (*msg)`. An empty `msg` is a pointer behind the buffer. -/
def parseLoop : Nat → Uevent → List UInt8 → Option Uevent
  | 0, _, _ => none
  | _ + 1, _, [] => none
  | fuel + 1, uevent, b :: msg =>
    if b = 0 then some uevent
    else
      match skipStr (readField uevent (b :: msg)).2 with
      | none => none
      | some next => parseLoop fuel (readField uevent (b :: msg)).1 next

/-- Every field consumes its NUL, so the length of the buffer is fuel enough
(`parse_cons`). -/
def parse (uevent : Uevent) (msg : List UInt8) : Option Uevent :=
  parseLoop (msg.length + 1) uevent msg

def nullUevent : Uevent :=
  ⟨ascii "null", ascii "null", ascii "null", ascii "null", ascii "null", none⟩

def parseUevent (msg : List UInt8) : Option Uevent :=
  parse nullUevent msg

/-! ## `lidbg_uevent_callback` -/

/-- `lidbg_parse_action`; its one action passes the parameter to `system()`. -/
def lidbgParseAction : List (List UInt8) :=
  [ascii "shell"]

/-- What `lidbg_uevent_process` passes to `system()`, if anything. -/
def lidbgUeventProcess (uevent : Uevent) : Option (List UInt8) :=
  match uevent.lidbgParameter with
  | none => none
  | some para => if uevent.lidbgAction ∈ lidbgParseAction then some para else none

/-- `memreplace`. -/
def memreplace (drr : List UInt8) (dest replace : UInt8) (len : Int) : List UInt8 :=
  (drr.take len.toNat).map (fun b => if b = dest then replace else b) ++ drr.drop len.toNat

/-- `static char msg[LIDBG_UEVENT_MSG_LEN + 1]`. Only NULs are ever stored to
the last byte. -/
structure Msg where
  bytes : List UInt8
  length_bytes : bytes.length = msgLen + 1
  nul_last : bytes[msgLen]? = some 0

/-- What `uevent_kernel_multicast_recv` does: fail, or store at most the bytes
it was given room for. -/
inductive Recv where
  | failed
  | received (b : List UInt8) (h : b.length ≤ msgLen)

/-- Its return value. -/
def Recv.n : Recv → Int
  | failed => -1
  | received b _ => b.length

def Recv.stored : Recv → List UInt8
  | failed => []
  | received b _ => b

theorem Recv.length_stored_le (r : Recv) : r.stored.length ≤ msgLen := by
  cases r with
  | failed => exact Nat.zero_le _
  | received b h => exact h

theorem Recv.n_le (r : Recv) : r.n ≤ msgLen := by
  cases r with
  | failed => exact Int.le_trans (Int.le_of_lt (Int.negSucc_lt_zero 0)) (Int.natCast_nonneg _)
  | received b h => exact Int.ofNat_le.mpr h

namespace Msg

def zeroed : Msg :=
  ⟨List.replicate (msgLen + 1) 0, List.length_replicate,
    List.getElem?_replicate_of_lt (Nat.lt_succ_self msgLen)⟩

/-- The buffer after the receive. -/
def recv (msg : Msg) (r : Recv) : Msg where
  bytes := r.stored ++ msg.bytes.drop r.stored.length
  length_bytes := by
    have := r.length_stored_le
    rw [List.length_append, List.length_drop, msg.length_bytes]
    omega
  nul_last := by
    have h := r.length_stored_le
    rw [List.getElem?_append_right h, List.getElem?_drop, Nat.add_sub_cancel' h]
    exact msg.nul_last

/-- `msg[n] = '\0'`; a negative `n` is outside of the buffer. -/
def terminate (msg : Msg) (n : Int) : Msg where
  bytes := if n < 0 then msg.bytes else msg.bytes.set n.toNat 0
  length_bytes := by
    split
    · exact msg.length_bytes
    · rw [List.length_set, msg.length_bytes]
  nul_last := by
    split
    · exact msg.nul_last
    · rw [List.getElem?_set]
      split_ifs with h h'
      · rfl
      · rw [h, msg.length_bytes] at h'
        exact absurd (Nat.lt_succ_self _) h'
      · exact msg.nul_last

/-- `memreplace(msg, '\0', ' ', n - 1)`. -/
def blank (msg : Msg) (n : Int) (h : n ≤ msgLen) : Msg where
  bytes := memreplace msg.bytes 0 0x20 (n - 1)
  length_bytes := by
    rw [memreplace, List.length_append, List.length_map, ← List.length_append,
      List.take_append_drop, msg.length_bytes]
  nul_last := by
    have hlen := msg.length_bytes
    have hn : (n - 1).toNat ≤ msgLen := by omega
    have htake : (msg.bytes.take (n - 1).toNat).length = (n - 1).toNat := by
      rw [List.length_take]
      omega
    rw [memreplace, List.getElem?_append_right (by rw [List.length_map, htake]; exact hn),
      List.length_map, htake, List.getElem?_drop, Nat.add_sub_cancel' hn]
    exact msg.nul_last

end Msg

/-- What a call does: where it stores the terminator, what it runs, and the
text it passes on. -/
structure Outcome where
  terminator : Option Int
  system : Option (List UInt8)
  transfer : Option (List UInt8)
deriving DecidableEq

/-- `lidbg_uevent_callback`, with the receive it makes. -/
def lidbgUeventCallback : Step Msg Recv Outcome := fun msg r =>
  if r.n > msgLen then some (msg.recv r, [⟨none, none, none⟩])
  else
    match parseUevent ((msg.recv r).terminate r.n).bytes with
    | none => none
    | some uevent =>
      if uevent.devname = ascii "lidbg_uevent" then
        some ((msg.recv r).terminate r.n, [⟨some r.n, lidbgUeventProcess uevent, none⟩])
      else if ¬ uevent.subsystem <:+: ascii "cpu,power_supply" then
        let msg' := ((msg.recv r).terminate r.n).blank r.n r.n_le
        some (msg', [⟨some r.n, none, some (cstr msg'.bytes)⟩])
      else some ((msg.recv r).terminate r.n, [⟨some r.n, none, none⟩])

/-! ## What the walk does with one field -/

theorem nul_notMem_key : ∀ field ∈ ueventFields, 0 ∉ field.1 := by
  decide

/-- A prefix without NUL is looked for in the string, not behind it. -/
theorem isPrefixOf_append_nul {k : List UInt8} (hk : 0 ∉ k) (s l : List UInt8) :
    k.isPrefixOf (s ++ 0 :: l) = k.isPrefixOf s := by
  induction k generalizing s with
  | nil => rfl
  | cons a k ih =>
    rw [List.mem_cons, not_or] at hk
    cases s with
    | nil =>
      rw [List.nil_append, List.isPrefixOf_cons_cons, beq_eq_false_iff_ne.mpr (Ne.symm hk.1)]
      rfl
    | cons b s =>
      rw [List.cons_append, List.isPrefixOf_cons_cons, List.isPrefixOf_cons_cons, ih hk.2]

/-- A field is read the same whatever stands behind its NUL. -/
theorem readField_append_nul (uevent : Uevent) {s : List UInt8} (hs : 0 ∉ s) (l : List UInt8) :
    readField uevent (s ++ 0 :: l) =
      ((readField uevent s).1, (readField uevent s).2 ++ 0 :: l) := by
  have hfind : ueventFields.find? (fun field => field.1.isPrefixOf (s ++ 0 :: l)) =
      ueventFields.find? (fun field => field.1.isPrefixOf s) :=
    List.find?_congr fun field hfield => isPrefixOf_append_nul (nul_notMem_key field hfield) s l
  rw [readField, readField, hfind]
  cases hf : ueventFields.find? (fun field => field.1.isPrefixOf s) with
  | none => rfl
  | some field =>
    have hle : field.1.length ≤ s.length :=
      (List.isPrefixOf_iff_prefix.mp (by simpa using List.find?_some hf)).length_le
    have hdrop : 0 ∉ s.drop field.1.length := fun h => hs (List.mem_of_mem_drop h)
    dsimp only
    rw [List.drop_append_of_le_length hle, cstr_append_nul hdrop, cstr_of_notMem hdrop]

theorem nul_notMem_readField (uevent : Uevent) {s : List UInt8} (hs : 0 ∉ s) :
    0 ∉ (readField uevent s).2 := by
  unfold readField
  split
  · exact fun h => hs (List.mem_of_mem_drop h)
  · exact hs

/-! ## The walk without its fuel -/

theorem length_skipStr {mem rest : List UInt8} (h : skipStr mem = some rest) :
    rest.length < mem.length := by
  induction mem with
  | nil => cases h
  | cons b mem ih =>
    rw [skipStr] at h
    split at h
    · cases h
      exact Nat.lt_succ_self _
    · exact Nat.lt_succ_of_lt (ih h)

theorem length_readField (uevent : Uevent) (msg : List UInt8) :
    (readField uevent msg).2.length ≤ msg.length := by
  unfold readField
  split
  · rw [List.length_drop]
    exact Nat.sub_le _ _
  · exact Nat.le_refl _

/-- A turn of the loop leaves less of the buffer. -/
theorem length_next_lt {uevent : Uevent} {msg next : List UInt8}
    (h : skipStr (readField uevent msg).2 = some next) : next.length < msg.length :=
  Nat.lt_of_lt_of_le (length_skipStr h) (length_readField uevent msg)

/-- Any fuel above the length of the buffer does. -/
theorem parseLoop_fuel {fuel fuel' : Nat} (uevent : Uevent) {msg : List UInt8}
    (h : msg.length < fuel) (h' : msg.length < fuel') :
    parseLoop fuel uevent msg = parseLoop fuel' uevent msg := by
  induction fuel generalizing fuel' uevent msg with
  | zero => exact absurd h (Nat.not_lt_zero _)
  | succ fuel ih =>
    cases fuel' with
    | zero => exact absurd h' (Nat.not_lt_zero _)
    | succ fuel' =>
      cases msg with
      | nil => rfl
      | cons b msg =>
        rw [parseLoop, parseLoop]
        cases hskip : skipStr (readField uevent (b :: msg)).2 with
        | none => rfl
        | some next =>
          have hlt := length_next_lt hskip
          dsimp only
          rw [ih _ (by omega) (by omega : next.length < fuel')]

theorem parse_nil (uevent : Uevent) : parse uevent [] = none := rfl

theorem parse_nul (uevent : Uevent) (msg : List UInt8) :
    parse uevent (0 :: msg) = some uevent := rfl

/-- The walk as one turn of the loop. -/
theorem parse_cons (uevent : Uevent) {b : UInt8} (hb : b ≠ 0) (msg : List UInt8) :
    parse uevent (b :: msg) =
      match skipStr (readField uevent (b :: msg)).2 with
      | none => none
      | some next => parse (readField uevent (b :: msg)).1 next := by
  rw [parse, parseLoop, if_neg hb]
  cases hskip : skipStr (readField uevent (b :: msg)).2 with
  | none => rfl
  | some next =>
    have hlt := length_next_lt hskip
    exact parseLoop_fuel _ (by omega) (Nat.lt_succ_self _)

/-- **One field**: the walk steps over its NUL. -/
theorem parse_field (uevent : Uevent) {s : List UInt8} (hs : 0 ∉ s) (hne : s ≠ [])
    (l : List UInt8) : parse uevent (s ++ 0 :: l) = parse (readField uevent s).1 l := by
  have hread := readField_append_nul uevent hs l
  cases s with
  | nil => exact absurd rfl hne
  | cons b s =>
    rw [List.cons_append] at hread ⊢
    rw [parse_cons uevent (fun h => hs (h ▸ List.mem_cons_self)), hread,
      skipStr_append_nul (nul_notMem_readField uevent hs)]

/-! ## One call -/

/-- What `system()` gets once the fields are known. -/
def systemOf (uevent : Uevent) : Option (List UInt8) :=
  if uevent.devname = ascii "lidbg_uevent" then lidbgUeventProcess uevent else none

/-- A call is the parse of what the buffer then holds. -/
theorem callback_of_parse {msg : Msg} {r : Recv} {uevent : Uevent}
    (h : parseUevent ((msg.recv r).terminate r.n).bytes = some uevent) :
    ∃ msg' o, lidbgUeventCallback msg r = some (msg', [o]) ∧ o.terminator = some r.n ∧
      o.system = systemOf uevent := by
  have hn := r.n_le
  unfold lidbgUeventCallback systemOf
  rw [if_neg (by omega), h]
  dsimp only
  split_ifs
  · exact ⟨_, _, rfl, rfl, rfl⟩
  · exact ⟨_, _, rfl, rfl, rfl⟩
  · exact ⟨_, _, rfl, rfl, rfl⟩

theorem callback_of_parse_none {msg : Msg} {r : Recv}
    (h : parseUevent ((msg.recv r).terminate r.n).bytes = none) :
    lidbgUeventCallback msg r = none := by
  have hn := r.n_le
  unfold lidbgUeventCallback
  rw [if_neg (by omega), h]

/-- A message of another device, and of a subsystem not ignored, is blanked
and passed on. -/
theorem callback_transfer {msg : Msg} {r : Recv} {uevent : Uevent}
    (h : parseUevent ((msg.recv r).terminate r.n).bytes = some uevent)
    (hdev : uevent.devname ≠ ascii "lidbg_uevent")
    (hsub : ¬ uevent.subsystem <:+: ascii "cpu,power_supply") :
    ∃ os, lidbgUeventCallback msg r =
      some (((msg.recv r).terminate r.n).blank r.n r.n_le, os) := by
  have hn := r.n_le
  unfold lidbgUeventCallback
  rw [if_neg (by omega), h]
  dsimp only
  rw [if_neg hdev, if_pos hsub]
  exact ⟨_, rfl⟩

/-- The message, its terminator, and the stale bytes behind it. -/
theorem bytes_received (msg : Msg) {b : List UInt8} (hb : b.length ≤ msgLen) :
    ((msg.recv (.received b hb)).terminate (Recv.received b hb).n).bytes =
      b ++ 0 :: msg.bytes.drop (b.length + 1) := by
  have hlen := msg.length_bytes
  show (if (b.length : Int) < 0 then b ++ msg.bytes.drop b.length
    else (b ++ msg.bytes.drop b.length).set b.length 0) = _
  rw [if_neg (by omega),
    List.drop_eq_getElem_cons (show b.length < msg.bytes.length by omega), set_length_append]

end Lidbg.Userver
