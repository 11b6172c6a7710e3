import Lidbg.Hal.Userver

/-!
# Shell commands through uevents (`core/lidbg_uevent.c`)

`uevent_shell` puts a command into the environment of a change event of the
device `lidbg_uevent`; the daemon takes it out again and passes it to
`system()`. Between them stands the kernel: `kobject_uevent_env` joins its own
strings and those of the caller, and the socket hands out at most 512 bytes.

`uevent_shell` formats into 256 bytes, so a command of 240 bytes or more arrives
cut. `bridge_iff` says for which commands and devices nothing but the command
itself is ever run.
-/

namespace Lidbg.Uevent

open Machine Userver

/-- The strings `uevent_shell` adds to the event: `snprintf` keeps 255
characters. -/
def ueventShell (shellCmd : CStr) : List (List UInt8) :=
  [ascii "LIDBG_ACTION=shell", (ascii "LIDBG_PARAMETER=" ++ shellCmd.chars).take 255]

/-- What the kernel knows of `lidbg_uevent_device`, and the event's number. -/
structure Device where
  path : CStr
  major : CStr
  minor : CStr
  seqnum : CStr

/-- The strings of a `KOBJ_CHANGE` event, as `kobject_uevent_env` orders them. -/
def eventStrings (dev : Device) (envp : List (List UInt8)) : List (List UInt8) :=
  [ascii "change@" ++ dev.path.chars, ascii "ACTION=change", ascii "DEVPATH=" ++ dev.path.chars,
    ascii "SUBSYSTEM=misc"] ++ envp ++
  [ascii "MAJOR=" ++ dev.major.chars, ascii "MINOR=" ++ dev.minor.chars,
    ascii "DEVNAME=lidbg_uevent", ascii "SEQNUM=" ++ dev.seqnum.chars]

/-- The message: each string with its NUL. -/
def join (strings : List (List UInt8)) : List UInt8 :=
  strings.flatMap fun s => s ++ [0]

/-- What the daemon receives: at most `LIDBG_UEVENT_MSG_LEN` bytes. -/
def deliver (dev : Device) (shellCmd : CStr) : Recv :=
  .received ((join (eventStrings dev (ueventShell shellCmd))).take msgLen)
    (List.length_take_le _ _)

/-! ## A cut message -/

section Cut

variable {strings : List (List UInt8)}

theorem join_cons (s : List UInt8) (strings : List (List UInt8)) :
    join (s :: strings) = s ++ 0 :: join strings := by
  rw [join, List.flatMap_cons, List.append_assoc]
  rfl

/-- The first strings are joined first. -/
theorem length_join_take_le (strings : List (List UInt8)) {j k : Nat} (h : j ≤ k) :
    (join (strings.take j)).length ≤ (join (strings.take k)).length := by
  have hp : strings.take j <+: strings.take k := List.take_prefix_take_left h
  obtain ⟨rest, hrest⟩ := hp
  rw [← hrest, join, join, List.flatMap_append, List.length_append]
  exact Nat.le_add_right _ _

/-- **A cut keeps whole strings and the start of one more.** -/
theorem take_join (hs : ∀ s ∈ strings, 0 ∉ s) (n : Nat) :
    ∃ k p, (join strings).take n = join (strings.take k) ++ p ∧ 0 ∉ p ∧
      (∀ j ≤ strings.length, (join (strings.take j)).length ≤ n → j ≤ k) ∧
      (join (strings.take k)).length ≤ n := by
  induction strings generalizing n with
  | nil => exact ⟨0, [], List.take_nil, List.not_mem_nil, fun j hj _ => hj, Nat.zero_le n⟩
  | cons s strings ih =>
    have hs0 : 0 ∉ s := hs s List.mem_cons_self
    rw [join_cons]
    by_cases hn : n < s.length + 1
    · -- the cut falls into `s`
      refine ⟨0, s.take n, ?_, fun h => hs0 (List.mem_of_mem_take h), ?_, Nat.zero_le n⟩
      · rw [List.take_append_of_le_length (Nat.le_of_lt_succ hn)]
        rfl
      · rintro (_ | j) hj hle
        · exact Nat.le_refl 0
        · rw [List.take_succ_cons, join_cons, List.length_append, List.length_cons] at hle
          omega
    · obtain ⟨k, p, htake, hp, hmax, hfit⟩ :=
        ih (fun t ht => hs t (List.mem_cons_of_mem s ht)) (n - (s.length + 1))
      have hlen : s.length + (n - s.length) = n := by omega
      have hnul : n - s.length = n - (s.length + 1) + 1 := by omega
      refine ⟨k + 1, p, ?_, hp, ?_, ?_⟩
      · rw [← hlen, List.take_length_add_append, hnul, List.take_succ_cons, htake,
          List.take_succ_cons, join_cons, List.append_assoc, List.cons_append]
      · rintro (_ | j) hj hle
        · exact Nat.zero_le _
        · rw [List.take_succ_cons, join_cons, List.length_append, List.length_cons] at hle
          rw [List.length_cons] at hj
          exact Nat.succ_le_succ (hmax j (Nat.le_of_succ_le_succ hj) (by omega))
      · rw [List.take_succ_cons, join_cons, List.length_append, List.length_cons]
        omega

/-- The fields of whole strings. -/
def readFields (uevent : Uevent) (strings : List (List UInt8)) : Uevent :=
  strings.foldl (fun u s => (readField u s).1) uevent

theorem parse_join (hs : ∀ s ∈ strings, 0 ∉ s ∧ s ≠ []) (uevent : Uevent) (l : List UInt8) :
    parse uevent (join strings ++ l) = parse (readFields uevent strings) l := by
  induction strings generalizing uevent with
  | nil => rfl
  | cons s strings ih =>
    obtain ⟨hs0, hne⟩ := hs s List.mem_cons_self
    rw [join_cons, List.append_assoc, List.cons_append, parse_field uevent hs0 hne,
      ih fun t ht => hs t (List.mem_cons_of_mem s ht)]
    rfl

theorem getLast?_join (hne : strings ≠ []) : (join strings).getLast? = some 0 := by
  rw [← List.dropLast_concat_getLast hne, join, List.flatMap_append, List.flatMap_singleton,
    ← List.append_assoc, List.getLast?_concat]

/-- A string without NUL that is not empty does not end in one. -/
theorem getLast?_append_notMem (l : List UInt8) {p : List UInt8} (hp : 0 ∉ p) (hne : p ≠ []) :
    (l ++ p).getLast? ≠ some 0 := by
  rw [List.getLast?_append_of_ne_nil _ hne]
  exact fun h => hp (List.mem_of_getLast? h)

end Cut

/-! ## The fields of the event -/

section Event

variable (dev : Device) (shellCmd : CStr)

/-- The parameter that arrives. -/
theorem take_parameter :
    (ascii "LIDBG_PARAMETER=" ++ shellCmd.chars).take 255 =
      ascii "LIDBG_PARAMETER=" ++ shellCmd.chars.take 239 := by
  rw [show (255 : Nat) = (ascii "LIDBG_PARAMETER=").length + 239 from rfl,
    List.take_length_add_append]

theorem eventStrings_ok :
    ∀ s ∈ eventStrings dev (ueventShell shellCmd), 0 ∉ s ∧ s ≠ [] := by
  have happ : ∀ {k v : List UInt8}, 0 ∉ k ∧ k ≠ [] → 0 ∉ v → 0 ∉ k ++ v ∧ k ++ v ≠ [] := by
    intro k v hk hv
    exact ⟨List.not_mem_append hk.1 hv, List.append_ne_nil_of_left_ne_nil hk.2 v⟩
  have hcmd : 0 ∉ shellCmd.chars.take 239 := fun h => shellCmd.nul_notMem (List.mem_of_mem_take h)
  rw [eventStrings, ueventShell, take_parameter]
  simp only [List.cons_append, List.nil_append, List.forall_mem_cons, List.not_mem_nil,
    false_imp_iff, implies_true, and_true]
  exact ⟨happ (by decide) dev.path.nul_notMem, by decide,
    happ (by decide) dev.path.nul_notMem, by decide, by decide, happ (by decide) hcmd,
    happ (by decide) dev.major.nul_notMem, happ (by decide) dev.minor.nul_notMem, by decide,
    happ (by decide) dev.seqnum.nul_notMem⟩

/-- What each string of the event does to the fields. -/
def stringEffects : List (Uevent → Uevent) :=
  [id, fun uevent => { uevent with action := cstr (ascii "change") },
    fun uevent => { uevent with devpath := cstr dev.path.chars },
    fun uevent => { uevent with subsystem := cstr (ascii "misc") },
    fun uevent => { uevent with lidbgAction := cstr (ascii "shell") },
    fun uevent => { uevent with lidbgParameter := some (cstr (shellCmd.chars.take 239)) },
    id, id, fun uevent => { uevent with devname := cstr (ascii "lidbg_uevent") }, id]

theorem map_readField :
    (eventStrings dev (ueventShell shellCmd)).map (fun s uevent => (readField uevent s).1) =
      stringEffects dev shellCmd := by
  rw [eventStrings, ueventShell, take_parameter]
  rfl

theorem readFields_take (uevent : Uevent) (k : Nat) :
    readFields uevent ((eventStrings dev (ueventShell shellCmd)).take k) =
      ((stringEffects dev shellCmd).take k).foldl (fun uevent f => f uevent) uevent := by
  rw [← map_readField, ← List.map_take, List.foldl_map]
  rfl

/-- Only `DEVNAME=` names the device. -/
theorem devname_before (uevent : Uevent) {k : Nat} (hk : k < 9) :
    (readFields uevent ((eventStrings dev (ueventShell shellCmd)).take k)).devname =
      uevent.devname := by
  rw [readFields_take]
  match k, hk with
  | 0, _ | 1, _ | 2, _ | 3, _ | 4, _ | 5, _ | 6, _ | 7, _ | 8, _ => rfl

/-- With `DEVNAME=` the whole command is there, as far as it was sent. -/
theorem fields_arrived {k : Nat} (hk : 9 ≤ k) :
    readFields nullUevent ((eventStrings dev (ueventShell shellCmd)).take k) =
      ⟨ascii "change", dev.path.chars, ascii "misc", ascii "lidbg_uevent", ascii "shell",
        some (shellCmd.chars.take 239)⟩ := by
  have hcmd : 0 ∉ shellCmd.chars.take 239 := fun h => shellCmd.nul_notMem (List.mem_of_mem_take h)
  have hall : ((stringEffects dev shellCmd).take k).foldl (fun uevent f => f uevent) nullUevent =
      ⟨cstr (ascii "change"), cstr dev.path.chars, cstr (ascii "misc"),
        cstr (ascii "lidbg_uevent"), cstr (ascii "shell"),
        some (cstr (shellCmd.chars.take 239))⟩ := by
    -- the tenth string does nothing
    rcases Nat.eq_or_lt_of_le hk with rfl | hlt
    · rfl
    · have hlen : (stringEffects dev shellCmd).length ≤ k := hlt
      rw [List.take_of_length_le hlen]
      rfl
  rw [readFields_take, hall, cstr_of_notMem dev.path.nul_notMem, cstr_of_notMem hcmd]
  rfl

/-- **What the daemon parses**: the strings that arrived whole, if the cut falls
between two strings; otherwise the walk leaves the buffer. -/
theorem parse_delivered : ∃ k,
    (9 ≤ k ↔
      (join ((eventStrings dev (ueventShell shellCmd)).take 9)).length ≤ msgLen) ∧
    ∀ msg : Msg, parseUevent ((msg.recv (deliver dev shellCmd)).terminate
        (deliver dev shellCmd).n).bytes =
      if (deliver dev shellCmd).stored.getLast? = some 0 then
        some (readFields nullUevent ((eventStrings dev (ueventShell shellCmd)).take k))
      else none := by
  have hok := eventStrings_ok dev shellCmd
  have hlen : (eventStrings dev (ueventShell shellCmd)).length = 10 := rfl
  generalize hstrings : eventStrings dev (ueventShell shellCmd) = strings at hok hlen ⊢
  obtain ⟨k, p, htake, hp, hmax, hfit⟩ := take_join (fun s hs => (hok s hs).1) msgLen
  refine ⟨k, ⟨fun hk => (length_join_take_le strings hk).trans hfit, hmax 9 (by omega)⟩, ?_⟩
  intro msg
  -- what is stored is `k` whole strings, and the part `p` of the next one
  have hstored : (deliver dev shellCmd).stored = join (strings.take k) ++ p := by
    rw [← htake, ← hstrings]
    rfl
  have hbytes : ((msg.recv (deliver dev shellCmd)).terminate (deliver dev shellCmd).n).bytes =
      (deliver dev shellCmd).stored ++ 0 ::
        msg.bytes.drop ((deliver dev shellCmd).stored.length + 1) :=
    bytes_received msg _
  rw [hbytes, hstored, List.append_assoc, parseUevent,
    parse_join fun s hs => hok s (List.mem_of_mem_take hs)]
  by_cases hnil : p = []
  · subst hnil
    -- nothing is cut, and the buffer has room for a string at least
    have hne : strings.take k ≠ [] := by
      intro hempty
      rw [hempty] at htake
      have hz := congrArg List.length htake
      rw [List.length_take] at hz
      cases strings with
      | nil => cases hlen
      | cons s strings =>
        rw [join_cons, List.length_append, List.length_cons] at hz
        have h512 : msgLen = 512 := rfl
        simp only [join, List.flatMap_nil, List.append_nil, List.length_nil] at hz
        omega
    rw [List.append_nil, if_pos (getLast?_join hne), List.nil_append, parse_nul]
  · -- a string was cut, so the message fills the buffer
    have hfull : (join (strings.take k) ++ p).length = msgLen := by
      rw [← htake, List.length_take, Nat.min_eq_left]
      by_contra hlt
      rw [List.take_of_length_le (Nat.le_of_lt (Nat.lt_of_not_le hlt))] at htake
      refine getLast?_append_notMem (join (strings.take k)) hp hnil ?_
      rw [← htake]
      refine getLast?_join fun h => ?_
      rw [h] at hlen
      cases hlen
    rw [if_neg (getLast?_append_notMem _ hp hnil), hfull,
      List.drop_of_length_le (Nat.le_of_eq msg.length_bytes), parse_field _ hp hnil, parse_nil]

end Event

/-! ## The bridge -/

/-- Whatever the daemon's buffer holds, the event of a command makes it run the
command or nothing. -/
def Bridge (dev : Device) (shellCmd : CStr) : Prop :=
  ∀ msg, ∃ msg' o, lidbgUeventCallback msg (deliver dev shellCmd) = some (msg', [o]) ∧
    (o.system = none ∨ o.system = some shellCmd.chars)

/-- **The bridge is faithful exactly when** the 512 bytes the daemon gets end
with a string, and the command, if its event gets there as far as `DEVNAME=`,
has at most 239 bytes. -/
theorem bridge_iff (dev : Device) (shellCmd : CStr) :
    Bridge dev shellCmd ↔
      (deliver dev shellCmd).stored.getLast? = some 0 ∧
      ((join ((eventStrings dev (ueventShell shellCmd)).take 9)).length ≤ msgLen →
        shellCmd.chars.length ≤ 239) := by
  obtain ⟨k, hk, hparse⟩ := parse_delivered dev shellCmd
  by_cases hlast : (deliver dev shellCmd).stored.getLast? = some 0
  · simp only [if_pos hlast] at hparse
    rw [and_iff_right hlast, ← hk]
    constructor
    · intro hbridge h9
      obtain ⟨msg', o, hcall, hsys⟩ := hbridge Msg.zeroed
      obtain ⟨msg'', o', hcall', -, hsys'⟩ := callback_of_parse (hparse Msg.zeroed)
      rw [hcall] at hcall'
      cases hcall'
      rw [fields_arrived dev shellCmd h9] at hsys'
      have htake : o.system = some (shellCmd.chars.take 239) := hsys'
      rcases hsys with hsys | hsys
      · rw [htake] at hsys
        cases hsys
      · rw [htake, Option.some.injEq] at hsys
        exact List.take_eq_self_iff _ |>.mp hsys
    · intro hcmd msg
      obtain ⟨msg', o, hcall, -, hsys⟩ := callback_of_parse (hparse msg)
      refine ⟨msg', o, hcall, ?_⟩
      by_cases h9 : 9 ≤ k
      · right
        rw [hsys, fields_arrived dev shellCmd h9, List.take_of_length_le (hcmd h9)]
        rfl
      · left
        have hdev := devname_before dev shellCmd nullUevent (Nat.lt_of_not_le h9)
        rw [hsys, systemOf, if_neg]
        rw [hdev]
        decide
  · simp only [if_neg hlast] at hparse
    rw [iff_false_intro (fun h => hlast h.1 : ¬ (_ ∧ _)), iff_false]
    -- the walk leaves the buffer, whatever it holds
    intro hbridge
    obtain ⟨msg', o, hcall, -⟩ := hbridge Msg.zeroed
    rw [callback_of_parse_none (hparse Msg.zeroed)] at hcall
    cases hcall

/-- The device as it is registered, and some event. -/
def lidbgUeventDevice : Device where
  path := ⟨ascii "/devices/virtual/misc/lidbg_uevent", by decide⟩
  major := ⟨ascii "10", by decide⟩
  minor := ⟨ascii "55", by decide⟩
  seqnum := ⟨ascii "1734", by decide⟩

/-- A command of 240 bytes. -/
def longCommand : CStr :=
  ⟨ascii "rm -rf /data/cache" ++ List.replicate 222 97, by decide⟩

/-- The last byte of `longCommand` is cut off, and the rest is run. -/
theorem longCommand_cut :
    ¬ Bridge lidbgUeventDevice longCommand ∧
    (lidbgUeventCallback Msg.zeroed (deliver lidbgUeventDevice longCommand)).map
        (fun r => r.2.map fun o => o.system) = some [some (longCommand.chars.take 239)] := by
  have hrun : (lidbgUeventCallback Msg.zeroed (deliver lidbgUeventDevice longCommand)).map
      (fun r => r.2.map fun o => o.system) = some [some (longCommand.chars.take 239)] := by
    decide +kernel
  refine ⟨fun hbridge => ?_, hrun⟩
  obtain ⟨msg', o, hcall, hsys⟩ := hbridge Msg.zeroed
  rw [hcall] at hrun
  have hcut : o.system = some (longCommand.chars.take 239) := by simpa using hrun
  rw [hcut] at hsys
  exact absurd hsys (by decide +kernel)

end Lidbg.Uevent
