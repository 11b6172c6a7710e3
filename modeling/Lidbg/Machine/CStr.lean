import Mathlib.Data.List.TakeWhile

/-!
# Strings in memory

A pointer into a buffer is the list of the bytes from it to the end of the
buffer, so that a read through it past the end is the empty list. The string at
a pointer is what stands before the first NUL.
-/

namespace Lidbg.Machine

/-- The bytes of a string literal, without its NUL. -/
def ascii (s : String) : List UInt8 :=
  s.toList.map fun c => c.toNat.toUInt8

/-- The string at a pointer. -/
def cstr (mem : List UInt8) : List UInt8 :=
  mem.takeWhile (· ≠ 0)

/-- The contents of a NUL-terminated string. -/
@[ext] structure CStr where
  chars : List UInt8
  nul_notMem : 0 ∉ chars
deriving DecidableEq

/-- An array of `n` bytes, whatever it holds. -/
structure CArray (n : Nat) where
  bytes : List UInt8
  length_bytes : bytes.length = n

/-- `while (*msg++) ;`, which leaves `msg` behind the first NUL; `none` reads
past the end. -/
def skipStr : List UInt8 → Option (List UInt8)
  | [] => none
  | b :: rest => if b = 0 then some rest else skipStr rest

/-- `memchr` and a cut there: what stands before and after the first `c`. -/
def cutAt (c : UInt8) : List UInt8 → Option (List UInt8 × List UInt8)
  | [] => none
  | b :: rest =>
    if b = c then some ([], rest)
    else (cutAt c rest).map fun kv => (b :: kv.1, kv.2)

/-- `sprintf` into an array of `size` bytes, which has to hold the text and its
NUL. -/
def sprintf (size : Nat) (text : List UInt8) : Option (List UInt8) :=
  if text.length < size then some text else none

/-- The string in a zeroed array of `size` bytes with `b` stored at its start;
`none` if the array holds no NUL. -/
def zeroedStr (size : Nat) (b : List UInt8) : Option (List UInt8) :=
  let mem := b ++ List.replicate (size - b.length) 0
  if 0 ∈ mem then some (cstr mem) else none

/-- A string and its NUL stored at the start of an array. -/
def storeStr (mem s : List UInt8) : Option (List UInt8) :=
  if s.length < mem.length then some (s ++ 0 :: mem.drop (s.length + 1)) else none

/-- One byte stored in an array. -/
def storeByte (mem : List UInt8) (i : Nat) (b : UInt8) : Option (List UInt8) :=
  if i < mem.length then some (mem.set i b) else none

/-- Bytes stored at the start of an array. -/
def storeBytes (mem b : List UInt8) : Option (List UInt8) :=
  if b.length ≤ mem.length then some (b ++ mem.drop b.length) else none

/-- The string at the start of an array; `none` reads past its end. -/
def loadStr (mem : List UInt8) : Option (List UInt8) :=
  if 0 ∈ mem then some (cstr mem) else none

/-- Nothing behind a NUL is part of the string. -/
theorem cstr_append_nul_cons (p l : List UInt8) : cstr (p ++ 0 :: l) = cstr p := by
  induction p with
  | nil => rfl
  | cons b p ih =>
    unfold cstr at ih ⊢
    by_cases hb : b = 0
    · simp [hb]
    · simp only [List.cons_append, List.takeWhile_cons, ih]

/-- A text without a NUL is itself. -/
theorem cstr_of_notMem {s : List UInt8} (hs : 0 ∉ s) : cstr s = s := by
  unfold cstr
  rw [List.takeWhile_eq_self_iff]
  intro b hb
  exact decide_eq_true fun h => hs (h ▸ hb)

/-- A text ends at the NUL behind it. -/
theorem cstr_append_nul {s : List UInt8} (hs : 0 ∉ s) (l : List UInt8) :
    cstr (s ++ 0 :: l) = s :=
  (cstr_append_nul_cons s l).trans (cstr_of_notMem hs)

/-- A string starts as its memory does. -/
theorem head?_cstr {c : UInt8} (hc : c ≠ 0) (mem : List UInt8) :
    (cstr mem).head? = some c ↔ mem.head? = some c := by
  cases mem with
  | nil => exact Iff.rfl
  | cons b mem =>
    rw [cstr, List.takeWhile_cons]
    split_ifs with hb
    · exact Iff.rfl
    · have hb : b = 0 := by simpa using hb
      rw [hb, List.head?_cons, List.head?_nil]
      exact ⟨fun h => (Option.some_ne_none c h.symm).elim,
        fun h => absurd (Option.some.inj h).symm hc⟩

/-- Reading ends at the first NUL. -/
theorem loadStr_append_nul_cons (p l : List UInt8) : loadStr (p ++ 0 :: l) = some (cstr p) := by
  rw [loadStr, if_pos (by simp), cstr_append_nul_cons]

/-- A text with a NUL behind it is read. -/
theorem loadStr_append_nul {s : List UInt8} (hs : 0 ∉ s) (l : List UInt8) :
    loadStr (s ++ 0 :: l) = some s := by
  rw [loadStr, if_pos (by simp), cstr_append_nul hs]

/-- What stands before the string is read first. -/
theorem loadStr_append {s : List UInt8} (hs : 0 ∉ s) (l : List UInt8) :
    loadStr (s ++ l) = (loadStr l).map (s ++ ·) := by
  unfold loadStr
  by_cases hl : 0 ∈ l
  · have hcstr : cstr (s ++ l) = s ++ cstr l :=
      List.takeWhile_append_of_pos fun b hb => decide_eq_true fun h => hs (h ▸ hb)
    rw [if_pos (List.mem_append_right s hl), if_pos hl, hcstr]
    rfl
  · rw [if_neg (by rw [List.mem_append, not_or]; exact ⟨hs, hl⟩), if_neg hl]
    rfl

/-- What is read is in the memory. -/
theorem length_loadStr_le {mem s : List UInt8} (h : loadStr mem = some s) :
    s.length ≤ mem.length := by
  unfold loadStr at h
  split_ifs at h
  cases h
  exact (List.takeWhile_prefix _).length_le

/-- A string is empty exactly if its memory starts with a NUL. -/
theorem loadStr_eq_nil_iff (mem : List UInt8) : loadStr mem = some [] ↔ mem.head? = some 0 := by
  cases mem with
  | nil => exact iff_of_false (fun h => nomatch h) (fun h => nomatch h)
  | cons b mem =>
    rw [List.head?_cons, Option.some.injEq]
    constructor
    · intro h
      unfold loadStr at h
      split_ifs at h
      have h : cstr (b :: mem) = [] := Option.some.inj h
      by_contra hb
      rw [cstr, List.takeWhile_cons, if_pos (decide_eq_true hb)] at h
      cases h
    · rintro rfl
      exact loadStr_append_nul (s := []) List.not_mem_nil mem

/-- The array after a string was stored: the string, its NUL and what stood
behind. -/
theorem storeStr_of_lt {mem s : List UInt8} (h : s.length < mem.length) :
    storeStr mem s = some (s ++ 0 :: mem.drop (s.length + 1)) :=
  if_pos h

/-- Storing a text leaves the size of the memory. -/
theorem length_storeStr {mem s mem' : List UInt8} (h : storeStr mem s = some mem') :
    mem'.length = mem.length := by
  unfold storeStr at h
  split at h
  · cases h
    simp
    omega
  · cases h

/-- Setting the first byte behind a part. -/
theorem set_length_append {α : Type} (p : List α) (c b : α) (tail : List α) :
    (p ++ c :: tail).set p.length b = p ++ b :: tail := by
  rw [List.set_append_right _ _ (Nat.le_refl _), Nat.sub_self, List.set_cons_zero]

/-- The last element of a prefix, overwritten. -/
theorem set_last_append {α : Type} {p : List α} (hp : p ≠ []) (b : α) (rest : List α) :
    (p ++ rest).set (p.length - 1) b = p.dropLast ++ b :: rest := by
  obtain ⟨init, c, rfl⟩ : ∃ init c, p = init ++ [c] :=
    ⟨_, _, (List.dropLast_concat_getLast hp).symm⟩
  rw [List.length_append, List.length_singleton, Nat.add_sub_cancel, List.append_assoc,
    List.singleton_append, set_length_append, List.dropLast_concat]

/-- A byte stored behind a prefix. -/
theorem storeByte_append (p : List UInt8) (c b : UInt8) (tail : List UInt8) :
    storeByte (p ++ c :: tail) p.length b = some (p ++ b :: tail) := by
  rw [storeByte, if_pos (by simp), set_length_append]

/-- Bytes are stored where there is room. -/
theorem storeBytes_of_le {mem b : List UInt8} (h : b.length ≤ mem.length) :
    storeBytes mem b = some (b ++ mem.drop b.length) :=
  if_pos h

/-- What fills an array but for one byte, and a NUL behind it. -/
theorem storeBytes_nul {mem b : List UInt8} (h : mem.length = b.length + 1) :
    ∃ mem', storeBytes mem b = some mem' ∧ storeByte mem' b.length 0 = some (b ++ [0]) := by
  obtain ⟨c, hc⟩ : ∃ c, mem.drop b.length = [c] := by
    rw [← List.length_eq_one_iff, List.length_drop, h, Nat.add_sub_cancel_left]
  exact ⟨b ++ [c], by rw [storeBytes_of_le (by omega), hc], storeByte_append b c 0 []⟩

/-- They are not where there is none. -/
theorem storeBytes_eq_none {mem b : List UInt8} (h : mem.length < b.length) :
    storeBytes mem b = none :=
  if_neg (Nat.not_le.mpr h)

/-- The array starts with what is stored. -/
theorem take_storeBytes {mem b mem' : List UInt8} (h : storeBytes mem b = some mem') :
    mem'.take b.length = b := by
  unfold storeBytes at h
  split at h
  · cases h
    exact List.take_left
  · cases h

/-- Storing bytes leaves the size of the memory. -/
theorem length_storeBytes {mem b mem' : List UInt8} (h : storeBytes mem b = some mem') :
    mem'.length = mem.length := by
  unfold storeBytes at h
  split at h
  · cases h
    simp
    omega
  · cases h

/-- So does storing one. -/
theorem length_storeByte {mem mem' : List UInt8} {i : Nat} {b : UInt8}
    (h : storeByte mem i b = some mem') : mem'.length = mem.length := by
  unfold storeByte at h
  split at h
  · cases h
    exact List.length_set
  · cases h

/-- A string that fits is stored, and with it a NUL. -/
theorem exists_storeStr {mem s : List UInt8} (h : s.length < mem.length) :
    ∃ mem', storeStr mem s = some mem' ∧ mem'.length = mem.length ∧ 0 ∈ mem' :=
  ⟨_, storeStr_of_lt h, length_storeStr (storeStr_of_lt h),
    List.mem_append_right s List.mem_cons_self⟩

/-- A byte is stored inside the memory. -/
theorem exists_storeByte {mem : List UInt8} {i : Nat} (h : i < mem.length) (b : UInt8) :
    ∃ mem', storeByte mem i b = some mem' ∧ mem'.length = mem.length ∧ b ∈ mem' :=
  ⟨_, if_pos h, List.length_set, List.mem_set h b⟩

/-- A NUL stored at or behind the end of a string leaves the string. -/
theorem loadStr_set_nul {s : List UInt8} (hs : 0 ∉ s) (l : List UInt8) {i : Nat}
    (hi : s.length ≤ i) : loadStr ((s ++ 0 :: l).set i 0) = some s := by
  rw [List.set_append_right _ _ hi]
  cases i - s.length with
  | zero => exact loadStr_append_nul hs l
  | succ j => exact loadStr_append_nul hs (l.set j 0)

/-- The search for the NUL goes on behind a text without one. -/
theorem skipStr_append {p : List UInt8} (hp : 0 ∉ p) (l : List UInt8) :
    skipStr (p ++ l) = skipStr l := by
  induction p with
  | nil => rfl
  | cons b p ih =>
    rw [List.mem_cons, not_or] at hp
    obtain ⟨hb, hp⟩ := hp
    rw [List.cons_append, skipStr, if_neg (Ne.symm hb), ih hp]

/-- It ends behind the NUL. -/
theorem skipStr_append_nul {s : List UInt8} (hs : 0 ∉ s) (l : List UInt8) :
    skipStr (s ++ 0 :: l) = some l := by
  rw [skipStr_append hs, skipStr, if_pos rfl]

/-- A pointer is at a string and its NUL, or the rest of the buffer has none. -/
theorem exists_str_or_notMem (mem : List UInt8) :
    (∃ s rest, 0 ∉ s ∧ mem = s ++ 0 :: rest) ∨ 0 ∉ mem := by
  induction mem with
  | nil => exact .inr List.not_mem_nil
  | cons b mem ih =>
    by_cases hb : b = 0
    · exact .inl ⟨[], mem, List.not_mem_nil, by rw [hb, List.nil_append]⟩
    · rcases ih with ⟨s, rest, hs, rfl⟩ | h
      · exact .inl ⟨b :: s, rest, List.not_mem_cons_of_ne_of_not_mem (Ne.symm hb) hs, rfl⟩
      · exact .inr (List.not_mem_cons_of_ne_of_not_mem (Ne.symm hb) h)

/-- A text is cut at the first such character. -/
theorem cutAt_append {c : UInt8} {k : List UInt8} (hk : c ∉ k) (v : List UInt8) :
    cutAt c (k ++ c :: v) = some (k, v) := by
  induction k with
  | nil => rw [List.nil_append, cutAt, if_pos rfl]
  | cons b k ih =>
    rw [List.mem_cons, not_or] at hk
    obtain ⟨hb, hk⟩ := hk
    rw [List.cons_append, cutAt, if_neg (Ne.symm hb), ih hk]
    rfl

end Lidbg.Machine
