import Lidbg.Core.FsKeyvalue
import Lidbg.Machine.Silent

/-!
# `fs_find_string` (`core/lidbg_fs_keyvalue.c`)

Each key is searched for a string: at the first place in the key of the string's
first character, and nowhere else, the string is compared from its last
character down. The comparison does not ask whether that much of the key is left.
-/

namespace Lidbg.FsFindString

open Machine FsKeyvalue

variable {ι κ : Type}

/-- `while(len)`: `p` is what can be read from the place found, the NUL at its
end; `none` reads behind the NUL. -/
def compareBack (p lookfor : List UInt8) : Nat → Option Bool
  | 0 => some false
  | len + 1 =>
    match p[len]? with
    | none => none
    | some b =>
      if some b = lookfor[len]? then
        if len = 0 then some true else compareBack p lookfor len
      else some false

/-- `memchr(pos->yourkey, lookfor[0], strlen(pos->yourkey))`. -/
def anchor (lookfor key : List UInt8) : List UInt8 :=
  key.dropWhile (· ≠ lookfor.head?.getD 0)

/-- The loop over the list, with its return value. -/
def findLoop (lookfor : CStr) : List (StringDev ι κ) → Option Int
  | [] => some (-1)
  | pos :: rest =>
    match anchor lookfor.chars pos.yourkey.chars with
    | [] => findLoop lookfor rest
    | p =>
      match compareBack (p ++ [0]) lookfor.chars lookfor.chars.length with
      | none => none
      | some true => some 1
      | some false => findLoop lookfor rest

/-- `fs_find_string`: `fileserver_deal_cmd` of `FS_CMD_LIST_IS_STRINFILE`. -/
def fsFindString (clientList : List (StringDev ι κ)) (lookfor : CStr) : Option Int :=
  if clientList = [] then some (-2) else findLoop lookfor clientList

/-- No byte behind the NUL of a key is read, and what is returned is 1 exactly
if a key contains the string. -/
def FindsSubstring (clientList : List (StringDev ι κ)) (lookfor : CStr) : Prop :=
  ∃ ret, fsFindString clientList lookfor = some ret ∧
    (ret = 1 ↔ ∃ pos ∈ clientList, lookfor.chars <:+: pos.yourkey.chars)

/-- The key has the string at the first place of the string's first character. -/
def Anchored (lookfor key : List UInt8) : Prop :=
  lookfor <+: anchor lookfor key

instance (lookfor key : List UInt8) : Decidable (Anchored lookfor key) :=
  inferInstanceAs (Decidable (lookfor <+: anchor lookfor key))

/-- From the first place of the string's first character, the string would end
more than one character behind the key. -/
def Overruns (lookfor key : List UInt8) : Prop :=
  anchor lookfor key ≠ [] ∧ (anchor lookfor key).length + 1 < lookfor.length

instance (lookfor key : List UInt8) : Decidable (Overruns lookfor key) :=
  inferInstanceAs (Decidable (_ ∧ _))

/-! ## One key -/

theorem take_succ_eq_iff {p q : List UInt8} {n : Nat} (hp : n < p.length) (hq : n < q.length) :
    p.take (n + 1) = q.take (n + 1) ↔ q[n] = p[n] ∧ p.take n = q.take n := by
  rw [List.take_succ_eq_append_getElem hp, List.take_succ_eq_append_getElem hq]
  constructor
  · intro h
    obtain ⟨hinit, hlast⟩ := List.append_inj' h rfl
    exact ⟨(List.singleton_inj.mp hlast).symm, hinit⟩
  · rintro ⟨hlast, hinit⟩
    rw [hlast, hinit]

/-- From a character down, the comparison finds the strings equal up to it, or
one shorter than that. -/
theorem compareBack_succ (p lookfor : List UInt8) {n : Nat} (hn : n < lookfor.length) :
    compareBack p lookfor (n + 1) =
      if p.length ≤ n then none
      else some (decide (lookfor.take (n + 1) = p.take (n + 1))) := by
  induction n with
  | zero =>
    rw [compareBack]
    by_cases hp : p.length ≤ 0
    · rw [List.getElem?_eq_none hp, if_pos hp]
    · have hp' := Nat.lt_of_not_le hp
      have htake := take_succ_eq_iff hn hp'
      rw [List.getElem?_eq_getElem hp', List.getElem?_eq_getElem hn, if_neg hp]
      simp only [Option.some_inj]
      split_ifs with h
      · exact congrArg some (decide_eq_true (htake.mpr ⟨h, rfl⟩)).symm
      · exact congrArg some (decide_eq_false fun h' => h (htake.mp h').1).symm
  | succ n ih =>
    rw [compareBack]
    by_cases hp : p.length ≤ n + 1
    · rw [List.getElem?_eq_none hp, if_pos hp]
    · have hp' := Nat.lt_of_not_le hp
      have htake := take_succ_eq_iff hn hp'
      rw [List.getElem?_eq_getElem hp', List.getElem?_eq_getElem hn, if_neg hp,
        ih (Nat.lt_of_succ_lt hn), if_neg (Nat.not_le_of_lt (Nat.lt_of_succ_lt hp'))]
      simp only [Option.some_inj, if_neg (Nat.succ_ne_zero n)]
      split_ifs with h
      · exact congrArg some (decide_eq_decide.mpr
          ⟨fun h' => htake.mpr ⟨h, h'⟩, fun h' => (htake.mp h').2⟩)
      · exact congrArg some (decide_eq_false fun h' => h (htake.mp h').1).symm

/-- The comparison of a whole string with what is left of a key. -/
theorem compareBack_eq {lookfor : List UInt8} (hnul : 0 ∉ lookfor) (hne : lookfor ≠ [])
    (p : List UInt8) : compareBack (p ++ [0]) lookfor lookfor.length =
      if p.length + 1 < lookfor.length then none else some (decide (lookfor <+: p)) := by
  obtain ⟨n, hn⟩ := Nat.exists_eq_succ_of_ne_zero fun h => hne (List.eq_nil_of_length_eq_zero h)
  have hlen : (p ++ [0]).length = p.length + 1 := List.length_append
  -- the NUL is not a character of the string, so it is not needed for a match
  have hprefix : lookfor.take (n + 1) = (p ++ [0]).take (n + 1) ↔ lookfor <+: p := by
    rw [← Nat.succ_eq_add_one, ← hn, List.take_length]
    constructor
    · intro h
      have hle : lookfor <+: p ++ [0] := List.prefix_iff_eq_take.mpr h
      rcases List.prefix_concat_iff.mp hle with heq | hp
      · exact absurd (heq ▸ List.mem_append_right p (List.mem_singleton_self 0)) hnul
      · exact hp
    · intro h
      exact List.prefix_iff_eq_take.mp (h.trans (List.prefix_append p [0]))
  rw [hn, compareBack_succ _ _ (hn ▸ Nat.lt_succ_self n), hlen, decide_eq_decide.mpr hprefix]
  exact if_congr Nat.succ_lt_succ_iff.symm rfl rfl

/-- A key that has the string where its first character first stands contains it. -/
theorem isInfix_of_anchored {lookfor key : List UInt8} (h : Anchored lookfor key) :
    lookfor <:+: key :=
  h.isInfix.trans (List.dropWhile_suffix _).isInfix

/-! ## The list -/

variable {lookfor : CStr}

theorem findLoop_cons (hne : lookfor.chars ≠ []) (pos : StringDev ι κ)
    (rest : List (StringDev ι κ)) :
    findLoop lookfor (pos :: rest) =
      if Overruns lookfor.chars pos.yourkey.chars then none
      else if Anchored lookfor.chars pos.yourkey.chars then some 1
      else findLoop lookfor rest := by
  rw [findLoop]
  split
  · next hp =>
    rw [if_neg fun h => h.1 hp, if_neg fun h => hne ?_]
    rw [Anchored, hp] at h
    exact List.prefix_nil.mp h
  · next hp =>
    rw [compareBack_eq lookfor.nul_notMem hne]
    by_cases hover : (anchor lookfor.chars pos.yourkey.chars).length + 1 < lookfor.chars.length
    · rw [if_pos hover, if_pos ⟨hp, hover⟩]
    · rw [if_neg hover, if_neg fun h => hover h.2]
      by_cases hanchored : Anchored lookfor.chars pos.yourkey.chars
      · have hfound : decide (lookfor.chars <+: anchor lookfor.chars pos.yourkey.chars) = true :=
          decide_eq_true hanchored
        rw [hfound, if_pos hanchored]
      · have hfound : decide (lookfor.chars <+: anchor lookfor.chars pos.yourkey.chars) = false :=
          decide_eq_false hanchored
        rw [hfound, if_neg hanchored]

/-- **The search reads no byte behind a key** if and only if the keys that
overrun come behind one that is anchored. -/
theorem findLoop_isSome_iff (hne : lookfor.chars ≠ []) (clientList : List (StringDev ι κ)) :
    (findLoop lookfor clientList).isSome ↔
      ∀ pre pos post, clientList = pre ++ pos :: post →
        Overruns lookfor.chars pos.yourkey.chars →
          ∃ other ∈ pre, Anchored lookfor.chars other.yourkey.chars := by
  induction clientList with
  | nil => exact iff_of_true rfl fun pre pos post h => by simp at h
  | cons pos rest ih =>
    rw [findLoop_cons hne]
    refine Iff.trans ?_ (forall_split_cons (P := fun pre (pos : StringDev ι κ) =>
      Overruns lookfor.chars pos.yourkey.chars →
        ∃ other ∈ pre, Anchored lookfor.chars other.yourkey.chars)).symm
    split_ifs with hover hanchored
    · refine iff_of_false Bool.false_ne_true fun h => ?_
      obtain ⟨_, hmem, -⟩ := h.1 hover
      cases hmem
    · exact iff_of_true rfl ⟨fun h => absurd h hover, fun _ _ _ _ _ =>
        ⟨pos, List.mem_cons_self, hanchored⟩⟩
    · rw [ih, and_iff_right fun h => absurd h hover]
      simp only [List.exists_mem_cons_iff, hanchored, false_or]

/-- What it returns is 1 exactly if a key is anchored. -/
theorem findLoop_eq_one_iff (hne : lookfor.chars ≠ []) {clientList : List (StringDev ι κ)}
    {ret : Int} (h : findLoop lookfor clientList = some ret) :
    ret = 1 ↔ ∃ pos ∈ clientList, Anchored lookfor.chars pos.yourkey.chars := by
  induction clientList with
  | nil =>
    cases h
    exact iff_of_false (by decide) fun ⟨_, hmem, _⟩ => by cases hmem
  | cons pos rest ih =>
    rw [findLoop_cons hne] at h
    split_ifs at h with hover hanchored
    · cases h
      exact iff_of_true rfl ⟨pos, List.mem_cons_self, hanchored⟩
    · rw [ih h, List.exists_mem_cons_iff, or_iff_right hanchored]

/-- **The search is substring search** if and only if the keys that overrun come
behind one that is anchored, and a key is anchored if one contains the string. -/
theorem findsSubstring_iff {lookfor : CStr} (hne : lookfor.chars ≠ [])
    (clientList : List (StringDev ι κ)) :
    FindsSubstring clientList lookfor ↔
      (∀ pre pos post, clientList = pre ++ pos :: post →
        Overruns lookfor.chars pos.yourkey.chars →
          ∃ other ∈ pre, Anchored lookfor.chars other.yourkey.chars) ∧
      ((∃ pos ∈ clientList, lookfor.chars <:+: pos.yourkey.chars) →
        ∃ pos ∈ clientList, Anchored lookfor.chars pos.yourkey.chars) := by
  -- the direction that always holds: 1 is never returned without a match
  have hanchor : (∃ pos ∈ clientList, Anchored lookfor.chars pos.yourkey.chars) →
      ∃ pos ∈ clientList, lookfor.chars <:+: pos.yourkey.chars := fun ⟨pos, hmem, h⟩ =>
    ⟨pos, hmem, isInfix_of_anchored h⟩
  rw [← findLoop_isSome_iff hne, FindsSubstring, fsFindString]
  split_ifs with hempty
  · subst hempty
    have hnone : ¬ ∃ pos ∈ ([] : List (StringDev ι κ)), lookfor.chars <:+: pos.yourkey.chars :=
      fun ⟨_, hmem, _⟩ => by cases hmem
    exact iff_of_true ⟨-2, rfl, iff_of_false (by decide) hnone⟩ ⟨rfl, fun h => absurd h hnone⟩
  · rw [Option.isSome_iff_exists]
    constructor
    · rintro ⟨ret, hret, hone⟩
      exact ⟨⟨ret, hret⟩, fun h => (findLoop_eq_one_iff hne hret).mp (hone.mpr h)⟩
    · rintro ⟨⟨ret, hret⟩, hanchored⟩
      exact ⟨ret, hret, (findLoop_eq_one_iff hne hret).trans ⟨hanchor, hanchored⟩⟩

/-- An entry with a key and nothing else. -/
def keyEntry (yourkey : CStr) : StringDev Unit Unit :=
  ⟨yourkey, none, none, none⟩

/-- One key that is the string. -/
theorem findsSubstring_self :
    FindsSubstring [keyEntry ⟨ascii "ab", by decide⟩] ⟨ascii "ab", by decide⟩ := by
  refine (findsSubstring_iff (by decide) _).mpr ⟨?_, fun _ => ?_⟩
  · rintro (_ | ⟨_, pre⟩) pos post h
    · cases h
      decide
    · simp at h
  · exact ⟨_, List.mem_cons_self, by decide⟩

/-- A key that has the first character twice, and one that ends early. -/
theorem not_findsSubstring :
    ¬ FindsSubstring [keyEntry ⟨ascii "aab", by decide⟩] ⟨ascii "ab", by decide⟩ ∧
    ¬ FindsSubstring [keyEntry ⟨ascii "a", by decide⟩] ⟨ascii "abc", by decide⟩ := by
  constructor
  · rintro ⟨ret, hret, hone⟩
    cases hret
    exact absurd (hone.mpr ⟨_, List.mem_cons_self, by decide⟩) (by decide)
  · rintro ⟨ret, hret, -⟩
    cases hret

end Lidbg.FsFindString
