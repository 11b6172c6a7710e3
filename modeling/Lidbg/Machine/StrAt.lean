import Lidbg.Machine.StrsepAt
import Mathlib.Data.List.Infix

/-!
# Strings of their own

Pointers into memory are offsets. `StrAt` says which string stands at one; a store leaves
the strings that it does not lie in (`StrAt.set`). `cutStrAt` is `memchr` in a string with a
NUL stored at what it finds, and `strsepEachAt` the loop over `strsep` whose body may look
at the memory: it sees each piece where `placed` says that it stands
(`strsepEachAt_eq`).
-/

namespace Lidbg.Machine

/-! ## Strings at offsets -/

/-- The string `s` and its NUL are at `pos`. -/
structure StrAt (mem : List UInt8) (pos : Nat) (s : List UInt8) : Prop where
  nul_notMem : 0 ∉ s
  mem_eq : ∃ rest, mem.drop pos = s ++ 0 :: rest

variable {mem s t : List UInt8} {pos : Nat}

theorem StrAt.loadStr (h : StrAt mem pos s) : loadStr (mem.drop pos) = some s := by
  obtain ⟨rest, hrest⟩ := h.mem_eq
  rw [hrest, loadStr_append_nul h.nul_notMem]

theorem StrAt.of_append (pre post : List UInt8) (hs : 0 ∉ s) :
    StrAt (pre ++ (s ++ 0 :: post)) pre.length s :=
  ⟨hs, post, List.drop_left⟩

theorem StrAt.le_length (h : StrAt mem pos s) : pos + s.length < mem.length := by
  obtain ⟨rest, hrest⟩ := h.mem_eq
  have hlen := congrArg List.length hrest
  rw [List.length_drop, List.length_append, List.length_cons] at hlen
  omega

theorem strAt_iff_take (hs : 0 ∉ s) :
    StrAt mem pos s ↔ (mem.drop pos).take (s.length + 1) = s ++ [0] := by
  constructor
  · rintro ⟨-, rest, hrest⟩
    rw [hrest, List.append_cons, List.take_left' (by rw [List.length_append]; rfl)]
  · intro h
    refine ⟨hs, (mem.drop pos).drop (s.length + 1), ?_⟩
    rw [List.append_cons, ← h, List.take_append_drop]

/-- A store outside of a string leaves it. -/
theorem StrAt.set (h : StrAt mem pos s) {j : Nat} (hj : j < pos ∨ pos + s.length < j)
    (b : UInt8) : StrAt (mem.set j b) pos s := by
  have hnul := h.nul_notMem
  rw [strAt_iff_take hnul] at h ⊢
  rw [List.drop_set]
  split_ifs with hlt
  · exact h
  · rw [List.take_set_of_le (by omega)]
    exact h

/-- What stands behind the first bytes of a string is a string. -/
theorem StrAt.tail {k : List UInt8} (h : StrAt mem pos (k ++ s)) :
    StrAt mem (pos + k.length) s := by
  obtain ⟨rest, hrest⟩ := h.mem_eq
  refine ⟨fun h0 => h.nul_notMem (List.mem_append_right k h0), rest, ?_⟩
  rw [← List.drop_drop, hrest, List.append_assoc, List.drop_left]

/-- A NUL stored in a string ends it. -/
theorem StrAt.cut {k : List UInt8} {c : UInt8} (h : StrAt mem pos (k ++ c :: s)) :
    StrAt (mem.set (pos + k.length) 0) pos k := by
  obtain ⟨rest, hrest⟩ := h.mem_eq
  refine ⟨fun h0 => h.nul_notMem (List.mem_append_left _ h0), s ++ 0 :: rest, ?_⟩
  have hnot : ¬ pos + k.length < pos := by omega
  rw [List.drop_set, if_neg hnot, Nat.add_sub_cancel_left, hrest, List.append_assoc,
    List.cons_append, set_length_append]

/-! ## `memchr` and a cut -/

/-- `memchr(p, c, strlen(p))`, a NUL stored at what it finds, and the pointer behind it. -/
def cutStrAt (c : UInt8) (mem : List UInt8) (pos : Nat) : Option (List UInt8 × Option Nat) :=
  if 0 ∉ mem.drop pos then none
  else
    match cutStr c (mem.drop pos) with
    | none => some (mem, none)
    | some (front, behind) => some (mem.take pos ++ front, some (mem.length - behind.length))

theorem cutStr_of_notMem {c : UInt8} (hs : 0 ∉ s) (hc : c ∉ s) (rest : List UInt8) :
    cutStr c (s ++ 0 :: rest) = none := by
  induction s with
  | nil => exact if_pos rfl
  | cons b s ih =>
    rw [List.mem_cons, not_or] at hs hc
    rw [List.cons_append, cutStr, if_neg (Ne.symm hs.1), if_neg (Ne.symm hc.1), ih hs.2 hc.2]
    rfl

theorem cutStr_append {c : UInt8} {k : List UInt8} (hk : 0 ∉ k) (hc : c ∉ k) (h0 : c ≠ 0)
    (rest : List UInt8) : cutStr c (k ++ c :: rest) = some (k ++ 0 :: rest, rest) := by
  induction k with
  | nil => exact (if_neg h0).trans (if_pos rfl)
  | cons b k ih =>
    rw [List.mem_cons, not_or] at hk hc
    rw [List.cons_append, cutStr, if_neg (Ne.symm hk.1), if_neg (Ne.symm hc.1), ih hk.2 hc.2]
    rfl

theorem StrAt.cutStrAt_of_notMem (h : StrAt mem pos s) {c : UInt8} (hc : c ∉ s) :
    cutStrAt c mem pos = some (mem, none) := by
  obtain ⟨rest, hrest⟩ := h.mem_eq
  rw [cutStrAt, hrest, cutStr_of_notMem h.nul_notMem hc, if_neg (not_not_intro (by simp))]

theorem StrAt.cutStrAt_append {k : List UInt8} {c : UInt8} (h : StrAt mem pos (k ++ c :: s))
    (hc : c ∉ k) :
    cutStrAt c mem pos =
      some (mem.set (pos + k.length) 0, some (pos + k.length + 1)) := by
  obtain ⟨rest, hrest⟩ := h.mem_eq
  have hnul := h.nul_notMem
  rw [List.mem_append, List.mem_cons, not_or, not_or] at hnul
  have hlen := h.le_length
  rw [List.length_append, List.length_cons] at hlen
  have hmem : mem = mem.take pos ++ (k ++ c :: (s ++ 0 :: rest)) := by
    conv_lhs => rw [← List.take_append_drop pos mem, hrest, List.append_assoc, List.cons_append]
  have htake : (mem.take pos).length = pos := List.length_take_of_le (by omega)
  rw [cutStrAt, hrest, List.append_assoc, List.cons_append,
    cutStr_append hnul.1 hc (Ne.symm hnul.2.1), if_neg (not_not_intro (by simp))]
  dsimp only
  congr 2
  · conv_rhs => rw [hmem]
    rw [List.set_append_right _ _ (by omega), htake, Nat.add_sub_cancel_left, set_length_append]
  · congr 1
    have hlen' := congrArg List.length hmem
    rw [List.length_append, List.length_append, List.length_cons, htake] at hlen'
    omega

/-! ## The loop over `strsep` -/

variable {σ : Type} {sep : UInt8}

/-- The `while` loop over `strsep`, with a body that is given the token's offset; `fuel`
bounds the tokens. -/
def strsepEachAt (sep : UInt8) (body : σ → List UInt8 → Nat → Option σ) :
    Nat → List UInt8 → Option Nat → σ → Option (List UInt8 × σ)
  | _, mem, none, s => some (mem, s)
  | 0, _, some _, _ => none
  | fuel + 1, mem, some pos, s => do
    let (mem, next) ← strsepAt sep mem pos
    let s ← body s mem pos
    strsepEachAt sep body fuel mem next s

/-- Pieces that stand one behind the other, each with a NUL, and where. -/
def placed (pos : Nat) : List (List UInt8) → List (Nat × List UInt8)
  | [] => []
  | piece :: pieces => (pos, piece) :: placed (pos + piece.length + 1) pieces

theorem map_snd_placed (pos : Nat) (pieces : List (List UInt8)) :
    (placed pos pieces).map Prod.snd = pieces := by
  induction pieces generalizing pos with
  | nil => rfl
  | cons piece pieces ih => rw [placed, List.map_cons, ih]

theorem strAt_of_mem_placed {pieces : List (List UInt8)} (hnul : ∀ piece ∈ pieces, 0 ∉ piece)
    (pre post : List UInt8) {p : Nat × List UInt8} (hp : p ∈ placed pre.length pieces) :
    StrAt (pre ++ (withNuls pieces ++ post)) p.1 p.2 := by
  induction pieces generalizing pre with
  | nil => cases hp
  | cons piece pieces ih =>
    rw [List.forall_mem_cons] at hnul
    rw [withNuls_cons, List.append_assoc, List.cons_append]
    rcases List.mem_cons.mp hp with rfl | hp
    · exact StrAt.of_append pre _ hnul.1
    · have hpre : (pre ++ (piece ++ [0])).length = pre.length + piece.length + 1 := by
        rw [List.length_append, List.length_append, List.length_singleton, Nat.add_assoc]
      have hrest := ih hnul.2 (pre ++ (piece ++ [0])) (by rwa [hpre])
      rwa [List.append_assoc, List.append_assoc, List.singleton_append] at hrest

/-- One string ends before the other starts. -/
def Apart (p q : Nat × List UInt8) : Prop :=
  p.1 + p.2.length < q.1 ∨ q.1 + q.2.length < p.1

theorem Apart.symm {p q : Nat × List UInt8} (h : Apart p q) : Apart q p :=
  Or.symm h

theorem le_of_mem_placed {pos : Nat} {pieces : List (List UInt8)} {p : Nat × List UInt8}
    (hp : p ∈ placed pos pieces) : pos ≤ p.1 := by
  induction pieces generalizing pos with
  | nil => cases hp
  | cons piece pieces ih =>
    rcases List.mem_cons.mp hp with rfl | hp
    · exact Nat.le_refl pos
    · have := ih hp
      omega

theorem pairwise_placed (pos : Nat) (pieces : List (List UInt8)) :
    (placed pos pieces).Pairwise Apart := by
  induction pieces generalizing pos with
  | nil => exact .nil
  | cons piece pieces ih =>
    refine .cons (fun p hp => .inl ?_) (ih _)
    exact Nat.lt_of_succ_le (le_of_mem_placed hp)

/-- **The loop over a string** is one over its pieces, where they stand, if the body looks
at nothing but the string at its token. -/
theorem strsepEachAt_eq (h0 : sep ≠ 0) {body : σ → List UInt8 → Nat → Option σ}
    {f : σ → Nat × List UInt8 → Option σ}
    (hbody : ∀ s mem pos piece, StrAt mem pos piece → body s mem pos = f s (pos, piece))
    {text : List UInt8} (htext : 0 ∉ text) (pre post : List UInt8) {fuel : Nat}
    (hfuel : text.length < fuel) (s : σ) :
    strsepEachAt sep body fuel (pre ++ (text ++ 0 :: post)) (some pre.length) s =
      ((placed pre.length (text.splitOn sep)).foldlM f s).map fun s =>
        (pre ++ (withNuls (text.splitOn sep) ++ post), s) := by
  induction text, htext using piece_induction sep generalizing pre fuel s with
  | last text htext hmem =>
    obtain ⟨fuel, rfl⟩ := Nat.exists_eq_add_one_of_ne_zero (Nat.ne_zero_of_lt hfuel)
    have hone := hbody s _ _ _ (StrAt.of_append pre post htext)
    rw [strsepEachAt, strsepAt_last h0 htext hmem, List.splitOn_eq_singleton hmem, withNuls_cons,
      List.append_assoc, Option.bind_eq_bind, Option.bind_some]
    dsimp only
    rw [hone, placed, placed, List.foldlM_cons]
    cases f s (pre.length, text) with
    | none => rfl
    | some s' => cases fuel <;> rfl
  | cut t text ht _ _ hsep ih =>
    obtain ⟨fuel, rfl⟩ := Nat.exists_eq_add_one_of_ne_zero (Nat.ne_zero_of_lt hfuel)
    rw [List.length_append, List.length_cons] at hfuel
    have hone := hbody s _ _ _ (StrAt.of_append pre (text ++ 0 :: post) ht)
    have hcut := strsepAt_cut ht hsep pre (text ++ 0 :: post)
    rw [strsepEachAt, List.append_assoc, List.cons_append, hcut, Option.bind_eq_bind,
      Option.bind_some]
    dsimp only
    rw [hone, List.splitOn_append_cons_self_of_not_mem hsep, placed, List.foldlM_cons,
      withNuls_cons]
    cases f s (pre.length, t) with
    | none => rfl
    | some s' =>
      -- what is cut off stands in front of the rest of the loop
      have hrest := ih (pre ++ (t ++ [0])) (show text.length < fuel by omega) s'
      rw [List.length_append, List.length_append, List.length_singleton, ← Nat.add_assoc,
        List.append_assoc, List.append_assoc, List.singleton_append] at hrest
      rw [Option.bind_eq_bind, Option.bind_some, Option.bind_eq_bind, Option.bind_some, hrest]
      simp only [List.append_assoc, List.cons_append, List.nil_append]

end Lidbg.Machine
