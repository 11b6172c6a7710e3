import Lidbg.Machine.Strsep

/-!
# Tokens by their offsets

Pointers to tokens that are kept are offsets here, into a buffer that later cuts
change. `tokensAt` is the loop of `strsep` with the buffer it leaves: the pieces of
the string, each with a NUL behind it, and where they start
(`tokensAt_eq`, `drop_offsetsFrom`).
-/

namespace Lidbg.Machine

/-- `strsep` from an offset: the buffer and the offset left in `buf`. -/
def strsepAt (sep : UInt8) (mem : List UInt8) (pos : Nat) : Option (List UInt8 × Option Nat) :=
  (strsep sep (mem.drop pos)).map fun r =>
    (mem.take pos ++ r.1, r.2.map fun rest => mem.length - rest.length)

/-- The `while` loop over `strsep`: the buffer and the offsets of the tokens; `fuel`
bounds the tokens. -/
def tokensAt (sep : UInt8) : Nat → List UInt8 → Option Nat → Option (List UInt8 × List Nat)
  | _, mem, none => some (mem, [])
  | 0, _, some _ => none
  | fuel + 1, mem, some pos => do
    let (mem, next) ← strsepAt sep mem pos
    let (mem, tokens) ← tokensAt sep fuel mem next
    some (mem, pos :: tokens)

/-- Where pieces start that stand one behind the other, each with a NUL. -/
def offsetsFrom (pos : Nat) : List (List UInt8) → List Nat
  | [] => []
  | piece :: pieces => pos :: offsetsFrom (pos + piece.length + 1) pieces

/-- The pieces, each with a NUL. -/
def withNuls (pieces : List (List UInt8)) : List UInt8 :=
  pieces.flatMap (· ++ [0])

theorem withNuls_cons (piece : List UInt8) (pieces : List (List UInt8)) :
    withNuls (piece :: pieces) = piece ++ 0 :: withNuls pieces := by
  rw [withNuls, List.flatMap_cons, List.append_assoc]
  rfl

@[simp] theorem length_offsetsFrom (pos : Nat) (pieces : List (List UInt8)) :
    (offsetsFrom pos pieces).length = pieces.length := by
  induction pieces generalizing pos with
  | nil => rfl
  | cons piece pieces ih => rw [offsetsFrom, List.length_cons, List.length_cons, ih]

variable {sep : UInt8}

/-- The pieces with their NULs are the text with the separators overwritten. -/
theorem withNuls_splitOn (sep : UInt8) (text : List UInt8) :
    withNuls (text.splitOn sep) = text.map (fun b => if b = sep then 0 else b) ++ [0] := by
  induction text with
  | nil => rw [List.splitOn_nil]; rfl
  | cons b text ih =>
    rw [List.splitOn_cons_eq_if_modifyHead, List.map_cons, List.cons_append, ← ih]
    by_cases hb : b = sep
    · rw [if_pos hb, if_pos (beq_iff_eq.mpr hb), withNuls_cons, List.nil_append]
    · rw [if_neg hb, if_neg (by rwa [beq_iff_eq])]
      obtain ⟨piece, pieces, hpieces⟩ :=
        List.exists_cons_of_ne_nil (List.splitOn_ne_nil sep text)
      rw [hpieces, List.modifyHead_cons, withNuls_cons, withNuls_cons, List.cons_append]

theorem length_withNuls_splitOn (sep : UInt8) (text : List UInt8) :
    (withNuls (text.splitOn sep)).length = text.length + 1 := by
  rw [withNuls_splitOn, List.length_append, List.length_map, List.length_singleton]

/-- Where what comes behind the pieces starts. -/
theorem length_append_withNuls (sep : UInt8) (pre text : List UInt8) :
    (pre ++ withNuls (text.splitOn sep)).length = pre.length + text.length + 1 := by
  rw [List.length_append, length_withNuls_splitOn, Nat.add_assoc]

theorem strsepAt_cut {t : List UInt8} (ht : 0 ∉ t) (hsep : sep ∉ t) (pre mem : List UInt8) :
    strsepAt sep (pre ++ (t ++ sep :: mem)) pre.length =
      some (pre ++ (t ++ 0 :: mem), some (pre.length + t.length + 1)) := by
  rw [strsepAt, List.drop_left, List.take_left, strsep_cut ht hsep, Option.map_some,
    Option.map_some]
  congr 3
  rw [List.length_append, List.length_append, List.length_cons]
  omega

theorem strsepAt_last (h0 : sep ≠ 0) {t : List UInt8} (ht : 0 ∉ t) (hsep : sep ∉ t)
    (pre mem : List UInt8) :
    strsepAt sep (pre ++ (t ++ 0 :: mem)) pre.length = some (pre ++ (t ++ 0 :: mem), none) := by
  rw [strsepAt, List.drop_left, List.take_left, strsep_last h0 ht hsep]
  rfl

/-- **The loop over a string** leaves its pieces, each with a NUL. -/
theorem tokensAt_eq (h0 : sep ≠ 0) {text : List UInt8} (htext : 0 ∉ text)
    (pre post : List UInt8) {fuel : Nat} (hfuel : text.length < fuel) :
    tokensAt sep fuel (pre ++ (text ++ 0 :: post)) (some pre.length) =
      some (pre ++ (withNuls (text.splitOn sep) ++ post),
        offsetsFrom pre.length (text.splitOn sep)) := by
  induction text, htext using piece_induction sep generalizing pre fuel with
  | last text htext hmem =>
    obtain ⟨fuel, rfl⟩ := Nat.exists_eq_add_one_of_ne_zero (Nat.ne_zero_of_lt hfuel)
    rw [tokensAt, strsepAt_last h0 htext hmem, List.splitOn_eq_singleton hmem, withNuls_cons,
      List.append_assoc]
    cases fuel <;> rfl
  | cut t text ht _ _ hsep ih =>
    obtain ⟨fuel, rfl⟩ := Nat.exists_eq_add_one_of_ne_zero (Nat.ne_zero_of_lt hfuel)
    rw [List.length_append, List.length_cons] at hfuel
    -- what is cut off stands in front of the rest of the loop
    have hrest := ih (pre ++ (t ++ [0])) (show text.length < fuel by omega)
    rw [List.length_append, List.length_append, List.length_singleton, ← Nat.add_assoc,
      List.append_assoc, List.append_assoc, List.singleton_append] at hrest
    have hcut := strsepAt_cut ht hsep pre (text ++ 0 :: post)
    rw [tokensAt, List.append_assoc, List.cons_append, hcut, Option.bind_eq_bind,
      Option.bind_some]
    dsimp only
    rw [hrest, List.splitOn_append_cons_self_of_not_mem hsep, withNuls_cons]
    simp only [Option.bind_eq_bind, Option.bind_some, offsetsFrom, List.append_assoc,
      List.cons_append, List.nil_append]

/-- **A token is its piece**, in the buffer that the loop leaves. -/
theorem drop_offsetsFrom {pieces : List (List UInt8)} (pre post : List UInt8) {k pos : Nat}
    (h : (offsetsFrom pre.length pieces)[k]? = some pos) :
    ∃ piece rest, pieces[k]? = some piece ∧
      (pre ++ (withNuls pieces ++ post)).drop pos = piece ++ 0 :: rest := by
  induction pieces generalizing pre k with
  | nil => cases h
  | cons piece pieces ih =>
    rw [withNuls_cons, List.append_assoc, List.cons_append]
    cases k with
    | zero =>
      cases h
      exact ⟨piece, withNuls pieces ++ post, rfl, List.drop_left⟩
    | succ k =>
      have hpre : (pre ++ (piece ++ [0])).length = pre.length + piece.length + 1 := by
        rw [List.length_append, List.length_append, List.length_singleton, Nat.add_assoc]
      obtain ⟨piece', rest, hpiece, hdrop⟩ := ih (pre ++ (piece ++ [0])) (by rw [hpre]; exact h)
      refine ⟨piece', rest, hpiece, ?_⟩
      rw [← hdrop, List.append_assoc, List.append_assoc, List.singleton_append]

end Lidbg.Machine
