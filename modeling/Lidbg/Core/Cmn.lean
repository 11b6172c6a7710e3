import Lidbg.Machine.Strsep

/-!
# `lidbg_token_string` (`core/lidbg_cmn.c`)

The words of a string, stored in an array of the caller's. The array's size is
not passed: its callers have eight or thirty-two slots.
-/

namespace Lidbg.Cmn

open Machine

/-- `*token = token_tmp; token++; pos++`; `none` stores behind the array. -/
def storeToken (s : Nat × List (Option (List UInt8))) (token : List UInt8) :
    Option (Nat × List (Option (List UInt8))) :=
  if s.1 < s.2.length then some (s.1 + 1, s.2.set s.1 (some token)) else none

/-- `lidbg_token_string`: the number of tokens, and the array. -/
def lidbgTokenString (buf : Option (List UInt8)) (separator : UInt8)
    (token : List (Option (List UInt8))) : Option (Nat × List (Option (List UInt8))) :=
  match buf with
  | none => some (0, token)
  | some buf => strsepEach separator storeToken buf (0, token)

/-- The string at a slot of an array of tokens, if the slot is not null. -/
def slotStr (slots : List (Option (List UInt8))) (i : Nat) : Option (List UInt8) :=
  slots[i]?.join.map cstr

/-- The tokens land in the array one behind the other. -/
theorem foldlM_storeToken (tokens : List (List UInt8)) (stored token : List (Option (List UInt8))) :
    tokens.foldlM storeToken (stored.length, stored ++ token) =
      if tokens.length ≤ token.length then
        some (stored.length + tokens.length,
          stored ++ tokens.map some ++ token.drop tokens.length)
      else none := by
  induction tokens generalizing stored token with
  | nil =>
    simp
  | cons t tokens ih =>
    rw [List.foldlM_cons]
    cases token with
    | nil =>
      rw [if_neg (by simp), storeToken, if_neg (by simp)]
      rfl
    | cons slot token =>
      have hstore : storeToken (stored.length, stored ++ slot :: token) t =
          some ((stored ++ [some t]).length, (stored ++ [some t]) ++ token) := by
        rw [storeToken, if_pos (by simp)]
        simp
      rw [hstore]
      refine (ih (stored ++ [some t]) token).trans ?_
      rw [List.length_cons, List.length_cons]
      by_cases hlen : tokens.length ≤ token.length
      · rw [if_pos hlen, if_pos (Nat.succ_le_succ hlen)]
        simp
        omega
      · rw [if_neg hlen, if_neg fun h => hlen (Nat.le_of_succ_le_succ h)]

/-- **The tokens of a string** fill the array from its start if they fit. -/
theorem lidbgTokenString_eq {separator : UInt8} (h0 : separator ≠ 0) {text : List UInt8}
    (htext : 0 ∉ text) (rest : List UInt8) (token : List (Option (List UInt8))) :
    ∃ tokens : List (List UInt8),
      tokens.map cstr = text.splitOn separator ∧ (∀ t ∈ tokens, 0 ∈ t) ∧
      lidbgTokenString (some (text ++ 0 :: rest)) separator token =
        if tokens.length ≤ token.length then
          some (tokens.length, tokens.map some ++ token.drop tokens.length)
        else none := by
  obtain ⟨tokens, hpieces, hnul, hloop⟩ := strsepEach_tokens h0 htext rest
  refine ⟨tokens, hpieces, hnul, (hloop storeToken (0, token)).trans ?_⟩
  have h := foldlM_storeToken tokens [] token
  rwa [List.nil_append, List.nil_append, List.length_nil, Nat.zero_add] at h

/-- The tokens are in front, what the slots held before is behind them. -/
theorem slotStr_stored (tokens : List (List UInt8)) (slots : List (Option (List UInt8))) :
    slotStr (tokens.map some ++ slots.drop tokens.length) =
      fun i => (tokens.map cstr)[i]?.or (slotStr slots i) := by
  funext i
  unfold slotStr
  by_cases hi : i < tokens.length
  · rw [List.getElem?_append_left (by rwa [List.length_map])]
    simp [hi]
  · have hi := Nat.le_of_not_lt hi
    have hnone : (tokens.map cstr)[i]? = none :=
      List.getElem?_eq_none (by rwa [List.length_map])
    rw [List.getElem?_append_right (by rwa [List.length_map]), List.length_map,
      List.getElem?_drop, Nat.add_sub_cancel' hi, hnone, Option.none_or]

theorem slotStr_nulls (n : Nat) : slotStr (List.replicate n none) = fun _ => none := by
  funext i
  unfold slotStr
  rw [List.getElem?_replicate]
  split_ifs <;> rfl

end Lidbg.Cmn
