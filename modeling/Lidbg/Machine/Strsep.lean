import Lidbg.Machine.CStr

/-!
# Tokens in place

`strsep` cuts the string at a pointer at its first separator: the separator is
overwritten by a NUL and the pointer moves behind it. A loop
`while ((token = strsep(&buf, sep)) != NULL)` sees the pieces between the
separators, the empty ones too.

A pointer to a token shows the buffer as it is when the token is cut; the cuts
that follow lie behind its NUL.
-/

namespace Lidbg.Machine

/-- `strsep(&buf, sep)` with one separator: the token and the pointer left in
`buf`, null behind the last token. `none` reads past the end of the buffer. -/
def strsep (sep : UInt8) : List UInt8 → Option (List UInt8 × Option (List UInt8))
  | [] => none
  | b :: rest =>
    if b = sep then some (0 :: rest, some rest)
    else if b = 0 then some (0 :: rest, none)
    else (strsep sep rest).map fun r => (b :: r.1, r.2)

/-- `memchr` in the string at a pointer, and a NUL stored at what it finds: the
string cut there and the pointer behind the cut. -/
def cutStr (c : UInt8) : List UInt8 → Option (List UInt8 × List UInt8)
  | [] => none
  | b :: rest =>
    if b = 0 then none
    else if b = c then some (0 :: rest, rest)
    else (cutStr c rest).map fun kv => (b :: kv.1, kv.2)

variable {σ : Type}

/-- The `while` loop over a body that may fail; `fuel` bounds the tokens. -/
def strsepLoop (sep : UInt8) (body : σ → List UInt8 → Option σ) :
    Nat → Option (List UInt8) → σ → Option σ
  | _, none, s => some s
  | 0, some _, _ => none
  | fuel + 1, some buf, s =>
    match strsep sep buf with
    | none => none
    | some (token, buf') =>
      match body s token with
      | none => none
      | some s' => strsepLoop sep body fuel buf' s'

/-- The loop from the start of a buffer, in which a token takes a byte at least. -/
def strsepEach (sep : UInt8) (body : σ → List UInt8 → Option σ) (buf : List UInt8) (s : σ) :
    Option σ :=
  strsepLoop sep body buf.length (some buf) s

variable {sep : UInt8} {t : List UInt8}

theorem strsep_cut (ht : 0 ∉ t) (hsep : sep ∉ t) (mem : List UInt8) :
    strsep sep (t ++ sep :: mem) = some (t ++ 0 :: mem, some mem) := by
  induction t with
  | nil => exact if_pos rfl
  | cons b t ih =>
    rw [List.mem_cons, not_or] at ht hsep
    rw [List.cons_append, strsep, if_neg (Ne.symm hsep.1), if_neg (Ne.symm ht.1),
      ih ht.2 hsep.2]
    rfl

theorem strsep_last (h0 : sep ≠ 0) (ht : 0 ∉ t) (hsep : sep ∉ t) (mem : List UInt8) :
    strsep sep (t ++ 0 :: mem) = some (t ++ 0 :: mem, none) := by
  induction t with
  | nil =>
    rw [List.nil_append, strsep, if_neg (Ne.symm h0), if_pos rfl]
  | cons b t ih =>
    rw [List.mem_cons, not_or] at ht hsep
    rw [List.cons_append, strsep, if_neg (Ne.symm hsep.1), if_neg (Ne.symm ht.1),
      ih ht.2 hsep.2]
    rfl

/-- The two strings of a cut in place are what stands before and after it. -/
theorem map_cutStr {c : UInt8} {s : List UInt8} (hs : 0 ∉ s) (rest : List UInt8) :
    (cutStr c (s ++ 0 :: rest)).map (fun kv => (cstr kv.1, cstr kv.2)) = cutAt c s := by
  induction s with
  | nil => rfl
  | cons b s ih =>
    rw [List.mem_cons, not_or] at hs
    obtain ⟨hb, hs⟩ := hs
    rw [List.cons_append, cutStr, if_neg (Ne.symm hb), cutAt]
    split_ifs
    · rw [Option.map_some, cstr_append_nul hs]
      rfl
    · rw [← ih hs, Option.map_map, Option.map_map]
      congr 1
      funext kv
      dsimp only [Function.comp]
      rw [cstr, List.takeWhile_cons, if_pos (decide_eq_true (Ne.symm hb))]
      rfl

/-- A string with a separator in it is cut behind its first piece. -/
theorem exists_first_piece {text : List UInt8} (htext : 0 ∉ text) (hmem : sep ∈ text) :
    ∃ t text', text = t ++ sep :: text' ∧ sep ∉ t ∧ 0 ∉ t ∧ 0 ∉ text' := by
  obtain ⟨t, text', rfl, hsep⟩ := List.eq_append_cons_of_mem hmem
  rw [List.mem_append, List.mem_cons, not_or, not_or] at htext
  exact ⟨t, text', rfl, hsep, htext.1, htext.2.2⟩

/-- Induction over the pieces of a string: the last one alone, and one in front of a
separator. -/
@[elab_as_elim]
theorem piece_induction (sep : UInt8) {motive : (text : List UInt8) → 0 ∉ text → Prop}
    (last : ∀ text (htext : 0 ∉ text), sep ∉ text → motive text htext)
    (cut : ∀ t text, 0 ∉ t → ∀ (htext : 0 ∉ text) (h : 0 ∉ t ++ sep :: text), sep ∉ t →
      motive text htext → motive (t ++ sep :: text) h)
    (text : List UInt8) (htext : 0 ∉ text) : motive text htext := by
  induction hn : text.length using Nat.strong_induction_on generalizing text with
  | _ n ih =>
    subst hn
    by_cases hmem : sep ∈ text
    · obtain ⟨t, text', rfl, hsep, ht, htext'⟩ := exists_first_piece htext hmem
      refine cut t text' ht htext' htext hsep (ih text'.length ?_ text' htext' rfl)
      rw [List.length_append, List.length_cons]
      omega
    · exact last text htext hmem

/-- The pieces of a string, as pointers that the loop body sees: behind the NUL of
each but the last the buffer goes on, and the last stands behind a separator, if
there is one. -/
theorem strsepLoop_pieces (h0 : sep ≠ 0) {text : List UInt8} (htext : 0 ∉ text)
    (rest : List UInt8) : ∃ (front : List (List UInt8)) (pre last : List UInt8),
      text = pre ++ last ∧ (pre = [] ∨ pre.getLast? = some sep) ∧ sep ∉ last ∧
      front.map cstr ++ [last] = text.splitOn sep ∧
      (∀ token ∈ front, ∃ t b mem, 0 ∉ t ∧ token = t ++ 0 :: b :: mem) ∧
      ∀ (fuel : Nat), text.length < fuel → ∀ {σ : Type} (body : σ → List UInt8 → Option σ) (s : σ),
        strsepLoop sep body fuel (some (text ++ 0 :: rest)) s =
          (front ++ [last ++ 0 :: rest]).foldlM body s := by
  induction text, htext using piece_induction sep with
  | last text htext hmem =>
    refine ⟨[], [], text, rfl, .inl rfl, hmem, (List.splitOn_eq_singleton hmem).symm,
      List.forall_mem_nil _, ?_⟩
    rintro (_ | fuel) hfuel σ body s
    · omega
    · rw [strsepLoop, strsep_last h0 htext hmem, List.nil_append, List.foldlM_cons]
      dsimp only
      cases body s (text ++ 0 :: rest) with
      | none => rfl
      | some s' =>
        cases fuel with
        | zero => rfl
        | succ fuel => rfl
  | cut t text ht _ _ hsep ih =>
    -- the body sees the first token, then the tokens of what is behind its cut
    obtain ⟨front, pre, last, rfl, hpre, hlast, hpieces, hfront, hloop⟩ := ih
    obtain ⟨b, mem, hbehind⟩ : ∃ b mem, pre ++ last ++ 0 :: rest = b :: mem :=
      List.exists_cons_of_ne_nil (List.append_ne_nil_of_right_ne_nil _ (List.cons_ne_nil 0 rest))
    refine ⟨(t ++ 0 :: (pre ++ last ++ 0 :: rest)) :: front, t ++ sep :: pre, last,
      by rw [List.append_assoc, List.cons_append], .inr ?_, hlast, ?_, ?_, ?_⟩
    · rw [List.getLast?_append, List.getLast?_cons]
      rcases hpre with rfl | hpre
      · rfl
      · rw [hpre]
        rfl
    · rw [List.map_cons, List.cons_append, cstr_append_nul ht, hpieces,
        List.splitOn_append_cons_self_of_not_mem hsep]
    · rintro token (_ | ⟨_, htoken⟩)
      · exact ⟨t, b, mem, ht, by rw [hbehind]⟩
      · exact hfront token htoken
    · rintro (_ | fuel) hfuel σ body s
      · omega
      · rw [List.length_append, List.length_cons] at hfuel
        rw [List.append_assoc, List.cons_append, strsepLoop, strsep_cut ht hsep,
          List.cons_append, List.foldlM_cons]
        dsimp only
        cases body s (t ++ 0 :: (pre ++ last ++ 0 :: rest)) with
        | none => rfl
        | some s' => exact hloop fuel (by omega) body s'

theorem strsepLoop_tokens (h0 : sep ≠ 0) {text : List UInt8} (htext : 0 ∉ text)
    (rest : List UInt8) : ∃ tokens : List (List UInt8),
      tokens.map cstr = text.splitOn sep ∧ (∀ token ∈ tokens, 0 ∈ token) ∧
      ∀ (fuel : Nat), text.length < fuel → ∀ {σ : Type} (body : σ → List UInt8 → Option σ) (s : σ),
        strsepLoop sep body fuel (some (text ++ 0 :: rest)) s = tokens.foldlM body s := by
  obtain ⟨front, pre, last, rfl, -, -, hpieces, hfront, hloop⟩ := strsepLoop_pieces h0 htext rest
  have hlast : 0 ∉ last := fun h => htext (List.mem_append_right pre h)
  refine ⟨front ++ [last ++ 0 :: rest], ?_, ?_, hloop⟩
  · rw [List.map_append, List.map_singleton, cstr_append_nul hlast, hpieces]
  · rw [List.forall_mem_append, List.forall_mem_singleton]
    refine ⟨fun token htoken => ?_, List.mem_append_right _ List.mem_cons_self⟩
    obtain ⟨t, b, mem, -, rfl⟩ := hfront token htoken
    exact List.mem_append_right _ List.mem_cons_self

/-- **The tokens of a string** are the pieces between its separators. -/
theorem strsepEach_tokens (h0 : sep ≠ 0) {text : List UInt8} (htext : 0 ∉ text)
    (rest : List UInt8) : ∃ tokens : List (List UInt8),
      tokens.map cstr = text.splitOn sep ∧ (∀ token ∈ tokens, 0 ∈ token) ∧
      ∀ {σ : Type} (body : σ → List UInt8 → Option σ) (s : σ),
        strsepEach sep body (text ++ 0 :: rest) s = tokens.foldlM body s := by
  obtain ⟨tokens, hpieces, hnul, hloop⟩ := strsepLoop_tokens h0 htext rest
  refine ⟨tokens, hpieces, hnul, fun body s => hloop _ ?_ body s⟩
  rw [List.length_append, List.length_cons]
  omega

/-- **A body that reads its token as a string** runs on the pieces. -/
theorem strsepEach_text (h0 : sep ≠ 0) {text : List UInt8} (htext : 0 ∉ text)
    (rest : List UInt8) {body f : σ → List UInt8 → Option σ}
    (hbody : ∀ s token, 0 ∈ token → body s token = f s (cstr token)) (s : σ) :
    strsepEach sep body (text ++ 0 :: rest) s = (text.splitOn sep).foldlM f s := by
  obtain ⟨tokens, hpieces, hnul, hloop⟩ := strsepEach_tokens h0 htext rest
  rw [hloop, ← hpieces]
  clear hloop hpieces
  induction tokens generalizing s with
  | nil => rfl
  | cons token tokens ih =>
    rw [List.map_cons, List.foldlM_cons, List.foldlM_cons,
      hbody s token (hnul token List.mem_cons_self)]
    cases f s (cstr token) with
    | none => rfl
    | some s' => exact ih s' fun token h => hnul token (List.mem_cons_of_mem _ h)

/-- The same for a buffer that holds a NUL. -/
theorem strsepEach_cstr (h0 : sep ≠ 0) {buf : List UInt8} (hbuf : 0 ∈ buf)
    {body f : σ → List UInt8 → Option σ}
    (hbody : ∀ s token, 0 ∈ token → body s token = f s (cstr token)) (s : σ) :
    strsepEach sep body buf s = ((cstr buf).splitOn sep).foldlM f s := by
  obtain ⟨text, rest, htext, rfl⟩ | hnul := exists_str_or_notMem buf
  · rw [strsepEach_text h0 htext rest hbody, cstr_append_nul htext]
  · exact absurd hbuf hnul

theorem splitOn_two {u v : List UInt8} (hu : sep ∉ u) (hv : sep ∉ v) :
    (u ++ sep :: v).splitOn sep = [u, v] := by
  rw [List.splitOn_append_cons_self_of_not_mem hu, List.splitOn_eq_singleton hv]

/-- No piece holds the separator. -/
theorem notMem_of_mem_splitOn {text t : List UInt8} (h : t ∈ text.splitOn sep) : sep ∉ t := by
  induction text generalizing t with
  | nil =>
    rw [List.splitOn_nil, List.mem_singleton] at h
    rw [h]
    exact List.not_mem_nil
  | cons b text ih =>
    rw [List.splitOn_cons_eq_if_modifyHead] at h
    split at h
    · rcases List.mem_cons.mp h with rfl | h
      · exact List.not_mem_nil
      · exact ih h
    · next hb =>
      cases hpieces : text.splitOn sep with
      | nil => exact absurd hpieces (List.splitOn_ne_nil sep text)
      | cons u us =>
        rw [hpieces, List.modifyHead_cons] at h
        rcases List.mem_cons.mp h with rfl | h
        · refine List.not_mem_cons_of_ne_of_not_mem ?_ (ih (hpieces ▸ List.mem_cons_self))
          rintro rfl
          exact hb (beq_self_eq_true _)
        · exact ih (hpieces ▸ List.mem_cons_of_mem _ h)

/-- Every byte of a piece is a byte of the text. -/
theorem mem_of_mem_splitOn {text t : List UInt8} (h : t ∈ text.splitOn sep) {b : UInt8}
    (hb : b ∈ t) : b ∈ text := by
  induction text generalizing t with
  | nil =>
    rw [List.splitOn_nil, List.mem_singleton] at h
    rw [h] at hb
    exact hb
  | cons a text ih =>
    rw [List.splitOn_cons_eq_if_modifyHead] at h
    split at h
    · rcases List.mem_cons.mp h with rfl | h
      · cases hb
      · exact List.mem_cons_of_mem _ (ih h hb)
    · cases hpieces : text.splitOn sep with
      | nil => exact absurd hpieces (List.splitOn_ne_nil sep text)
      | cons u us =>
        rw [hpieces, List.modifyHead_cons] at h
        rcases List.mem_cons.mp h with rfl | h
        · rcases List.mem_cons.mp hb with rfl | hb
          · exact List.mem_cons_self
          · exact List.mem_cons_of_mem _ (ih (hpieces ▸ List.mem_cons_self) hb)
        · exact List.mem_cons_of_mem _ (ih (hpieces ▸ List.mem_cons_of_mem _ h) hb)

end Lidbg.Machine
