import Lidbg.Core.Cmn

/-!
# Shell commands in `core.conf` (`core/lidbg_misc.c`)

The value of the key `cmdstring` is a list of commands, `;` between the commands
and `,` between the words of one. `cb_kv_cmd` runs them in order. One array
`param` takes the words of every command in turn and is not cleared in between,
so that the slots behind a short command hold the words of a longer one before
it.
-/

namespace Lidbg.Misc

open Machine Cmn

/-- What `cb_kv_cmd` calls. -/
inductive Action where
  | fsFileWrite (filename wbuff : List UInt8)
  | echoErr
  | lidbgExe (args : List (Option (List UInt8)))
  | fsMemLog (num : Nat) (cmd arg : Option (List UInt8))
deriving DecidableEq

/-- `if (num > 1)`: one command, its words in the slots of `param`. -/
def perform (num : Nat) (param : Nat → Option (List UInt8)) : List Action :=
  if num > 1 then
    [if param 0 = some (ascii "echo") then
        match param 3, param 1 with
        | some filename, some wbuff => .fsFileWrite filename wbuff
        | _, _ => .echoErr
      else .lidbgExe [param 0, param 1, param 2, param 3, param 4, param 5, param 6],
      .fsMemLog num (param 0) (param 1)]
  else []

/-- `for (loop = 0; loop < cmd_num; loop++)`; `none` is a ninth word of a command. -/
def cmdLoop : List (Option (List UInt8)) → List (Option (List UInt8)) → Option (List Action)
  | [], _ => some []
  | cmd :: rest, param =>
    match lidbgTokenString cmd 44 param with
    | none => none
    | some (num, param') => (cmdLoop rest param').map (perform num (slotStr param') ++ ·)

/-- `cb_kv_cmd`; `none` stores a ninth command or word behind its array. -/
def cbKvCmd (value : Option (List UInt8)) : Option (List Action) :=
  match value with
  | none => some []
  | some value =>
    match lidbgTokenString (some value) 59 (List.replicate 8 none) with
    | none => none
    | some (cmdNum, cmd) => cmdLoop (cmd.take cmdNum) (List.replicate 8 none)

/-! ## The commands as lists of words -/

/-- The words of a command. -/
def words (cmd : List UInt8) : List (List UInt8) :=
  cmd.splitOn 44

/-- The slots after the words of a command were stored in them. -/
def fill (ws : List (List UInt8)) (param : Nat → Option (List UInt8)) : Nat → Option (List UInt8) :=
  fun i => ws[i]?.or (param i)

/-- The commands in order, each on the slots that the one before has left. -/
def performAll : List (List (List UInt8)) → (Nat → Option (List UInt8)) → List Action
  | [], _ => []
  | ws :: rest, param => perform ws.length (fill ws param) ++ performAll rest (fill ws param)

theorem cmdLoop_eq {cmds : List (List UInt8)} (hnul : ∀ cmd ∈ cmds, 0 ∈ cmd)
    (hwords : ∀ cmd ∈ cmds, (words (cstr cmd)).length ≤ 8)
    {param : List (Option (List UInt8))} (hparam : param.length = 8) :
    cmdLoop (cmds.map some) param =
      some (performAll (cmds.map fun cmd => words (cstr cmd)) (slotStr param)) := by
  induction cmds generalizing param with
  | nil => rfl
  | cons cmd cmds ih =>
    rcases exists_str_or_notMem cmd with ⟨text, rest, htext, rfl⟩ | h
    · obtain ⟨tokens, hpieces, -, hstored⟩ := lidbgTokenString_eq (by decide : (44 : UInt8) ≠ 0)
        htext rest param
      have hlen : tokens.length = (words text).length := by
        rw [words, ← hpieces, List.length_map]
      have hle : tokens.length ≤ 8 := by
        have h := hwords _ List.mem_cons_self
        rwa [cstr_append_nul htext, ← hlen] at h
      rw [List.map_cons, cmdLoop, hstored, if_pos (hparam ▸ hle)]
      dsimp only
      rw [ih (fun cmd h => hnul cmd (List.mem_cons_of_mem _ h))
        (fun cmd h => hwords cmd (List.mem_cons_of_mem _ h))
        (by rw [List.length_append, List.length_map, List.length_drop, hparam]; omega),
        slotStr_stored, hpieces, List.map_cons, cstr_append_nul htext, hlen]
      rfl
    · exact absurd (hnul cmd List.mem_cons_self) h

/-- **What a value performs**, if its commands and their words fit the arrays. -/
theorem cbKvCmd_eq {text : List UInt8} (htext : 0 ∉ text) (rest : List UInt8)
    (hcmds : (text.splitOn 59).length ≤ 8)
    (hwords : ∀ cmd ∈ text.splitOn 59, (words cmd).length ≤ 8) :
    cbKvCmd (some (text ++ 0 :: rest)) =
      some (performAll ((text.splitOn 59).map words) fun _ => none) := by
  obtain ⟨cmds, hpieces, hnul, hstored⟩ := lidbgTokenString_eq (by decide : (59 : UInt8) ≠ 0)
    htext rest (List.replicate 8 none)
  have hlen : cmds.length ≤ 8 := by
    rwa [← hpieces, List.length_map] at hcmds
  rw [cbKvCmd, hstored, if_pos (by rwa [List.length_replicate])]
  dsimp only
  rw [List.take_append_of_le_length (by rw [List.length_map]),
    List.take_of_length_le (by rw [List.length_map]),
    cmdLoop_eq hnul ?_ List.length_replicate, slotStr_nulls, ← hpieces, List.map_map]
  · rfl
  · intro cmd hcmd
    exact hwords _ (hpieces ▸ List.mem_map_of_mem hcmd)

/-! ## Words of an earlier command -/

/-- The slots that are not null are the first `seen`. -/
def Filled (param : Nat → Option (List UInt8)) (seen : Nat) : Prop :=
  ∀ i, (param i).isSome ↔ i < seen

/-- A command of these words, behind commands of at most `seen` words, shows
none of theirs: the one that counts is the file of an `echo`, its fourth word,
and the first word behind any other command. -/
def Clean (seen : Nat) (ws : List (List UInt8)) : Prop :=
  1 < ws.length →
    if ws.head? = some (ascii "echo") then 4 ≤ ws.length ∨ seen < 4 else seen ≤ ws.length

/-- The most words of one command. -/
def mostWords (cmds : List (List (List UInt8))) : Nat :=
  (cmds.map List.length).foldr max 0

theorem Filled.fill {param : Nat → Option (List UInt8)} {seen : Nat} (h : Filled param seen)
    (ws : List (List UInt8)) : Filled (fill ws param) (max seen ws.length) := by
  intro i
  have hi : ws[i]?.isSome = true ↔ i < ws.length := by simp
  unfold Misc.fill
  rw [Option.isSome_or, Bool.or_eq_true, h i, hi]
  omega

theorem length_perform (num : Nat) (param param' : Nat → Option (List UInt8)) :
    (perform num param).length = (perform num param').length := by
  unfold perform
  split_ifs <;> rfl

theorem fill_of_lt {ws : List (List UInt8)} {i : Nat} (hi : i < ws.length)
    (param param' : Nat → Option (List UInt8)) : fill ws param i = fill ws param' i := by
  unfold fill
  rw [List.getElem?_eq_getElem hi, Option.some_or, Option.some_or]

theorem fill_of_le {ws : List (List UInt8)} {i : Nat} (hi : ws.length ≤ i)
    (param : Nat → Option (List UInt8)) : fill ws param i = param i := by
  unfold fill
  rw [List.getElem?_eq_none hi, Option.none_or]

theorem Filled.eq_none {param : Nat → Option (List UInt8)} {seen i : Nat} (h : Filled param seen)
    (hi : seen ≤ i) : param i = none := by
  rw [← Option.not_isSome_iff_eq_none, h i]
  exact Nat.not_lt_of_le hi

theorem Filled.exists_eq_some {param : Nat → Option (List UInt8)} {seen i : Nat}
    (h : Filled param seen) (hi : i < seen) : ∃ s, param i = some s :=
  Option.isSome_iff_exists.mp ((h i).mpr hi)

/-- An `echo` finds its file in the fourth slot, its own or an earlier one. -/
theorem perform_echo_iff {ws : List (List UInt8)} {param : Nat → Option (List UInt8)} {seen : Nat}
    (hparam : Filled param seen) (hnum : 1 < ws.length)
    (hecho : ws.head? = some (ascii "echo")) :
    perform ws.length (fill ws param) = perform ws.length (fill ws fun _ => none) ↔
      4 ≤ ws.length ∨ seen < 4 := by
  have hhead : ∀ p, fill ws p 0 = some (ascii "echo") := by
    intro p
    rw [fill_of_lt (by omega) p fun _ => none, ← hecho, List.head?_eq_getElem?]
    exact Option.or_none
  have hone : ∀ p, fill ws p 1 = some ws[1] := by
    intro p
    rw [fill, List.getElem?_eq_getElem hnum, Option.some_or]
  unfold perform
  rw [if_pos hnum, if_pos hnum, hhead, hhead, hone, hone, if_pos rfl, if_pos rfl]
  by_cases hfour : 4 ≤ ws.length
  · rw [fill_of_lt hfour param fun _ => none]
    exact iff_of_true rfl (.inl hfour)
  · rw [fill_of_le (by omega) param, fill_of_le (by omega) fun _ => none]
    by_cases hseen : seen < 4
    · rw [hparam.eq_none (Nat.le_of_lt_succ hseen)]
      exact iff_of_true rfl (.inr hseen)
    · obtain ⟨filename, hfile⟩ : ∃ s, param 3 = some s := hparam.exists_eq_some (by omega)
      rw [hfile]
      refine iff_of_false ?_ (by omega)
      intro h
      cases (List.cons.inj h).1

/-- Any other program is given all seven slots. -/
theorem perform_exe_iff {ws : List (List UInt8)} {param : Nat → Option (List UInt8)} {seen : Nat}
    (hparam : Filled param seen) (hseen : seen ≤ 7) (hnum : 1 < ws.length)
    (hecho : ws.head? ≠ some (ascii "echo")) :
    perform ws.length (fill ws param) = perform ws.length (fill ws fun _ => none) ↔
      seen ≤ ws.length := by
  have hhead : ∀ p, fill ws p 0 ≠ some (ascii "echo") := by
    intro p
    rw [fill_of_lt (by omega) p fun _ => none]
    intro h
    apply hecho
    rw [← h, List.head?_eq_getElem?]
    exact Option.or_none.symm
  unfold perform
  rw [if_pos hnum, if_pos hnum, if_neg (hhead _), if_neg (hhead _)]
  constructor
  · intro h
    by_contra hlt
    -- the slot behind the command's own words is among the seven
    obtain ⟨s, hs⟩ := hparam.exists_eq_some (Nat.lt_of_not_le hlt)
    have hslots : (List.range 7).map (fill ws param) = (List.range 7).map (fill ws fun _ => none) :=
      Action.lidbgExe.inj (List.cons.inj h).1
    have h := List.map_inj_left.mp hslots ws.length (List.mem_range.mpr (by omega))
    rw [fill_of_le (Nat.le_refl _), fill_of_le (Nat.le_refl _), hs] at h
    cases h
  · intro hle
    have hfill : fill ws param = fill ws fun _ => none := by
      funext i
      by_cases hi : i < ws.length
      · exact fill_of_lt hi ..
      · rw [fill_of_le (Nat.le_of_not_lt hi), fill_of_le (Nat.le_of_not_lt hi),
          hparam.eq_none (by omega)]
    rw [hfill]

/-- **One command** does what it does alone if and only if it is clean. -/
theorem perform_fill_iff {ws : List (List UInt8)} {param : Nat → Option (List UInt8)} {seen : Nat}
    (hparam : Filled param seen) (hseen : seen ≤ 7) :
    perform ws.length (fill ws param) = perform ws.length (fill ws fun _ => none) ↔
      Clean seen ws := by
  unfold Clean
  by_cases hnum : 1 < ws.length
  · split_ifs with hecho
    · rw [perform_echo_iff hparam hnum hecho]
      exact ⟨fun h _ => h, fun h => h hnum⟩
    · rw [perform_exe_iff hparam hseen hnum hecho]
      exact ⟨fun h _ => h, fun h => h hnum⟩
  · unfold perform
    rw [if_neg hnum, if_neg hnum]
    exact iff_of_true rfl fun h => absurd h hnum

/-- **All commands** do what they do alone if and only if each is clean behind
those before it. -/
theorem performAll_iff {cmds : List (List (List UInt8))} (hwords : ∀ ws ∈ cmds, ws.length ≤ 7)
    {param : Nat → Option (List UInt8)} {seen : Nat} (hparam : Filled param seen)
    (hseen : seen ≤ 7) :
    performAll cmds param = cmds.flatMap (fun ws => performAll [ws] fun _ => none) ↔
      ∀ pre ws post, cmds = pre ++ ws :: post → Clean (max seen (mostWords pre)) ws := by
  induction cmds generalizing param seen with
  | nil => exact iff_of_true rfl fun pre ws post h => by simp at h
  | cons ws cmds ih =>
    have hlen : ws.length ≤ 7 := hwords ws List.mem_cons_self
    have hrest := ih (fun ws h => hwords ws (List.mem_cons_of_mem _ h)) (hparam.fill ws)
      (Nat.max_le.mpr ⟨hseen, hlen⟩)
    have halone : performAll [ws] (fun _ => none) = perform ws.length (fill ws fun _ => none) :=
      List.append_nil _
    -- a command calls the same number of functions whatever its slots hold, so the two
    -- runs can be compared command by command
    have hsplit : performAll (ws :: cmds) param =
        (ws :: cmds).flatMap (fun ws => performAll [ws] fun _ => none) ↔
          perform ws.length (fill ws param) = perform ws.length (fill ws fun _ => none) ∧
          performAll cmds (fill ws param) =
            cmds.flatMap fun ws => performAll [ws] fun _ => none := by
      rw [List.flatMap_cons, halone, performAll]
      constructor
      · intro h
        exact List.append_inj h (length_perform ..)
      · rintro ⟨hfirst, hrest⟩
        rw [hfirst, hrest]
    rw [hsplit, perform_fill_iff hparam hseen, hrest]
    constructor
    · rintro ⟨hclean, hrest⟩ (_ | ⟨w, pre⟩) v post h
      · cases h
        exact (Nat.max_zero seen).symm ▸ hclean
      · cases h
        have h := hrest pre v post rfl
        rwa [Nat.max_assoc] at h
    · intro h
      refine ⟨?_, fun pre v post heq => ?_⟩
      · have h := h [] ws cmds rfl
        rwa [mostWords, List.map_nil, List.foldr_nil, Nat.max_zero] at h
      · have h := h (ws :: pre) v post (by rw [heq, List.cons_append])
        rwa [mostWords, List.map_cons, List.foldr_cons, ← Nat.max_assoc] at h

/-! ## Independent commands -/

/-- A value performs what its commands perform, each given alone, one behind
the other. -/
def Independent (text rest : List UInt8) : Prop :=
  cbKvCmd (some (text ++ 0 :: rest)) =
    ((text.splitOn 59).mapM fun cmd => cbKvCmd (some (cmd ++ [0]))).map List.flatten

theorem cbKvCmd_alone {cmd : List UInt8} (hcmd : 0 ∉ cmd) (hsep : 59 ∉ cmd)
    (hwords : (words cmd).length ≤ 8) :
    cbKvCmd (some (cmd ++ [0])) = some (performAll [words cmd] fun _ => none) := by
  have hone : cmd.splitOn 59 = [cmd] := List.splitOn_eq_singleton hsep
  rw [cbKvCmd_eq hcmd [] (by rw [hone, List.length_singleton]; decide)
    (by rwa [hone, List.forall_mem_singleton]), hone]
  rfl

theorem mapM_alone {cmds : List (List UInt8)} (hnul : ∀ cmd ∈ cmds, 0 ∉ cmd)
    (hsep : ∀ cmd ∈ cmds, 59 ∉ cmd) (hwords : ∀ cmd ∈ cmds, (words cmd).length ≤ 8) :
    cmds.mapM (fun cmd => cbKvCmd (some (cmd ++ [0]))) =
      some (cmds.map fun cmd => performAll [words cmd] fun _ => none) := by
  induction cmds with
  | nil => rfl
  | cons cmd cmds ih =>
    rw [List.forall_mem_cons] at hnul hsep hwords
    rw [List.mapM_cons, cbKvCmd_alone hnul.1 hsep.1 hwords.1, ih hnul.2 hsep.2 hwords.2]
    rfl

/-- **The commands of a value are independent** if and only if each is clean
behind those before it. -/
theorem independent_iff {text : List UInt8} (htext : 0 ∉ text) (rest : List UInt8)
    (hcmds : (text.splitOn 59).length ≤ 8)
    (hwords : ∀ cmd ∈ text.splitOn 59, (cmd.splitOn 44).length ≤ 7) :
    Independent text rest ↔
      ∀ pre cmd post, text.splitOn 59 = pre ++ cmd :: post →
        Clean (mostWords (pre.map words)) (words cmd) := by
  have hwords8 : ∀ cmd ∈ text.splitOn 59, (words cmd).length ≤ 8 := fun cmd h =>
    Nat.le_succ_of_le (hwords cmd h)
  have hnone : Filled (fun _ => none) 0 := fun i => by simp
  rw [Independent, cbKvCmd_eq htext rest hcmds hwords8,
    mapM_alone (fun cmd h h0 => htext (mem_of_mem_splitOn h h0))
      (fun cmd h => notMem_of_mem_splitOn h) hwords8,
    Option.map_some, Option.some_inj]
  have hmap : ∀ ws ∈ (text.splitOn 59).map words, ws.length ≤ 7 := by rwa [List.forall_mem_map]
  have hiff := performAll_iff hmap hnone (Nat.zero_le 7)
  rw [List.flatMap_map, List.flatMap_def] at hiff
  rw [hiff]
  constructor
  · intro h pre cmd post heq
    have h := h (pre.map words) (words cmd) (post.map words)
      (by rw [heq, List.map_append, List.map_cons])
    rwa [Nat.zero_max] at h
  · intro h pre ws post heq
    obtain ⟨pre', tail, htext, rfl, htail⟩ := List.map_eq_append_iff.mp heq
    obtain ⟨cmd, post', rfl, rfl, rfl⟩ := List.map_eq_cons_iff.mp htail
    rw [Nat.zero_max]
    exact h pre' cmd post' htext

/-- Two commands of two words each. -/
theorem independent_pair : Independent (ascii "rm,/a;rm,/b") [] := by
  have hpieces : (ascii "rm,/a;rm,/b").splitOn 59 = [ascii "rm,/a", ascii "rm,/b"] :=
    splitOn_two (u := ascii "rm,/a") (v := ascii "rm,/b") (by decide) (by decide)
  have ha : words (ascii "rm,/a") = [ascii "rm", ascii "/a"] :=
    splitOn_two (u := ascii "rm") (v := ascii "/a") (by decide) (by decide)
  have hb : words (ascii "rm,/b") = [ascii "rm", ascii "/b"] :=
    splitOn_two (u := ascii "rm") (v := ascii "/b") (by decide) (by decide)
  refine (independent_iff (by decide) [] (by rw [hpieces]; decide) ?_).mpr ?_
  · rw [hpieces]
    rintro cmd (_ | ⟨_, _ | ⟨_, h⟩⟩)
    · exact (congrArg List.length ha).trans_le (by decide)
    · exact (congrArg List.length hb).trans_le (by decide)
    · cases h
  · rw [hpieces]
    rintro (_ | ⟨a, _ | ⟨b, pre⟩⟩) cmd post h
    · cases h
      rw [ha]
      exact fun _ => by decide
    · cases h
      rw [hb, List.map_singleton, ha]
      exact fun _ => by decide
    · simp at h

/-- The third word of an `echo` becomes an argument of `rm`. -/
theorem echo_not_independent : ¬ Independent (ascii "echo,add,/u;rm,/t") [] := by
  have hpieces : (ascii "echo,add,/u;rm,/t").splitOn 59 = [ascii "echo,add,/u", ascii "rm,/t"] :=
    splitOn_two (u := ascii "echo,add,/u") (v := ascii "rm,/t") (by decide) (by decide)
  rw [Independent, hpieces]
  decide

end Lidbg.Misc
