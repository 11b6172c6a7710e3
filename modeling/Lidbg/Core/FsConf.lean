import Lidbg.Machine.Strsep
import Lidbg.Machine.Decimal
import Mathlib.Algebra.Group.Nat.Defs

/-!
# `cmd.conf` (`core/lidbg_fs_conf.c`)

`launch_file_cmd` writes each line that starts with a digit and a `c` to the lidbg
node, without the digit and as many times as it says. It looks at the second byte
of a line before it knows that there is one: behind an empty line stands the next
line, or the end of the buffer.
-/

namespace Lidbg.FsConf

open Machine

/-- What the system does in one call: the memory that `kmalloc` gives, and how many
bytes `read` gets. -/
structure CmdIo where
  memory : Option (Nat → UInt8)
  readLen : Nat

/-- The body of the loop, with what was written to the lidbg node; `none` reads past
the end of the buffer. -/
def cmdToken (writes : List (List UInt8)) (token : List UInt8) : Option (List (List UInt8)) :=
  match token with
  | [] => none
  | c₀ :: rest =>
    if c₀ ≠ 35 ∧ c₀ ≠ 48 then
      match rest with
      | [] => none
      | c₁ :: _ =>
        if c₁ = 99 then
          let loop := strtoulInt (cstr [c₀, 0])
          if loop > 0 then
            (loadStr rest).map fun line => writes ++ List.replicate loop.toInt.toNat line
          else some writes
        else some writes
    else some writes

/-- `launch_file_cmd`, with what it writes to the lidbg node and its result; a file that
does not open is `none`. -/
def launchFileCmd (file : Option (List UInt8)) (io : CmdIo) :
    Option (List (List UInt8) × Int32) :=
  match file, io.memory with
  | none, _ | _, none => some ([], -1)
  | some content, some memory =>
    let fileLen := (content.length + 1) % 2 ^ 32
    let got := content.take (min io.readLen fileLen)
    if got = [] then some ([], -1)
    else do
      let filePtr ← storeBytes ((List.range fileLen).map memory) got
      let filePtr ← storeByte filePtr (fileLen - 1) 0
      (strsepEach 10 cmdToken filePtr []).map fun writes => (writes, 1)

/-- What a line of `cmd.conf` stands for: `<digit>c...`. -/
def lineWrites : List UInt8 → List (List UInt8)
  | c₀ :: c₁ :: line =>
    if (49 ≤ c₀ ∧ c₀ ≤ 57) ∧ c₁ = 99 then List.replicate (c₀.toNat - 48) (c₁ :: line) else []
  | _ => []

/-- The file is carried out: what its lines stand for is written, in their order, and
nothing is read past the end of the buffer. -/
def CarriedOut (text : List UInt8) (io : CmdIo) : Prop :=
  ∃ ret, launchFileCmd (some text) io = some ((text.splitOn 10).flatMap lineWrites, ret)

/-- The digit as a number; no other character but `'0'` is one. -/
theorem strtoulInt_digit (c₀ : UInt8) :
    (strtoulInt (cstr [c₀, 0]) > 0 ↔ 49 ≤ c₀ ∧ c₀ ≤ 57) ∧
      (49 ≤ c₀ ∧ c₀ ≤ 57 → (strtoulInt (cstr [c₀, 0])).toInt.toNat = c₀.toNat - 48) := by
  have hall : ∀ n : Fin 256,
      (strtoulInt (cstr [UInt8.ofNat n, 0]) > 0 ↔ 49 ≤ UInt8.ofNat n ∧ UInt8.ofNat n ≤ 57) ∧
        (49 ≤ UInt8.ofNat n ∧ UInt8.ofNat n ≤ 57 →
          (strtoulInt (cstr [UInt8.ofNat n, 0])).toInt.toNat = (UInt8.ofNat n).toNat - 48) := by
    decide +kernel
  have h := hall ⟨c₀.toNat, c₀.toNat_lt⟩
  rwa [UInt8.ofNat_toNat] at h

/-! ## One line -/

/-- A token with two bytes in the buffer. -/
theorem cmdToken_cons_cons (writes : List (List UInt8)) (c₀ c₁ : UInt8) (mem : List UInt8) :
    cmdToken writes (c₀ :: c₁ :: mem) =
      if (49 ≤ c₀ ∧ c₀ ≤ 57) ∧ c₁ = 99 then
        (loadStr (c₁ :: mem)).map fun line => writes ++ List.replicate (c₀.toNat - 48) line
      else some writes := by
  obtain ⟨hpos, hval⟩ := strtoulInt_digit c₀
  by_cases hdigit : 49 ≤ c₀ ∧ c₀ ≤ 57
  · have hcmd : c₀ ≠ 35 ∧ c₀ ≠ 48 := by
      refine ⟨?_, ?_⟩ <;> rintro rfl <;> exact absurd hdigit.1 (by decide)
    show (if c₀ ≠ 35 ∧ c₀ ≠ 48 then _ else _) = _
    rw [if_pos hcmd, if_pos (hpos.mpr hdigit), hval hdigit]
    by_cases hc : c₁ = 99
    · rw [if_pos hc, if_pos ⟨hdigit, hc⟩]
    · rw [if_neg hc, if_neg fun h => hc h.2]
  · rw [if_neg fun h => hdigit h.1]
    show (if c₀ ≠ 35 ∧ c₀ ≠ 48 then _ else _) = _
    rw [if_neg (hpos.not.mpr hdigit), ite_self, ite_self]

/-- A line that is not empty. -/
theorem cmdToken_line {line : List UInt8} (hline : 0 ∉ line) (hne : line ≠ [])
    (rest : List UInt8) (writes : List (List UInt8)) :
    cmdToken writes (line ++ 0 :: rest) = some (writes ++ lineWrites line) := by
  obtain ⟨c₀, line, rfl⟩ := List.exists_cons_of_ne_nil hne
  rw [List.mem_cons, not_or] at hline
  cases line with
  | nil =>
    -- the second byte is the NUL
    rw [List.cons_append, List.nil_append, cmdToken_cons_cons,
      if_neg fun h => absurd h.2 (by decide), lineWrites, List.append_nil]
    exact fun c₀ c₁ line h => nomatch h
  | cons c₁ line =>
    rw [List.cons_append, List.cons_append, cmdToken_cons_cons, ← List.cons_append,
      loadStr_append_nul hline.2, Option.map_some, lineWrites]
    split_ifs
    · rfl
    · rw [List.append_nil]

/-- A line behind which the buffer goes on. -/
theorem cmdToken_front {line : List UInt8} (hline : 0 ∉ line) (b : UInt8) (mem : List UInt8)
    (writes : List (List UInt8)) :
    cmdToken writes (line ++ 0 :: b :: mem) = some (writes ++ lineWrites line) := by
  cases line with
  | nil =>
    rw [List.nil_append, cmdToken_cons_cons, if_neg fun h => absurd h.1 (by decide), lineWrites,
      List.append_nil]
    exact fun c₀ c₁ line h => nomatch h
  | cons c₀ line => exact cmdToken_line hline (List.cons_ne_nil c₀ line) _ _

theorem foldlM_cmdToken {front : List (List UInt8)}
    (hfront : ∀ token ∈ front, ∃ line b mem, 0 ∉ line ∧ token = line ++ 0 :: b :: mem)
    (writes : List (List UInt8)) :
    front.foldlM cmdToken writes =
      some (writes ++ (front.map cstr).flatMap lineWrites) := by
  induction front generalizing writes with
  | nil => rw [List.map_nil, List.flatMap_nil, List.append_nil]; rfl
  | cons token front ih =>
    rw [List.forall_mem_cons] at hfront
    obtain ⟨⟨line, b, mem, hline, rfl⟩, hfront⟩ := hfront
    rw [List.foldlM_cons, cmdToken_front hline, Option.bind_eq_bind, Option.bind_some, ih hfront,
      List.map_cons, cstr_append_nul hline, List.flatMap_cons, List.append_assoc]

/-! ## The file -/

/-- The loop over a text and its NUL: the last line must not be empty. -/
theorem strsepEach_cmdToken {text : List UInt8} (htext : 0 ∉ text) (hne : text ≠ []) :
    strsepEach 10 cmdToken (text ++ [0]) [] =
      if text.getLast? = some 10 then none
      else some ((text.splitOn 10).flatMap lineWrites) := by
  obtain ⟨front, pre, last, rfl, hpre, hlast, hpieces, hfront, hloop⟩ :=
    strsepLoop_pieces (by decide : (10 : UInt8) ≠ 0) htext []
  have hnul : 0 ∉ last := fun h => htext (List.mem_append_right pre h)
  rw [strsepEach, hloop _ (by simp), List.foldlM_append, foldlM_cmdToken hfront,
    List.nil_append, Option.bind_eq_bind, Option.bind_some, List.foldlM_cons, ← hpieces,
    List.flatMap_append, List.flatMap_singleton]
  by_cases hempty : last = []
  · subst hempty
    rw [List.append_nil] at hne ⊢
    rw [if_pos (hpre.resolve_left hne)]
    -- the byte behind the final NUL is read
    rfl
  · have hend : (pre ++ last).getLast? ≠ some 10 := by
      rw [List.getLast?_append, Option.or_of_isSome (by rw [List.getLast?_isSome]; exact hempty)]
      exact fun h => hlast (List.mem_of_getLast? h)
    rw [if_neg hend, cmdToken_line hnul hempty]
    rfl

/-- The loop runs over the whole text and a NUL. -/
theorem launchFileCmd_eq {text : List UInt8} (hne : text ≠ []) (hsize : text.length + 1 < 2 ^ 32)
    {io : CmdIo} (hmemory : io.memory.isSome) (hread : text.length ≤ io.readLen) :
    launchFileCmd (some text) io =
      (strsepEach 10 cmdToken (text ++ [0]) []).map fun writes => (writes, 1) := by
  obtain ⟨memory, hmemory⟩ := Option.isSome_iff_exists.mp hmemory
  have hgot : text.take (min io.readLen (text.length + 1)) = text :=
    List.take_of_length_le (by omega)
  have hlen : ((List.range (text.length + 1)).map memory).length = text.length + 1 := by
    rw [List.length_map, List.length_range]
  obtain ⟨filePtr, hstore, hlast⟩ := storeBytes_nul hlen
  unfold launchFileCmd
  rw [hmemory]
  dsimp only
  rw [Nat.mod_eq_of_lt hsize, hgot, if_neg hne, hstore, Option.bind_eq_bind, Option.bind_some,
    Nat.add_sub_cancel, hlast, Option.bind_some]

/-- **A text is carried out** exactly if it does not end with a newline. -/
theorem carriedOut_iff {text : List UInt8} (htext : 0 ∉ text) (hsize : text.length + 1 < 2 ^ 32)
    {io : CmdIo} (hmemory : io.memory.isSome) (hread : text.length ≤ io.readLen) :
    CarriedOut text io ↔ text.getLast? ≠ some 10 := by
  by_cases hne : text = []
  · subst hne
    obtain ⟨memory, hmemory⟩ := Option.isSome_iff_exists.mp hmemory
    refine iff_of_true ⟨-1, ?_⟩ fun h => nomatch h
    unfold launchFileCmd
    rw [hmemory]
    exact if_pos List.take_nil
  · rw [CarriedOut, launchFileCmd_eq hne hsize hmemory hread, strsepEach_cmdToken htext hne]
    split_ifs with hend
    · exact iff_of_false (fun ⟨_, h⟩ => nomatch h) (not_not_intro hend)
    · exact iff_of_true ⟨1, rfl⟩ hend

/-- Memory for every file, and whole reads. -/
def cmdIo : CmdIo := ⟨some fun _ => 0, 2 ^ 32⟩

/-- A file without a newline at its end. -/
theorem carriedOut_keyHome :
    CarriedOut (ascii "2c key home 2") cmdIo ↔ (ascii "2c key home 2").getLast? ≠ some 10 :=
  carriedOut_iff (by decide) (by decide) (by decide) (by decide)

/-- Behind the newline at the end of a file the loop reads past the buffer. -/
theorem not_carriedOut :
    ¬ ∀ (text : List UInt8) (io : CmdIo), 0 ∉ text → text.length + 1 < 2 ^ 32 →
      io.memory.isSome → text.length ≤ io.readLen → CarriedOut text io := by
  intro hall
  obtain ⟨ret, h⟩ := hall (ascii "2c key home 2\n") cmdIo (by decide) (by decide) (by decide)
    (by decide)
  rw [launchFileCmd_eq (by decide) (by decide) (by decide) (by decide),
    strsepEach_cmdToken (by decide) (by decide), if_pos (by decide)] at h
  cases h

end Lidbg.FsConf
