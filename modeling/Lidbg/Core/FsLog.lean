import Lidbg.Machine.Run
import Lidbg.Machine.Loop
import Lidbg.Machine.CInt
import Lidbg.Machine.CStr
import Mathlib.Tactic.IntervalCases

/-!
# Log files (`core/lidbg_fs_log.c`)

`bfs_file_amend` opens the file, and while it is larger than the limit opens it
again with `O_TRUNC`. The limit in bytes is a product of `int`s, which is 0 for
every multiple of 4096 megabytes, and then an empty file is too large as well.

- `truncatesOnce_iff` says when one call ends without a second truncation.
- `afterEachAppend` is about every sequence of calls with a limit that makes sense:
  the file holds what was appended since it was last cleared.
-/

namespace Lidbg.FsLog

open Machine

/-- `MEM_SIZE_1_MB`. -/
def memSize1MB : Int32 := 0x00100000

/-- `str_warn`. -/
def strWarn : List UInt8 := ascii "============have_cleard=============\n\n"

/-- What the system does in one call: which of its `filp_open`s succeed, and how many
bytes the `write` of the notice and that of the string take. -/
structure AmendIo where
  opens : Nat → Bool
  noticeWritten : Nat
  appendWritten : Nat

/-- One call, with `max_file_len` as it is then. -/
structure AmendCall where
  maxFileLen : Int32
  strAppend : Option CStr
  fileLimitM : Int32
  io : AmendIo

/-- `file_limit`. -/
def AmendCall.fileLimit (c : AmendCall) : Int32 :=
  if c.fileLimitM > c.maxFileLen then c.fileLimitM else c.maxFileLen

/-- The file and the variables at `again`, with how often the file was opened and how
often truncated. -/
structure AmendState where
  file : List UInt8
  trunc : Bool
  isFileCleard : Bool
  opened : Nat
  truncated : Nat

/-- The state before the first open. -/
def AmendState.start (file : List UInt8) : AmendState := ⟨file, false, false, 0, 0⟩

/-- The state before an open with `O_TRUNC`. -/
def AmendState.again (file : List UInt8) (opened truncated : Nat) : AmendState :=
  ⟨file, true, true, opened, truncated⟩

structure AmendResult where
  file : List UInt8
  ret : Int32
  truncated : Nat

/-- `file_len > file_limit * MEM_SIZE_1_MB`. -/
def tooLong (fileLimit : Int32) (file : List UInt8) : Bool :=
  decide (UInt32.ofNat file.length + 1 > (fileLimit * memSize1MB).toUInt32)

/-- The file once it is opened. -/
def AmendState.onDisk (s : AmendState) : List UInt8 :=
  if s.trunc then [] else s.file

/-- From `again` to the end or to `goto again`. -/
def amendPass (fileLimit : Int32) (strAppend : List UInt8) (io : AmendIo) (s : AmendState) :
    AmendState ⊕ AmendResult :=
  if io.opens s.opened then
    let file := s.onDisk
    let truncated := if s.trunc then s.truncated + 1 else s.truncated
    if tooLong fileLimit file then .inl (.again file (s.opened + 1) truncated)
    else
      let file := if s.isFileCleard then file ++ strWarn.take io.noticeWritten else file
      .inr ⟨file ++ strAppend.take io.appendWritten, 1, truncated⟩
  else .inr ⟨s.file, -1, s.truncated⟩

/-- `bfs_file_amend`; `none` has not ended. -/
def bfsFileAmend (fuel : Nat) (file : List UInt8) (c : AmendCall) : Option AmendResult :=
  match c.strAppend with
  | none => some ⟨file, -1, 0⟩
  | some s => loop (amendPass c.fileLimit s.chars c.io) fuel (.start file)

/-- One call, observed by what it appended and whether it cleared the file. -/
def amendStep (fuel : Nat) : Step (List UInt8) AmendCall (List UInt8 × Bool) := fun file c =>
  (bfsFileAmend fuel file c).map fun r =>
    (r.file, if r.ret = 1 then c.strAppend.toList.map fun s => (s.chars, decide (0 < r.truncated))
      else [])

/-! ## The limit -/

theorem toNat_limit (fileLimit : Int32) :
    (fileLimit * memSize1MB).toUInt32.toNat = fileLimit.toUInt32.toNat * 2 ^ 20 % 2 ^ 32 := by
  rw [Int32.toUInt32_mul, UInt32.toNat_mul]
  rfl

theorem toNat_toUInt32_cond (x : Int32) :
    x.toInt = if 2 * x.toUInt32.toNat < 2 ^ 32 then (x.toUInt32.toNat : Int)
      else x.toUInt32.toNat - 2 ^ 32 :=
  x.toBitVec.toInt_eq_toNat_cond

/-- The product is 0 for the multiples of 4096. -/
theorem toNat_limit_eq_zero_iff (fileLimit : Int32) :
    (fileLimit * memSize1MB).toUInt32.toNat = 0 ↔ fileLimit.toInt % 4096 = 0 := by
  have hcond := toNat_toUInt32_cond fileLimit
  have hlt := fileLimit.toUInt32.toNat_lt
  rw [toNat_limit]
  split_ifs at hcond <;> omega

theorem tooLong_iff (fileLimit : Int32) (file : List UInt8) :
    tooLong fileLimit file = true ↔
      (fileLimit * memSize1MB).toUInt32.toNat < (file.length + 1) % 2 ^ 32 := by
  have hlen : (UInt32.ofNat file.length + 1).toNat = (file.length + 1) % 2 ^ 32 := by
    rw [UInt32.toNat_add, UInt32.toNat_ofNat', Nat.mod_add_mod]
    rfl
  rw [tooLong, decide_eq_true_iff, gt_iff_lt, UInt32.lt_iff_toNat_lt, hlen]

/-- A file that was just truncated is too long for a limit of 0 only. -/
theorem tooLong_nil_iff (fileLimit : Int32) :
    tooLong fileLimit [] = true ↔ fileLimit.toInt % 4096 = 0 := by
  rw [tooLong_iff, ← toNat_limit_eq_zero_iff]
  exact Nat.lt_one_iff

/-- Nothing wraps for a limit below 2048 and a file below 4 GiB. -/
theorem tooLong_iff_of_limit {fileLimit : Int32} (hpos : 1 ≤ fileLimit.toInt)
    (hle : fileLimit.toInt ≤ 2047) {file : List UInt8} (hfile : file.length + 1 < 2 ^ 32) :
    tooLong fileLimit file = true ↔ fileLimit.toInt * 2 ^ 20 ≤ file.length := by
  have hcond := toNat_toUInt32_cond fileLimit
  have hlt := fileLimit.toUInt32.toNat_lt
  rw [tooLong_iff, toNat_limit, Nat.mod_eq_of_lt hfile]
  split_ifs at hcond <;> omega

/-! ## One pass -/

section Pass

variable (fileLimit : Int32) (strAppend : List UInt8) {io : AmendIo}

theorem amendPass_closed {s : AmendState} (h : io.opens s.opened = false) :
    amendPass fileLimit strAppend io s = .inr ⟨s.file, -1, s.truncated⟩ := by
  rw [amendPass, h, if_neg Bool.false_ne_true]

theorem amendPass_start (file : List UInt8) (h : io.opens 0 = true) :
    amendPass fileLimit strAppend io (.start file) =
      if tooLong fileLimit file then .inl (.again file 1 0)
      else .inr ⟨file ++ strAppend.take io.appendWritten, 1, 0⟩ :=
  if_pos h

theorem amendPass_again {file : List UInt8} {opened truncated : Nat}
    (h : io.opens opened = true) :
    amendPass fileLimit strAppend io (.again file opened truncated) =
      if tooLong fileLimit [] then .inl (.again [] (opened + 1) (truncated + 1))
      else .inr ⟨strWarn.take io.noticeWritten ++ strAppend.take io.appendWritten, 1,
        truncated + 1⟩ :=
  if_pos h

end Pass

/-! ## One call -/

/-- The call ends, after one truncation at most. -/
def TruncatesOnce (file : List UInt8) (c : AmendCall) : Prop :=
  ∃ fuel r, bfsFileAmend fuel file c = some r ∧ r.truncated ≤ 1

theorem truncatesOnce_of_some {file : List UInt8} {c : AmendCall} {s : CStr}
    (hs : c.strAppend = some s) : TruncatesOnce file c ↔
      LoopEnds (amendPass c.fileLimit s.chars c.io) (.start file) (·.truncated ≤ 1) := by
  unfold TruncatesOnce LoopEnds bfsFileAmend
  rw [hs]

/-- Once it has truncated twice, no result says less. -/
theorem not_loopEnds_again {fileLimit : Int32} {strAppend file : List UInt8} {io : AmendIo}
    {opened truncated : Nat} (htwo : 2 ≤ truncated) :
    ¬ LoopEnds (amendPass fileLimit strAppend io) (.again file opened truncated)
      (·.truncated ≤ 1) := by
  rintro ⟨n, r, hr, hle⟩
  refine Nat.not_lt_of_le hle (loop_spec
    (I := fun s : AmendState => ∃ file opened truncated,
      s = .again file opened truncated ∧ 2 ≤ truncated)
    (Q := fun r : AmendResult => 2 ≤ r.truncated) ?_ ?_ ⟨file, opened, truncated, rfl, htwo⟩ hr)
  · rintro _ s' ⟨file, opened, truncated, rfl, htwo⟩ hpass
    cases hopens : io.opens opened with
    | false => cases (amendPass_closed _ _ hopens).symm.trans hpass
    | true =>
      rw [amendPass_again _ _ hopens] at hpass
      split_ifs at hpass
      cases hpass
      exact ⟨_, _, _, rfl, Nat.le_succ_of_le htwo⟩
  · rintro _ r ⟨file, opened, truncated, rfl, htwo⟩ hpass
    cases hopens : io.opens opened with
    | false =>
      cases (amendPass_closed _ _ hopens).symm.trans hpass
      exact htwo
    | true =>
      rw [amendPass_again _ _ hopens] at hpass
      split_ifs at hpass
      cases hpass
      exact Nat.le_succ_of_le htwo

/-- A limit of 0: after the first pass every pass truncates. -/
theorem loopEnds_zero_iff {fileLimit : Int32} {strAppend file : List UInt8} {io : AmendIo}
    (hnil : tooLong fileLimit [] = true) :
    LoopEnds (amendPass fileLimit strAppend io) (.start file) (·.truncated ≤ 1) ↔
      (∃ i ≤ 2, io.opens i = false) ∨ ¬ tooLong fileLimit file = true := by
  cases h₀ : io.opens 0 with
  | false =>
    rw [loopEnds_leave (amendPass_closed _ _ h₀)]
    exact iff_of_true (Nat.zero_le 1) (.inl ⟨0, Nat.zero_le 2, h₀⟩)
  | true =>
    have hstart := amendPass_start fileLimit strAppend file h₀
    by_cases hlong : tooLong fileLimit file = true
    · rw [if_pos hlong] at hstart
      rw [loopEnds_again hstart, or_iff_left (not_not_intro hlong)]
      cases h₁ : io.opens 1 with
      | false =>
        rw [loopEnds_leave (amendPass_closed _ _ h₁)]
        exact iff_of_true (Nat.zero_le 1) ⟨1, Nat.le_succ 1, h₁⟩
      | true =>
        rw [loopEnds_again ((amendPass_again _ _ h₁).trans (if_pos hnil))]
        cases h₂ : io.opens 2 with
        | false =>
          rw [loopEnds_leave (amendPass_closed _ _ h₂)]
          exact iff_of_true (Nat.le_refl 1) ⟨2, Nat.le_refl 2, h₂⟩
        | true =>
          rw [loopEnds_again ((amendPass_again _ _ h₂).trans (if_pos hnil))]
          refine iff_of_false (not_loopEnds_again (Nat.le_refl 2)) ?_
          rintro ⟨i, hi, hclosed⟩
          have hopen : io.opens i = true := by
            interval_cases i <;> assumption
          rw [hopen] at hclosed
          cases hclosed
    · rw [if_neg hlong] at hstart
      rw [loopEnds_leave hstart]
      exact iff_of_true (Nat.zero_le 1) (.inr hlong)

/-- Any other limit: the second pass ends. -/
theorem bfsFileAmend_cases {fuel : Nat} (hfuel : 2 ≤ fuel) (file : List UInt8) {c : AmendCall}
    (hlimit : c.fileLimit.toInt % 4096 ≠ 0) :
    ∃ r, bfsFileAmend fuel file c = some r ∧
      (r = ⟨file, -1, 0⟩ ∧
          (c.strAppend = none ∨ c.io.opens 0 = false ∨ c.io.opens 1 = false) ∨
        ∃ s, c.strAppend = some s ∧
          (¬ tooLong c.fileLimit file = true ∧
              r = ⟨file ++ s.chars.take c.io.appendWritten, 1, 0⟩ ∨
            tooLong c.fileLimit file = true ∧
              r = ⟨strWarn.take c.io.noticeWritten ++ s.chars.take c.io.appendWritten, 1, 1⟩)) := by
  cases hs : c.strAppend with
  | none => exact ⟨⟨file, -1, 0⟩, by rw [bfsFileAmend, hs], .inl ⟨rfl, .inl rfl⟩⟩
  | some s =>
    have heq : bfsFileAmend fuel file c =
        loop (amendPass c.fileLimit s.chars c.io) fuel (.start file) := by
      rw [bfsFileAmend, hs]
    cases h₀ : c.io.opens 0 with
    | false =>
      have hleave := loop_leave (amendPass_closed c.fileLimit s.chars (s := .start file) h₀) 0
      exact ⟨_, heq.trans (loop_of_le (Nat.le_of_lt hfuel) hleave), .inl ⟨rfl, .inr (.inl rfl)⟩⟩
    | true =>
      have hstart := amendPass_start c.fileLimit s.chars file h₀
      by_cases hlong : tooLong c.fileLimit file = true
      · rw [if_pos hlong] at hstart
        -- the file is truncated, and the second pass opens it again
        have hagain := loop_again hstart 1
        cases h₁ : c.io.opens 1 with
        | false =>
          have hleave :=
            loop_leave (amendPass_closed c.fileLimit s.chars (s := .again file 1 0) h₁) 0
          exact ⟨_, heq.trans (loop_of_le hfuel (hagain.trans hleave)),
            .inl ⟨rfl, .inr (.inr rfl)⟩⟩
        | true =>
          -- the file is empty now, and that is not too long for this limit
          have hnil := (tooLong_nil_iff c.fileLimit).not.mpr hlimit
          have hpass : amendPass _ s.chars c.io (.again file 1 0) = _ :=
            amendPass_again c.fileLimit s.chars h₁
          rw [if_neg hnil] at hpass
          have hleave := loop_leave hpass 0
          exact ⟨_, heq.trans (loop_of_le hfuel (hagain.trans hleave)),
            .inr ⟨s, rfl, .inr ⟨hlong, rfl⟩⟩⟩
      · rw [if_neg hlong] at hstart
        exact ⟨_, heq.trans (loop_of_le (Nat.le_of_lt hfuel) (loop_leave hstart 0)),
          .inr ⟨s, rfl, .inl ⟨hlong, rfl⟩⟩⟩

/-- **One call ends after one truncation at most** exactly if the limit is not a
multiple of 4096 megabytes, or the file is not reached or not opened a third time. -/
theorem truncatesOnce_iff (file : List UInt8) (c : AmendCall) :
    TruncatesOnce file c ↔ c.fileLimit.toInt % 4096 ≠ 0 ∨ c.strAppend = none ∨
      (∃ i ≤ 2, c.io.opens i = false) ∨ (file.length + 1) % 2 ^ 32 = 0 := by
  by_cases hlimit : c.fileLimit.toInt % 4096 = 0
  · rw [or_iff_right (not_not_intro hlimit)]
    cases hs : c.strAppend with
    | none => exact iff_of_true ⟨0, _, by rw [bfsFileAmend, hs], Nat.zero_le 1⟩ (.inl rfl)
    | some s =>
      have hzero := (toNat_limit_eq_zero_iff c.fileLimit).mpr hlimit
      have hnil := (tooLong_nil_iff c.fileLimit).mpr hlimit
      rw [truncatesOnce_of_some hs, loopEnds_zero_iff hnil, tooLong_iff, hzero,
        Nat.pos_iff_ne_zero, not_not, or_iff_right (Option.some_ne_none s)]
  · refine iff_of_true ?_ (.inl hlimit)
    obtain ⟨r, hr, h⟩ := bfsFileAmend_cases (Nat.le_refl 2) file hlimit
    refine ⟨2, r, hr, ?_⟩
    rcases h with ⟨rfl, -⟩ | ⟨s, -, ⟨-, rfl⟩ | ⟨-, rfl⟩⟩
    · exact Nat.zero_le 1
    · exact Nat.zero_le 1
    · exact Nat.le_refl 1

/-- `fs_max_file_len=0`. -/
def zeroLimit : AmendCall := ⟨0, some ⟨ascii "log\n", by decide⟩, 0, ⟨fun _ => true, 40, 4⟩⟩

theorem not_truncatesOnce : ¬ ∀ file c, TruncatesOnce file c := by
  intro hall
  have honce := hall [] zeroLimit
  have hlimit : tooLong zeroLimit.fileLimit [] = true := by decide
  rw [truncatesOnce_of_some rfl, loopEnds_zero_iff hlimit] at honce
  rcases honce with ⟨i, -, hclosed⟩ | hshort
  · cases hclosed
  · exact hshort hlimit

/-! ## Every sequence of calls -/

/-- What is in the file, by what was appended and which of the appends cleared it:
everything, or the notice and what was appended since. -/
def LogContent (appends : List (List UInt8 × Bool)) (file : List UInt8) : Prop :=
  (∀ a ∈ appends, a.2 = false) ∧ file = appends.flatMap Prod.fst ∨
    ∃ pre s post, appends = pre ++ (s, true) :: post ∧ (∀ a ∈ post, a.2 = false) ∧
      file = strWarn ++ s ++ post.flatMap Prod.fst

/-- A limit of 1 to 2047 megabytes, and `write`s that take everything, which a
`write` can take as far as its count is a `ssize_t`. -/
structure Completes (c : AmendCall) : Prop where
  one_le_fileLimit : 1 ≤ c.fileLimit.toInt
  fileLimit_le : c.fileLimit.toInt ≤ 2047
  notice : strWarn.length ≤ c.io.noticeWritten
  append : ∀ s, c.strAppend = some s →
    s.chars.length ≤ c.io.appendWritten ∧ s.chars.length < 2 ^ 31

theorem logContent_append {appends : List (List UInt8 × Bool)} {file : List UInt8}
    (h : LogContent appends file) (s : List UInt8) :
    LogContent (appends ++ [(s, false)]) (file ++ s) := by
  have hlast : ∀ a ∈ [(s, false)], a.2 = false := fun a ha => by rw [List.mem_singleton.mp ha]
  rcases h with ⟨hnone, rfl⟩ | ⟨pre, s', post, rfl, hpost, rfl⟩
  · refine .inl ⟨List.forall_mem_append.mpr ⟨hnone, hlast⟩, ?_⟩
    rw [List.flatMap_append, List.flatMap_singleton]
  · refine .inr ⟨pre, s', post ++ [(s, false)], by rw [List.append_assoc, List.cons_append],
      List.forall_mem_append.mpr ⟨hpost, hlast⟩, ?_⟩
    rw [List.flatMap_append, List.flatMap_singleton, ← List.append_assoc]

theorem logContent_cleared (appends : List (List UInt8 × Bool)) (s : List UInt8) :
    LogContent (appends ++ [(s, true)]) (strWarn ++ s) :=
  .inr ⟨appends, s, [], rfl, List.forall_mem_nil _, (List.append_nil _).symm⟩

/-- What one call does to a file below 4 GiB. -/
theorem bfsFileAmend_spec {fuel : Nat} (hfuel : 2 ≤ fuel) {file : List UInt8} {c : AmendCall}
    (hc : Completes c) (hfile : file.length + 1 < 2 ^ 32) :
    ∃ r, bfsFileAmend fuel file c = some r ∧
      (r = ⟨file, -1, 0⟩ ∧
          (c.strAppend = none ∨ c.io.opens 0 = false ∨ c.io.opens 1 = false) ∨
        ∃ s, c.strAppend = some s ∧
          (file.length < c.fileLimit.toInt * 2 ^ 20 ∧ r = ⟨file ++ s.chars, 1, 0⟩ ∨
            r = ⟨strWarn ++ s.chars, 1, 1⟩)) := by
  have hpos := hc.one_le_fileLimit
  have hle := hc.fileLimit_le
  have hlong := tooLong_iff_of_limit hpos hle hfile
  obtain ⟨r, hr, h⟩ := bfsFileAmend_cases hfuel file (show c.fileLimit.toInt % 4096 ≠ 0 by omega)
  refine ⟨r, hr, ?_⟩
  rcases h with h | ⟨s, hs, h⟩
  · exact .inl h
  · rw [List.take_of_length_le (hc.append s hs).1, List.take_of_length_le hc.notice] at h
    rcases h with ⟨hshort, rfl⟩ | ⟨-, rfl⟩
    · exact .inr ⟨s, hs, .inl ⟨Int.not_le.mp (hlong.not.mp hshort), rfl⟩⟩
    · exact .inr ⟨s, hs, .inr rfl⟩

/-- What is kept from call to call. -/
structure Log (appends : List (List UInt8 × Bool)) (file : List UInt8) : Prop where
  content : LogContent appends file
  length_lt : file.length + 1 < 2 ^ 32

/-- What one more call does to a log. -/
theorem log_amend {fuel : Nat} (hfuel : 2 ≤ fuel) {appends : List (List UInt8 × Bool)}
    {file : List UInt8} {c : AmendCall} (hc : Completes c) (hlog : Log appends file) :
    ∃ r, bfsFileAmend fuel file c = some r ∧
      (r = ⟨file, -1, 0⟩ ∧
          (c.strAppend = none ∨ c.io.opens 0 = false ∨ c.io.opens 1 = false) ∨
        ∃ s, c.strAppend = some s ∧ r.ret = 1 ∧ s.chars <:+ r.file ∧
          r.file.length < c.fileLimit.toInt * 2 ^ 20 + strWarn.length + s.chars.length ∧
          LogContent (appends ++ [(s.chars, decide (0 < r.truncated))]) r.file) := by
  obtain ⟨r, hr, h⟩ := bfsFileAmend_spec hfuel hc hlog.length_lt
  refine ⟨r, hr, ?_⟩
  rcases h with h | ⟨s, hs, ⟨hshort, rfl⟩ | rfl⟩
  · exact .inl h
  · refine .inr ⟨s, hs, rfl, List.suffix_append _ _, ?_, logContent_append hlog.content s.chars⟩
    rw [List.length_append]
    omega
  · refine .inr ⟨s, hs, rfl, List.suffix_append _ _, ?_, logContent_cleared appends s.chars⟩
    have hpos := hc.one_le_fileLimit
    rw [List.length_append]
    omega

/-- One call keeps it. -/
theorem log_step {fuel : Nat} (hfuel : 2 ≤ fuel) {appends : List (List UInt8 × Bool)}
    {file : List UInt8} {c : AmendCall} (hc : Completes c) (hlog : Log appends file) :
    ∃ file' o, amendStep fuel file c = some (file', o) ∧ Log (appends ++ o) file' := by
  obtain ⟨r, hr, h⟩ := log_amend hfuel hc hlog
  refine ⟨r.file, _, by rw [amendStep, hr]; rfl, ?_⟩
  rcases h with ⟨rfl, -⟩ | ⟨s, hs, hret, -, hsize, hcontent⟩
  · rw [if_neg (by decide : ¬ (-1 : Int32) = 1), List.append_nil]
    exact hlog
  · rw [if_pos hret, hs]
    refine ⟨hcontent, ?_⟩
    have hle := hc.fileLimit_le
    have hlen := (hc.append s hs).2
    have hwarn : strWarn.length ≤ 40 := by decide
    omega

/-- **After each append** of any sequence, the file ends with the string, is
smaller than the limit, the notice and the string together, and holds what
`LogContent` says. -/
theorem afterEachAppend {fuel : Nat} (hfuel : 2 ≤ fuel) {calls : List AmendCall} {c : AmendCall}
    (hcalls : ∀ c' ∈ calls ++ [c], Completes c') :
    ∃ file appends r, run (amendStep fuel) [] calls = some (file, appends) ∧
      bfsFileAmend fuel file c = some r ∧
      (r = ⟨file, -1, 0⟩ ∧
          (c.strAppend = none ∨ c.io.opens 0 = false ∨ c.io.opens 1 = false) ∨
        ∃ s, c.strAppend = some s ∧ r.ret = 1 ∧ s.chars <:+ r.file ∧
          r.file.length < c.fileLimit.toInt * 2 ^ 20 + strWarn.length + s.chars.length ∧
          LogContent (appends ++ [(s.chars, decide (0 < r.truncated))]) r.file) := by
  rw [List.forall_mem_append, List.forall_mem_singleton] at hcalls
  obtain ⟨file, appends, hrun, hlog⟩ := run_invariant
    (I := fun (_ : List AmendCall) appends file => Log appends file)
    (fun _ _ _ _ hlog hc => log_step hfuel hc hlog)
    ⟨.inl ⟨List.forall_mem_nil _, rfl⟩, by decide⟩
    (stepsMeet_of_forall hcalls.1 (amendStep fuel) [])
  obtain ⟨r, hr, h⟩ := log_amend hfuel hcalls.2 hlog
  exact ⟨file, appends, r, hrun, hr, h⟩

/-- One call of `fs_mem_log`. -/
def memCall : AmendCall :=
  ⟨1, some ⟨ascii "chmod_for_apk\n", by decide⟩, 0, ⟨fun _ => true, 40, 14⟩⟩

theorem completes_memCall : Completes memCall :=
  ⟨by decide, by decide, by decide, fun s hs => by cases hs; decide⟩

theorem afterEachAppend_mem :
    ∃ file appends r, run (amendStep 2) [] [memCall] = some (file, appends) ∧
      bfsFileAmend 2 file memCall = some r ∧
      (r = ⟨file, -1, 0⟩ ∧ (memCall.strAppend = none ∨ memCall.io.opens 0 = false ∨
          memCall.io.opens 1 = false) ∨
        ∃ s, memCall.strAppend = some s ∧ r.ret = 1 ∧ s.chars <:+ r.file ∧
          r.file.length < memCall.fileLimit.toInt * 2 ^ 20 + strWarn.length + s.chars.length ∧
          LogContent (appends ++ [(s.chars, decide (0 < r.truncated))]) r.file) :=
  afterEachAppend (Nat.le_refl 2) (List.forall_mem_cons.mpr
    ⟨completes_memCall, List.forall_mem_singleton.mpr completes_memCall⟩)

end Lidbg.FsLog
