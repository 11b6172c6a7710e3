import Lidbg.Core.FsLog
import Lidbg.Core.MemLog

/-!
# Has a file been updated (`fs_is_file_updated`, `core/lidbg_fs_cmn.c`)

At boot the file server compares the modification time of a file with the one that an
information file remembers, as text, and writes the new one there if they differ.

A file that is missing has the empty string for its time, and so has an empty information
file; but one that is empty is not read. `isFileUpdated_settles_iff`: a second call says
that nothing was updated exactly if the file is there, or the information file starts with
a NUL.
-/

namespace Lidbg.FsIsFileUpdated

open Machine FsLog
open MemLog (RtcTime)

/-! ## The code -/

/-- A time as `rtc_time_to_tm` gives it. -/
structure CalendarTime extends RtcTime where
  sec_range : 0 ≤ tmSec.toInt ∧ tmSec.toInt < 60
  min_range : 0 ≤ tmMin.toInt ∧ tmMin.toInt < 60
  hour_range : 0 ≤ tmHour.toInt ∧ tmHour.toInt < 24
  mday_range : 1 ≤ tmMday.toInt ∧ tmMday.toInt ≤ 31
  mon_range : 0 ≤ tmMon.toInt ∧ tmMon.toInt < 12

/-- `"%d-%02d-%02d %02d:%02d:%02d"`, as `get_file_tmstring` fills it in. -/
def tmText (tm : RtcTime) : List UInt8 :=
  printInt (tm.tmYear + 1900) ++ ascii "-" ++ printPadded 2 (tm.tmMon + 1) ++ ascii "-" ++
    printPadded 2 tm.tmMday ++ ascii " " ++ printPadded 2 (tm.tmHour + 8) ++ ascii ":" ++
    printPadded 2 tm.tmMin ++ ascii ":" ++ printPadded 2 tm.tmSec

theorem nul_notMem_tmText (tm : RtcTime) : 0 ∉ tmText tm := by
  have ha : ∀ s ∈ ["-", " ", ":"], 0 ∉ ascii s := by decide
  simp only [tmText, List.mem_append, not_or]
  simp [nul_notMem_printInt, nul_notMem_printPadded, ha]

/-- The text as a string. -/
def tmString (tm : RtcTime) : CStr := ⟨tmText tm, nul_notMem_tmText tm⟩

/-- The size of `pres` and of `news`. -/
abbrev tmSize : Nat := 64

/-- `get_file_tmstring` of a file with this modification time, or of none; the result is
`none` when the text does not fit. -/
def getFileTmstring (mtime : Option RtcTime) (tmstring : CStr) : Option (CStr × Bool) :=
  match mtime with
  | none => some (tmstring, false)
  | some tm => (sprintf tmSize (tmString tm).chars).map fun _ => (tmString tm, true)

/-- `fs_get_file_size`. -/
def fsGetFileSize (file : Option (List UInt8)) : Int :=
  match file with
  | none => -1
  | some content => toInt content.length

/-- `fs_file_read` into the whole of `rbuff`. -/
def fsFileRead (file : Option (List UInt8)) (rbuff : List UInt8) : Int × List UInt8 :=
  match file with
  | none => (-1, rbuff)
  | some content =>
    let got := content.take rbuff.length
    (got.length, got ++ rbuff.drop got.length)

/-- `clear_file`: there is an empty file then. -/
def clearFile (_ : Option (List UInt8)) : List UInt8 := []

/-- `bfs_file_amend(infofile, news, 0)`, with `max_file_len` as it is at boot and a system
that opens the file and writes all. -/
def amendNews (news : CStr) : AmendCall where
  maxFileLen := 1
  strAppend := some news
  fileLimitM := 0
  io := { opens := fun _ => true
          noticeWritten := strWarn.length
          appendWritten := news.chars.length }

/-- `fs_is_file_updated`: the information file after it, and what it returns. `news` is
shorter than `pres`, so that `strcmp` ends in both. -/
def fsIsFileUpdated (mtime : Option RtcTime) (info : Option (List UInt8)) :
    Option (Option (List UInt8) × Bool) := do
  let (news, _) ← getFileTmstring mtime ⟨[], List.not_mem_nil⟩
  let (readLen, pres) := fsFileRead info (List.replicate tmSize 0)
  if fsGetFileSize info > 0 ∧ readLen > 0 ∧ news.chars = cstr pres then some (info, false)
  else do
    let r ← bfsFileAmend 2 (clearFile info) (amendNews news)
    some (some r.file, true)

/-! ## The text of a time -/

theorem toInt_add_small {x : Int32} (h0 : 0 ≤ x.toInt) (h : x.toInt < 60) (k : Int32)
    (hk : 0 ≤ k.toInt ∧ k.toInt < 10) : (x + k).toInt = x.toInt + k.toInt := by
  rw [Int32.toInt_add]
  exact Int.bmod_eq_of_le (by omega) (by omega)

/-- The text of a time fits. -/
theorem length_tmText_lt (tm : CalendarTime) : (tmText tm.toRtcTime).length < tmSize := by
  have hyear := length_printInt_le (tm.tmYear + 1900)
  have hmon := toInt_add_small tm.mon_range.1 (by have := tm.mon_range; omega) 1 (by decide)
  have hhour := toInt_add_small tm.hour_range.1 (by have := tm.hour_range; omega) 8 (by decide)
  have hone : (1 : Int32).toInt = 1 := rfl
  have height : (8 : Int32).toInt = 8 := rfl
  obtain ⟨hsec₀, hsec⟩ := tm.sec_range
  obtain ⟨hmin₀, hmin⟩ := tm.min_range
  obtain ⟨hhour₀, hhour'⟩ := tm.hour_range
  obtain ⟨hmday₀, hmday⟩ := tm.mday_range
  obtain ⟨hmon₀, hmon'⟩ := tm.mon_range
  have ha : ∀ s ∈ ["-", " ", ":"], (ascii s).length = 1 := by decide
  simp only [tmText, List.length_append, ha, List.mem_cons, true_or, or_true]
  have htwo : ∀ x : Int32, 0 ≤ x.toInt → x.toInt < 100 → (printPadded 2 x).length = 2 :=
    fun x h0 h => length_printPadded (by decide) h0 h
  rw [htwo (tm.tmMon + 1) (by omega) (by omega), htwo tm.tmMday (by omega) (by omega),
    htwo (tm.tmHour + 8) (by omega) (by omega), htwo tm.tmMin (by omega) (by omega),
    htwo tm.tmSec (by omega) (by omega)]
  show _ < 64
  omega

theorem tmText_ne_nil (tm : RtcTime) : tmText tm ≠ [] := by
  unfold tmText
  simp [ascii]

/-! ## One call -/

/-- The text that a call compares: that of the time, or nothing. -/
def newsOf (mtime : Option CalendarTime) : CStr :=
  match mtime with
  | none => ⟨[], List.not_mem_nil⟩
  | some tm => tmString tm.toRtcTime

theorem getFileTmstring_eq (mtime : Option CalendarTime) :
    ∃ got, getFileTmstring (mtime.map CalendarTime.toRtcTime) ⟨[], List.not_mem_nil⟩ =
      some (newsOf mtime, got) := by
  cases mtime with
  | none => exact ⟨false, rfl⟩
  | some tm =>
    have hfits : sprintf tmSize (tmString tm.toRtcTime).chars =
        some (tmString tm.toRtcTime).chars := by
      unfold sprintf
      exact if_pos (length_tmText_lt tm)
    refine ⟨true, ?_⟩
    rw [Option.map_some]
    unfold getFileTmstring newsOf
    dsimp only
    rw [hfits, Option.map_some]

theorem length_newsOf_lt (mtime : Option CalendarTime) :
    (newsOf mtime).chars.length < tmSize := by
  cases mtime with
  | none => exact Nat.zero_lt_succ _
  | some tm => exact length_tmText_lt tm

theorem newsOf_eq_nil_iff (mtime : Option CalendarTime) :
    (newsOf mtime).chars = [] ↔ mtime = none := by
  cases mtime with
  | none => exact iff_of_true rfl rfl
  | some tm => exact iff_of_false (tmText_ne_nil _) (Option.some_ne_none tm)

/-- `pres` after the information file was read into it. -/
def presOf (content : List UInt8) : List UInt8 :=
  content.take tmSize ++ List.replicate (tmSize - (content.take tmSize).length) 0

/-- The information file is not empty, and what is read of it is the text. -/
def Remembers (info : Option (List UInt8)) (news : List UInt8) : Prop :=
  ∃ content, info = some content ∧ 0 < toInt content.length ∧ news = cstr (presOf content)

instance (info : Option (List UInt8)) (news : List UInt8) : Decidable (Remembers info news) :=
  match info with
  | none => .isFalse fun h => nomatch h
  | some content =>
    decidable_of_iff (0 < toInt content.length ∧ news = cstr (presOf content))
      ⟨fun h => ⟨content, rfl, h⟩, fun ⟨_, heq, h⟩ => Option.some.inj heq ▸ h⟩

theorem remembers_some_iff (content news : List UInt8) : Remembers (some content) news ↔
    0 < toInt content.length ∧ news = cstr (presOf content) :=
  ⟨fun ⟨_, heq, h⟩ => Option.some.inj heq ▸ h, fun h => ⟨content, rfl, h⟩⟩

/-- The text is all that is in the file then. -/
theorem amendNews_eq (news : CStr) :
    bfsFileAmend 2 [] (amendNews news) = some ⟨news.chars, 1, 0⟩ := by
  have hroom : tooLong 1 [] = false := by decide
  have hpass : amendPass 1 news.chars (amendNews news).io (.start []) =
      .inr ⟨news.chars.take news.chars.length, 1, 0⟩ := by
    rw [amendPass_start _ _ _ rfl, hroom, if_neg Bool.false_ne_true]
    rfl
  rw [List.take_length] at hpass
  exact loop_leave hpass 1

/-- **One call** leaves the information file if it remembers the text, and makes it the
text otherwise. -/
theorem fsIsFileUpdated_eq (mtime : Option CalendarTime) (info : Option (List UInt8)) :
    fsIsFileUpdated (mtime.map CalendarTime.toRtcTime) info =
      some (if Remembers info (newsOf mtime).chars then (info, false)
        else (some (newsOf mtime).chars, true)) := by
  obtain ⟨got, hnews⟩ := getFileTmstring_eq mtime
  have hamend : (bfsFileAmend 2 (clearFile info) (amendNews (newsOf mtime))).bind
      (fun r => some (some r.file, true)) = some (some (newsOf mtime).chars, true) := by
    rw [clearFile, amendNews_eq]
    rfl
  unfold fsIsFileUpdated
  rw [hnews]
  show (if _ then some (info, false) else (bfsFileAmend 2 (clearFile info)
    (amendNews (newsOf mtime))).bind fun r => some (some r.file, true)) = _
  rw [hamend, ← apply_ite some]
  refine congrArg some (ite_congr (propext ?_) (fun _ => rfl) fun _ => rfl)
  cases info with
  | none => exact iff_of_false (fun h => absurd h.1 (by decide)) fun h => nomatch h
  | some content =>
    have hsize : (List.replicate tmSize (0 : UInt8)).length = tmSize := List.length_replicate
    rw [remembers_some_iff]
    show 0 < toInt content.length ∧ 0 < (((content.take _).length : Nat) : Int) ∧
      _ = cstr (content.take _ ++ (List.replicate tmSize 0).drop _) ↔ _
    rw [hsize, List.drop_replicate]
    refine and_congr_right fun hpos => and_iff_right ?_
    have hcontent : content ≠ [] := by
      rintro rfl
      exact absurd hpos (by decide)
    have hlength := List.length_pos_iff.mpr hcontent
    rw [List.length_take]
    have : 0 < tmSize := Nat.zero_lt_succ _
    omega

/-! ## Two calls -/

/-- What is read of a string that is shorter than `pres` is the string. -/
theorem cstr_presOf {news : CStr} (h : news.chars.length < tmSize) :
    cstr (presOf news.chars) = news.chars := by
  rw [presOf, List.take_of_length_le (Nat.le_of_lt h)]
  obtain ⟨k, hk⟩ : ∃ k, tmSize - news.chars.length = k + 1 :=
    ⟨tmSize - news.chars.length - 1, by omega⟩
  rw [hk, List.replicate_succ]
  exact cstr_append_nul news.nul_notMem _

theorem toInt_length {l : List UInt8} (h : l.length < tmSize) : toInt l.length = l.length :=
  have hlt : l.length < 64 := h
  Int.bmod_eq_of_le (by omega) (by omega)

/-- A text is remembered once it is written, unless it is empty. -/
theorem remembers_written_iff (mtime : Option CalendarTime) :
    Remembers (some (newsOf mtime).chars) (newsOf mtime).chars ↔ mtime ≠ none := by
  have hlt := length_newsOf_lt mtime
  rw [remembers_some_iff, cstr_presOf hlt, and_iff_left rfl, toInt_length hlt, ne_eq,
    ← newsOf_eq_nil_iff, ← List.length_eq_zero_iff]
  omega

/-- A missing file is remembered by a file that starts with a NUL. -/
theorem remembers_nil_iff (info : Option (List UInt8)) : Remembers info [] ↔
    ∃ content, info = some content ∧ 0 < toInt content.length ∧ content.head? = some 0 := by
  refine exists_congr fun content => and_congr_right fun _ => and_congr_right fun hpos => ?_
  cases content with
  | nil => exact absurd hpos (by decide)
  | cons b rest =>
    rw [List.head?_cons, Option.some.injEq]
    show [] = (b :: _).takeWhile _ ↔ _
    by_cases hb : b = 0
    · rw [List.takeWhile_cons_of_neg (by simpa using hb)]
      exact iff_of_true rfl hb
    · rw [List.takeWhile_cons_of_pos (by simpa using hb)]
      exact iff_of_false (fun h => nomatch h) hb

/-- **Detection settles**: after a call for a file with any modification time, or for one
that is missing, a second call returns false exactly if the file is there or the
information file is not empty and started with a NUL. -/
theorem isFileUpdated_settles_iff (mtime : Option CalendarTime) (info : Option (List UInt8)) :
    ∃ info₁ ret₁ info₂ ret₂,
      fsIsFileUpdated (mtime.map CalendarTime.toRtcTime) info = some (info₁, ret₁) ∧
      fsIsFileUpdated (mtime.map CalendarTime.toRtcTime) info₁ = some (info₂, ret₂) ∧
      (ret₂ = false ↔ mtime ≠ none ∨
        ∃ content, info = some content ∧ 0 < toInt content.length ∧ content.head? = some 0) := by
  by_cases hold : Remembers info (newsOf mtime).chars
  · have hcall := (fsIsFileUpdated_eq mtime info).trans (congrArg some (if_pos hold))
    refine ⟨_, _, _, _, hcall, hcall, iff_of_true rfl ?_⟩
    by_cases hmtime : mtime = none
    · rw [(newsOf_eq_nil_iff mtime).mpr hmtime] at hold
      exact .inr ((remembers_nil_iff info).mp hold)
    · exact .inl hmtime
  · have hcall := (fsIsFileUpdated_eq mtime info).trans (congrArg some (if_neg hold))
    have hagain := fsIsFileUpdated_eq mtime (some (newsOf mtime).chars)
    by_cases hmtime : mtime = none
    · rw [if_neg fun h => (remembers_written_iff mtime).mp h hmtime] at hagain
      refine ⟨_, _, _, _, hcall, hagain, iff_of_false (fun h => nomatch h) ?_⟩
      rintro (h | h)
      · exact h hmtime
      · rw [(newsOf_eq_nil_iff mtime).mpr hmtime] at hold
        exact hold ((remembers_nil_iff info).mpr h)
    · rw [if_pos ((remembers_written_iff mtime).mpr hmtime)] at hagain
      exact ⟨_, _, _, _, hcall, hagain, iff_of_true rfl (.inl hmtime)⟩

/-- With both files missing, every call says that there was an update. -/
theorem isFileUpdated_never_settles :
    ¬ ∀ (mtime : Option CalendarTime) (info info₁ info₂ : Option (List UInt8)) (ret₁ ret₂ : Bool),
      fsIsFileUpdated (mtime.map CalendarTime.toRtcTime) info = some (info₁, ret₁) →
      fsIsFileUpdated (mtime.map CalendarTime.toRtcTime) info₁ = some (info₂, ret₂) →
        ret₂ = false := by
  intro h
  have hfirst := (fsIsFileUpdated_eq none none).trans (congrArg some (if_neg fun h => nomatch h))
  have hsecond := (fsIsFileUpdated_eq none (some [])).trans
    (congrArg some (if_neg fun h => (remembers_written_iff none).mp h rfl))
  exact absurd (h none none _ _ _ _ hfirst hsecond) Bool.true_eq_false.mp

end Lidbg.FsIsFileUpdated
