import Lidbg.Machine.Run
import Lidbg.Machine.StrsepAt

/-!
# Mounted volumes (`core/lidbg_cmn.c`)

`scan_mounted_volumes` reads the mounts file into `buf_mount`, cuts it into lines and
words in place, and stores pointers to the words of line `i` in entry `i` of
`g_mounts_state`. A line of fewer than four words leaves its entry as an earlier
scan made it, with pointers into a buffer that has been overwritten since, and so
does the empty line behind the last newline.

- `scanMountedVolumes_some` is one scan: the text with its blanks and newlines
  overwritten, and the entries of its lines over those there were.
- `found_iff` is about every sequence of scans.
-/

namespace Lidbg.Mounts

open Machine

/-- `ITEM_MAX`. -/
abbrev itemMax : Nat := 35

/-- The size of `item_token`. -/
abbrev tokenMax : Nat := 12

/-- `MOUNT_BUF_MAX`. -/
abbrev mountBufMax : Nat := 3 * 1024

/-- `struct mounted_volume`, with offsets into `buf_mount` for its pointers. -/
structure MountedVolume where
  device : Nat
  mountPoint : Nat
  filesystem : Nat
  others : Nat

/-- `buf_mount`, `g_mounts_state` and `invaled_mount_point`. -/
structure MountsState where
  bufMount : List UInt8
  gMountsState : List (Option MountedVolume)
  invaledMountPoint : Nat

/-- They are static. -/
def MountsState.init : MountsState :=
  ⟨List.replicate mountBufMax 0, List.replicate itemMax none, 0⟩

/-- `lidbg_token_string` into an array of `size` pointers: the buffer it leaves and the
tokens; `none` stores behind the array. -/
def lidbgTokenStringAt (size : Nat) (separator : UInt8) (mem : List UInt8) (buf : Nat) :
    Option (List UInt8 × List Nat) :=
  (tokensAt separator mem.length mem (some buf)).bind fun r =>
    if r.2.length ≤ size then some r else none

/-- What the tokens of a line fill an entry with, if they are four at least. -/
def volumeOf : List Nat → Option MountedVolume
  | device :: mountPoint :: filesystem :: others :: _ =>
    some ⟨device, mountPoint, filesystem, others⟩
  | _ => none

/-- The body of the loop of `scan_mounted_volumes`, with the buffer, the entries and
`ret`. -/
def scanItem (s : List UInt8 × List (Option MountedVolume) × Bool) (item : Nat × Nat) :
    Option (List UInt8 × List (Option MountedVolume) × Bool) :=
  (lidbgTokenStringAt tokenMax 32 s.1 item.1).map fun r =>
    match volumeOf r.2 with
    | some volume => (r.1, s.2.1.set item.2 (some volume), true)
    | none => (r.1, s.2)

/-- `scan_mounted_volumes` of a file with the content, if it can be read. -/
def scanMountedVolumes (s : MountsState) (content : Option (List UInt8)) :
    Option (MountsState × Bool) :=
  let p := List.replicate mountBufMax 0
  match content with
  | none => some ({ s with bufMount := p }, false)
  | some content => do
    let p ← storeBytes p (content.take (mountBufMax - 1))
    let (p, mountItem) ← lidbgTokenStringAt itemMax 10 p 0
    let (p, gMountsState, ret) ← mountItem.zipIdx.foldlM scanItem (p, s.gMountsState, false)
    some (⟨p, gMountsState, mountItem.length⟩, ret)

/-- The loop of `find_mounted_volume_by_mount_point`, from entry `i`. -/
def findFrom (bufMount mountPoint : List UInt8) (i : Nat) :
    List (Option MountedVolume) → Option (Option Nat)
  | [] => some none
  | none :: entries => findFrom bufMount mountPoint (i + 1) entries
  | some volume :: entries => do
    let name ← loadStr (bufMount.drop volume.mountPoint)
    if name = mountPoint then some (some i)
    else findFrom bufMount mountPoint (i + 1) entries

/-- `find_mounted_volume_by_mount_point`, with the index of the entry it returns. -/
def findMountedVolumeByMountPoint (s : MountsState) (content : Option (List UInt8))
    (mountPoint : List UInt8) : Option (MountsState × Option Nat) := do
  let (s, _) ← scanMountedVolumes s content
  if s.invaledMountPoint = 0 then some (s, none)
  else
    (findFrom s.bufMount mountPoint 0 (s.gMountsState.take s.invaledMountPoint)).map
      fun found => (s, found)

/-- One scan, observed by its result. -/
def scanStep : Step MountsState (Option CStr) Bool := fun s content =>
  (scanMountedVolumes s (content.map CStr.chars)).map fun r => (r.1, [r.2])

/-! ## What is asked -/

/-- A line of four fields at least has `mountPoint` for its second. -/
def HasMount (content mountPoint : List UInt8) : Prop :=
  ∃ line ∈ content.splitOn 10, 4 ≤ (line.splitOn 32).length ∧
    (line.splitOn 32)[1]? = some mountPoint

/-- The lookup reflects the content it scans. -/
def Reflects (s : MountsState) (content mountPoint : List UInt8) : Prop :=
  ∃ s' found, findMountedVolumeByMountPoint s (some content) mountPoint = some (s', found) ∧
    (found.isSome ↔ HasMount content mountPoint)

/-- `buf_mount` with the content, its blanks and newlines overwritten. -/
def blanked (content : List UInt8) : List UInt8 :=
  content.map (fun b => if b = 10 ∨ b = 32 then 0 else b) ++
    List.replicate (mountBufMax - content.length) 0

/-- An entry whose line has fewer than four fields points at `mountPoint`, in the
buffer with the new content. -/
def StaleMount (s : MountsState) (content mountPoint : List UInt8) : Prop :=
  ∃ (k : Nat) (line : List UInt8) (volume : MountedVolume), (content.splitOn 10)[k]? = some line ∧
    (line.splitOn 32).length < 4 ∧
    s.gMountsState[k]? = some (some volume) ∧
    cstr ((blanked content).drop volume.mountPoint) = mountPoint

/-- A content that fits the arrays. -/
structure Fits (content : CStr) : Prop where
  length_lt : content.chars.length < mountBufMax
  lines : (content.chars.splitOn 10).length ≤ itemMax
  words : ∀ line ∈ content.chars.splitOn 10, (line.splitOn 32).length ≤ tokenMax

/-! ## The entries of a content -/

/-- The entries that the lines fill, the first of them at `pos`. -/
def entriesFrom (pos : Nat) : List (List UInt8) → List (Option MountedVolume)
  | [] => []
  | line :: lines =>
    volumeOf (offsetsFrom pos (line.splitOn 32)) :: entriesFrom (pos + line.length + 1) lines

/-- The entries over those there were. -/
def overlay (entries table : List (Option MountedVolume)) : List (Option MountedVolume) :=
  entries.zipWith Option.or table ++ table.drop entries.length

/-- The lines as the loop leaves them. -/
def cutLines (lines : List (List UInt8)) : List UInt8 :=
  lines.flatMap fun line => withNuls (line.splitOn 32)

/-- The words of the first line, and those of the others. -/
theorem cutLines_cons (line : List UInt8) (lines : List (List UInt8)) :
    cutLines (line :: lines) = withNuls (line.splitOn 32) ++ cutLines lines :=
  List.flatMap_cons

@[simp] theorem length_entriesFrom (pos : Nat) (lines : List (List UInt8)) :
    (entriesFrom pos lines).length = lines.length := by
  induction lines generalizing pos with
  | nil => rfl
  | cons line lines ih => rw [entriesFrom, List.length_cons, List.length_cons, ih]

/-- The table keeps its size. -/
theorem length_overlay {entries table : List (Option MountedVolume)}
    (h : entries.length ≤ table.length) : (overlay entries table).length = table.length := by
  rw [overlay, List.length_append, List.length_zipWith, List.length_drop]
  omega

/-- A line is no volume exactly if it has fewer than four words. -/
theorem volumeOf_eq_none_iff (tokens : List Nat) : volumeOf tokens = none ↔ tokens.length < 4 := by
  match tokens with
  | [] | [_] | [_, _] | [_, _, _] => exact iff_of_true rfl (by simp)
  | _ :: _ :: _ :: _ :: _ => exact iff_of_false (fun h => nomatch h) (by simp)

/-- A volume has the second word as its mount point. -/
theorem getElem?_of_volumeOf {tokens : List Nat} {volume : MountedVolume}
    (h : volumeOf tokens = some volume) :
    4 ≤ tokens.length ∧ tokens[1]? = some volume.mountPoint := by
  match tokens with
  | [] | [_] | [_, _] | [_, _, _] => cases h
  | _ :: _ :: _ :: _ :: _ =>
    cases h
    exact ⟨by simp, rfl⟩

/-- An entry of a line points at its second field. -/
theorem entriesFrom_some {lines : List (List UInt8)} (pre post : List UInt8) {k : Nat}
    {volume : MountedVolume} (h : (entriesFrom pre.length lines)[k]? = some (some volume)) :
    ∃ line field rest, lines[k]? = some line ∧ 4 ≤ (line.splitOn 32).length ∧
      (line.splitOn 32)[1]? = some field ∧
      (pre ++ (cutLines lines ++ post)).drop volume.mountPoint = field ++ 0 :: rest := by
  induction lines generalizing pre k with
  | nil => cases h
  | cons line lines ih =>
    rw [cutLines_cons, List.append_assoc]
    cases k with
    | zero =>
      obtain ⟨hfour, hpos⟩ := getElem?_of_volumeOf (Option.some.inj h)
      rw [length_offsetsFrom] at hfour
      obtain ⟨field, rest, hfield, hdrop⟩ := drop_offsetsFrom pre (cutLines lines ++ post) hpos
      exact ⟨line, field, rest, rfl, hfour, hfield, hdrop⟩
    | succ k =>
      have hpre := length_append_withNuls 32 pre line
      obtain ⟨line', field, rest, hline, hfour, hfield, hdrop⟩ :=
        ih (pre ++ withNuls (line.splitOn 32)) (by rw [hpre]; exact h)
      rw [List.append_assoc] at hdrop
      exact ⟨line', field, rest, hline, hfour, hfield, hdrop⟩

/-- A line has an entry, and none if it has fewer than four fields. -/
theorem entriesFrom_getElem? (pos : Nat) {lines : List (List UInt8)} {k : Nat} {line : List UInt8}
    (h : lines[k]? = some line) :
    ∃ entry, (entriesFrom pos lines)[k]? = some entry ∧
      (entry = none ↔ (line.splitOn 32).length < 4) := by
  induction lines generalizing pos k with
  | nil => cases h
  | cons line' lines ih =>
    cases k with
    | zero =>
      cases h
      refine ⟨_, rfl, ?_⟩
      rw [volumeOf_eq_none_iff, length_offsetsFrom]
    | succ k => exact ih _ h

/-! ## One scan -/

/-- The buffer is cut in place, and the pointers are to the pieces. -/
theorem lidbgTokenStringAt_eq {separator : UInt8} (h0 : separator ≠ 0) {text : List UInt8}
    (htext : 0 ∉ text) {size : Nat} (hsize : (text.splitOn separator).length ≤ size)
    (pre post : List UInt8) :
    lidbgTokenStringAt size separator (pre ++ (text ++ 0 :: post)) pre.length =
      some (pre ++ (withNuls (text.splitOn separator) ++ post),
        offsetsFrom pre.length (text.splitOn separator)) := by
  rw [lidbgTokenStringAt, tokensAt_eq h0 htext pre post (by simp; omega), Option.bind_some,
    if_pos (by rwa [length_offsetsFrom])]

/-- One line. -/
theorem scanItem_eq {line : List UInt8} (hline : 0 ∉ line)
    (hwords : (line.splitOn 32).length ≤ tokenMax) (pre post : List UInt8)
    (front : List (Option MountedVolume)) (entry : Option MountedVolume)
    (table : List (Option MountedVolume)) (ret : Bool) :
    ∃ ret', scanItem (pre ++ (line ++ 0 :: post), front ++ entry :: table, ret)
        (pre.length, front.length) =
      some (pre ++ (withNuls (line.splitOn 32) ++ post),
        front ++ ((volumeOf (offsetsFrom pre.length (line.splitOn 32))).or entry) :: table,
        ret') := by
  rw [scanItem, lidbgTokenStringAt_eq (by decide) hline hwords, Option.map_some]
  dsimp only
  cases volumeOf (offsetsFrom pre.length (line.splitOn 32)) with
  | none => exact ⟨ret, rfl⟩
  | some volume =>
    refine ⟨true, ?_⟩
    dsimp only
    rw [set_length_append]
    rfl

/-- All lines: each is cut, and its entry laid over the one there was. -/
theorem foldlM_scanItem {lines : List (List UInt8)} (hnul : ∀ line ∈ lines, 0 ∉ line)
    (hwords : ∀ line ∈ lines, (line.splitOn 32).length ≤ tokenMax) (pre post : List UInt8)
    (front : List (Option MountedVolume)) {table : List (Option MountedVolume)}
    (hlen : lines.length ≤ table.length) (ret : Bool) :
    ∃ ret', ((offsetsFrom pre.length lines).zipIdx front.length).foldlM scanItem
        (pre ++ (withNuls lines ++ post), front ++ table, ret) =
      some (pre ++ (cutLines lines ++ post),
        front ++ overlay (entriesFrom pre.length lines) table, ret') := by
  induction lines generalizing pre front table ret with
  | nil => exact ⟨ret, rfl⟩
  | cons line lines ih =>
    obtain ⟨entry, table, rfl⟩ :=
      List.exists_cons_of_length_pos (Nat.lt_of_lt_of_le (Nat.succ_pos _) hlen)
    rw [List.forall_mem_cons] at hnul hwords
    obtain ⟨ret₁, hitem⟩ := scanItem_eq hnul.1 hwords.1 pre (withNuls lines ++ post) front entry
      table ret
    have hpre := length_append_withNuls 32 pre line
    -- the loop goes on behind the line and behind its entry
    obtain ⟨ret₂, hrest⟩ := ih hnul.2 hwords.2 (pre ++ withNuls (line.splitOn 32))
      (front ++ [(volumeOf (offsetsFrom pre.length (line.splitOn 32))).or entry])
      (Nat.le_of_succ_le_succ hlen) ret₁
    refine ⟨ret₂, ?_⟩
    rw [hpre, List.length_append, List.length_singleton] at hrest
    simp only [List.append_assoc, List.singleton_append] at hrest
    rw [withNuls_cons, List.append_assoc, List.cons_append, offsetsFrom, List.zipIdx_cons,
      List.foldlM_cons, hitem, Option.bind_eq_bind, Option.bind_some, hrest, cutLines_cons,
      List.append_assoc]
    rfl

/-- What is kept from scan to scan. -/
structure Kept (s : MountsState) : Prop where
  length_gMountsState : s.gMountsState.length = itemMax
  mountPoint_lt : ∀ volume, some volume ∈ s.gMountsState → volume.mountPoint < mountBufMax

/-- The buffer keeps its size. -/
theorem length_blanked {content : List UInt8} (h : content.length < mountBufMax) :
    (blanked content).length = mountBufMax := by
  rw [blanked, List.length_append, List.length_map, List.length_replicate,
    Nat.add_sub_cancel' h.le]

/-- The buffer after a scan. -/
theorem cutLines_splitOn (content : List UInt8) :
    cutLines (content.splitOn 10) =
      content.map (fun b => if b = 10 ∨ b = 32 then 0 else b) ++ [0] := by
  have hlines : ∀ lines : List (List UInt8), cutLines lines =
      (withNuls lines).map fun b => if b = 32 then 0 else b := by
    intro lines
    induction lines with
    | nil => rfl
    | cons line lines ih =>
      rw [cutLines_cons, withNuls_cons, withNuls_splitOn, List.map_append, List.map_cons, ih,
        List.append_assoc]
      rfl
  rw [hlines, withNuls_splitOn, List.map_append, List.map_map]
  congr 1
  refine List.map_congr_left fun b _ => ?_
  by_cases hb : b = 10
  · simp [hb]
  · simp [hb]

/-- The lines as the loop leaves them, and what the file does not reach. -/
theorem cutLines_append_replicate {content : List UInt8} {d : Nat}
    (hd : mountBufMax = content.length + d + 1) :
    cutLines (content.splitOn 10) ++ List.replicate d 0 = blanked content := by
  rw [cutLines_splitOn, blanked, List.append_assoc,
    show mountBufMax - content.length = d + 1 by omega]
  rfl

/-- There is an entry for every line. -/
theorem length_entriesFrom_le {s : MountsState} (hs : Kept s) {content : CStr}
    (hc : Fits content) :
    (entriesFrom 0 (content.chars.splitOn 10)).length ≤ s.gMountsState.length := by
  rw [length_entriesFrom, hs.length_gMountsState]
  exact hc.lines

/-- **One scan**: the text with its blanks and newlines overwritten, and the entries
of its lines over those there were. -/
theorem scanMountedVolumes_some {s : MountsState} (hs : Kept s) {content : CStr}
    (hc : Fits content) :
    ∃ s' ret, scanMountedVolumes s (some content.chars) = some (s', ret) ∧
      s'.bufMount = blanked content.chars ∧
      s'.invaledMountPoint = (content.chars.splitOn 10).length ∧
      s'.gMountsState = overlay (entriesFrom 0 (content.chars.splitOn 10)) s.gMountsState := by
  obtain ⟨d, hd⟩ := Nat.exists_eq_add_of_lt hc.length_lt
  have htake : content.chars.take (mountBufMax - 1) = content.chars :=
    List.take_of_length_le (Nat.le_sub_one_of_lt hc.length_lt)
  have hstore : storeBytes (List.replicate mountBufMax 0) content.chars =
      some ([] ++ (content.chars ++ 0 :: List.replicate d 0)) := by
    rw [storeBytes_of_le (by rw [List.length_replicate]; exact hc.length_lt.le),
      List.drop_replicate, show mountBufMax - content.chars.length = d + 1 by omega]
    rfl
  have hlines := lidbgTokenStringAt_eq (by decide) content.nul_notMem hc.lines []
    (List.replicate d 0)
  have hnul : ∀ line ∈ content.chars.splitOn 10, 0 ∉ line :=
    fun line hline h => content.nul_notMem (mem_of_mem_splitOn hline h)
  obtain ⟨ret, hfold⟩ := foldlM_scanItem hnul hc.words [] (List.replicate d 0) []
    (hs.length_gMountsState.ge.trans' hc.lines) false
  simp only [List.nil_append, List.length_nil, cutLines_append_replicate hd] at hlines hfold
  refine ⟨⟨blanked content.chars,
    overlay (entriesFrom 0 (content.chars.splitOn 10)) s.gMountsState,
    (offsetsFrom 0 (content.chars.splitOn 10)).length⟩, ret, ?_, rfl, length_offsetsFrom _ _, rfl⟩
  rw [scanMountedVolumes]
  dsimp only
  rw [htake, hstore, Option.bind_eq_bind, Option.bind_some, List.nil_append, hlines,
    Option.bind_eq_bind, Option.bind_some]
  dsimp only
  rw [hfold]
  rfl

/-- No volume is known at the start. -/
theorem kept_init : Kept .init := by
  refine ⟨List.length_replicate, fun volume h => ?_⟩
  cases (List.mem_replicate.mp h).2

/-- An entry is one of the content's lines, or one that was there. -/
theorem mem_zipWith_or {entries table : List (Option MountedVolume)} {volume : MountedVolume}
    (hlen : entries.length ≤ table.length) :
    some volume ∈ entries.zipWith Option.or table ↔
      ∃ k : Nat, entries[k]? = some (some volume) ∨
        entries[k]? = some none ∧ table[k]? = some (some volume) := by
  rw [List.mem_iff_getElem?]
  refine exists_congr fun k => ?_
  rw [List.getElem?_zipWith]
  rcases Nat.lt_or_ge k entries.length with hk | hk
  · rw [List.getElem?_eq_getElem hk, List.getElem?_eq_getElem (Nat.lt_of_lt_of_le hk hlen)]
    cases entries[k] <;> simp
  · rw [List.getElem?_eq_none hk]
    simp

/-- What is at an entry of the content. -/
theorem cstr_entry {content : CStr} (hc : Fits content) {k : Nat} {volume : MountedVolume}
    (h : (entriesFrom 0 (content.chars.splitOn 10))[k]? = some (some volume)) :
    volume.mountPoint < mountBufMax ∧
      ∃ line field, (content.chars.splitOn 10)[k]? = some line ∧ 4 ≤ (line.splitOn 32).length ∧
        (line.splitOn 32)[1]? = some field ∧
        cstr ((blanked content.chars).drop volume.mountPoint) = field := by
  obtain ⟨d, hd⟩ := Nat.exists_eq_add_of_lt hc.length_lt
  obtain ⟨line, field, rest, hline, hfour, hfield, hdrop⟩ :=
    entriesFrom_some [] (List.replicate d 0) h
  rw [List.nil_append, cutLines_append_replicate hd] at hdrop
  have hnul : 0 ∉ field := fun h => content.nul_notMem (mem_of_mem_splitOn
    (List.mem_of_getElem? hline) (mem_of_mem_splitOn (List.mem_of_getElem? hfield) h))
  refine ⟨?_, line, field, hline, hfour, hfield, by rw [hdrop, cstr_append_nul hnul]⟩
  rw [← length_blanked hc.length_lt]
  by_contra hle
  rw [List.drop_eq_nil_of_le (Nat.le_of_not_lt hle)] at hdrop
  exact List.append_ne_nil_of_right_ne_nil _ (List.cons_ne_nil 0 rest) hdrop.symm

/-- A scan keeps it. -/
theorem Kept.scan {s s' : MountsState} (hs : Kept s) {content : CStr} (hc : Fits content)
    {ret : Bool} (hscan : scanMountedVolumes s (some content.chars) = some (s', ret)) :
    Kept s' := by
  obtain ⟨s₁, ret₁, hscan₁, -, -, htable⟩ := scanMountedVolumes_some hs hc
  rw [hscan, Option.some.injEq, Prod.mk.injEq] at hscan₁
  obtain ⟨rfl, -⟩ := hscan₁
  have hlen := length_entriesFrom_le hs hc
  refine ⟨by rw [htable, length_overlay hlen, hs.length_gMountsState], ?_⟩
  intro volume h
  rw [htable, overlay, List.mem_append] at h
  rcases h with h | h
  · obtain ⟨k, h | ⟨-, h⟩⟩ := (mem_zipWith_or hlen).mp h
    · exact (cstr_entry hc h).1
    · exact hs.mountPoint_lt volume (List.mem_of_getElem? h)
  · exact hs.mountPoint_lt volume (List.mem_of_mem_drop h)

/-- So does a scan of a file that cannot be read. -/
theorem kept_scanStep {s : MountsState} (hs : Kept s) {content : Option CStr}
    (hc : ∀ c, content = some c → Fits c) :
    ∃ s' o, scanStep s content = some (s', o) ∧ Kept s' := by
  cases content with
  | none => exact ⟨_, [false], rfl, hs.length_gMountsState, hs.mountPoint_lt⟩
  | some content =>
    obtain ⟨s', ret, hscan, -⟩ := scanMountedVolumes_some hs (hc content rfl)
    exact ⟨s', [ret], by rw [scanStep, Option.map_some, hscan]; rfl,
      hs.scan (hc content rfl) hscan⟩

/-! ## The lookup -/

/-- The search finds a volume exactly if one of the entries has the mount point. -/
theorem findFrom_spec {bufMount : List UInt8} (mountPoint : List UInt8) (i : Nat)
    {entries : List (Option MountedVolume)}
    (hnul : ∀ volume, some volume ∈ entries → 0 ∈ bufMount.drop volume.mountPoint) :
    ∃ found, findFrom bufMount mountPoint i entries = some found ∧
      (found.isSome ↔ ∃ volume, some volume ∈ entries ∧
        cstr (bufMount.drop volume.mountPoint) = mountPoint) := by
  induction entries generalizing i with
  | nil => exact ⟨none, rfl, iff_of_false (fun h => nomatch h) fun ⟨_, h, _⟩ => nomatch h⟩
  | cons entry entries ih =>
    obtain ⟨found, hfound, hiff⟩ := ih (i + 1) fun volume h =>
      hnul volume (List.mem_cons_of_mem _ h)
    cases entry with
    | none =>
      refine ⟨found, hfound, hiff.trans ?_⟩
      simp
    | some volume =>
      have hload : loadStr (bufMount.drop volume.mountPoint) = some _ :=
        if_pos (hnul volume List.mem_cons_self)
      rw [findFrom, hload, Option.bind_eq_bind, Option.bind_some]
      by_cases hname : cstr (bufMount.drop volume.mountPoint) = mountPoint
      · refine ⟨some i, if_pos hname, iff_of_true rfl ⟨volume, List.mem_cons_self, hname⟩⟩
      · refine ⟨found, (if_neg hname).trans hfound, hiff.trans ?_⟩
        simp [hname]

/-- The buffer ends with a NUL, so that there is a string at every entry. -/
theorem nul_mem_drop_blanked {content : List UInt8} (hlen : content.length < mountBufMax)
    {pos : Nat} (hpos : pos < mountBufMax) : 0 ∈ (blanked content).drop pos := by
  obtain ⟨d, hd⟩ := Nat.exists_eq_add_of_lt hlen
  rw [blanked, show mountBufMax - content.length = d + 1 by omega, List.replicate_succ',
    ← List.append_assoc, List.drop_append_of_le_length
      (by rw [List.length_append, List.length_map, List.length_replicate]; omega)]
  exact List.mem_append_right _ List.mem_cons_self

/-- The lookup finds what the content has, and what an earlier scan left. -/
theorem findMountedVolumeByMountPoint_spec {s : MountsState} (hs : Kept s) {content : CStr}
    (hc : Fits content) (mountPoint : List UInt8) :
    ∃ s' found, findMountedVolumeByMountPoint s (some content.chars) mountPoint =
        some (s', found) ∧
      (found.isSome ↔
        HasMount content.chars mountPoint ∨ StaleMount s content.chars mountPoint) := by
  obtain ⟨s', ret, hscan, hbuf, hcount, htable⟩ := scanMountedVolumes_some hs hc
  have hlen := length_entriesFrom_le hs hc
  -- the slots in use are the entries of the lines, or the old ones where a line has none
  have hslots : s'.gMountsState.take s'.invaledMountPoint =
      (entriesFrom 0 (content.chars.splitOn 10)).zipWith Option.or s.gMountsState := by
    rw [htable, hcount]
    refine List.take_left' ?_
    rw [List.length_zipWith, Nat.min_eq_left hlen, length_entriesFrom]
  have hcount' : s'.invaledMountPoint ≠ 0 := by
    rw [hcount]
    exact (List.length_pos_iff.mpr (List.splitOn_ne_nil _ _)).ne'
  -- every name ends in the buffer, an old one too
  have hnul : ∀ volume, some volume ∈ s'.gMountsState.take s'.invaledMountPoint →
      0 ∈ s'.bufMount.drop volume.mountPoint := by
    intro volume h
    rw [hbuf]
    exact nul_mem_drop_blanked hc.length_lt
      ((hs.scan hc hscan).mountPoint_lt volume (List.mem_of_mem_take h))
  obtain ⟨found, hfound, hiff⟩ := findFrom_spec mountPoint 0 hnul
  refine ⟨s', found, ?_, hiff.trans ?_⟩
  · rw [findMountedVolumeByMountPoint, hscan, Option.bind_eq_bind, Option.bind_some]
    dsimp only
    rw [if_neg hcount', hfound]
    rfl
  · rw [hslots, hbuf]
    constructor
    · rintro ⟨volume, hmem, hname⟩
      obtain ⟨k, h | ⟨hnone, h⟩⟩ := (mem_zipWith_or hlen).mp hmem
      · obtain ⟨-, line, field, hline, hfour, hfield, hcstr⟩ := cstr_entry hc h
        rw [← hname, hcstr]
        exact .inl ⟨line, List.mem_of_getElem? hline, hfour, hfield⟩
      · -- a volume of an earlier scan, behind a line that has none
        have hk : k < (content.chars.splitOn 10).length := by
          rw [← length_entriesFrom 0]
          exact (List.getElem?_eq_some_iff.mp hnone).1
        have hline := List.getElem?_eq_getElem hk
        obtain ⟨entry, hentry, hfour⟩ := entriesFrom_getElem? 0 hline
        rw [hnone, Option.some.injEq] at hentry
        exact .inr ⟨k, _, volume, hline, hfour.mp hentry.symm, h, hname⟩
    · rintro (⟨line, hline, hfour, hfield⟩ | ⟨k, line, volume, hline, hshort, h, hname⟩)
      · obtain ⟨k, hk⟩ := List.mem_iff_getElem?.mp hline
        obtain ⟨entry, hentry, hnone⟩ := entriesFrom_getElem? 0 hk
        obtain ⟨volume, rfl⟩ := Option.ne_none_iff_exists'.mp fun h =>
          absurd (hnone.mp h) (Nat.not_lt.mpr hfour)
        obtain ⟨-, line', field, hline', -, hfield', hcstr⟩ := cstr_entry hc hentry
        rw [hk, Option.some.injEq] at hline'
        rw [← hline', hfield, Option.some.injEq] at hfield'
        exact ⟨volume, (mem_zipWith_or hlen).mpr ⟨k, .inl hentry⟩, hcstr.trans hfield'.symm⟩
      · obtain ⟨entry, hentry, hnone⟩ := entriesFrom_getElem? 0 hline
        rw [hnone.mpr hshort] at hentry
        exact ⟨volume, (mem_zipWith_or hlen).mpr ⟨k, .inr ⟨hentry, h⟩⟩, hname⟩

/-- **The lookup reflects the last scan** exactly if no entry that an earlier scan
left points at the name by accident, after every sequence of scans. -/
theorem reflects_iff {contents : List (Option CStr)} (hfits : ∀ c, some c ∈ contents → Fits c)
    {content : CStr} (hc : Fits content) (mountPoint : CStr) :
    ∃ s o, run scanStep .init contents = some (s, o) ∧
      (Reflects s content.chars mountPoint.chars ↔
        (StaleMount s content.chars mountPoint.chars →
          HasMount content.chars mountPoint.chars)) := by
  obtain ⟨s, o, hrun, hs⟩ := run_invariant (I := fun _ _ s => Kept s)
    (P := fun _ _ _ content => ∀ c, content = some c → Fits c)
    (fun _ _ _ _ hs hc => kept_scanStep hs hc) kept_init
    (stepsMeet_of_forall (C := fun content => ∀ c, content = some c → Fits c)
      (fun content hmem c h => hfits c (h ▸ hmem)) scanStep .init)
  refine ⟨s, o, hrun, ?_⟩
  obtain ⟨s', found, hfind, hiff⟩ := findMountedVolumeByMountPoint_spec hs hc mountPoint.chars
  constructor
  · rintro ⟨s'', found', hfind', hreflects⟩ hstale
    rw [hfind, Option.some.injEq, Prod.mk.injEq] at hfind'
    rw [← hfind'.2, hiff] at hreflects
    exact hreflects.mp (.inr hstale)
  · intro hstale
    exact ⟨s', found, hfind, hiff.trans (or_iff_left_of_imp hstale)⟩

/-- A text of lines that end with a newline fits if its lines do. -/
theorem splitOn_ten (lines : List (List UInt8)) (h : ∀ line ∈ lines, 10 ∉ line) :
    (lines.flatMap (· ++ [10])).splitOn 10 = lines ++ [[]] := by
  induction lines with
  | nil => exact List.splitOn_nil 10
  | cons line lines ih =>
    rw [List.forall_mem_cons] at h
    rw [List.flatMap_cons, List.append_assoc, List.singleton_append,
      List.splitOn_append_cons_self_of_not_mem h.1, ih h.2]
    rfl

/-- A disk, and a second one. -/
def twoDisks : CStr := ⟨ascii "a /x f o\nb /y f o\n", by decide⟩

/-- A disk with a name in which `/y` stands where it stood for the second. -/
def oneDisk : CStr := ⟨ascii "aaaaaaaaaaa/y /x f o\n", by decide⟩

theorem splitOn_twoDisks :
    twoDisks.chars.splitOn 10 = [ascii "a /x f o", ascii "b /y f o", []] :=
  splitOn_ten [ascii "a /x f o", ascii "b /y f o"] (by decide)

theorem splitOn_oneDisk : oneDisk.chars.splitOn 10 = [ascii "aaaaaaaaaaa/y /x f o", []] :=
  splitOn_ten [ascii "aaaaaaaaaaa/y /x f o"] (by decide)

/-- The words of a line. -/
theorem splitOn_blank (words : List (List UInt8)) (hne : words ≠ [])
    (h : ∀ word ∈ words, 32 ∉ word) :
    ([32].intercalate words).splitOn 32 = words :=
  List.splitOn_intercalate 32 h hne

theorem words_oneDisk : (ascii "aaaaaaaaaaa/y /x f o").splitOn 32 =
    [ascii "aaaaaaaaaaa/y", ascii "/x", ascii "f", ascii "o"] :=
  splitOn_blank [ascii "aaaaaaaaaaa/y", ascii "/x", ascii "f", ascii "o"] (by decide) (by decide)

theorem words_twoDisks :
    (ascii "a /x f o").splitOn 32 = [ascii "a", ascii "/x", ascii "f", ascii "o"] ∧
      (ascii "b /y f o").splitOn 32 = [ascii "b", ascii "/y", ascii "f", ascii "o"] :=
  ⟨splitOn_blank [ascii "a", ascii "/x", ascii "f", ascii "o"] (by decide) (by decide),
    splitOn_blank [ascii "b", ascii "/y", ascii "f", ascii "o"] (by decide) (by decide)⟩

theorem fits_twoDisks : Fits twoDisks := by
  refine ⟨by decide, by rw [splitOn_twoDisks]; decide, ?_⟩
  rw [splitOn_twoDisks]
  simp only [List.forall_mem_cons, words_twoDisks.1, words_twoDisks.2, List.splitOn_nil]
  exact ⟨by decide, by decide, by decide, List.forall_mem_nil _⟩

theorem fits_oneDisk : Fits oneDisk := by
  refine ⟨by decide, by rw [splitOn_oneDisk]; decide, ?_⟩
  rw [splitOn_oneDisk]
  simp only [List.forall_mem_cons, words_oneDisk, List.splitOn_nil]
  exact ⟨by decide, by decide, List.forall_mem_nil _⟩

/-- Two disks, then one. -/
theorem reflects_disks :
    ∃ s o, run scanStep .init [some twoDisks] = some (s, o) ∧
      (Reflects s oneDisk.chars (ascii "/x") ↔
        (StaleMount s oneDisk.chars (ascii "/x") → HasMount oneDisk.chars (ascii "/x"))) :=
  reflects_iff (fun _ h => by cases List.mem_singleton.mp h; exact fits_twoDisks) fits_oneDisk
    ⟨ascii "/x", by decide⟩

/-- The entry of the second disk is found when the content has one. -/
theorem not_reflects :
    ¬ ∀ (contents : List (Option CStr)) (content mountPoint : CStr),
      (∀ c, some c ∈ contents → Fits c) → Fits content → mountPoint.chars ≠ [] →
      ∃ s o, run scanStep .init contents = some (s, o) ∧
        Reflects s content.chars mountPoint.chars := by
  intro hall
  obtain ⟨s, o, hrun, s', found, hfind, hreflects⟩ := hall [some twoDisks] oneDisk
    ⟨ascii "/y", by decide⟩ (fun _ h => by cases List.mem_singleton.mp h; exact fits_twoDisks)
    fits_oneDisk (by decide)
  obtain ⟨s₁, ret, hscan, -, -, htable⟩ := scanMountedVolumes_some kept_init fits_twoDisks
  have hstep : scanStep .init (some twoDisks) = some (s₁, [ret]) := by
    rw [scanStep, Option.map_some, hscan]
    rfl
  rw [run_singleton hstep, Option.some.injEq, Prod.mk.injEq] at hrun
  obtain ⟨rfl, -⟩ := hrun
  obtain ⟨s₂, found', hfind', hiff⟩ :=
    findMountedVolumeByMountPoint_spec (kept_init.scan fits_twoDisks hscan) fits_oneDisk
      (ascii "/y")
  rw [hfind', Option.some.injEq, Prod.mk.injEq] at hfind
  rw [hfind.2] at hiff
  -- line 1 is the empty one, and its entry is that of the second disk
  have hstale : StaleMount s₁ oneDisk.chars (ascii "/y") := by
    refine ⟨1, [], ⟨9, 11, 14, 16⟩, by rw [splitOn_oneDisk]; rfl, by
      rw [List.splitOn_nil]; decide, ?_, by decide⟩
    rw [htable, splitOn_twoDisks, entriesFrom, entriesFrom, words_twoDisks.2]
    rfl
  obtain ⟨line, hline, hfour, hfield⟩ := hreflects.mp (hiff.mpr (.inr hstale))
  rw [splitOn_oneDisk, List.mem_cons, List.mem_singleton] at hline
  rcases hline with rfl | rfl
  · rw [words_oneDisk] at hfield
    exact absurd hfield (by decide)
  · rw [List.splitOn_nil] at hfour
    exact absurd hfour (by decide)

end Lidbg.Mounts
