import Lidbg.Core.FsCopy
import Mathlib.Data.List.GetD

/-!
# What `copy_file` says (`core/lidbg_fs_cmn.c`)

The target is cut to nothing before there is memory for the contents, and neither the read
nor the write is looked at. `copyFile_truthful_iff` says which targets, which contents and
which failures leave the answer true all the same: `true` with the source's bytes or their
encoding in the target, `false` with the target as it was.
-/

namespace Lidbg.FsCopy

open Machine FsCmn

/-- All that the system does in one `copy_file`: the open of `fs_is_file_exist`, that of the
source, which is not looked at, and the rest. -/
structure CopyFileIo extends CopyIo where
  checked : Bool
  sourceOpened : Bool

/-- `copy_file`; `none` follows the error pointer of a source that was not opened. -/
def copyFileOpens (signed encode : Bool) (io : CopyFileIo) (files : Files)
    (source target : Path) : Option (Files × Bool) :=
  if (files source).isSome ∧ io.checked then
    if io.sourceOpened then some (copyFile signed encode io.toCopyIo files source target)
    else none
  else some (files, false)

/-! ## What should be in the target -/

/-- The bytes of the source, or their encoding. -/
def meant (signed encode : Bool) (content : List UInt8) : List UInt8 :=
  encodeIf signed encode content content.length

/-- The answer is true. -/
def IsTrue (signed encode : Bool) (before after : Files) (source target : Path) (ret : Bool) :
    Prop :=
  (ret = true → after target = (before source).map (meant signed encode)) ∧
    (ret = false → after target = before target)

/-- A byte as `mem_encode` leaves it. -/
def encodedByte (signed encode : Bool) (b : UInt8) : UInt8 :=
  if encode then shiftChar signed 1 b else b

/-- A byte of a buffer of `fileLen` bytes as it is written: a length from 2^31 on is no
length for `mem_encode`. -/
def writtenByte (signed encode : Bool) (fileLen : Nat) (b : UInt8) : UInt8 :=
  encodedByte signed (encode && decide (fileLen < 2 ^ 31)) b

/-- The contents arrive: their length is an `unsigned int`, all is written, and every byte
that is read, or what the memory held for one that is not, is written as it should be. -/
structure Arrives (signed encode : Bool) (io : CopyIo) (content : List UInt8) : Prop where
  length_lt : content.length < 2 ^ 32
  written : content.length ≤ io.written
  bytes : ∀ i, (h : i < content.length) →
    writtenByte signed encode content.length (if i < io.readLen then content[i] else io.memory i) =
      encodedByte signed encode content[i]

/-- The open of the target cuts the source. -/
def CutsSource (io : CopyIo) (source target : Path) : Prop :=
  source = target ∧ (io.opened = true ∨ io.removed = false)

instance (io : CopyIo) (source target : Path) : Decidable (CutsSource io source target) :=
  inferInstanceAs (Decidable (_ ∧ _))

/-- When the answer is true: the source is missing, or what was done to the target is what
the answer says. -/
def Truthful (signed encode : Bool) (io : CopyFileIo) (files : Files) (source target : Path) :
    Prop :=
  ∀ content, files source = some content → io.checked = true → io.sourceOpened = true →
    if io.opened = true ∨ io.reopened = true then
      if io.allocated = true then
        if CutsSource io.toCopyIo source target then content = []
        else Arrives signed encode io.toCopyIo content
      else files target = some []
    else io.removed = true → files target = none

/-! ## The bytes -/

/-- The loop over a whole buffer. -/
theorem memEncode_of_le (signed : Bool) {buffer : List UInt8} {length : Int}
    (h : buffer.length ≤ length) :
    memEncode signed buffer length 1 = buffer.map (shiftChar signed 1) := by
  unfold memEncode memShift
  refine List.ext_getElem (by rw [List.length_mapIdx, List.length_map]) fun i hi hi' => ?_
  rw [List.length_map] at hi'
  rw [List.getElem_mapIdx, List.getElem_map, if_pos (by omega)]

/-- With a length below zero the loop does nothing. -/
theorem memEncode_of_neg (signed : Bool) (buffer : List UInt8) {length : Int} (h : length < 0) :
    memEncode signed buffer length 1 = buffer := by
  unfold memEncode memShift
  refine List.ext_getElem List.length_mapIdx fun i hi hi' => ?_
  rw [List.getElem_mapIdx, if_neg (by omega)]

theorem meant_eq_map (signed encode : Bool) (content : List UInt8) :
    meant signed encode content = content.map (encodedByte signed encode) := by
  cases encode with
  | false => exact (List.map_id content).symm
  | true => exact memEncode_of_le signed (Int.le_refl _)

theorem encodeIf_eq_map (signed encode : Bool) {buffer : List UInt8}
    (hlength : buffer.length < 2 ^ 32) :
    encodeIf signed encode buffer (toInt buffer.length) =
      buffer.map (writtenByte signed encode buffer.length) := by
  by_cases hint : buffer.length < 2 ^ 31
  · have hsame : toInt buffer.length = buffer.length :=
      Int.bmod_eq_of_le (by omega) (by omega)
    have hbyte : writtenByte signed encode buffer.length = encodedByte signed encode := by
      unfold writtenByte
      rw [decide_eq_true hint, Bool.and_true]
    rw [hsame, hbyte]
    exact meant_eq_map signed encode buffer
  · have hneg : toInt buffer.length < 0 := by
      unfold toInt
      rw [Int.bmod_def]
      split_ifs <;> omega
    have hbyte : writtenByte signed encode buffer.length = id := by
      unfold writtenByte
      rw [decide_eq_false hint, Bool.and_false]
      rfl
    rw [hbyte, List.map_id]
    cases encode with
    | false => rfl
    | true => exact memEncode_of_neg signed buffer hneg

theorem take_map_range_eq_iff (f : Nat → UInt8) (g : UInt8 → UInt8) (n w : Nat)
    (l : List UInt8) : ((List.range n).map f).take w = l.map g ↔
      min w n = l.length ∧ ∀ i, (h : i < l.length) → f i = g l[i] := by
  have hlength : (((List.range n).map f).take w).length = min w n := by
    rw [List.length_take, List.length_map, List.length_range]
  constructor
  · intro heq
    have hmin : min w n = l.length := by rw [← hlength, heq, List.length_map]
    refine ⟨hmin, fun i hi => ?_⟩
    have hget : (((List.range n).map f).take w)[i]? = (l.map g)[i]? := congrArg (·[i]?) heq
    rw [List.getElem?_eq_getElem (by omega), List.getElem?_eq_getElem (by rwa [List.length_map]),
      Option.some.injEq, List.getElem_take, List.getElem_map, List.getElem_range,
      List.getElem_map] at hget
    exact hget
  · rintro ⟨hmin, hbytes⟩
    refine List.ext_getElem (by rw [hlength, hmin, List.length_map]) fun i hi hi' => ?_
    rw [List.getElem_take, List.getElem_map, List.getElem_range, List.getElem_map]
    exact hbytes i (by rwa [List.length_map] at hi')

/-- The contents arrive exactly if they are written. -/
theorem writtenBytes_eq_meant_iff (signed encode : Bool) {io : CopyIo}
    (hmemory : io.allocated = true) (content : List UInt8) :
    writtenBytes signed encode io content = meant signed encode content ↔
      Arrives signed encode io content := by
  have hlen : (readBuffer io content).length = fileLen content := by
    rw [readBuffer, List.length_map, List.length_range]
  have hlt : fileLen content < 2 ^ 32 := Nat.mod_lt _ (by decide)
  have hle : fileLen content ≤ content.length := Nat.mod_le _ _
  have hencode := encodeIf_eq_map signed encode (hlen.symm ▸ hlt)
  rw [hlen] at hencode
  rw [writtenBytes, if_pos hmemory, hencode, meant_eq_map, readBuffer, List.map_map,
    take_map_range_eq_iff]
  have hsize : min io.written (fileLen content) = content.length ↔
      content.length < 2 ^ 32 ∧ content.length ≤ io.written := by
    unfold fileLen at hlt hle ⊢
    constructor
    · intro h
      omega
    · rintro ⟨hshort, hwritten⟩
      rw [Nat.mod_eq_of_lt hshort]
      omega
  have hbyte : ∀ (_ : content.length < 2 ^ 32) (i : Nat) (h : i < content.length),
      ((writtenByte signed encode (fileLen content)) ∘ fun i =>
        if i < io.readLen then content.getD i 0 else io.memory i) i =
      writtenByte signed encode content.length
        (if i < io.readLen then content[i] else io.memory i) := by
    intro hshort i h
    rw [Function.comp_apply, List.getD_eq_getElem _ _ h, fileLen, Nat.mod_eq_of_lt hshort]
  rw [hsize]
  constructor
  · rintro ⟨⟨hshort, hwritten⟩, hbytes⟩
    exact ⟨hshort, hwritten, fun i h => (hbyte hshort i h).symm.trans (hbytes i h)⟩
  · rintro ⟨hshort, hwritten, hbytes⟩
    exact ⟨⟨hshort, hwritten⟩, fun i h => (hbyte hshort i h).trans (hbytes i h)⟩

/-! ## The answer -/

/-- Both opens of the target fail. -/
theorem copyFile_closed (signed encode : Bool) {io : CopyIo} {files : Files} {source : Path}
    {content : List UInt8} (hsource : files source = some content)
    (hclosed : ¬ (io.opened = true ∨ io.reopened = true)) (target : Path) :
    copyFile signed encode io files source target =
      (if io.removed then Function.update files target none else files, false) := by
  rw [not_or] at hclosed
  unfold copyFile
  rw [hsource]
  dsimp only
  rw [if_neg hclosed.1, if_neg hclosed.2]

/-- The target is open. -/
theorem copyFile_open (signed encode : Bool) {io : CopyIo} {files : Files} {source : Path}
    {content : List UInt8} (hsource : files source = some content)
    (hopen : io.opened = true ∨ io.reopened = true) (target : Path) :
    (copyFile signed encode io files source target).2 = io.allocated ∧
    (copyFile signed encode io files source target).1 target = some
      (writtenBytes signed encode io (if CutsSource io source target then [] else content)) := by
  unfold copyFile
  rw [hsource]
  dsimp only
  by_cases hopened : io.opened = true
  · have hcut : CutsSource io source target ↔ source = target :=
      and_iff_left (.inl hopened)
    rw [if_pos hopened, if_congr hcut rfl rfl]
    exact ⟨rfl, Function.update_self ..⟩
  · have hcut : CutsSource io source target ↔ source = target ∧ io.removed = false :=
      and_congr_right fun _ => or_iff_right hopened
    rw [if_neg hopened, if_pos (hopen.resolve_left hopened), if_congr hcut rfl rfl]
    exact ⟨rfl, Function.update_self ..⟩

theorem writtenBytes_nil (signed encode : Bool) (io : CopyIo) :
    writtenBytes signed encode io [] = [] := by
  unfold writtenBytes
  split_ifs
  · have hnil : encodeIf signed encode (readBuffer io []) (toInt (fileLen [])) = [] := by
      cases encode <;> rfl
    rw [hnil, List.take_nil]
  · rfl

/-- What is written where the open may have cut the source. -/
theorem written_eq_meant_iff (signed encode : Bool) {io : CopyIo}
    (hmemory : io.allocated = true) (content : List UInt8) (cut : Prop) [Decidable cut] :
    writtenBytes signed encode io (if cut then [] else content) = meant signed encode content ↔
      if cut then content = [] else Arrives signed encode io content := by
  split_ifs with hcut
  · rw [writtenBytes_nil, meant_eq_map, eq_comm, List.map_eq_nil_iff]
  · exact writtenBytes_eq_meant_iff signed encode hmemory content

/-- The answer of the part behind the opens of the source. -/
theorem copyFile_isTrue_iff (signed encode : Bool) (io : CopyIo) {files : Files}
    {source : Path} {content : List UInt8} (hsource : files source = some content)
    (target : Path) :
    IsTrue signed encode files (copyFile signed encode io files source target).1 source target
        (copyFile signed encode io files source target).2 ↔
      if io.opened = true ∨ io.reopened = true then
        if io.allocated = true then
          if CutsSource io source target then content = [] else Arrives signed encode io content
        else files target = some []
      else io.removed = true → files target = none := by
  by_cases hopen : io.opened = true ∨ io.reopened = true
  · obtain ⟨hret, htarget⟩ := copyFile_open signed encode hsource hopen target
    rw [if_pos hopen, IsTrue, hret, htarget, hsource]
    by_cases hmemory : io.allocated = true
    · rw [if_pos hmemory, ← written_eq_meant_iff signed encode hmemory, Option.map_some]
      refine ⟨fun h => Option.some.inj (h.1 hmemory), fun h => ⟨fun _ => congrArg some h, ?_⟩⟩
      exact fun hnot => absurd hmemory (Bool.eq_false_iff.mp hnot)
    · have hnothing : writtenBytes signed encode io
          (if CutsSource io source target then [] else content) = [] := if_neg hmemory
      rw [if_neg hmemory, hnothing]
      refine ⟨fun h => (h.2 (Bool.eq_false_iff.mpr hmemory)).symm, fun h => ?_⟩
      exact ⟨fun hyes => absurd hyes hmemory, fun _ => h.symm⟩
  · rw [if_neg hopen, IsTrue, copyFile_closed signed encode hsource hopen]
    dsimp only
    by_cases hremoved : io.removed = true
    · rw [if_pos hremoved, Function.update_self]
      exact ⟨fun h _ => (h.2 rfl).symm,
        fun h => ⟨(fun hret => nomatch hret), fun _ => (h hremoved).symm⟩⟩
    · rw [if_neg hremoved]
      exact ⟨fun _ hyes => absurd hyes hremoved,
        fun _ => ⟨(fun hret => nomatch hret), fun _ => rfl⟩⟩

/-- **The answer of `copy_file`** is true in these cases and in no others. -/
theorem copyFile_truthful_iff (signed encode : Bool) (io : CopyFileIo) (files : Files)
    (source target : Path) :
    (∀ after ret, copyFileOpens signed encode io files source target = some (after, ret) →
      IsTrue signed encode files after source target ret) ↔
      Truthful signed encode io files source target := by
  unfold copyFileOpens Truthful
  cases hsource : files source with
  | none =>
    rw [if_neg fun h => absurd h.1 Bool.false_ne_true]
    refine iff_of_true ?_ fun content h => nomatch h
    rintro after ret ⟨⟩
    exact ⟨(fun hret => nomatch hret), fun _ => rfl⟩
  | some content =>
    have hone : ∀ P : List UInt8 → Prop, (∀ other, some content = some other → P other) ↔
        P content := fun P => ⟨fun h => h content rfl, fun h other heq => Option.some.inj heq ▸ h⟩
    rw [hone]
    by_cases hchecked : io.checked = true
    · rw [if_pos ⟨rfl, hchecked⟩]
      by_cases hopened : io.sourceOpened = true
      · rw [if_pos hopened, ← copyFile_isTrue_iff signed encode io.toCopyIo hsource target]
        refine ⟨fun h _ _ => h _ _ rfl, fun h after ret heq => ?_⟩
        have htrue := h hchecked hopened
        rw [Option.some.inj heq] at htrue
        exact htrue
      · rw [if_neg hopened]
        exact iff_of_true (fun _ _ h => nomatch h) fun _ hyes => absurd hyes hopened
    · rw [if_neg fun h => hchecked h.2]
      refine iff_of_true ?_ fun hyes => absurd hyes hchecked
      rintro after ret ⟨⟩
      exact ⟨(fun hret => nomatch hret), fun _ => rfl⟩

/-- No memory: the answer is false and the target has lost what it held. -/
theorem copyFile_destroys_target :
    ¬ ∀ (signed encode : Bool) (io : CopyFileIo) (files : Files) (source target : Path)
      (after : Files) (ret : Bool),
      copyFileOpens signed encode io files source target = some (after, ret) →
      IsTrue signed encode files after source target ret := by
  intro h
  have hfalse := h true false ⟨⟨true, false, false, false, 0, fun _ => 0, 0⟩, true, true⟩
    (fun _ => some [65]) [0x61] [0x62] _ _ rfl
  exact absurd (hfalse.2 rfl) (by decide)

end Lidbg.FsCopy
