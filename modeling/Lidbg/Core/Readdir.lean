import Lidbg.Core.FsUpdate
import Lidbg.Machine.Loop

/-!
# Walking a directory (`core/lidbg_cmn.c`)

`vfs_readdir` has `readdir_build_namelist` put each name on a list, in an array of
33 bytes, and `lidbg_readdir_and_dealfile` calls the callback and frees the entry
for each that is on it. It takes no entry off the list when `vfs_readdir` reported
an error, and then the loop over the list does not end.
-/

namespace Lidbg.Readdir

open Machine

/-- The size of `name`. -/
abbrev nameSize : Nat := 33

/-- `readdir_build_namelist`, with the list and the result; `none` stores behind
`name`. -/
def readdirBuildNamelist (names : List CStr) (name : CStr) (allocated : Bool) :
    Option (List CStr × Int32) :=
  if allocated then
    if name.chars.length < nameSize then some (name :: names, 0) else none
  else some (names, -12)

/-- `vfs_readdir` over the names of a directory and whether `kzalloc` succeeds for them,
up to the first for which `readdir_build_namelist` fails. -/
def vfsReaddir (names : List CStr) : List (CStr × Bool) → Option (List CStr)
  | [] => some names
  | (name, allocated) :: entries => do
    let (names, ret) ← readdirBuildNamelist names name allocated
    if ret = 0 then vfsReaddir names entries else some names

/-- What the system does in one call: whether the directory opens, what is in it, and what
`vfs_readdir` returns. -/
structure ReaddirIo where
  opens : Bool
  entries : List (CStr × Bool)
  status : Int32

/-- The list, and what was called and freed so far. -/
structure DealState where
  names : List CStr
  called : List CStr
  freed : List CStr

/-- What the callback was called for, and what was put on the list and freed. -/
structure DealResult where
  ret : Bool
  called : List CStr
  collected : List CStr
  freed : List CStr

/-- `entry->name[0] != '.'`. -/
def notDot (name : CStr) : Bool := name.chars.head? ≠ some 46

/-- The body of the loop over the list. -/
def dealPass (status : Int32) (collected : List CStr) (s : DealState) : DealState ⊕ DealResult :=
  match s.names with
  | [] => .inr ⟨true, s.called, collected, s.freed⟩
  | entry :: names =>
    if status = 0 then
      .inl ⟨names, if notDot entry then s.called ++ [entry] else s.called, s.freed ++ [entry]⟩
    else .inl s

/-- `lidbg_readdir_and_dealfile`, for a directory and a callback that may be null; the
outer `none` stores behind `name`, the inner one has not ended. -/
def lidbgReaddirAndDealfile (fuel : Nat) (insureIsDir : Option CStr) (callback : Bool)
    (io : ReaddirIo) : Option (Option DealResult) :=
  if insureIsDir.isNone ∨ ¬ callback ∨ ¬ io.opens then some (some ⟨false, [], [], []⟩)
  else
    (vfsReaddir [] io.entries).map fun names =>
      loop (dealPass io.status names) fuel ⟨names, [], []⟩

/-- The walk ends, with no store behind a name, every entry is freed, and without an
error the callback is called once for each name that does not start with a dot. -/
def DealsWithAll (insureIsDir : Option CStr) (callback : Bool) (io : ReaddirIo) : Prop :=
  ∃ fuel r, lidbgReaddirAndDealfile fuel insureIsDir callback io = some (some r) ∧
    r.freed.Perm r.collected ∧
    (r.ret = true → io.status = 0 →
      r.called.Perm ((io.entries.map Prod.fst).filter notDot))

/-- The names that `kzalloc` succeeds for, up to the first that it fails for. -/
def stored (entries : List (CStr × Bool)) : List CStr :=
  (entries.takeWhile Prod.snd).map Prod.fst

/-- The other names. -/
def missed (entries : List (CStr × Bool)) : List CStr :=
  (entries.dropWhile Prod.snd).map Prod.fst

theorem stored_append_missed (entries : List (CStr × Bool)) :
    stored entries ++ missed entries = entries.map Prod.fst := by
  rw [stored, missed, ← List.map_append, List.takeWhile_append_dropWhile]

/-! ## The list -/

/-- The list starts with the last name. -/
theorem vfsReaddir_of_short {entries : List (CStr × Bool)}
    (hshort : ∀ name ∈ stored entries, name.chars.length < nameSize) (names : List CStr) :
    vfsReaddir names entries = some ((stored entries).reverse ++ names) := by
  induction entries generalizing names with
  | nil => rfl
  | cons entry entries ih =>
    obtain ⟨name, allocated⟩ := entry
    rw [vfsReaddir, readdirBuildNamelist]
    cases allocated with
    | false => rfl
    | true =>
      have hstored : stored ((name, true) :: entries) = name :: stored entries := rfl
      rw [hstored, List.forall_mem_cons] at hshort
      rw [hstored, if_pos rfl, if_pos hshort.1, List.reverse_cons, List.append_assoc]
      exact ih hshort.2 (name :: names)

theorem short_of_vfsReaddir {entries : List (CStr × Bool)} {names collected : List CStr}
    (h : vfsReaddir names entries = some collected) :
    ∀ name ∈ stored entries, name.chars.length < nameSize := by
  induction entries generalizing names with
  | nil => exact List.forall_mem_nil _
  | cons entry entries ih =>
    obtain ⟨name, allocated⟩ := entry
    rw [vfsReaddir, readdirBuildNamelist] at h
    cases allocated with
    | false => exact List.forall_mem_nil _
    | true =>
      rw [if_pos rfl] at h
      split_ifs at h with hlen
      · exact List.forall_mem_cons.mpr ⟨hlen, ih h⟩
      · cases h

/-! ## The loop -/

/-- Without an error each turn deals with one entry. -/
theorem loopEnds_dealPass (names : List CStr) :
    LoopEnds (dealPass 0 names) ⟨names, [], []⟩
      (· = ⟨true, names.filter notDot, names, names⟩) := by
  refine loopEnds_of_measure (I := fun s => s.called ++ s.names.filter notDot =
    names.filter notDot ∧ s.freed ++ s.names = names) (fun s => s.names.length) ?_ ?_
    ⟨List.nil_append _, List.nil_append _⟩
  · rintro ⟨rest, called, freed⟩ s' ⟨hcalled, hfreed⟩ hpass
    cases rest with
    | nil => cases hpass
    | cons entry rest =>
      cases hpass
      refine ⟨⟨?_, by rw [← hfreed, List.append_assoc]; rfl⟩, Nat.lt_succ_self _⟩
      rw [← hcalled]
      dsimp only
      cases hdot : notDot entry with
      | false => rw [List.filter_cons_of_neg (by rw [hdot]; decide), if_neg Bool.false_ne_true]
      | true => rw [List.filter_cons_of_pos hdot, if_pos rfl, List.append_assoc]; rfl
  · rintro ⟨rest, called, freed⟩ r ⟨hcalled, hfreed⟩ hpass
    cases rest with
    | nil =>
      cases hpass
      rw [List.append_nil] at hfreed
      rw [List.filter_nil, List.append_nil] at hcalled
      rw [← hcalled, hfreed]
    | cons entry rest => cases hpass

/-- With an error it ends only if there is nothing to deal with. -/
theorem loopEnds_error_iff {status : Int32} (hstatus : status ≠ 0) {names : List CStr}
    {P : DealResult → Prop} :
    LoopEnds (dealPass status names) ⟨names, [], []⟩ P ↔
      names = [] ∧ P ⟨true, [], [], []⟩ := by
  cases names with
  | nil =>
    have hleave : dealPass status [] ⟨[], [], []⟩ = .inr ⟨true, [], [], []⟩ := rfl
    rw [loopEnds_leave hleave, and_iff_right rfl]
  | cons entry names =>
    refine iff_of_false (not_loopEnds_of_fixed ?_) fun h => nomatch h.1
    rw [dealPass]
    exact if_neg hstatus

/-- What was called is every name without a dot exactly if none was missed. -/
theorem called_perm_iff (entries : List (CStr × Bool)) :
    ((stored entries).reverse.filter notDot).Perm ((entries.map Prod.fst).filter notDot) ↔
      ∀ name ∈ missed entries, notDot name = false := by
  have hreverse := (List.reverse_perm (stored entries)).filter notDot
  rw [← stored_append_missed, List.filter_append]
  constructor
  · intro hperm
    have hlen := hperm.length_eq
    rw [hreverse.length_eq, List.length_append] at hlen
    have hnil := List.eq_nil_of_length_eq_zero (Nat.left_eq_add.mp hlen)
    intro name hname
    exact Bool.eq_false_iff.mpr (List.filter_eq_nil_iff.mp hnil name hname)
  · intro hmissed
    have hnil : (missed entries).filter notDot = [] :=
      List.filter_eq_nil_iff.mpr fun name hname => Bool.eq_false_iff.mp (hmissed name hname)
    rw [hnil, List.append_nil]
    exact hreverse

/-! ## The walk -/

/-- Whatever is asked of the result of a walk whose names are short is asked of the
loop. -/
theorem dealsWithAll_iff_loopEnds {insureIsDir : Option CStr} {callback : Bool} {io : ReaddirIo}
    (hopen : ¬ (insureIsDir.isNone ∨ ¬ callback ∨ ¬ io.opens))
    (hshort : ∀ name ∈ stored io.entries, name.chars.length < nameSize) :
    DealsWithAll insureIsDir callback io ↔
      LoopEnds (dealPass io.status (stored io.entries).reverse)
        ⟨(stored io.entries).reverse, [], []⟩ fun r => r.freed.Perm r.collected ∧
          (r.ret = true → io.status = 0 →
            r.called.Perm ((io.entries.map Prod.fst).filter notDot)) := by
  unfold DealsWithAll LoopEnds lidbgReaddirAndDealfile
  rw [vfsReaddir_of_short hshort, List.append_nil]
  simp only [if_neg hopen, Option.map_some, Option.some.injEq]

/-- **A walk deals with all names** exactly if each fits its array, and `vfs_readdir`
reports no error and misses only names with a dot, or an error and no name. -/
theorem dealsWithAll_iff (insureIsDir : Option CStr) (callback : Bool) (io : ReaddirIo) :
    DealsWithAll insureIsDir callback io ↔
      (insureIsDir.isNone ∨ ¬ callback ∨ ¬ io.opens) ∨
        (∀ name ∈ stored io.entries, name.chars.length < nameSize) ∧
          (io.status = 0 ∧ (∀ name ∈ missed io.entries, notDot name = false) ∨
            io.status ≠ 0 ∧ stored io.entries = []) := by
  by_cases hopen : insureIsDir.isNone ∨ ¬ callback ∨ ¬ io.opens
  · refine iff_of_true ⟨0, ⟨false, [], [], []⟩, ?_, .refl _, fun h => nomatch h⟩ (.inl hopen)
    rw [lidbgReaddirAndDealfile, if_pos hopen]
  rw [or_iff_right hopen]
  by_cases hshort : ∀ name ∈ stored io.entries, name.chars.length < nameSize
  · rw [dealsWithAll_iff_loopEnds hopen hshort, and_iff_right hshort]
    by_cases hstatus : io.status = 0
    · rw [hstatus, loopEnds_iff_of_eq (loopEnds_dealPass _), called_perm_iff]
      simp
    · rw [loopEnds_error_iff hstatus, List.reverse_eq_nil_iff]
      simp [hstatus]
  · refine iff_of_false ?_ fun h => hshort h.1
    rintro ⟨fuel, r, hr, -⟩
    rw [lidbgReaddirAndDealfile, if_neg hopen] at hr
    obtain ⟨names, hnames, -⟩ := Option.map_eq_some_iff.mp hr
    exact hshort (short_of_vfsReaddir hnames)

/-! ## The walk of the update -/

/-- The walk as `cb_password_update` has it, all names read, is the callback for
those that the loop calls it for, in the order of the calls. -/
theorem fsUpdate_walk (callback : FsCopy.CopyIo → FsCopy.Files → FsCopy.Path → FsCopy.Path →
      Option FsCopy.Files) (files : FsCopy.Files) (dir : CStr)
    {entries : List (CStr × FsCopy.CopyIo)}
    (hshort : ∀ entry ∈ entries, entry.1.chars.length < nameSize) :
    ∃ fuel r, ∃ dealt : List (CStr × FsCopy.CopyIo),
      lidbgReaddirAndDealfile fuel (some dir) true
        ⟨true, entries.map fun entry => (entry.1, true), 0⟩ = some (some r) ∧
      r.called = dealt.map Prod.fst ∧
      FsUpdate.lidbgReaddirAndDealfile callback files dir.chars
          (entries.map fun entry => (entry.1.chars, entry.2)) =
        dealt.foldlM (fun files entry => callback entry.2 files dir.chars entry.1.chars)
          files := by
  have hstored : stored (entries.map fun entry => (entry.1, true)) = entries.map Prod.fst := by
    rw [stored, List.takeWhile_eq_self_iff.mpr (by simp), List.map_map]
    rfl
  have hnames : ∀ name ∈ stored (entries.map fun entry => (entry.1, true)),
      name.chars.length < nameSize := by
    rw [hstored]
    exact List.forall_mem_map.mpr hshort
  obtain ⟨fuel, r, hr, hresult⟩ := loopEnds_dealPass (entries.map Prod.fst).reverse
  refine ⟨fuel, r, entries.reverse.filter fun entry => notDot entry.1, ?_, ?_, ?_⟩
  · rw [lidbgReaddirAndDealfile, if_neg (by simp), vfsReaddir_of_short hnames, hstored,
      List.append_nil, Option.map_some, hr]
  · rw [hresult, ← List.map_reverse, List.filter_map]
    rfl
  · rw [FsUpdate.lidbgReaddirAndDealfile, if_pos (List.forall_mem_map.mpr hshort),
      ← List.map_reverse, List.foldlM_map, List.foldlM_filter]
    simp [notDot]

/-- A directory with one file, read with an error. -/
def errorIo : ReaddirIo := ⟨true, [(⟨ascii "notes", by decide⟩, true)], -5⟩

theorem not_dealsWithAll : ¬ ∀ insureIsDir callback io, DealsWithAll insureIsDir callback io := by
  intro hall
  have hdeals := hall (some ⟨ascii "/data", by decide⟩) true errorIo
  rw [dealsWithAll_iff_loopEnds (by decide) (by decide), loopEnds_error_iff (by decide)] at hdeals
  cases hdeals.1

end Lidbg.Readdir
