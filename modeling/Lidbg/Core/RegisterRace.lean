import Lidbg.Core.FsCmn
import Lidbg.Core.WakelockStat

/-!
# Registrations side by side (`core/lidbg_wakelock_stat.c`, `core/lidbg_fs_cmn.c`)

`register_wakelock` and `register_filename_list` hold `new_item_lock` while they
look a name up and again while they insert, not in between. Here both are
programs of these sections: alone they are `registerWakelock` and
`registerFilenameList`, and side by side they can both miss a name and both
insert it.
-/

namespace Lidbg.RegisterRace

open Machine WakelockStat FsCmn

/-- A call of `register_wakelock`; `detailList` says whether there is a list to
look the name up in for the log. -/
structure WakelockCall where
  allocated : Bool
  detailList : Bool
  lock : Lock

/-- What `register_wakelock` does with the list. -/
def WakelockCall.call (c : WakelockCall) : Registry.Call WakelockItem.name where
  name := c.lock.name
  elsewhere := c.detailList
  touch := some addLock
  item := newWakelockItem c.allocated c.lock
  key_touch := by
    rintro f hf pos
    cases hf
    rfl
  key_item := by
    intro item hitem
    unfold newWakelockItem at hitem
    split at hitem <;> cases hitem
    rfl

/-- A call of `register_filename_list`. -/
structure FilenameCall where
  allocated : Bool
  filename : CStr
  removeAfterCopy : Bool

/-- What `register_filename_list` does with the list. -/
def FilenameCall.call (c : FilenameCall) : Registry.Call FsFilenameItem.filename where
  name := c.filename
  elsewhere := false
  touch := none
  item := newFilenameListItem c.allocated c.filename c.removeAfterCopy
  key_touch := fun f hf => nomatch hf
  key_item := by
    intro item hitem
    unfold newFilenameListItem at hitem
    split at hitem <;> cases hitem
    rfl

/-- `register_wakelock` in sections. -/
def WakelockCall.program (c : WakelockCall) :
    Prog (Registry.Op CStr WakelockItem) Registry.Op.Reply Bool :=
  c.call.program

/-- `register_filename_list` in sections. -/
def FilenameCall.program (c : FilenameCall) :
    Prog (Registry.Op CStr FsFilenameItem) Registry.Op.Reply Bool :=
  c.call.program

/-- Undisturbed, the sections are `registerWakelock`. -/
theorem WakelockCall.exec_program (c : WakelockCall) (l : List WakelockItem) :
    ∃ trace, c.program.exec (Registry.handle WakelockItem.name) l =
      some ((registerWakelock c.allocated l c.lock).2,
        (registerWakelock c.allocated l c.lock).1, trace) := by
  obtain ⟨trace, h⟩ := Registry.exec_register WakelockItem.name c.lock.name c.detailList
    (some addLock) (newWakelockItem c.allocated c.lock) l
  refine ⟨trace, h.trans ?_⟩
  unfold Registry.registerAlone registerWakelock getWakelockItem
  cases Registry.find WakelockItem.name c.lock.name l <;>
    cases newWakelockItem c.allocated c.lock <;> rfl

/-- Undisturbed, the sections are `registerFilenameList`. -/
theorem FilenameCall.exec_program (c : FilenameCall) (l : List FsFilenameItem) :
    ∃ trace, c.program.exec (Registry.handle FsFilenameItem.filename) l =
      some ((registerFilenameList c.allocated l c.filename c.removeAfterCopy).2,
        (registerFilenameList c.allocated l c.filename c.removeAfterCopy).1, trace) := by
  obtain ⟨trace, h⟩ := Registry.exec_register FsFilenameItem.filename c.filename false none
    (newFilenameListItem c.allocated c.filename c.removeAfterCopy) l
  refine ⟨trace, h.trans ?_⟩
  unfold Registry.registerAlone registerFilenameList getFilenameListItem
  cases Registry.find FsFilenameItem.filename c.filename l <;>
    cases newFilenameListItem c.allocated c.filename c.removeAfterCopy <;> rfl

/-- The call would insert a new name. -/
def WakelockCall.New (wakelocks : List WakelockItem) (c : WakelockCall) : Prop :=
  c.allocated = true ∧ c.lock.name ∉ wakelocks.map WakelockItem.name

def FilenameCall.New (files : List FsFilenameItem) (c : FilenameCall) : Prop :=
  c.allocated = true ∧ c.filename ∉ files.map FsFilenameItem.filename

theorem WakelockCall.fresh_iff (wakelocks : List WakelockItem) (c : WakelockCall) :
    c.call.Fresh wakelocks ↔ c.New wakelocks := by
  refine and_congr_left' ?_
  show (newWakelockItem c.allocated c.lock).isSome = true ↔ _
  cases h : c.allocated <;> simp [newWakelockItem]

theorem FilenameCall.fresh_iff (files : List FsFilenameItem) (c : FilenameCall) :
    c.call.Fresh files ↔ c.New files := by
  refine and_congr_left' ?_
  show (newFilenameListItem c.allocated c.filename c.removeAfterCopy).isSome = true ↔ _
  cases h : c.allocated <;> simp [newFilenameListItem]

/-- **Names stay apart.** Starting from lists without duplicate names, a name is
never inserted twice, in any schedule of the calls, exactly when no two calls
would insert the same new name. -/
theorem names_nodup_iff {wakelocks : List WakelockItem} {files : List FsFilenameItem}
    (hw : (wakelocks.map WakelockItem.name).Nodup)
    (hf : (files.map FsFilenameItem.filename).Nodup)
    (wakelockCalls : List WakelockCall) (filenameCalls : List FilenameCall) :
    ((∀ schedule s o,
        run (interleave (Registry.handle WakelockItem.name))
          (wakelocks, wakelockCalls.map WakelockCall.program) schedule = some (s, o) →
        (s.1.map WakelockItem.name).Nodup) ↔
      wakelockCalls.Pairwise fun c c' =>
        c.New wakelocks → c'.New wakelocks → c.lock.name ≠ c'.lock.name) ∧
    ((∀ schedule s o,
        run (interleave (Registry.handle FsFilenameItem.filename))
          (files, filenameCalls.map FilenameCall.program) schedule = some (s, o) →
        (s.1.map FsFilenameItem.filename).Nodup) ↔
      filenameCalls.Pairwise fun c c' =>
        c.New files → c'.New files → c.filename ≠ c'.filename) := by
  have hwakelocks := Registry.nodup_iff hw (wakelockCalls.map WakelockCall.call)
  have hfiles := Registry.nodup_iff hf (filenameCalls.map FilenameCall.call)
  rw [List.map_map, List.pairwise_map] at hwakelocks hfiles
  refine ⟨hwakelocks.trans (iff_of_eq ?_), hfiles.trans (iff_of_eq ?_)⟩
  · congr 1
    funext c c'
    rw [WakelockCall.fresh_iff, WakelockCall.fresh_iff]
    rfl
  · congr 1
    funext c c'
    rw [FilenameCall.fresh_iff, FilenameCall.fresh_iff]
    rfl

/-- A call that takes the lock `a`, as `lidbg_wakelock_stat` makes it. -/
def callA : WakelockCall := ⟨true, true, lockA⟩

/-- A call that registers a file of that name. -/
def callFile : FilenameCall := ⟨true, lockA.name, true⟩

/-- Other names. -/
def nameB : CStr := ⟨ascii "b", by decide⟩

def nameC : CStr := ⟨ascii "c", by decide⟩

/-- Two new names do not race with each other, whatever is in the lists. -/
theorem names_nodup_pair :
    (∀ schedule s o, run (interleave (Registry.handle WakelockItem.name))
        ((newWakelockItem true { lockA with name := nameC }).toList,
          [callA, { callA with lock := { lockA with name := nameB } }].map WakelockCall.program)
          schedule = some (s, o) →
      (s.1.map WakelockItem.name).Nodup) ∧
    (∀ schedule s o, run (interleave (Registry.handle FsFilenameItem.filename))
        ((newFilenameListItem true nameC false).toList,
          [callFile, { callFile with filename := nameB }].map FilenameCall.program)
          schedule = some (s, o) →
      (s.1.map FsFilenameItem.filename).Nodup) := by
  have hw : ((newWakelockItem true { lockA with name := nameC }).toList.map
      WakelockItem.name).Nodup := List.pairwise_singleton _ _
  have hf : ((newFilenameListItem true nameC false).toList.map FsFilenameItem.filename).Nodup :=
    List.pairwise_singleton _ _
  have h := names_nodup_iff hw hf [callA, { callA with lock := { lockA with name := nameB } }]
    [callFile, { callFile with filename := nameB }]
  exact ⟨h.1.mpr (List.pairwise_pair.mpr fun _ _ => by decide),
    h.2.mpr (List.pairwise_pair.mpr fun _ _ => by decide)⟩

/-- Two calls look the same name up before either inserts it. -/
theorem not_names_nodup :
    (¬ ∀ schedule s o, run (interleave (Registry.handle WakelockItem.name))
        ([], [callA, callA].map WakelockCall.program) schedule = some (s, o) →
      (s.1.map WakelockItem.name).Nodup) ∧
    (¬ ∀ schedule s o, run (interleave (Registry.handle FsFilenameItem.filename))
        ([], [callFile, callFile].map FilenameCall.program) schedule = some (s, o) →
      (s.1.map FsFilenameItem.filename).Nodup) := by
  constructor
  · -- lookup, lookup, both detail lookups, insert, insert
    intro h
    exact absurd (h [0, 1, 0, 1, 0, 1] _ _ rfl) (by decide)
  · intro h
    exact absurd (h [0, 1, 0, 1] _ _ rfl) (by decide)

end Lidbg.RegisterRace
