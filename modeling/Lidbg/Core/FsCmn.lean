import Lidbg.Machine.CInt
import Lidbg.Machine.CStr
import Lidbg.Machine.Registry

/-!
# File helpers of the file server (`core/lidbg_fs_cmn.c`)

`mem_encode` scrambles the text of a log while it is copied to a USB disk
(`copy_file` with `encode` set): every byte is shifted by one, unless the
shifted value falls outside the printable range. The host tool undoes it with
the same loop and the opposite shift, so the loop is stated once
(`memShift`), for any step.

`registerFilenameList` puts a log file on the list of those that are copied,
unless it is there.
-/

namespace Lidbg.FsCmn

open Machine

/-- The body of the loop of `mem_encode` and `mem_decode`: the shifted `char`
is stored only if `temp > 0 && temp < 127`. -/
def shiftChar (signed : Bool) (stepSize : Int) (b : UInt8) : UInt8 :=
  let temp := toChar (charVal signed b + stepSize)
  if 0 < charVal signed temp ∧ charVal signed temp < 127 then temp else b

/-- The loop itself, `while(loop < length)`, over the bytes at `addr`. -/
def memShift (signed : Bool) (addr : List UInt8) (length stepSize : Int) : List UInt8 :=
  addr.mapIdx fun loop b => if (loop : Int) < length then shiftChar signed stepSize b else b

/-- `mem_encode`. `signed` says whether the compiler's plain `char` is. -/
def memEncode (signed : Bool) (addr : List UInt8) (length stepSize : Int) : List UInt8 :=
  memShift signed addr length stepSize

/-- Shifting up by one: `0..125` move, everything else stays. -/
theorem toNat_shiftChar_one (signed : Bool) (b : UInt8) :
    (shiftChar signed 1 b).toNat = if b.toNat ≤ 125 then b.toNat + 1 else b.toNat := by
  have hb := b.toNat_lt
  have ht := toNat_toChar (charVal signed b + 1)
  simp only [shiftChar]
  generalize htemp : toChar (charVal signed b + 1) = temp at ht ⊢
  cases signed <;> simp only [charVal, Bool.true_and, Bool.false_and, decide_eq_true_eq,
    Bool.false_eq_true, if_false] at ht ⊢ <;> split_ifs at ht ⊢ <;> omega

/-- Shifting down by one: `2..127` move, everything else stays. -/
theorem toNat_shiftChar_neg_one (signed : Bool) (b : UInt8) :
    (shiftChar signed (-1) b).toNat =
      if 2 ≤ b.toNat ∧ b.toNat ≤ 127 then b.toNat - 1 else b.toNat := by
  have hb := b.toNat_lt
  have ht := toNat_toChar (charVal signed b + -1)
  simp only [shiftChar]
  generalize htemp : toChar (charVal signed b + -1) = temp at ht ⊢
  cases signed <;> simp only [charVal, Bool.true_and, Bool.false_and, decide_eq_true_eq,
    Bool.false_eq_true, if_false] at ht ⊢ <;> split_ifs at ht ⊢ <;> omega

/-! ## The list of log files -/

/-- `struct fs_filename_item`. -/
structure FsFilenameItem where
  filename : CStr
  removeAfterCopy : Bool
deriving DecidableEq

/-- `get_filename_list_item`: the item, as the number of items behind it. -/
def getFilenameListItem (clientList : List FsFilenameItem) (filename : CStr) : Option Nat :=
  Registry.find FsFilenameItem.filename filename clientList

/-- `new_filename_list_item`, up to where the item goes to the head of the list;
`allocated` says whether both `kmalloc` succeeded. -/
def newFilenameListItem (allocated : Bool) (filename : CStr) (removeAfterCopy : Bool) :
    Option FsFilenameItem :=
  if allocated then some ⟨filename, removeAfterCopy⟩ else none

/-- `register_filename_list`. -/
def registerFilenameList (allocated : Bool) (clientList : List FsFilenameItem) (filename : CStr)
    (removeAfterCopy : Bool) : List FsFilenameItem × Bool :=
  match getFilenameListItem clientList filename with
  | some _ => (clientList, false)
  | none =>
    match newFilenameListItem allocated filename removeAfterCopy with
    | some item => (item :: clientList, true)
    | none => (clientList, false)

end Lidbg.FsCmn
