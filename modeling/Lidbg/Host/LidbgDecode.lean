import Lidbg.Core.FsCmn

/-!
# The host tool that decodes a log dump (`host/lidbg_decode/lidbg_decode.c`)

`mem_decode` is the loop of `mem_encode` run with the opposite step on the
host. The two guards are the same test on the *shifted* value, so they do not
cut the same bytes: the encoder moves `0..125`, the decoder `2..127`. Hence
`0 ↦ 1 ↦ 1`, `126 ↦ 126 ↦ 125` and `127 ↦ 127 ↦ 126`; every other byte comes
back (`decode_encode_byte_iff`).
-/

namespace Lidbg.LidbgDecode

open Machine FsCmn

/-- `mem_decode`. -/
def memDecode (signed : Bool) (addr : List UInt8) (length stepSize : Int) : List UInt8 :=
  memShift signed addr length stepSize

/-- The bytes that survive the round trip. -/
def Decodable (b : UInt8) : Prop :=
  b ≠ 0 ∧ b ≠ 126 ∧ b ≠ 127

/-- One byte through both loops, whichever way either compiler reads `char`. -/
theorem decode_encode_byte_iff (enc dec : Bool) (b : UInt8) :
    shiftChar dec (-1) (shiftChar enc 1 b) = b ↔ Decodable b := by
  have hb := b.toNat_lt
  have he := toNat_shiftChar_one enc b
  have hd := toNat_shiftChar_neg_one dec (shiftChar enc 1 b)
  rw [he] at hd
  rw [← UInt8.toNat_inj, hd, Decodable, ne_eq, ne_eq, ne_eq, ← UInt8.toNat_inj,
    ← UInt8.toNat_inj, ← UInt8.toNat_inj]
  simp only [UInt8.reduceToNat]
  split_ifs <;> omega

/-- Both loops over the first `len` bytes of a file. -/
theorem decode_encode_iff (enc dec : Bool) (content : List UInt8) (len : Int) :
    memDecode dec (memEncode enc content len 1) len (-1) = content ↔
      ∀ b ∈ content.take len.toNat, Decodable b := by
  rw [memDecode, memEncode, memShift, memShift, List.mapIdx_mapIdx]
  constructor
  · intro h b hb
    obtain ⟨i, hi, rfl⟩ := List.mem_iff_getElem.mp hb
    rw [List.length_take] at hi
    have hin : i < content.length := by omega
    have hat := congrArg (fun l => l[i]?) h
    simp only [List.getElem?_mapIdx, List.getElem?_eq_getElem hin, Option.map_some,
      Function.comp_apply, Option.some.injEq] at hat
    rw [if_pos (by omega), if_pos (by omega)] at hat
    rw [List.getElem_take]
    exact (decode_encode_byte_iff enc dec _).mp hat
  · intro h
    apply List.ext_getElem
    · rw [List.length_mapIdx]
    · intro i hi hin
      rw [List.getElem_mapIdx, Function.comp_apply]
      by_cases hlt : (i : Int) < len
      · rw [if_pos hlt, if_pos hlt]
        refine (decode_encode_byte_iff enc dec _).mpr (h _ ?_)
        exact List.mem_iff_getElem.mpr
          ⟨i, by rw [List.length_take]; omega, by rw [List.getElem_take]⟩
      · rw [if_neg hlt, if_neg hlt]

/-- What a dump becomes after `fs_copy_file_encode` on the device and
`decode_one_file` on the host; both pass the file's length as an `int`. -/
def dumpAndDecode (enc dec : Bool) (content : List UInt8) : List UInt8 :=
  memDecode dec (memEncode enc content (toInt content.length) 1)
    (toInt content.length) (-1)

/-- Below 2 GiB, where the length fits an `int`, every byte counts. -/
theorem dumpAndDecode_of_lt (enc dec : Bool) {content : List UInt8}
    (hlen : content.length < 2 ^ 31) :
    dumpAndDecode enc dec content = content ↔ ∀ b ∈ content, Decodable b := by
  rw [dumpAndDecode, decode_encode_iff, toInt_of_lt hlen, Int.toNat_natCast, List.take_length]

/-- **The round trip returns the file exactly when its bytes are decodable.**
Only the first `len` bytes are touched, `len` being the file's length as an
`int`: all of them below 2 GiB. -/
theorem dumpAndDecode_iff (enc dec : Bool) (content : List UInt8) :
    dumpAndDecode enc dec content = content ↔
      ∀ b ∈ content.take (toInt content.length).toNat, Decodable b :=
  decode_encode_iff enc dec content (toInt content.length)

/-- A tilde comes back as a closing brace. -/
theorem dumpAndDecode_tilde : dumpAndDecode false true [126] ≠ [126] := by
  decide

end Lidbg.LidbgDecode
