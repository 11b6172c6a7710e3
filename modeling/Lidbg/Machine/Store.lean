import Mathlib.Data.List.GetD
import Mathlib.Data.UInt
import Mathlib.Tactic.SplitIfs

/-!
# Words in a buffer

A word is stored byte by byte, and nowhere unless all of it fits. `Stored` says of the
whole buffer what it holds then (`storeAt_iff`), and `Holds` which bytes stand at a place.

`foldlM_storeAt_self_iff`: stores of one word to aligned places leave a buffer as it was
exactly if the word stands at all of them.
-/

namespace Lidbg.Machine

universe u

variable {α : Type u} {n : Nat}

/-- Bytes stored from `off` on; `none` is a store past the end. -/
def storeAt (mem : Vector α n) (off : Nat) : List α → Option (Vector α n)
  | [] => if off ≤ n then some mem else none
  | b :: bytes => if h : off < n then storeAt (mem.set off b) (off + 1) bytes else none

/-- `mem'` is `mem` with the bytes from `off` on, all of them inside. -/
structure Stored (mem : Vector α n) (off : Nat) (bytes : List α) (mem' : Vector α n) :
    Prop where
  fits : off + bytes.length ≤ n
  getElem_eq : ∀ i (h : i < n),
    mem'[i] = if off ≤ i then bytes.getD (i - off) mem[i] else mem[i]

/-- The bytes stand at `off`. -/
structure Holds (mem : Vector α n) (off : Nat) (bytes : List α) : Prop where
  fits : off + bytes.length ≤ n
  getElem_eq : ∀ k (h : k < bytes.length), mem[off + k] = bytes[k]

variable {mem mem' : Vector α n} {off : Nat} {bytes : List α}

theorem storeAt_iff : storeAt mem off bytes = some mem' ↔ Stored mem off bytes mem' := by
  induction bytes generalizing mem off with
  | nil =>
    rw [storeAt]
    split_ifs with hoff
    · rw [Option.some.injEq]
      constructor
      · rintro rfl
        exact ⟨hoff, fun i h => by rw [List.getD_nil, ite_self]⟩
      · rintro ⟨-, hget⟩
        refine (Vector.ext fun i h => ?_).symm
        rw [hget i h, List.getD_nil, ite_self]
    · exact iff_of_false (fun h => nomatch h) fun h => hoff h.fits
  | cons b bytes ih =>
    rw [storeAt]
    split_ifs with hoff
    · rw [ih]
      -- one byte is at its place, the others are behind it
      have hstep : ∀ i (h : i < n),
          (if off + 1 ≤ i then bytes.getD (i - (off + 1)) (mem.set off b)[i]
            else (mem.set off b)[i]) =
          if off ≤ i then (b :: bytes).getD (i - off) mem[i] else mem[i] := by
        intro i h
        rw [Vector.getElem_set]
        rcases Nat.lt_trichotomy off i with hlt | rfl | hgt
        · obtain ⟨k, rfl⟩ := Nat.exists_eq_add_of_lt hlt
          rw [if_pos (Nat.succ_le_of_lt hlt), if_pos (Nat.le_of_lt hlt), if_neg (Nat.ne_of_lt hlt),
            show off + k + 1 - (off + 1) = k by omega, show off + k + 1 - off = k + 1 by omega,
            List.getD_cons_succ]
        · rw [if_neg (Nat.not_succ_le_self _), if_pos rfl, if_pos (Nat.le_refl _), Nat.sub_self,
            List.getD_cons_zero]
        · rw [if_neg (by omega), if_neg (by omega), if_neg (by omega)]
      constructor
      · rintro ⟨hfits, hget⟩
        refine ⟨by rw [List.length_cons]; omega, fun i h => ?_⟩
        rw [hget i h, hstep i h]
      · rintro ⟨hfits, hget⟩
        rw [List.length_cons] at hfits
        refine ⟨by omega, fun i h => ?_⟩
        rw [hget i h, hstep i h]
    · refine iff_of_false (fun h => nomatch h) fun h => ?_
      have hfits := h.fits
      rw [List.length_cons] at hfits
      omega

/-- Whatever fits can be stored. -/
theorem exists_storeAt (mem : Vector α n) (h : off + bytes.length ≤ n) :
    ∃ mem', storeAt mem off bytes = some mem' := by
  let mem' : Vector α n := Vector.ofFn fun i =>
    if off ≤ i.1 then bytes.getD (i.1 - off) mem[i] else mem[i]
  exact ⟨mem', storeAt_iff.mpr ⟨h, fun i hi => Vector.getElem_ofFn hi⟩⟩

/-! ## What stands somewhere -/

theorem Stored.holds (h : Stored mem off bytes mem') : Holds mem' off bytes := by
  refine ⟨h.fits, fun k hk => ?_⟩
  have hfits := h.fits
  rw [h.getElem_eq (off + k) (by omega), if_pos (Nat.le_add_right off k), Nat.add_sub_cancel_left,
    List.getD_eq_getElem _ _ hk]

/-- A store elsewhere leaves what stands at a place. -/
theorem Stored.holds_of_apart (h : Stored mem off bytes mem') {off' : Nat} {bytes' : List α}
    (hapart : off' + bytes'.length ≤ off ∨ off + bytes.length ≤ off')
    (hholds : Holds mem off' bytes') : Holds mem' off' bytes' := by
  have hfits := hholds.fits
  refine ⟨hfits, fun k hk => ?_⟩
  rw [h.getElem_eq (off' + k) (by omega), ← hholds.getElem_eq k hk]
  split_ifs with hle
  · rw [List.getD_eq_default _ _ (by omega)]
  · rfl

/-- One place has one word. -/
theorem Holds.unique {bytes' : List α} (h : Holds mem off bytes) (h' : Holds mem off bytes')
    (hlen : bytes.length = bytes'.length) : bytes = bytes' := by
  refine List.ext_getElem hlen fun k hk hk' => ?_
  rw [← h.getElem_eq k hk, ← h'.getElem_eq k hk']

/-- What stands there already is stored without a change. -/
theorem Holds.storeAt_self (h : Holds mem off bytes) : storeAt mem off bytes = some mem := by
  refine storeAt_iff.mpr ⟨h.fits, fun i hi => ?_⟩
  split_ifs with hle
  · obtain ⟨k, rfl⟩ := Nat.exists_eq_add_of_le hle
    rw [Nat.add_sub_cancel_left]
    by_cases hk : k < bytes.length
    · rw [List.getD_eq_getElem _ _ hk, h.getElem_eq k hk]
    · rw [List.getD_eq_default _ _ (Nat.not_lt.mp hk)]
  · rfl

/-! ## One word at many places -/

/-- Two aligned places are one, or apart. -/
theorem eq_or_apart_of_dvd {w off off' : Nat} (h : w ∣ off) (h' : w ∣ off') :
    off' = off ∨ off' + w ≤ off ∨ off + w ≤ off' := by
  by_cases hlt : off' < off + w
  · have hle := Nat.le_of_lt_add_of_dvd hlt h' h
    by_cases hlt' : off < off' + w
    · exact .inl (Nat.le_antisymm hle (Nat.le_of_lt_add_of_dvd hlt' h h'))
    · exact .inr (.inl (Nat.not_lt.mp hlt'))
  · exact .inr (.inr (Nat.not_lt.mp hlt))

variable {word : List α} {offs : List Nat}

/-- A word stored once stands at its place to the end. -/
theorem holds_of_foldlM_storeAt (halign : ∀ off ∈ offs, word.length ∣ off)
    (hrun : offs.foldlM (fun mem off => storeAt mem off word) mem = some mem')
    (hoff : word.length ∣ off) (hholds : off ∈ offs ∨ Holds mem off word) :
    Holds mem' off word := by
  induction offs generalizing mem with
  | nil =>
    cases hrun
    exact hholds.resolve_left List.not_mem_nil
  | cons first offs ih =>
    rw [List.forall_mem_cons] at halign
    rw [List.foldlM_cons, Option.bind_eq_bind, Option.bind_eq_some_iff] at hrun
    obtain ⟨mem₁, hstore, hrun⟩ := hrun
    have hstored := storeAt_iff.mp hstore
    refine ih halign.2 hrun ?_
    rw [List.mem_cons] at hholds
    rcases hholds with (rfl | hmem) | hholds
    · exact .inr hstored.holds
    · exact .inl hmem
    · rcases eq_or_apart_of_dvd halign.1 hoff with rfl | hapart
      · exact .inr hstored.holds
      · exact .inr (hstored.holds_of_apart hapart hholds)

theorem foldlM_storeAt_self (hholds : ∀ off ∈ offs, Holds mem off word) :
    offs.foldlM (fun mem off => storeAt mem off word) mem = some mem := by
  induction offs with
  | nil => rfl
  | cons off offs ih =>
    rw [List.forall_mem_cons] at hholds
    rw [List.foldlM_cons, hholds.1.storeAt_self]
    exact ih hholds.2

/-- **Stores of one word** to aligned places change nothing exactly if it stands there. -/
theorem foldlM_storeAt_self_iff (halign : ∀ off ∈ offs, word.length ∣ off) :
    offs.foldlM (fun mem off => storeAt mem off word) mem = some mem ↔
      ∀ off ∈ offs, Holds mem off word :=
  ⟨fun hrun off hmem => holds_of_foldlM_storeAt halign hrun (halign off hmem) (.inl hmem),
    foldlM_storeAt_self⟩

/-! ## Bytes of a word, the lowest first -/

def le16 (v : UInt16) : List UInt8 := [v.toUInt8, (v >>> 8).toUInt8]

def le32 (v : UInt32) : List UInt8 :=
  [v.toUInt8, (v >>> 8).toUInt8, (v >>> 16).toUInt8, (v >>> 24).toUInt8]

theorem le16_inj {v v' : UInt16} : le16 v = le16 v' ↔ v = v' := by
  refine ⟨fun h => ?_, congrArg le16⟩
  have hbytes (v : UInt16) : v.toUInt8.toNat = v.toNat % 256 ∧
      (v >>> 8).toUInt8.toNat = v.toNat / 256 % 256 := by
    refine ⟨UInt16.toNat_toUInt8 v, ?_⟩
    rw [UInt16.toNat_toUInt8, UInt16.toNat_shiftRight]
    exact congrArg (· % 256) (Nat.shiftRight_eq_div_pow v.toNat 8)
  rw [le16, le16, List.cons.injEq, List.cons.injEq] at h
  have hlow := congrArg UInt8.toNat h.1
  have hhigh := congrArg UInt8.toNat h.2.1
  rw [(hbytes v).1, (hbytes v').1] at hlow
  rw [(hbytes v).2, (hbytes v').2] at hhigh
  have hlt := v.toNat_lt
  have hlt' := v'.toNat_lt
  exact UInt16.toNat_inj.mp (by omega)

end Lidbg.Machine
