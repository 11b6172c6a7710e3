import Mathlib.Data.List.GetD
import Mathlib.Data.List.Range
import Mathlib.Tactic.SplitIfs

/-!
# Unsafe clocks (`drivers/acc/lidbg_acc.c`, `drivers/fastboot/lidbg_fastboot.c`)

`find_unsafe_clk` goes down the clocks and looks each one that is enabled up in
the table `safe_clk`, with `sizeof` of the table as the number of its entries:
the look-up of a clock that is not there goes on behind the table. The driver of
`acc` then tries to switch clock 14 off, and keeps its result in the variable
that clocks 33 and 34 have set.

The scan also records which clocks it found enabled and which indices it read.
-/

namespace Lidbg.UnsafeClk

/-- `safe_clk`, and the words that follow it in memory. -/
structure ClkTable where
  entries : List Int
  behind : Nat → Int

def ClkTable.word (t : ClkTable) (j : Nat) : Int :=
  t.entries.getD j (t.behind j)

/-- `sizeof(safe_clk)`: an `int` has four bytes. -/
def ClkTable.sizeof (t : ClkTable) : Nat :=
  4 * t.entries.length

/-- The loop over `j`: whether the clock is in the table, and what was read. -/
def lookUp (t : ClkTable) (i : Int) : List Nat → Bool × List Nat
  | [] => (false, [])
  | j :: js =>
    if i = t.word j then (true, [j])
    else ((lookUp t i js).1, j :: (lookUp t i js).2)

def isSafe (t : ClkTable) (i : Int) : Bool × List Nat :=
  lookUp t i (List.range t.sizeof)

structure Scan where
  enabled : Nat → Bool
  ret : Bool
  mdpFlag : Bool
  found : List Nat
  reads : List Nat

/-- One turn of the loop over the clocks. -/
def scanClk (onUnsafe : Nat → Scan → Scan) (t : ClkTable) (i : Nat) (s : Scan) : Scan :=
  if s.enabled i then
    let s' := { s with found := s.found ++ [i], reads := s.reads ++ (isSafe t i).2 }
    if (isSafe t i).1 then s' else onUnsafe i s'
  else s

/-- The loop, from the highest clock down. -/
def scan (onUnsafe : Nat → Scan → Scan) (t : ClkTable) : Nat → Scan → Scan
  | 0, s => s
  | i + 1, s => scan onUnsafe t i (scanClk onUnsafe t i s)

def Scan.start (enabled : Nat → Bool) : Scan := ⟨enabled, false, false, [], []⟩

namespace Acc

def safeClk : List Int :=
  [113, 109, 106, 105, 104, 103, 102, 97, 95, 53, 51, 37, 32, 31, 24, 23, 22, 21, 20, 16, 15, 12,
    10, 8, 4, 3, 1]

/-- A clock that is not safe, of which three count. `mdp` is what
`SOC_Call_mdp_pipe_ctrl` does to the clocks. -/
def onUnsafe (mdp : (Nat → Bool) → Nat → Bool) (i : Nat) (s : Scan) : Scan :=
  if i = 14 ∨ i = 33 ∨ i = 34 then
    let s := { s with ret := true }
    if i = 14 then
      let s := { s with enabled := mdp s.enabled, mdpFlag := true }
      -- the result of clocks 33 and 34 is lost here
      if s.enabled i then s else { s with ret := false }
    else s
  else s

/-- `find_unsafe_clk`. -/
def findUnsafeClk (mdp : (Nat → Bool) → Nat → Bool) (behind : Nat → Int) (pNrClks : Nat)
    (enabled : Nat → Bool) : Scan :=
  scan (onUnsafe mdp) ⟨safeClk, behind⟩ pNrClks (.start enabled)

end Acc

namespace Fastboot

def safeClk : List Int :=
  [113, 105, 103, 102, 95, 51, 31, 20, 16, 15, 12, 10, 8, 4, 3, 1]

def onUnsafe (_i : Nat) (s : Scan) : Scan :=
  { s with ret := true }

/-- `find_unsafe_clk`. -/
def findUnsafeClk (behind : Nat → Int) (pNrClks : Nat) (enabled : Nat → Bool) : Scan :=
  scan onUnsafe ⟨safeClk, behind⟩ pNrClks (.start enabled)

end Fastboot

/-! ## What the look-up reads -/

theorem lookUp_append (t : ClkTable) (i : Int) (js ks : List Nat) :
    lookUp t i (js ++ ks) =
      if (lookUp t i js).1 then lookUp t i js
      else ((lookUp t i ks).1, js ++ (lookUp t i ks).2) := by
  induction js with
  | nil => rfl
  | cons j js ih =>
    rw [List.cons_append, lookUp, lookUp, ih]
    by_cases hj : i = t.word j
    · simp [hj]
    · simp only [if_neg hj]
      split_ifs <;> rfl

theorem lookUp_eq_true_iff (t : ClkTable) (i : Int) (js : List Nat) :
    (lookUp t i js).1 = true ↔ ∃ j ∈ js, i = t.word j := by
  induction js with
  | nil => simp [lookUp]
  | cons j js ih =>
    rw [lookUp]
    by_cases hj : i = t.word j
    · simp [hj]
    · simp [hj, ih]

theorem lookUp_reads_subset (t : ClkTable) (i : Int) (js : List Nat) :
    (lookUp t i js).2 ⊆ js := by
  induction js with
  | nil => exact List.Subset.refl []
  | cons j js ih =>
    rw [lookUp]
    split_ifs
    · simp
    · exact List.cons_subset_cons j ih

theorem word_of_lt {t : ClkTable} {j : Nat} (hj : j < t.entries.length) :
    t.word j = t.entries[j] :=
  List.getD_eq_getElem _ _ hj

/-- The entries themselves are looked at first. -/
theorem lookUp_entries (t : ClkTable) (i : Int) :
    (lookUp t i (List.range t.entries.length)).1 = true ↔ i ∈ t.entries := by
  rw [lookUp_eq_true_iff, List.mem_iff_getElem]
  constructor
  · rintro ⟨j, hj, hi⟩
    have hlt := List.mem_range.mp hj
    exact ⟨j, hlt, by rw [hi, word_of_lt hlt]⟩
  · rintro ⟨j, hlt, hi⟩
    exact ⟨j, List.mem_range.mpr hlt, by rw [← hi, word_of_lt hlt]⟩

theorem range_sizeof (t : ClkTable) :
    List.range t.sizeof = List.range t.entries.length ++
      (List.range (3 * t.entries.length)).map (t.entries.length + ·) := by
  rw [← List.range_add]
  congr 1
  unfold ClkTable.sizeof
  omega

/-- A clock of the table is found in it. -/
theorem isSafe_of_mem {t : ClkTable} {i : Int} (h : i ∈ t.entries) :
    (isSafe t i).1 = true ∧ ∀ j ∈ (isSafe t i).2, j < t.entries.length := by
  rw [isSafe, range_sizeof, lookUp_append, if_pos ((lookUp_entries t i).mpr h)]
  refine ⟨(lookUp_entries t i).mpr h, fun j hj => ?_⟩
  exact List.mem_range.mp (lookUp_reads_subset t i _ hj)

/-- For any other clock the word behind the table is read. -/
theorem isSafe_of_not_mem {t : ClkTable} (hne : t.entries ≠ []) {i : Int} (h : i ∉ t.entries) :
    t.entries.length ∈ (isSafe t i).2 := by
  have hpos : 0 < 3 * t.entries.length := by
    have := List.length_pos_of_ne_nil hne
    omega
  rw [isSafe, range_sizeof, lookUp_append,
    if_neg (fun hfound => h ((lookUp_entries t i).mp hfound))]
  obtain ⟨n, hn⟩ := Nat.exists_eq_add_one_of_ne_zero hpos.ne'
  rw [hn, List.range_succ_eq_map, List.map_cons, lookUp]
  split_ifs <;> simp

/-! ## What the scan reads -/

/-- All reads so far were in the table. -/
def InTable (t : ClkTable) (s : Scan) : Prop :=
  ∀ j ∈ s.reads, j < t.entries.length

section Reads

variable {t : ClkTable} {onUnsafe : Nat → Scan → Scan}

theorem scanClk_of_mem {i : Nat} {s : Scan} (h : (i : Int) ∈ t.entries)
    (hon : s.enabled i = true) :
    scanClk onUnsafe t i s =
      { s with found := s.found ++ [i], reads := s.reads ++ (isSafe t i).2 } := by
  rw [scanClk, if_pos hon, if_pos (isSafe_of_mem h).1]

theorem scanClk_of_disabled {i : Nat} {s : Scan} (hoff : ¬ s.enabled i = true) :
    scanClk onUnsafe t i s = s :=
  if_neg hoff

/-- A scan forgets no read. -/
theorem reads_subset_scan (hkeep : ∀ i s, (onUnsafe i s).reads = s.reads) (n : Nat) (s : Scan) :
    s.reads ⊆ (scan onUnsafe t n s).reads := by
  induction n generalizing s with
  | zero => exact List.Subset.refl _
  | succ i ih =>
    have hstep : s.reads ⊆ (scanClk onUnsafe t i s).reads := by
      rw [scanClk]
      split_ifs
      · exact List.subset_append_left _ _
      · rw [hkeep]
        exact List.subset_append_left _ _
      · exact List.Subset.refl _
    exact List.Subset.trans hstep (ih _)

/-- **The scan stays in the table** exactly if all clocks it finds are there.
Before it meets one that is not, it changes no clock. -/
theorem inTable_scan_iff (hkeep : ∀ i s, (onUnsafe i s).reads = s.reads) (hne : t.entries ≠ [])
    (n : Nat) (s : Scan) :
    InTable t (scan onUnsafe t n s) ↔
      InTable t s ∧ ∀ i < n, s.enabled i = true → (i : Int) ∈ t.entries := by
  induction n generalizing s with
  | zero => simp [scan]
  | succ i ih =>
    by_cases hon : s.enabled i = true
    · -- a clock of the table adds reads of the table, any other one behind it
      by_cases hmem : (i : Int) ∈ t.entries
      · have hreads : InTable t (scanClk onUnsafe t i s) ↔ InTable t s := by
          rw [scanClk_of_mem hmem hon]
          constructor
          · exact fun h j hj => h j (List.mem_append_left _ hj)
          · intro h j hj
            rcases List.mem_append.mp hj with hj | hj
            · exact h j hj
            · exact (isSafe_of_mem hmem).2 j hj
        rw [scan, ih, hreads, scanClk_of_mem hmem hon]
        simp only [Nat.lt_succ_iff_lt_or_eq, or_imp, forall_and, forall_eq]
        exact ⟨fun h => ⟨h.1, h.2, fun _ => hmem⟩, fun h => ⟨h.1, h.2.1⟩⟩
      · refine iff_of_false ?_ fun h => hmem (h.2 i (Nat.lt_succ_self i) hon)
        intro h
        have hread : t.entries.length ∈ (scanClk onUnsafe t i s).reads := by
          have hmiss := List.mem_append_right s.reads (isSafe_of_not_mem hne hmem)
          rw [scanClk, if_pos hon]
          split_ifs
          · exact hmiss
          · rw [hkeep]
            exact hmiss
        exact Nat.lt_irrefl _ (h _ (reads_subset_scan hkeep i _ hread))
    · rw [scan, scanClk_of_disabled hon, ih]
      simp only [Nat.lt_succ_iff_lt_or_eq, or_imp, forall_and, forall_eq]
      exact ⟨fun h => ⟨h.1, h.2, fun h => absurd h hon⟩, fun h => ⟨h.1, h.2.1⟩⟩

/-- A scan that finds clocks of the table only changes nothing else. -/
theorem scan_of_safe (onUnsafe : Nat → Scan → Scan) {n : Nat} {s : Scan}
    (hsafe : ∀ i < n, s.enabled i = true → (i : Int) ∈ t.entries) :
    ∃ found reads : List Nat, (∀ i ∈ found, (i : Int) ∈ t.entries) ∧
      scan onUnsafe t n s = { s with found := s.found ++ found, reads := s.reads ++ reads } := by
  induction n generalizing s with
  | zero => exact ⟨[], [], by simp, by simp [scan]⟩
  | succ i ih =>
    by_cases hon : s.enabled i = true
    · have hmem := hsafe i (Nat.lt_succ_self i) hon
      obtain ⟨found, reads, hfound, hscan⟩ :=
        ih (s := { s with found := s.found ++ [i], reads := s.reads ++ (isSafe t i).2 })
          fun k hk => hsafe k (Nat.lt_succ_of_lt hk)
      refine ⟨i :: found, (isSafe t i).2 ++ reads, ?_, ?_⟩
      · intro k hk
        rcases List.mem_cons.mp hk with rfl | hk
        · exact hmem
        · exact hfound k hk
      · rw [scan, scanClk_of_mem hmem hon, hscan]
        simp
    · rw [scan, scanClk_of_disabled hon]
      exact ih fun k hk => hsafe k (Nat.lt_succ_of_lt hk)

end Reads

namespace Acc

theorem not_mem_safeClk {i : Nat} (hi : i = 14 ∨ i = 33 ∨ i = 34) : (i : Int) ∉ safeClk := by
  rcases hi with rfl | rfl | rfl <;> decide

theorem onUnsafe_reads (mdp : (Nat → Bool) → Nat → Bool) (i : Nat) (s : Scan) :
    (onUnsafe mdp i s).reads = s.reads := by
  unfold onUnsafe
  dsimp only
  split_ifs <;> rfl

/-- The result says whether one of the three clocks that was found on still is. -/
def ReturnsRight (s : Scan) : Prop :=
  s.ret = true ↔ ∃ i, (i = 14 ∨ i = 33 ∨ i = 34) ∧ i ∈ s.found ∧ s.enabled i = true

/-- What the scan is for: it reads the table only, and its result is right. -/
def Detects (behind : Nat → Int) (s : Scan) : Prop :=
  InTable ⟨safeClk, behind⟩ s ∧ ReturnsRight s

/-- **Detection** is as it should be exactly if there is nothing to detect: the
clocks that are on are safe. -/
theorem detects_iff (mdp : (Nat → Bool) → Nat → Bool) (behind : Nat → Int) (pNrClks : Nat)
    (enabled : Nat → Bool) :
    Detects behind (findUnsafeClk mdp behind pNrClks enabled) ↔
      ∀ i < pNrClks, enabled i = true → (i : Int) ∈ safeClk := by
  have hreads : InTable ⟨safeClk, behind⟩ (findUnsafeClk mdp behind pNrClks enabled) ↔
      ∀ i < pNrClks, enabled i = true → (i : Int) ∈ safeClk := by
    rw [findUnsafeClk, inTable_scan_iff (onUnsafe_reads mdp) (by simp [safeClk])]
    exact and_iff_right fun j hj => nomatch hj
  refine ⟨fun h => hreads.mp h.1, fun hsafe => ⟨hreads.mpr hsafe, ?_⟩⟩
  obtain ⟨found, reads, hfound, hscan⟩ :=
    scan_of_safe (t := ⟨safeClk, behind⟩) (onUnsafe mdp) (s := .start enabled) hsafe
  rw [findUnsafeClk, hscan]
  refine iff_of_false Bool.false_ne_true ?_
  rintro ⟨i, hi, hmem, -⟩
  exact not_mem_safeClk hi (hfound i (by simpa [Scan.start] using hmem))

/-! ### What is returned

Whatever stands behind the table, unless it is one of the three clocks. -/

section Result

variable (mdp : (Nat → Bool) → Nat → Bool) {behind : Nat → Int}
  (hbehind : ∀ j, behind j ≠ 14 ∧ behind j ≠ 33 ∧ behind j ≠ 34)
include hbehind

theorem isSafe_eq_false {i : Nat} (hi : i = 14 ∨ i = 33 ∨ i = 34) :
    (isSafe ⟨safeClk, behind⟩ i).1 = false := by
  rw [Bool.eq_false_iff]
  intro hfound
  obtain ⟨j, -, hj⟩ := (lookUp_eq_true_iff _ _ _).mp hfound
  by_cases hlt : j < safeClk.length
  · rw [word_of_lt hlt] at hj
    exact not_mem_safeClk hi (hj ▸ List.getElem_mem hlt)
  · have hword : (ClkTable.mk safeClk behind).word j = behind j :=
      List.getD_eq_default _ _ (Nat.not_lt.mp hlt)
    obtain ⟨h14, h33, h34⟩ := hbehind j
    rw [hword] at hj
    rcases hi with rfl | rfl | rfl
    · exact h14 hj.symm
    · exact h33 hj.symm
    · exact h34 hj.symm

/-- One turn: clock 14 sets the result anew, clocks 33 and 34 add to it. -/
theorem scanClk_spec (i : Nat) (s : Scan) :
    (scanClk (onUnsafe mdp) ⟨safeClk, behind⟩ i s).found =
      (if s.enabled i then s.found ++ [i] else s.found) ∧
    (scanClk (onUnsafe mdp) ⟨safeClk, behind⟩ i s).enabled =
      (if i = 14 ∧ s.enabled 14 then mdp s.enabled else s.enabled) ∧
    (scanClk (onUnsafe mdp) ⟨safeClk, behind⟩ i s).ret =
      (if i = 14 ∧ s.enabled 14 then mdp s.enabled 14
        else s.ret || (decide (i = 33 ∨ i = 34) && s.enabled i)) := by
  by_cases hon : s.enabled i = true
  · by_cases hi : i = 14 ∨ i = 33 ∨ i = 34
    · have hnotSafe := isSafe_eq_false hbehind hi
      rw [scanClk, if_pos hon, if_neg (by simp [hnotSafe]), onUnsafe, if_pos hi]
      rcases hi with rfl | rfl | rfl
      · by_cases hoff : mdp s.enabled 14 = true
        · simp [hon, hoff]
        · simp [hon, hoff]
      · simp [hon]
      · simp [hon]
    · rw [not_or, not_or] at hi
      obtain ⟨h14, h33, h34⟩ := hi
      by_cases hsafe : (isSafe ⟨safeClk, behind⟩ i).1 = true
      · rw [scanClk, if_pos hon, if_pos hsafe]
        simp [hon, h14, h33, h34]
      · rw [scanClk, if_pos hon, if_neg hsafe]
        simp [onUnsafe, hon, h14, h33, h34]
  · rw [scanClk_of_disabled hon]
    by_cases h14 : i = 14
    · subst h14
      simp [hon]
    · simp [hon, h14]

theorem scan_spec (n : Nat) (s : Scan) :
    (∀ i, i = 14 ∨ i = 33 ∨ i = 34 →
      (i ∈ (scan (onUnsafe mdp) ⟨safeClk, behind⟩ n s).found ↔
        i ∈ s.found ∨ i < n ∧ s.enabled i = true)) ∧
    (scan (onUnsafe mdp) ⟨safeClk, behind⟩ n s).enabled =
      (if 14 < n ∧ s.enabled 14 then mdp s.enabled else s.enabled) ∧
    (scan (onUnsafe mdp) ⟨safeClk, behind⟩ n s).ret =
      (if 14 < n ∧ s.enabled 14 then mdp s.enabled 14
        else s.ret || (decide (33 < n) && s.enabled 33) || (decide (34 < n) && s.enabled 34)) := by
  induction n generalizing s with
  | zero => simp [scan]
  | succ k ih =>
    obtain ⟨hfound, henabled, hret⟩ := scanClk_spec mdp hbehind k s
    obtain ⟨ihfound, ihenabled, ihret⟩ := ih (scanClk (onUnsafe mdp) ⟨safeClk, behind⟩ k s)
    rw [scan]
    refine ⟨?_, ?_, ?_⟩
    · intro i hi
      rw [ihfound i hi, hfound, henabled]
      by_cases hk : k = 14 ∧ s.enabled 14 = true
      · -- behind clock 14 none of the three is left
        have hge : ¬ i < k := by omega
        rw [if_pos hk]
        obtain ⟨rfl, hon⟩ := hk
        rw [if_pos hon]
        rcases hi with rfl | rfl | rfl <;> simp [hon]
      · rw [if_neg hk]
        by_cases heq : i = k
        · subst heq
          by_cases hon : s.enabled i = true
          · simp [hon]
          · simp [hon]
        · have hlt : i < k + 1 ↔ i < k := by omega
          rw [hlt]
          by_cases hon : s.enabled k = true
          · simp [hon, heq]
          · simp [hon]
    · -- the clocks change at 14 only
      rw [ihenabled, henabled]
      by_cases hk : k = 14
      · subst hk
        simp
      · have hlt : 14 < k + 1 ↔ 14 < k := by omega
        simp [hk, hlt]
    · -- the result: what 14 leaves goes over all that was found above it
      rw [ihret, henabled, hret]
      by_cases hk : k = 14
      · subst hk
        by_cases hon : s.enabled 14 = true
        · simp [hon]
        · simp [hon]
      · have hlt : 14 < k + 1 ↔ 14 < k := by omega
        simp only [hk, false_and, if_false, hlt]
        by_cases h33 : k = 33
        · subst h33
          simp
        · by_cases h34 : k = 34
          · subst h34
            simp [Bool.or_right_comm]
          · have hlt33 : 33 < k + 1 ↔ 33 < k := by omega
            have hlt34 : 34 < k + 1 ↔ 34 < k := by omega
            simp [h33, h34, hlt33, hlt34]

/-- The result is wrong exactly if clock 14 was switched off, and clock 33 or 34
was on and is. -/
theorem returnsRight_iff {pNrClks : Nat} (hall : 34 < pNrClks) (enabled : Nat → Bool) :
    ReturnsRight (findUnsafeClk mdp behind pNrClks enabled) ↔
      ¬ (enabled 14 = true ∧ mdp enabled 14 = false ∧
        (enabled 33 = true ∧ mdp enabled 33 = true ∨
          enabled 34 = true ∧ mdp enabled 34 = true)) := by
  obtain ⟨hfound, henabled, hret⟩ := scan_spec mdp hbehind pNrClks (.start enabled)
  have h14 : 14 < pNrClks := by omega
  have h33 : 33 < pNrClks := by omega
  have hex : ∀ P : Nat → Prop, (∃ i, (i = 14 ∨ i = 33 ∨ i = 34) ∧ P i) ↔ P 14 ∨ P 33 ∨ P 34 := by
    intro P
    constructor
    · rintro ⟨i, rfl | rfl | rfl, h⟩
      · exact .inl h
      · exact .inr (.inl h)
      · exact .inr (.inr h)
    · rintro (h | h | h)
      · exact ⟨14, by simp, h⟩
      · exact ⟨33, by simp, h⟩
      · exact ⟨34, by simp, h⟩
  unfold ReturnsRight findUnsafeClk
  rw [hex, hfound 14 (by simp), hfound 33 (by simp), hfound 34 (by simp), henabled, hret]
  simp only [Scan.start, List.not_mem_nil, false_or, h14, h33, hall, true_and, decide_true,
    Bool.true_and, Bool.false_or]
  by_cases hon : enabled 14 = true
  · by_cases hstill : mdp enabled 14 = true
    · simp [hon, hstill, h14]
    · simp [hon, hstill, h14]
  · simp [hon]

end Result

/-- Clocks 14 and 33 are on, and the call switches 14 off: the word behind the
table is read, and the clock that is still on is not reported. -/
theorem findUnsafeClk_misses :
    ¬ InTable ⟨safeClk, fun _ => 0⟩ (findUnsafeClk (fun on i => on i && i != 14) (fun _ => 0) 114
      fun i => i == 14 || i == 33) ∧
    ¬ ReturnsRight (findUnsafeClk (fun on i => on i && i != 14) (fun _ => 0) 114
      fun i => i == 14 || i == 33) := by
  refine ⟨fun h => ?_, fun h => ?_⟩
  · have hscan := (inTable_scan_iff (onUnsafe_reads fun on i => on i && i != 14)
      (t := ⟨safeClk, fun _ => 0⟩) (by simp [safeClk]) 114
        (.start fun i => i == 14 || i == 33)).mp h
    have hmem := hscan.2 14 (by decide) rfl
    revert hmem
    decide
  · have hright := (returnsRight_iff (fun on i => on i && i != 14) (fun _ => by decide) (by decide)
      (fun i => i == 14 || i == 33)).mp h
    exact hright (by decide)

end Acc

namespace Fastboot

theorem onUnsafe_reads (i : Nat) (s : Scan) : (onUnsafe i s).reads = s.reads := rfl

/-- The other driver's scan leaves its table in the same way. -/
theorem inTable_iff (behind : Nat → Int) (pNrClks : Nat) (enabled : Nat → Bool) :
    InTable ⟨safeClk, behind⟩ (findUnsafeClk behind pNrClks enabled) ↔
      ∀ i < pNrClks, enabled i = true → (i : Int) ∈ safeClk := by
  rw [findUnsafeClk, inTable_scan_iff onUnsafe_reads (by simp [safeClk])]
  exact and_iff_right fun j hj => nomatch hj

end Fastboot

end Lidbg.UnsafeClk
