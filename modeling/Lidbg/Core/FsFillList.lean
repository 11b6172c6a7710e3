import Lidbg.Machine.StrAt
import Mathlib.Algebra.Group.Nat.Defs

/-!
# Loading a list (`core/lidbg_fs_keyvalue.c`)

`bfs_fill_list` reads a file into memory of its own and cuts it there into lines. Each line
that counts becomes an entry at the head of the list, whose key is a pointer to it. In
configuration mode the keys are then cut at their first `=`, and the values are pointers to
what stands behind it.

`bfsFillList_config`: the list is that of the file's lines, keys and values, the last line
first.
-/

namespace Lidbg.FsFillList

open Machine

/-! ## The code -/

/-- `enum string_dev_cmd`, of a file. -/
inductive FileCmd where
  | configmode
  | listmode

/-- `struct string_dev`: the pointers of the key/value part, which `kzalloc` clears. -/
structure StringDev where
  yourkey : Nat
  yourvalue : Option Nat

/-- What the system does in one call: the memory that `kmalloc` gives, and how many bytes
`read` can get. -/
structure FillIo where
  memory : Option (Nat → UInt8)
  readLen : Nat

/-- `file_len`, an `unsigned int`, with the byte for the NUL. -/
def fileLen (content : List UInt8) : Nat := (content.length + 1) % 2 ^ 32

/-- What `read` stores. -/
def FillIo.got (io : FillIo) (content : List UInt8) : List UInt8 :=
  content.take (min io.readLen (fileLen content))

/-- What it returns, as the `int` that takes it. -/
def FillIo.readRet (io : FillIo) (content : List UInt8) : Int32 :=
  Int32.ofNat (io.got content).length

/-- The first characters of lines that count. -/
def keeps (c : UInt8) : Bool :=
  c ≠ 35 && c ≠ 10 && c ≠ 18 && c ≠ 13 && c ≠ 0 && c ≠ 10

/-- The body of the loop; `none` is a token past the end of the buffer. -/
def fillToken (clientList : List StringDev) (mem : List UInt8) (token : Nat) :
    Option (List StringDev) :=
  match mem[token]? with
  | none => none
  | some c => some (if keeps c then ⟨token, none⟩ :: clientList else clientList)

/-- `FS_CMD_LIST_SPLITKV`. -/
def splitKv : List UInt8 → List StringDev → Option (List UInt8 × List StringDev)
  | mem, [] => some (mem, [])
  | mem, pos :: rest => do
    let (mem, p) ← cutStrAt 61 mem pos.yourkey
    let (mem, rest) ← splitKv mem rest
    some (mem, { pos with yourvalue := p.or pos.yourvalue } :: rest)

/-- `bfs_fill_list`, with what it returns; its buffer comes behind the memory there is. -/
def bfsFillList (file : Option (List UInt8)) (io : FillIo) (cmd : FileCmd) (mem : List UInt8)
    (clientList : List StringDev) : Option (List UInt8 × List StringDev × Int32) :=
  match file, io.memory with
  | none, _ => some (mem, clientList, -1)
  | some _, none => some (mem, clientList, -1)
  | some content, some memory => do
    let filePtr ← storeBytes ((List.range (fileLen content)).map memory) (io.got content)
    if (io.readRet content).toInt ≤ 0 then some (mem ++ filePtr, clientList, -1)
    else
      let filePtr ← storeByte filePtr (fileLen content - 1) 0
      let (mem, clientList) ←
        strsepEachAt 10 fillToken filePtr.length (mem ++ filePtr) (some mem.length) clientList
      match cmd with
      | .configmode => (splitKv mem clientList).map fun r => (r.1, r.2, 1)
      | .listmode => some (mem, clientList, 1)

/-- `fs_fill_list`. -/
def fsFillList (file : Option (List UInt8)) (io : FillIo) (cmd : FileCmd) (mem : List UInt8)
    (clientList : List StringDev) : Option (List UInt8 × List StringDev × Int32) :=
  if clientList = [] then bfsFillList file io cmd mem clientList
  else some (mem, clientList, -1)

/-! ## What is to be loaded -/

/-- A line counts if it is not empty and does not start with one of these. -/
def Counts (line : List UInt8) : Bool :=
  match line.head? with
  | none => false
  | some c => c ∉ [35, 13, 10, 18]

/-- The text before the first `=` and that behind it. -/
def keyAndValue (line : List UInt8) : List UInt8 × Option (List UInt8) :=
  match cutAt 61 line with
  | some (key, value) => (key, some value)
  | none => (line, none)

/-- The strings of an entry. -/
def readEntry (mem : List UInt8) (pos : StringDev) :
    Option (List UInt8 × Option (List UInt8)) :=
  match pos.yourvalue with
  | none => (loadStr (mem.drop pos.yourkey)).map fun key => (key, none)
  | some p => do
    let key ← loadStr (mem.drop pos.yourkey)
    let value ← loadStr (mem.drop p)
    some (key, some value)

/-! ## The lines -/

theorem fillToken_eq {mem piece : List UInt8} {token : Nat} (h : StrAt mem token piece)
    (clientList : List StringDev) :
    fillToken clientList mem token =
      some (if Counts piece then ⟨token, none⟩ :: clientList else clientList) := by
  obtain ⟨rest, hrest⟩ := h.mem_eq
  have hget : mem[token]? = (piece ++ 0 :: rest).head? := by
    rw [← hrest, List.head?_drop]
  cases piece with
  | nil =>
    rw [fillToken, hget]
    rfl
  | cons c piece =>
    have hc : c ≠ 0 := fun h0 => h.nul_notMem (h0 ▸ List.mem_cons_self)
    have hkeeps : keeps c = Counts (c :: piece) := by
      rw [keeps, Counts, List.head?_cons]
      simp only [hc, ne_eq, not_false_eq_true, decide_true, Bool.and_true]
      grind
    rw [fillToken, hget, List.cons_append, List.head?_cons, ← hkeeps]

/-- The entries are those of the lines that count, the last line first. -/
theorem foldlM_fillToken (l : List (Nat × List UInt8)) (clientList : List StringDev) :
    l.foldlM (fun clientList p =>
        some (if Counts p.2 then StringDev.mk p.1 none :: clientList else clientList))
        clientList =
      some (((l.filter fun p => Counts p.2).map fun p => StringDev.mk p.1 none).reverse ++
        clientList) := by
  induction l generalizing clientList with
  | nil => rfl
  | cons p l ih =>
    rw [List.foldlM_cons, Option.bind_eq_bind, Option.bind_some, ih, List.filter_cons]
    split_ifs
    · rw [List.map_cons, List.reverse_cons, List.append_assoc, List.singleton_append]
    · rfl

/-! ## Keys and values -/

theorem readEntry_key {mem key : List UInt8} {pos : Nat} (h : StrAt mem pos key) :
    readEntry mem ⟨pos, none⟩ = some (key, none) := by
  rw [readEntry, h.loadStr]
  rfl

theorem readEntry_value {mem key value : List UInt8} {pos p : Nat} (hkey : StrAt mem pos key)
    (hvalue : StrAt mem p value) : readEntry mem ⟨pos, some p⟩ = some (key, some value) := by
  rw [readEntry]
  dsimp only
  rw [hkey.loadStr, hvalue.loadStr]
  rfl

theorem cutAt_of_notMem {c : UInt8} {s : List UInt8} (hc : c ∉ s) : cutAt c s = none := by
  induction s with
  | nil => rfl
  | cons b s ih =>
    rw [List.mem_cons, not_or] at hc
    rw [cutAt, if_neg (Ne.symm hc.1), ih hc.2]
    rfl

/-- **`SPLITKV`** on keys that stand apart: every entry has its line's key and value then,
and what stands apart from all of them stays. -/
theorem splitKv_spec {l : List (Nat × List UInt8)} {mem : List UInt8}
    (hstr : ∀ p ∈ l, StrAt mem p.1 p.2) (hapart : l.Pairwise Apart) :
    ∃ mem' entries, splitKv mem (l.map fun p => ⟨p.1, none⟩) = some (mem', entries) ∧
      entries.map (readEntry mem') = l.map (fun p => some (keyAndValue p.2)) ∧
      ∀ q, StrAt mem q.1 q.2 → (∀ p ∈ l, Apart q p) → StrAt mem' q.1 q.2 := by
  induction l generalizing mem with
  | nil => exact ⟨mem, [], rfl, rfl, fun q hq _ => hq⟩
  | cons p l ih =>
    rw [List.forall_mem_cons] at hstr
    obtain ⟨hp, hstr⟩ := hstr
    rw [List.pairwise_cons] at hapart
    obtain ⟨hpl, hapart⟩ := hapart
    by_cases heq : 61 ∈ p.2
    · obtain ⟨key, value, hline, hkey⟩ := List.eq_append_cons_of_mem heq
      rw [hline] at hp
      have hend : p.1 + p.2.length = p.1 + key.length + 1 + value.length := by
        rw [hline, List.length_append, List.length_cons]
        omega
      -- the NUL is stored in the line's own string
      have hset : ∀ q, StrAt mem q.1 q.2 → Apart q p →
          StrAt (mem.set (p.1 + key.length) 0) q.1 q.2 := by
        intro q hq hqp
        refine hq.set ?_ 0
        rcases hqp with hqp | hqp <;> omega
      obtain ⟨mem', entries, hsplit, hread, hkeep⟩ :=
        ih (fun q hq => hset q (hstr q hq) (hpl q hq).symm) hapart
      have hcut : StrAt mem' p.1 key :=
        hkeep (p.1, key) hp.cut fun q hq => by
          rcases hpl q hq with hpq | hpq
          · exact .inl (by dsimp only; omega)
          · exact .inr hpq
      have hbehind : StrAt mem' (p.1 + key.length + 1) value := by
        rw [List.append_cons] at hp
        have htail := hp.tail
        rw [List.length_append, List.length_singleton, ← Nat.add_assoc] at htail
        refine hkeep (p.1 + key.length + 1, value) (htail.set (.inl (Nat.lt_succ_self _)) 0)
          fun q hq => ?_
        rcases hpl q hq with hpq | hpq
        · exact .inl (by dsimp only; omega)
        · exact .inr (by dsimp only; omega)
      refine ⟨mem', ⟨p.1, some (p.1 + key.length + 1)⟩ :: entries, ?_, ?_, fun q hq hqp => ?_⟩
      · rw [List.map_cons, splitKv, hp.cutStrAt_append hkey, Option.bind_eq_bind,
          Option.bind_some]
        dsimp only
        rw [hsplit]
        rfl
      · rw [List.map_cons, List.map_cons, hread, readEntry_value hcut hbehind, keyAndValue, hline,
          cutAt_append hkey]
      · rw [List.forall_mem_cons] at hqp
        exact hkeep q (hset q hq hqp.1) hqp.2
    · obtain ⟨mem', entries, hsplit, hread, hkeep⟩ := ih hstr hapart
      refine ⟨mem', ⟨p.1, none⟩ :: entries, ?_, ?_, fun q hq hqp => ?_⟩
      · rw [List.map_cons, splitKv, hp.cutStrAt_of_notMem heq, Option.bind_eq_bind,
          Option.bind_some]
        dsimp only
        rw [hsplit]
        rfl
      · rw [List.map_cons, List.map_cons, hread, readEntry_key (hkeep p hp hpl), keyAndValue,
          cutAt_of_notMem heq]
      · rw [List.forall_mem_cons] at hqp
        exact hkeep q hq hqp.2

/-! ## The list -/

/-- A whole read: its length comes back as the `int` it is. -/
theorem got_of_readRet {text : List UInt8} {io : FillIo}
    (hread : (io.readRet text).toInt = text.length) :
    io.got text = text ∧ fileLen text = text.length + 1 := by
  have hlen : (io.got text).length = min (min io.readLen (fileLen text)) text.length :=
    List.length_take
  have hlt : fileLen text < 2 ^ 32 := Nat.mod_lt _ (Nat.two_pow_pos 32)
  have hsize : Int32.size = 4294967296 := rfl
  rw [FillIo.readRet, Int32.toInt_ofNat', hsize, Int.bmod_def] at hread
  have hgot : (io.got text).length = text.length := by
    split at hread <;> omega
  refine ⟨?_, ?_⟩
  · rw [FillIo.got, List.take_of_length_le (by omega)]
  · rw [fileLen] at hlen hlt ⊢
    split at hread <;> omega

/-- The loop over the lines, with the list that it leaves. -/
theorem strsepEachAt_fillToken {text : List UInt8} (htext : 0 ∉ text) (mem : List UInt8) :
    strsepEachAt 10 fillToken (text ++ [0]).length (mem ++ (text ++ [0])) (some mem.length) [] =
      some (mem ++ withNuls (text.splitOn 10),
        (((placed mem.length (text.splitOn 10)).filter fun p => Counts p.2).reverse.map
          fun p => ⟨p.1, none⟩)) := by
  have hfuel : text.length < (text ++ [0]).length := by
    rw [List.length_append]
    exact Nat.lt_succ_self _
  rw [strsepEachAt_eq (f := fun s p =>
      some (if Counts p.2 then StringDev.mk p.1 none :: s else s)) (by decide)
      (fun s mem pos piece h => fillToken_eq h s) htext mem [] hfuel, foldlM_fillToken,
    Option.map_some, List.append_nil, List.append_nil, List.map_reverse]

/-- An empty file is one that nothing is read from. -/
theorem bfsFillList_nil {io : FillIo} (hmemory : io.memory.isSome) (cmd : FileCmd)
    (mem : List UInt8) (clientList : List StringDev) :
    ∃ mem', bfsFillList (some []) io cmd mem clientList = some (mem', clientList, -1) := by
  obtain ⟨memory, hmemory⟩ := Option.isSome_iff_exists.mp hmemory
  have hgot : io.got [] = [] := List.take_nil
  have hread : (io.readRet []).toInt ≤ 0 := by
    rw [FillIo.readRet, hgot]
    decide
  unfold bfsFillList
  rw [hmemory]
  dsimp only
  rw [hgot]
  exact ⟨_, if_pos hread⟩

/-- The keys are split where the loop over the lines has left them. -/
theorem bfsFillList_eq {text : List UInt8} (hne : text ≠ []) (htext : 0 ∉ text) {io : FillIo}
    (hmemory : io.memory.isSome) (hread : (io.readRet text).toInt = text.length)
    (mem : List UInt8) :
    bfsFillList (some text) io .configmode mem [] =
      (splitKv (mem ++ withNuls (text.splitOn 10))
        (((placed mem.length (text.splitOn 10)).filter fun p => Counts p.2).reverse.map
          fun p => ⟨p.1, none⟩)).map fun r => (r.1, r.2, 1) := by
  obtain ⟨memory, hmemory⟩ := Option.isSome_iff_exists.mp hmemory
  obtain ⟨hgot, hlen⟩ := got_of_readRet hread
  have hlength : ((List.range (text.length + 1)).map memory).length = text.length + 1 := by
    rw [List.length_map, List.length_range]
  obtain ⟨filePtr, hstore, hlast⟩ := storeBytes_nul hlength
  have hpos : ¬ (text.length : Int) ≤ 0 := by
    have := List.length_pos_iff.mpr hne
    omega
  unfold bfsFillList
  rw [hmemory]
  dsimp only
  rw [hlen, hgot, hstore, Option.bind_eq_bind, Option.bind_some, hread, if_neg hpos,
    Nat.add_sub_cancel, hlast, Option.bind_some, strsepEachAt_fillToken htext,
    Option.bind_eq_bind, Option.bind_some]

/-- **A file is loaded**: the list holds keys and values of the lines that count, the last
line first, and nothing else. -/
theorem bfsFillList_config {text : List UInt8} (htext : 0 ∉ text) {io : FillIo}
    (hmemory : io.memory.isSome) (hread : (io.readRet text).toInt = text.length)
    (mem : List UInt8) :
    ∃ mem' clientList ret,
      bfsFillList (some text) io .configmode mem [] = some (mem', clientList, ret) ∧
      clientList.map (readEntry mem') =
        ((text.splitOn 10).filter Counts).reverse.map fun line => some (keyAndValue line) := by
  by_cases hne : text = []
  · subst hne
    obtain ⟨mem', hnil⟩ := bfsFillList_nil hmemory .configmode mem []
    exact ⟨mem', [], -1, hnil, rfl⟩
  have hstr : ∀ p ∈ ((placed mem.length (text.splitOn 10)).filter fun p => Counts p.2).reverse,
      StrAt (mem ++ withNuls (text.splitOn 10)) p.1 p.2 := by
    intro p hp
    rw [List.mem_reverse] at hp
    have hnul : ∀ piece ∈ text.splitOn 10, 0 ∉ piece := fun piece hpiece h =>
      htext (mem_of_mem_splitOn hpiece h)
    have hstr := strAt_of_mem_placed hnul mem [] (List.mem_of_mem_filter hp)
    rwa [List.append_nil] at hstr
  have hapart : ((placed mem.length (text.splitOn 10)).filter
      fun p => Counts p.2).reverse.Pairwise Apart := by
    rw [List.pairwise_reverse]
    exact ((pairwise_placed _ _).filter _).imp Apart.symm
  obtain ⟨mem', clientList, hsplit, hentries, -⟩ := splitKv_spec hstr hapart
  refine ⟨mem', clientList, 1, ?_, ?_⟩
  · rw [bfsFillList_eq hne htext hmemory hread, hsplit]
    rfl
  · rw [hentries]
    conv_rhs => rw [← map_snd_placed mem.length (text.splitOn 10)]
    rw [List.filter_map, ← List.map_reverse, List.map_map]
    rfl

/-- A comment, a line without a value and an empty one. -/
theorem bfsFillList_config_lines :
    ∃ mem' clientList ret,
      bfsFillList (some (ascii "a=1\n#x\n\nb")) ⟨some fun _ => 0, 4096⟩ .configmode [] [] =
        some (mem', clientList, ret) ∧
      clientList.map (readEntry mem') =
        (((ascii "a=1\n#x\n\nb").splitOn 10).filter Counts).reverse.map
          fun line => some (keyAndValue line) :=
  bfsFillList_config (by decide) (by decide) (by decide) []

end Lidbg.FsFillList
