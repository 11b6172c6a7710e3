import Lidbg.Hal.ClientMobile
import Mathlib.Logic.Function.Basic

/-!
# The log upload server (`host/server_pc/server_pc.c`)

The server takes the first `recv` for the directory's name, the second for the
file's name and appends all others to the file. TCP keeps no boundaries: a
`recv` returns as much of the stream as has arrived, up to what was asked for.

`stores_iff`: an upload ends in the right file exactly when the first two calls
return a whole block each, the names fit the arrays they are printed into, the
client's messages included, and the file opens and is empty.
-/

namespace Lidbg.ServerPc

open Machine ClientMobile

/-- `FILE_NAME_MAX_SIZE`. -/
abbrev fileNameMaxSize : Nat := 512

def historyDir : List UInt8 := ascii "/data/lidbg_upload_history/"

/-- The host the server runs on: its files, and whether a file can be opened
for appending once the shell has run a command. The command makes a directory
and touches no file. -/
structure Host where
  files : List UInt8 → Option (List UInt8)
  opens : List UInt8 → List UInt8 → Bool

/-- `while((length = recv(...)) > 0) fwrite(...)`, from the content of the
file. -/
def receiveLoop (fp : List UInt8) : List (List UInt8) → List UInt8
  | [] => fp
  | buffer :: recvs => receiveLoop (fp ++ buffer) recvs

/-- The directory and the path of the file for the two names received. -/
def printPaths (dirname filename : List UInt8) : Option (List UInt8 × List UInt8) := do
  let command ← sprintf bufferSize (ascii "mkdir " ++ historyDir ++ dirname)
  let buffer ← sprintf bufferSize (historyDir ++ dirname)
  let fileName ← sprintf (fileNameMaxSize + 1) (buffer ++ ascii "/" ++ filename)
  some (command, fileName)

/-- One connection: what the `recv` calls return, up to the end of the stream.
`none` if an array is overrun, or the file cannot be opened and the server
exits. -/
def serve (host : Host) (recvs : List (List UInt8)) :
    Option (List UInt8 → Option (List UInt8)) := do
  let dirname ← zeroedStr bufferSize (recvs.headD [])
  let filename ← zeroedStr bufferSize (recvs.tail.headD [])
  let (command, fileName) ← printPaths dirname filename
  if host.opens command fileName then
    some (Function.update host.files fileName
      (some (receiveLoop ((host.files fileName).getD []) recvs.tail.tail)))
  else none

/-! ## An upload -/

/-- A stream cut into the results of `recv` calls. -/
structure Segments (stream : List UInt8) (recvs : List (List UInt8)) : Prop where
  flatten : recvs.flatten = stream
  size : ∀ r ∈ recvs, 1 ≤ r.length ∧ r.length ≤ bufferSize

/-- Where the file of an upload belongs. -/
def uploadPath (gFileInformation fileName : CStr) : List UInt8 :=
  historyDir ++ gFileInformation.chars ++ ascii "/" ++ fileName.chars

/-- The command that makes its directory. -/
def mkdirCommand (gFileInformation : CStr) : List UInt8 :=
  ascii "mkdir " ++ historyDir ++ gFileInformation.chars

/-- The upload succeeds: the client sends, and after the connection the host has
the file, and its other files as before. -/
def Stores (host : Host) (gFileInformation dirName fileName : CStr) (content : List UInt8)
    (recvs : List (List UInt8)) : Prop :=
  (sendFileToServer gFileInformation dirName fileName (some content)).isSome ∧
    serve host recvs =
      some (Function.update host.files (uploadPath gFileInformation fileName) (some content))

theorem receiveLoop_eq (fp : List UInt8) (recvs : List (List UInt8)) :
    receiveLoop fp recvs = fp ++ recvs.flatten := by
  induction recvs generalizing fp with
  | nil => rw [receiveLoop, List.flatten_nil, List.append_nil]
  | cons buffer recvs ih => rw [receiveLoop, ih, List.flatten_cons, List.append_assoc]

/-- There are two segments, and a third part. -/
theorem Segments.split {stream : List UInt8} {recvs : List (List UInt8)}
    (h : Segments stream recvs) (hlen : 2 * bufferSize ≤ stream.length) :
    ∃ a b rest, recvs = a :: b :: rest ∧ a.length ≤ bufferSize ∧ b.length ≤ bufferSize ∧
      a ++ (b ++ rest.flatten) = stream := by
  have hflat := h.flatten
  have hpos : bufferSize = 1024 := rfl
  rcases recvs with _ | ⟨a, _ | ⟨b, rest⟩⟩
  · rw [← hflat, List.flatten_nil, List.length_nil] at hlen
    omega
  · have ha := (h.size a List.mem_cons_self).2
    rw [← hflat, List.flatten_cons, List.flatten_nil, List.append_nil] at hlen
    omega
  · refine ⟨a, b, rest, rfl, (h.size a List.mem_cons_self).2,
      (h.size b (List.mem_cons_of_mem a List.mem_cons_self)).2, ?_⟩
    rw [← hflat, List.flatten_cons, List.flatten_cons]

/-- A whole block is read back as the name. -/
theorem zeroedStr_nameBlock {name : CStr} (h : name.chars.length < bufferSize) :
    zeroedStr bufferSize (nameBlock name) = some name.chars := by
  have hmem : (0 : UInt8) ∈ nameBlock name := by
    rw [nameBlock_of_lt h]
    exact List.mem_append_right _ List.mem_cons_self
  rw [zeroedStr, length_nameBlock, Nat.sub_self, List.replicate_zero, List.append_nil, if_pos hmem,
    nameBlock_of_lt h, cstr_append_nul name.nul_notMem]

/-- The paths fit exactly when the longer one does. -/
theorem printPaths_eq_some {gFileInformation fileName : CStr} {r : List UInt8 × List UInt8} :
    printPaths gFileInformation.chars fileName.chars = some r ↔
      (uploadPath gFileInformation fileName).length ≤ fileNameMaxSize ∧
        r = (mkdirCommand gFileInformation, uploadPath gFileInformation fileName) := by
  constructor
  · intro h
    obtain ⟨command, hcommand, h⟩ := Option.bind_eq_some_iff.mp h
    obtain ⟨buffer, hbuffer, h⟩ := Option.bind_eq_some_iff.mp h
    obtain ⟨path, hpath, h⟩ := Option.bind_eq_some_iff.mp h
    obtain ⟨-, rfl⟩ := sprintf_eq_some.mp hcommand
    obtain ⟨-, rfl⟩ := sprintf_eq_some.mp hbuffer
    obtain ⟨hfit, rfl⟩ := sprintf_eq_some.mp hpath
    exact ⟨Nat.le_of_lt_succ hfit, (Option.some.inj h).symm⟩
  · rintro ⟨hfit, rfl⟩
    have hdir : historyDir.length = 27 := by decide
    have hmk : (ascii "mkdir ").length = 6 := by decide
    have h1024 : bufferSize = 1024 := rfl
    have h512 : fileNameMaxSize = 512 := rfl
    have hlen := hfit
    rw [uploadPath, List.length_append, List.length_append, List.length_append] at hlen
    have hcommand : sprintf bufferSize (ascii "mkdir " ++ historyDir ++ gFileInformation.chars) =
        some (mkdirCommand gFileInformation) := by
      refine sprintf_eq_some.mpr ⟨?_, rfl⟩
      rw [List.length_append, List.length_append]
      omega
    have hbuffer : sprintf bufferSize (historyDir ++ gFileInformation.chars) =
        some (historyDir ++ gFileInformation.chars) := by
      refine sprintf_eq_some.mpr ⟨?_, rfl⟩
      rw [List.length_append]
      omega
    have hpath : sprintf (fileNameMaxSize + 1) (historyDir ++ gFileInformation.chars ++
        ascii "/" ++ fileName.chars) = some (uploadPath gFileInformation fileName) :=
      sprintf_eq_some.mpr ⟨Nat.lt_succ_of_le hfit, rfl⟩
    simp only [printPaths, hcommand, hbuffer, hpath, Option.bind_eq_bind, Option.bind_some]

/-! ## Which uploads succeed -/

/-- Headers that arrive in whole blocks. -/
theorem serve_of_blocks {host : Host} {gFileInformation fileName : CStr} {a b : List UInt8}
    {rest : List (List UInt8)} {content : List UInt8}
    (hinfo : gFileInformation.chars.length < bufferSize)
    (hname : fileName.chars.length < bufferSize)
    (hstream : a ++ (b ++ rest.flatten) =
      nameBlock gFileInformation ++ (nameBlock fileName ++ content))
    (ha : a.length = bufferSize) (hb : b.length = bufferSize) :
    serve host (a :: b :: rest) =
      if (uploadPath gFileInformation fileName).length ≤ fileNameMaxSize ∧
          host.opens (mkdirCommand gFileInformation) (uploadPath gFileInformation fileName) then
        some (Function.update host.files (uploadPath gFileInformation fileName)
          (some ((host.files (uploadPath gFileInformation fileName)).getD [] ++ content)))
      else none := by
  obtain ⟨rfl, htail⟩ := List.append_inj hstream (by rw [ha, length_nameBlock])
  obtain ⟨rfl, rfl⟩ := List.append_inj htail (by rw [hb, length_nameBlock])
  simp only [serve, List.headD_cons, List.tail_cons, zeroedStr_nameBlock hinfo,
    zeroedStr_nameBlock hname, Option.bind_eq_bind, Option.bind_some, receiveLoop_eq]
  by_cases hfit : (uploadPath gFileInformation fileName).length ≤ fileNameMaxSize
  · rw [printPaths_eq_some.mpr ⟨hfit, rfl⟩, Option.bind_some]
    simp only [hfit, true_and]
  · have hnone : printPaths gFileInformation.chars fileName.chars = none := by
      refine Option.eq_none_iff_forall_ne_some.mpr fun r hr => hfit (printPaths_eq_some.mp hr).1
    rw [hnone, if_neg fun h => hfit h.1, Option.bind_none]

/-- **An upload that ends in the right file had its headers in whole blocks**:
otherwise the server has swallowed fewer than 2048 bytes of them, and stores
the rest with the file. -/
theorem blocks_of_serve {host : Host} {a b : List UInt8} {rest : List (List UInt8)}
    {path content : List UInt8} (ha : a.length ≤ bufferSize) (hb : b.length ≤ bufferSize)
    (hlen : a.length + b.length + rest.flatten.length = 2 * bufferSize + content.length)
    (hserve : serve host (a :: b :: rest) =
      some (Function.update host.files path (some content))) :
    a.length = bufferSize ∧ b.length = bufferSize := by
  obtain ⟨dirname, -, h⟩ := Option.bind_eq_some_iff.mp hserve
  obtain ⟨filename, -, h⟩ := Option.bind_eq_some_iff.mp h
  obtain ⟨⟨command, fileName⟩, -, h⟩ := Option.bind_eq_some_iff.mp h
  dsimp only [List.tail_cons] at h
  split_ifs at h
  rw [receiveLoop_eq, Option.some.injEq] at h
  suffices hle : rest.flatten.length ≤ content.length by omega
  have hat := congrFun h fileName
  rw [Function.update_self] at hat
  by_cases hpath : fileName = path
  · -- the right file: its old content and the rest make up the file sent
    rw [hpath, Function.update_self, Option.some.injEq] at hat
    rw [← hat, List.length_append]
    exact Nat.le_add_left _ _
  · -- another file, which has to stay as it was
    rw [Function.update_of_ne hpath] at hat
    cases hold : host.files fileName with
    | none =>
      rw [hold] at hat
      cases hat
    | some old =>
      rw [hold, Option.getD_some, Option.some.injEq, List.append_right_eq_self] at hat
      rw [hat]
      exact Nat.zero_le _

/-- **An upload succeeds exactly when** the client can print the path and the
length of the file, the first two `recv` calls return a block each, and the server
can print and open the path of a file that is empty or new. -/
theorem stores_iff (host : Host) {gFileInformation dirName fileName : CStr} (content : List UInt8)
    {recvs : List (List UInt8)} (hinfo : gFileInformation.chars.length < bufferSize)
    (hname : fileName.chars.length < bufferSize)
    (hcut : ∀ sends, sendFileToServer gFileInformation dirName fileName (some content) =
      some sends → Segments sends.flatten recvs) :
    Stores host gFileInformation dirName fileName content recvs ↔
      ((sendPath dirName fileName).length + (printInt (Int32.ofNat content.length)).length < 64 ∧
        (uploadPath gFileInformation fileName).length ≤ fileNameMaxSize) ∧
      ((recvs.headD []).length = bufferSize ∧ (recvs.tail.headD []).length = bufferSize) ∧
      host.opens (mkdirCommand gFileInformation) (uploadPath gFileInformation fileName) ∧
      (host.files (uploadPath gFileInformation fileName)).getD [] = [] := by
  rw [Stores]
  cases hsend : sendFileToServer gFileInformation dirName fileName (some content) with
  | none =>
    refine iff_of_false (fun h => nomatch h.1) fun h => ?_
    rw [sendFileToServer_eq_some.mpr ⟨h.1.1, rfl⟩] at hsend
    cases hsend
  | some sends =>
    have hprint := (sendFileToServer_eq_some.mp hsend).1
    have hseg := hcut sends hsend
    rw [flatten_sends hsend] at hseg
    obtain ⟨a, b, rest, rfl, ha, hb, hstream⟩ := hseg.split (by
      rw [List.length_append, List.length_append, length_nameBlock, length_nameBlock]
      omega)
    have hlen := congrArg List.length hstream
    rw [List.length_append, List.length_append, List.length_append, List.length_append,
      length_nameBlock, length_nameBlock] at hlen
    rw [List.headD_cons, List.tail_cons, List.headD_cons]
    constructor
    · rintro ⟨-, hserve⟩
      obtain ⟨ha', hb'⟩ := blocks_of_serve ha hb (by omega) hserve
      rw [serve_of_blocks hinfo hname hstream ha' hb'] at hserve
      split_ifs at hserve with hopen
      refine ⟨⟨hprint, hopen.1⟩, ⟨ha', hb'⟩, hopen.2, ?_⟩
      have hat := congrFun (Option.some.inj hserve) (uploadPath gFileInformation fileName)
      rw [Function.update_self, Function.update_self, Option.some.injEq] at hat
      exact List.append_left_eq_self.mp hat
    · rintro ⟨⟨-, hfit⟩, ⟨ha', hb'⟩, hopen, hempty⟩
      refine ⟨rfl, ?_⟩
      rw [serve_of_blocks hinfo hname hstream ha' hb', if_pos ⟨hfit, hopen⟩, hempty,
        List.nil_append]

/-- A host without files, on which every path opens. -/
def newHost : Host := ⟨fun _ => none, fun _ _ => true⟩

def machineInformation : CStr := ⟨ascii "MID1_20131021_101500", by decide⟩

def logTxt : CStr := ⟨ascii "lidbg_log.txt", by decide⟩

def dataLidbg : CStr := ⟨ascii "/data/lidbg", by decide⟩

/-- An upload whose blocks arrive one by one. -/
theorem stores_blocks : Stores newHost machineInformation dataLidbg logTxt (ascii "ok")
    [nameBlock machineInformation, nameBlock logTxt, ascii "ok"] := by
  refine (stores_iff newHost (ascii "ok") (by decide) (by decide) fun sends hsend => ?_).mpr
    ⟨by decide, ⟨length_nameBlock _, length_nameBlock _⟩, rfl, rfl⟩
  refine ⟨(flatten_sends hsend).symm ▸ rfl, ?_⟩
  simp only [List.forall_mem_cons, length_nameBlock]
  decide

/-- The second block arrives in two pieces. -/
def splitBlock : List (List UInt8) :=
  [nameBlock machineInformation, (nameBlock logTxt).take 600,
    (nameBlock logTxt).drop 600 ++ ascii "ok"]

/-- The rest of the block is stored with the file. -/
theorem splitBlock_garbled :
    Segments (nameBlock machineInformation ++ (nameBlock logTxt ++ ascii "ok")) splitBlock ∧
    (serve newHost splitBlock).map (fun files => files (uploadPath machineInformation logTxt)) =
      some (some (List.replicate 424 0 ++ ascii "ok")) ∧
    ¬ Stores newHost machineInformation dataLidbg logTxt (ascii "ok") splitBlock := by
  have hstored : (serve newHost splitBlock).map
      (fun files => files (uploadPath machineInformation logTxt)) =
        some (some (List.replicate 424 0 ++ ascii "ok")) := by
    decide +kernel
  refine ⟨⟨by decide +kernel, by decide +kernel⟩, hstored, fun hstores => ?_⟩
  rw [hstores.2, Option.map_some, Function.update_self] at hstored
  exact absurd hstored (by decide +kernel)

end Lidbg.ServerPc
