import Lidbg.Machine.Decimal

/-!
# The log upload client (`hal/client_mobile/client_mobile.c`)

`send_file_to_server` sends a block of 1024 bytes with the name of the
directory, a block with the name of the file, and the file. Nothing in the
stream says where a block ends. What it does it also prints, with the path of the
file, each time into an array of 100 bytes.
-/

namespace Lidbg.ClientMobile

open Machine

/-- `BUFFER_SIZE`. -/
abbrev bufferSize : Nat := 1024

/-- The size of `char *filepath[128]`, an array of four-byte pointers that is
used as text. -/
abbrev filepathSize : Nat := 128 * 4

/-- `LOG_BYTES`. -/
abbrev logBytes : Nat := 100

/-- `LIDBG_PRINT`: the message as it is printed into `s`. -/
def lidbgPrint (msg : List UInt8) : Option (List UInt8) :=
  sprintf logBytes (ascii "lidbg_msg: " ++ msg)

/-- `strncpy` of a name into the zeroed `buffer`, which is then sent whole. -/
def nameBlock (name : CStr) : List UInt8 :=
  name.chars.take bufferSize ++ List.replicate (bufferSize - name.chars.length) 0

/-- The `fread` loop: one `send` a block. -/
def sendBlocks : List UInt8 → List (List UInt8)
  | [] => []
  | b :: fp => (b :: fp).take bufferSize :: sendBlocks ((b :: fp).drop bufferSize)
termination_by fp => fp.length
decreasing_by
  rw [List.length_drop]
  exact Nat.sub_lt (Nat.zero_lt_succ _) (by decide)

/-- The `send` calls of `send_file_to_server` on a connected socket. A file that
cannot be opened is skipped; `none` is text that overruns its array: `filepath`, or
the one of a `LIDBG_PRINT`. -/
def sendFileToServer (gFileInformation dirName fileName : CStr) (file : Option (List UInt8)) :
    Option (List (List UInt8)) := do
  let filepath ← sprintf filepathSize (dirName.chars ++ ascii "/" ++ fileName.chars)
  let _ ← lidbgPrint (ascii "send_file_to_server:" ++ filepath ++ ascii "\n")
  let _ ← lidbgPrint (ascii "start to connect sever.....\n")
  let buffer := nameBlock fileName
  let _ ← lidbgPrint (ascii "start to send file[" ++ (← loadStr buffer) ++ ascii "]\n")
  match file with
  | none =>
    let _ ← lidbgPrint (ascii "Fail Create:File:" ++ filepath ++ ascii "\n")
    some [nameBlock gFileInformation, buffer]
  | some content =>
    let _ ← lidbgPrint (ascii "Success Create:File:" ++ filepath ++ ascii "\n")
    let sendCount := Int32.ofNat content.length
    let _ ← lidbgPrint (printInt sendCount ++ ascii ",Transfer Finished:File:" ++ filepath ++
      ascii "\n")
    some (nameBlock gFileInformation :: buffer :: sendBlocks content)

theorem length_nameBlock (name : CStr) : (nameBlock name).length = bufferSize := by
  rw [nameBlock, List.length_append, List.length_take, List.length_replicate]
  omega

theorem nameBlock_of_lt {name : CStr} (h : name.chars.length < bufferSize) :
    nameBlock name =
      name.chars ++ 0 :: List.replicate (bufferSize - name.chars.length - 1) 0 := by
  obtain ⟨n, hn⟩ : ∃ n, bufferSize - name.chars.length = n + 1 :=
    ⟨bufferSize - name.chars.length - 1, by omega⟩
  rw [nameBlock, List.take_of_length_le (Nat.le_of_lt h), hn, Nat.add_sub_cancel,
    List.replicate_succ]

theorem flatten_sendBlocks (fp : List UInt8) : (sendBlocks fp).flatten = fp := by
  induction fp using sendBlocks.induct with
  | case1 => rw [sendBlocks, List.flatten_nil]
  | case2 b fp ih => rw [sendBlocks, List.flatten_cons, ih, List.take_append_drop]

theorem loadStr_nameBlock {name : CStr} (h : name.chars.length < bufferSize) :
    loadStr (nameBlock name) = some name.chars := by
  rw [nameBlock_of_lt h, loadStr_append_nul name.nul_notMem]

theorem sprintf_eq_some {size : Nat} {text s : List UInt8} :
    sprintf size text = some s ↔ text.length < size ∧ s = text := by
  rw [sprintf]
  split_ifs with h
  · rw [Option.some.injEq, and_iff_right h]
    exact eq_comm
  · refine ⟨fun h' => ?_, fun h' => absurd h'.1 h⟩
    cases h'

/-- The path of a file, as it is printed into `filepath`. -/
def sendPath (dirName fileName : CStr) : List UInt8 := dirName.chars ++ ascii "/" ++ fileName.chars

theorem length_sendPath (dirName fileName : CStr) :
    (sendPath dirName fileName).length = dirName.chars.length + 1 + fileName.chars.length := by
  have hslash : (ascii "/").length = 1 := rfl
  rw [sendPath, List.length_append, List.length_append, hslash]

/-- A message with a name in it. -/
theorem lidbgPrint_eq_some {front name back r : List UInt8} :
    lidbgPrint (front ++ name ++ back) = some r ↔
      11 + front.length + name.length + back.length < logBytes ∧
        r = ascii "lidbg_msg: " ++ (front ++ name ++ back) := by
  have hprefix : (ascii "lidbg_msg: ").length = 11 := rfl
  rw [lidbgPrint, sprintf_eq_some, List.length_append, List.length_append, List.length_append,
    hprefix, ← Nat.add_assoc, ← Nat.add_assoc]

/-- **The client sends a file** exactly if the last of its messages, which is the longest, fits
its array: the path and the number of bytes sent are at most 63 characters. -/
theorem sendFileToServer_eq_some {gFileInformation dirName fileName : CStr} {content : List UInt8}
    {sends : List (List UInt8)} :
    sendFileToServer gFileInformation dirName fileName (some content) = some sends ↔
      (sendPath dirName fileName).length + (printInt (Int32.ofNat content.length)).length < 64 ∧
        sends = nameBlock gFileInformation :: nameBlock fileName :: sendBlocks content := by
  have hlen := length_sendPath dirName fileName
  have hfinished : (ascii ",Transfer Finished:File:").length = 24 := rfl
  have hnewline : (ascii "\n").length = 1 := rfl
  have hbytes : logBytes = 100 := rfl
  constructor
  · intro h
    obtain ⟨filepath, hpath, h⟩ := Option.bind_eq_some_iff.mp h
    obtain ⟨-, rfl⟩ := sprintf_eq_some.mp hpath
    obtain ⟨_, -, h⟩ := Option.bind_eq_some_iff.mp h
    obtain ⟨_, -, h⟩ := Option.bind_eq_some_iff.mp h
    obtain ⟨_, -, h⟩ := Option.bind_eq_some_iff.mp h
    obtain ⟨_, -, h⟩ := Option.bind_eq_some_iff.mp h
    obtain ⟨_, -, h⟩ := Option.bind_eq_some_iff.mp h
    obtain ⟨_, hlast, h⟩ := Option.bind_eq_some_iff.mp h
    have hfit := (lidbgPrint_eq_some.mp hlast).1
    rw [List.length_append, hfinished, hnewline] at hfit
    refine ⟨?_, (Option.some.inj h).symm⟩
    rw [sendPath]
    omega
  · rintro ⟨hfit, rfl⟩
    -- the other messages are no longer than the last, and so is the path itself
    have hprint {front name back : List UInt8}
        (h : 11 + front.length + name.length + back.length < logBytes) :
        lidbgPrint (front ++ name ++ back) = some _ := lidbgPrint_eq_some.mpr ⟨h, rfl⟩
    have hsend : (ascii "send_file_to_server:").length = 20 := rfl
    have hfile : (ascii "start to send file[").length = 19 := rfl
    have hsuccess : (ascii "Success Create:File:").length = 20 := rfl
    have hclose : (ascii "]\n").length = 2 := rfl
    have hname : fileName.chars.length < bufferSize := by
      show _ < 1024
      omega
    have hpath : sprintf filepathSize (dirName.chars ++ ascii "/" ++ fileName.chars) =
        some (sendPath dirName fileName) :=
      sprintf_eq_some.mpr ⟨show (sendPath dirName fileName).length < 512 by omega, rfl⟩
    have hconnect : lidbgPrint (ascii "start to connect sever.....\n") = some _ := rfl
    have hlast : 11 + (printInt (Int32.ofNat content.length) ++
        ascii ",Transfer Finished:File:").length + (sendPath dirName fileName).length +
          (ascii "\n").length < logBytes := by
      rw [List.length_append, hfinished]
      omega
    simp only [sendFileToServer, hpath, Option.bind_eq_bind, Option.bind_some,
      hprint (show 11 + (ascii "send_file_to_server:").length +
        (sendPath dirName fileName).length + (ascii "\n").length < logBytes by omega),
      hconnect, loadStr_nameBlock hname,
      hprint (show 11 + (ascii "start to send file[").length + fileName.chars.length +
        (ascii "]\n").length < logBytes by omega),
      hprint (show 11 + (ascii "Success Create:File:").length +
        (sendPath dirName fileName).length + (ascii "\n").length < logBytes by omega),
      hprint hlast]

/-- What goes over the wire, as one stream. -/
theorem flatten_sends {gFileInformation dirName fileName : CStr} {content : List UInt8}
    {sends : List (List UInt8)}
    (h : sendFileToServer gFileInformation dirName fileName (some content) = some sends) :
    sends.flatten = nameBlock gFileInformation ++ (nameBlock fileName ++ content) := by
  rw [(sendFileToServer_eq_some.mp h).2, List.flatten_cons, List.flatten_cons, flatten_sendBlocks]

end Lidbg.ClientMobile
