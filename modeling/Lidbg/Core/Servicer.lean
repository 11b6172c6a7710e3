import Lidbg.Machine.Run
import Lidbg.Machine.CInt
import Lidbg.Machine.ByteFifo

/-!
# The kernel-to-user command queue (`core/lidbg_servicer.c`)

`k2u_write` queues a command for the user-space servicer, `k2u_read` takes the
oldest. Both bodies run under `fifo_k2u_lock`, so an interleaving of callers is
a list of whole calls. The queue is a `kfifo` of bytes (`ByteFifo`) over
`int k2u_fifo_buffer[FIFO_SIZE]`, but `servicer_init` passes `FIFO_SIZE`, a
number of `int`s, where `kfifo_init` takes a size in bytes: there is room for
`FIFO_SIZE / 4` commands, and neither return value is looked at.
-/

namespace Lidbg.Servicer

open Machine

/-- `FIFO_SIZE`. -/
abbrev fifoSize : Nat := 64

/-- `SERVICER_DONOTHING`. -/
abbrev servicerDonothing : Int32 := 0

/-- One call, as scheduled. `read` carries what its uninitialised local `ret`
happens to hold. -/
inductive Call where
  | write (cmd : Int32)
  | read (ret : Int32)

section Model

variable (K : ByteFifo)

/-- `kfifo_init(&k2u_fifo, k2u_fifo_buffer, FIFO_SIZE)`. -/
def servicerInit : K.State := K.init fifoSize

def k2uWrite (k2uFifo : K.State) (cmd : Int32) : K.State :=
  if cmd ≠ servicerDonothing then (K.put k2uFifo (intBytes cmd)).1 else k2uFifo

/-- `kfifo_out` overwrites as many bytes of `ret` as it finds. -/
def k2uRead (k2uFifo : K.State) (ret : Int32) : K.State × Int32 :=
  if K.isEmpty k2uFifo then (k2uFifo, servicerDonothing)
  else
    ((K.get k2uFifo 4).1,
      intOfBytes ((K.get k2uFifo 4).2 ++ (intBytes ret).drop (K.get k2uFifo 4).2.length))

/-- One call on the queue; a read is observed by its result. -/
def k2uStep : Step K.State Call Int32 := fun k2uFifo call =>
  match call with
  | .write cmd => some (k2uWrite K k2uFifo cmd, [])
  | .read ret => some ((k2uRead K k2uFifo ret).1, [(k2uRead K k2uFifo ret).2])

end Model

/-! ## What the queue is for -/

/-- The commands written, in order. -/
def written (calls : List Call) : List Int32 :=
  calls.filterMap fun
    | .write cmd => if cmd ≠ servicerDonothing then some cmd else none
    | .read _ => none

/-- The unread suffix: what an unbounded queue would still hold. -/
def unread (calls : List Call) : List Int32 :=
  calls.foldl (fun q call =>
    match call with
    | .write cmd => if cmd ≠ servicerDonothing then q ++ [cmd] else q
    | .read _ => q.tail) []

/-- The commands among the values read. -/
def commands (returned : List Int32) : List Int32 :=
  returned.filter (· ≠ servicerDonothing)

/-- What was written, one call later. -/
theorem written_snoc (calls : List Call) (call : Call) :
    written (calls ++ [call]) = written calls ++ written [call] :=
  List.filterMap_append

/-- What is unread, one call later: a write adds to it, a read takes its head. -/
theorem unread_snoc (calls : List Call) (call : Call) :
    unread (calls ++ [call]) =
      match call with
      | .write cmd => if cmd ≠ servicerDonothing then unread calls ++ [cmd] else unread calls
      | .read _ => (unread calls).tail := by
  rw [unread, List.foldl_append]
  rfl

/-- No command that is unread is `SERVICER_DONOTHING`. -/
theorem unread_ne_zero (calls : List Call) : ∀ c ∈ unread calls, c ≠ servicerDonothing := by
  induction calls using List.reverseRecOn with
  | nil => exact fun _ h => nomatch h
  | append_singleton calls call ih =>
    intro c hc
    rw [unread_snoc] at hc
    cases call with
    | write cmd =>
      by_cases h0 : cmd ≠ servicerDonothing
      · simp only [if_pos h0, List.mem_append, List.mem_singleton] at hc
        rcases hc with hc | rfl
        · exact ih c hc
        · exact h0
      · simp only [if_neg h0] at hc
        exact ih c hc
    | read ret => exact ih c (List.mem_of_mem_tail hc)

/-- No more is unread than there were calls. -/
theorem length_unread_le (calls : List Call) : (unread calls).length ≤ calls.length := by
  induction calls using List.reverseRecOn with
  | nil => exact Nat.le_refl 0
  | append_singleton calls call ih =>
    rw [unread_snoc, List.length_append, List.length_singleton]
    cases call with
    | write cmd =>
      dsimp only
      split_ifs
      · rw [List.length_append, List.length_singleton]
        omega
      · omega
    | read ret =>
      rw [List.length_tail]
      omega

/-! ## Step and run -/

variable {K : ByteFifo}

/-- The queue in step with the calls made on it: the values read are the
commands written minus the unread suffix, which is what the fifo holds. -/
structure InStep (K : ByteFifo) (calls : List Call) (returned : List Int32)
    (k2uFifo : K.State) : Prop where
  order : commands returned ++ unread calls = written calls
  held : K.bytes k2uFifo = (unread calls).flatMap intBytes

theorem size_servicerInit : K.size (servicerInit K) = fifoSize :=
  K.size_init 6

theorem commands_append (a b : List Int32) :
    commands (a ++ b) = commands a ++ commands b :=
  List.filter_append ..

/-- A write with room for it keeps the queue in step. -/
theorem inStep_write {calls : List Call} {returned : List Int32} {s : K.State}
    {cmd : Int32} (h : InStep K calls returned s) (hsize : K.size s = fifoSize)
    (hroom : (unread (calls ++ [.write cmd])).length ≤ fifoSize / 4) :
    InStep K (calls ++ [.write cmd]) returned (k2uWrite K s cmd) := by
  have hw := written_snoc calls (.write cmd)
  have hu := unread_snoc calls (.write cmd)
  by_cases h0 : cmd ≠ servicerDonothing
  · simp only [if_pos h0] at hu
    rw [hu, List.length_append, List.length_singleton] at hroom
    have hfit : ((unread calls).length + 1) * 4 ≤ K.size s := by
      rw [hsize]
      exact Nat.mul_le_mul_right 4 hroom
    refine ⟨?_, ?_⟩
    · rw [hu, hw, ← List.append_assoc, h.order]
      simp [written, h0]
    · rw [hu, k2uWrite, if_pos h0]
      exact K.put_record length_intBytes h.held hfit
  · -- `SERVICER_DONOTHING` is not queued
    simp only [if_neg h0] at hu
    refine ⟨?_, ?_⟩
    · rw [hu, hw, h.order]
      simp [written, h0]
    · rw [hu, k2uWrite, if_neg h0]
      exact h.held

/-- A read returns the oldest unread command, or `SERVICER_DONOTHING`; what
`ret` held before shows in neither case. -/
theorem inStep_read {calls : List Call} {returned : List Int32} {s : K.State}
    (ret : Int32) (h : InStep K calls returned s) :
    InStep K (calls ++ [.read ret]) (returned ++ [(k2uRead K s ret).2]) (k2uRead K s ret).1 := by
  have hw : written (calls ++ [.read ret]) = written calls := by
    rw [written_snoc]
    exact List.append_nil _
  have hu : unread (calls ++ [.read ret]) = (unread calls).tail :=
    unread_snoc calls (.read ret)
  have hemp := K.isEmpty_record length_intBytes (Nat.zero_lt_succ 3) h.held
  have horder := h.order
  have hheld := h.held
  have hne := unread_ne_zero calls
  rw [k2uRead]
  cases hq : unread calls with
  | nil =>
    rw [hq] at horder hheld hu
    rw [if_pos (hemp.mpr hq)]
    refine ⟨?_, ?_⟩
    · rw [hu, hw, commands_append, ← horder]
      simp [commands]
    · rw [hu]
      exact hheld
  | cons c q =>
    -- not zero, so the value read counts as a command
    rw [hq] at horder hheld hu hne
    obtain ⟨hget, hrest⟩ := K.get_record length_intBytes hheld
    rw [if_neg (fun hc => List.cons_ne_nil c q (hq.symm.trans (hemp.mp hc)))]
    refine ⟨?_, ?_⟩
    · rw [hu, hw, commands_append, ← horder, hget, intOfBytes_intBytes]
      simp [commands, hne c List.mem_cons_self]
    · rw [hu]
      exact hrest

/-- A write leaves the size of the queue. -/
theorem size_k2uWrite (s : K.State) (cmd : Int32) : K.size (k2uWrite K s cmd) = K.size s := by
  unfold k2uWrite
  split
  · exact K.size_put s _
  · rfl

/-- So does a read. -/
theorem size_k2uRead (s : K.State) (ret : Int32) :
    K.size (k2uRead K s ret).1 = K.size s := by
  unfold k2uRead
  split
  · rfl
  · exact K.size_get s 4

/-- **One call keeps the queue in step**, as long as it leaves at most
`FIFO_SIZE / 4` commands unread. -/
theorem inStep_step {calls : List Call} {returned : List Int32} {s : K.State} {call : Call}
    (h : InStep K calls returned s) (hsize : K.size s = fifoSize)
    (hroom : (unread (calls ++ [call])).length ≤ fifoSize / 4) :
    ∃ s' o, k2uStep K s call = some (s', o) ∧
      InStep K (calls ++ [call]) (returned ++ o) s' ∧ K.size s' = fifoSize := by
  cases call with
  | write cmd =>
    refine ⟨k2uWrite K s cmd, [], rfl, ?_, (size_k2uWrite s cmd).trans hsize⟩
    rw [List.append_nil]
    exact inStep_write h hsize hroom
  | read ret =>
    exact ⟨_, _, rfl, inStep_read ret h, (size_k2uRead s ret).trans hsize⟩

/-- No call fails, and all leave the size of the queue. -/
theorem run_size (calls : List Call) :
    ∃ s returned, run (k2uStep K) (servicerInit K) calls = some (s, returned) ∧
      K.size s = fifoSize := by
  refine run_invariant' (I := fun _ _ s => K.size s = fifoSize) ?_ size_servicerInit calls
  intro _ _ s call hsize
  cases call with
  | write cmd => exact ⟨_, _, rfl, (size_k2uWrite s cmd).trans hsize⟩
  | read ret => exact ⟨_, _, rfl, (size_k2uRead s ret).trans hsize⟩

/-- At no time are more than `n` commands unread. -/
def UnreadAtMost (n : Nat) (calls : List Call) : Prop :=
  ∀ pre, pre <+: calls → (unread pre).length ≤ n

/-- The queue behaves as a queue over an interleaving: after every prefix of it,
however often it is then read, the values read are the commands written minus
the unread suffix. -/
def Faithful (K : ByteFifo) (calls : List Call) : Prop :=
  ∀ pre, pre <+: calls → ∀ rets : List Int32, ∃ s returned,
    run (k2uStep K) (servicerInit K) (pre ++ rets.map .read) = some (s, returned) ∧
      commands returned ++ unread (pre ++ rets.map .read) =
        written (pre ++ rets.map .read)

/-- A bound on what is unread holds of the calls before. -/
theorem UnreadAtMost.of_prefix {n : Nat} {pre calls : List Call}
    (h : UnreadAtMost n calls) (hpre : pre <+: calls) : UnreadAtMost n pre :=
  fun p hp => h p (hp.trans hpre)

/-- Reading leaves no more unread than there was. -/
theorem UnreadAtMost.append_reads {n : Nat} {calls : List Call} (h : UnreadAtMost n calls)
    (rets : List Int32) : UnreadAtMost n (calls ++ rets.map .read) := by
  induction rets using List.reverseRecOn with
  | nil =>
    rw [List.map_nil, List.append_nil]
    exact h
  | append_singleton rets ret ih =>
    intro pre hpre
    rw [List.map_append, ← List.append_assoc, List.map_singleton] at hpre
    rcases List.prefix_concat_iff.mp hpre with rfl | hpre
    · rw [unread_snoc, List.length_tail]
      have := ih _ List.prefix_rfl
      omega
    · exact ih pre hpre

/-- Reads take from the head, one by one. -/
theorem unread_append_reads (calls : List Call) (rets : List Int32) :
    unread (calls ++ rets.map .read) = (unread calls).drop rets.length := by
  induction rets using List.reverseRecOn with
  | nil =>
    rw [List.map_nil, List.append_nil, List.length_nil, List.drop_zero]
  | append_singleton rets ret ih =>
    rw [List.map_append, ← List.append_assoc, List.map_singleton, unread_snoc]
    show (unread (calls ++ rets.map .read)).tail = _
    rw [ih, List.tail_drop, List.length_append, List.length_singleton]

/-- Reads write nothing. -/
theorem written_append_reads (calls : List Call) (rets : List Int32) :
    written (calls ++ rets.map .read) = written calls := by
  induction rets using List.reverseRecOn with
  | nil => rw [List.map_nil, List.append_nil]
  | append_singleton rets ret ih =>
    rw [List.map_append, ← List.append_assoc, List.map_singleton, written_snoc, ih]
    exact List.append_nil _

/-- However often it is read, a fifo of `n` bytes yields at most `(n + 3) / 4`
commands. -/
theorem length_commands_reads {s s' : K.State} {rets returned : List Int32}
    (h : run (k2uStep K) s (rets.map .read) = some (s', returned)) :
    (commands returned).length * 4 ≤ (K.bytes s).length + 3 := by
  induction rets generalizing s returned with
  | nil =>
    cases h
    exact Nat.le_add_left 0 _
  | cons ret rets ih =>
    obtain ⟨s₁, o, o', hs, hr, rfl⟩ := run_cons_inv h
    cases hs
    have ih := ih hr
    rw [commands_append, List.length_append]
    have hone := List.length_filter_le (· ≠ servicerDonothing) [(k2uRead K s ret).2]
    rw [List.length_singleton] at hone
    by_cases hemp : K.isEmpty s = true
    · rw [k2uRead, if_pos hemp] at ih ⊢
      rw [show commands [(s, servicerDonothing).2] = [] from rfl, List.length_nil, Nat.zero_add]
      exact ih
    · -- a read that finds something takes four bytes, or the last few
      have hpos : 0 < (K.bytes s).length :=
        List.length_pos_iff.mpr fun hnil => hemp ((K.isEmpty_iff s).mpr hnil)
      have hrest : (K.bytes (k2uRead K s ret).1).length = (K.bytes s).length - 4 := by
        rw [k2uRead, if_neg hemp, K.bytes_get, List.length_drop]
      rw [hrest] at ih
      unfold commands at ih ⊢
      omega

/-- The queue is in step after calls that never leave too much unread. -/
theorem inStep_run {calls : List Call} (hroom : UnreadAtMost (fifoSize / 4) calls) :
    ∃ s returned, run (k2uStep K) (servicerInit K) calls = some (s, returned) ∧
      InStep K calls returned s := by
  obtain ⟨s, returned, hrun, hin, -⟩ := run_invariant
    (I := fun h o s => InStep K h o s ∧ K.size s = fifoSize)
    (P := fun h _ _ call => (unread (h ++ [call])).length ≤ fifoSize / 4)
    (fun h o s call hI hP => inStep_step hI.1 hI.2 hP)
    ⟨⟨rfl, K.bytes_init 6⟩, size_servicerInit⟩
    (fun p c hpc _ _ _ => hroom _ hpc)
  exact ⟨s, returned, hrun, hin⟩

/-- **The queue is faithful exactly while at most `FIFO_SIZE / 4` commands are
unread**: a quarter of what `k2u_fifo_buffer` is declared for. -/
theorem faithful_iff (K : ByteFifo) (calls : List Call) :
    Faithful K calls ↔ UnreadAtMost (fifoSize / 4) calls := by
  constructor
  · intro hf pre hpre
    -- read everything out after `pre` and count what came
    obtain ⟨s, returned, hrun, horder⟩ := hf pre hpre []
    obtain ⟨s', returned', hrun', horder'⟩ :=
      hf pre hpre (List.replicate (unread pre).length 0)
    rw [List.map_nil, List.append_nil] at hrun horder
    rw [unread_append_reads, written_append_reads, List.length_replicate, List.drop_length,
      List.append_nil] at horder'
    obtain ⟨s₁, o, o', hpre', hreads, rfl⟩ := run_append_inv hrun'
    rw [hrun] at hpre'
    cases hpre'
    rw [commands_append, ← horder] at horder'
    have hgot := length_commands_reads hreads
    rw [List.append_cancel_left horder'] at hgot
    have hsize : K.size s = fifoSize := by
      obtain ⟨t, p, ht, hsize⟩ := run_size (K := K) pre
      rw [hrun] at ht
      cases ht
      exact hsize
    have hheld := K.length_bytes_le s
    rw [hsize] at hheld
    -- at most (64 + 3) / 4 commands came out, and they are those unread
    show (unread pre).length ≤ 64 / 4
    have h64 : fifoSize = 64 := rfl
    omega
  · intro hroom pre hpre rets
    obtain ⟨s, returned, hrun, hin⟩ := inStep_run (K := K)
      ((hroom.of_prefix hpre).append_reads rets)
    exact ⟨s, returned, hrun, hin.order⟩

/-- Commands `1..17`, then seventeen reads. -/
def seventeen : List Call :=
  (List.range 17).map (fun i => .write (Int32.ofNat (i + 1))) ++
    List.replicate 17 (.read 0)

/-- Of seventeen commands the last is lost. -/
theorem commands_seventeen :
    (run (k2uStep ringFifo) (servicerInit ringFifo) seventeen).map (fun r => commands r.2) =
      some ((List.range 16).map fun i => Int32.ofNat (i + 1)) := by
  decide +kernel

/-- Seventeen unread commands are far below `FIFO_SIZE`, and the last is lost:
it is not among the values read, and nothing is left unread. -/
theorem seventeen_lost :
    UnreadAtMost fifoSize seventeen ∧ unread seventeen = [] ∧
      ∃ s returned, run (k2uStep ringFifo) (servicerInit ringFifo) seventeen =
          some (s, returned) ∧
        commands returned ++ unread seventeen ≠ written seventeen := by
  refine ⟨?_, by decide, ?_⟩
  · intro pre hpre
    exact ((length_unread_le pre).trans hpre.length_le).trans (by decide)
  · obtain ⟨s, returned, hrun, -⟩ := run_size (K := ringFifo) seventeen
    have hcommands := commands_seventeen
    rw [hrun, Option.map_some, Option.some.injEq] at hcommands
    refine ⟨s, returned, hrun, ?_⟩
    rw [show commands returned = _ from hcommands]
    decide

end Lidbg.Servicer
