import Mathlib.Algebra.Group.Nat.Defs
import Mathlib.Data.List.Basic
import Mathlib.Logic.Function.Basic

/-!
# Byte FIFOs

`ByteFifo` is the interface of the kernel's `kfifo` of bytes, with its
documented behaviour as laws about the unread bytes: `init` takes a size in
bytes (a power of two), `put` stores as much of its argument as there is room
for, `get` removes as much as is asked for and there. `reset` is taking everything.

- `put_record`, `get_record`: a FIFO whose size is a multiple of `w`, used only
  for records of `w` bytes, is a FIFO of whole records.
- `Ring` is a concrete FIFO with free-running `in` and `out` counters over a
  cyclic array; `ringFifo` shows that it satisfies the laws.
-/

namespace Lidbg.Machine

universe u

/-- A bounded FIFO of bytes. `bytes` is the abstraction: what has been put and
not yet taken, oldest first. -/
structure ByteFifo where
  State : Type
  init : Nat → State
  put : State → List UInt8 → State × Nat
  get : State → Nat → State × List UInt8
  isEmpty : State → Bool
  size : State → Nat
  bytes : State → List UInt8
  bytes_init (k : Nat) : bytes (init (2 ^ k)) = []
  size_init (k : Nat) : size (init (2 ^ k)) = 2 ^ k
  length_bytes_le (s : State) : (bytes s).length ≤ size s
  bytes_put (s : State) (b : List UInt8) :
    bytes (put s b).1 = bytes s ++ b.take (size s - (bytes s).length)
  put_count (s : State) (b : List UInt8) :
    (put s b).2 = min b.length (size s - (bytes s).length)
  size_put (s : State) (b : List UInt8) : size (put s b).1 = size s
  bytes_get (s : State) (n : Nat) : bytes (get s n).1 = (bytes s).drop n
  get_bytes (s : State) (n : Nat) : (get s n).2 = (bytes s).take n
  size_get (s : State) (n : Nat) : size (get s n).1 = size s
  isEmpty_iff (s : State) : isEmpty s = true ↔ bytes s = []

namespace ByteFifo

/-! ## Room -/

section Room

variable (K : ByteFifo)

/-- `kfifo_avail`. -/
def avail (s : K.State) : Nat := K.size s - (K.bytes s).length

/-- `kfifo_is_full`. -/
def isFull (s : K.State) : Bool := K.size s ≤ (K.bytes s).length

/-- `kfifo_len`. -/
def len (s : K.State) : Nat := (K.bytes s).length

/-- `kfifo_reset`, as taking all there is. -/
def reset (s : K.State) : K.State := (K.get s (K.len s)).1

variable {K}

theorem bytes_reset (s : K.State) : K.bytes (K.reset s) = [] := by
  rw [reset, K.bytes_get, len, List.drop_length]

theorem size_reset (s : K.State) : K.size (K.reset s) = K.size s :=
  K.size_get s _

/-- What fits is stored whole. -/
theorem put_of_le_avail {s : K.State} {b : List UInt8} (h : b.length ≤ K.avail s) :
    K.bytes (K.put s b).1 = K.bytes s ++ b := by
  unfold avail at h
  rw [K.bytes_put, List.take_of_length_le h]

end Room

/-! ## Records of a fixed width -/

section Records

variable {α : Type u} {enc : α → List UInt8} {w : Nat} {K : ByteFifo}

theorem length_flatMap_enc (hw : ∀ a, (enc a).length = w) (q : List α) :
    (q.flatMap enc).length = q.length * w := by
  induction q with
  | nil => simp
  | cons a q ih =>
    rw [List.flatMap_cons, List.length_append, ih, hw a, List.length_cons, Nat.succ_mul,
      Nat.add_comm]

/-- A record that fits is stored whole. -/
theorem put_record (hw : ∀ a, (enc a).length = w) {s : K.State} {q : List α} {a : α}
    (hs : K.bytes s = q.flatMap enc) (hroom : (q.length + 1) * w ≤ K.size s) :
    K.bytes (K.put s (enc a)).1 = (q ++ [a]).flatMap enc := by
  rw [K.bytes_put, hs, length_flatMap_enc hw, List.flatMap_append, List.flatMap_singleton,
    List.take_of_length_le]
  rw [hw a]
  rw [Nat.succ_mul] at hroom
  omega

/-- A read of one record takes the oldest, whole. -/
theorem get_record (hw : ∀ a, (enc a).length = w) {s : K.State} {q : List α} {a : α}
    (hs : K.bytes s = (a :: q).flatMap enc) :
    (K.get s w).2 = enc a ∧ K.bytes (K.get s w).1 = q.flatMap enc := by
  rw [K.get_bytes, K.bytes_get, hs, List.flatMap_cons, ← hw a]
  exact ⟨List.take_left, List.drop_left⟩

theorem isEmpty_record (hw : ∀ a, (enc a).length = w) (hpos : 0 < w) {s : K.State}
    {q : List α} (hs : K.bytes s = q.flatMap enc) : K.isEmpty s = true ↔ q = [] := by
  rw [K.isEmpty_iff, hs, ← List.length_eq_zero_iff, length_flatMap_enc hw,
    ← List.length_eq_zero_iff, Nat.mul_eq_zero]
  exact or_iff_left (Nat.ne_of_gt hpos)

end Records

end ByteFifo

/-! ## A ring with free-running counters -/

/-- `inp` and `out` count every byte ever put and taken; byte number `i` lives
in cell `i % size`. -/
structure Ring where
  size : Nat
  cells : Nat → UInt8
  inp : Nat
  out : Nat
  out_le : out ≤ inp
  inp_le : inp ≤ out + size

namespace Ring

def init (n : Nat) : Ring := ⟨n, fun _ => 0, 0, 0, Nat.le_refl _, Nat.zero_le _⟩

def bytes (r : Ring) : List UInt8 :=
  (List.range (r.inp - r.out)).map fun i => r.cells ((r.out + i) % r.size)

/-- Store one byte if there is room. -/
def putByte (r : Ring) (b : UInt8) : Ring :=
  if h : r.inp < r.out + r.size then
    { r with
      cells := fun i => if i = r.inp % r.size then b else r.cells i
      inp := r.inp + 1
      out_le := Nat.le_succ_of_le r.out_le
      inp_le := h }
  else r

def put (r : Ring) (b : List UInt8) : Ring := b.foldl putByte r

def get (r : Ring) (n : Nat) : Ring :=
  { r with
    out := r.out + min n (r.inp - r.out)
    out_le := by have := r.out_le; omega
    inp_le := by have := r.inp_le; omega }

@[simp] theorem length_bytes (r : Ring) : r.bytes.length = r.inp - r.out := by
  simp [bytes]

@[simp] theorem size_putByte (r : Ring) (b : UInt8) : (r.putByte b).size = r.size := by
  unfold putByte
  split <;> rfl

@[simp] theorem size_put (r : Ring) (b : List UInt8) : (r.put b).size = r.size := by
  induction b generalizing r with
  | nil => rfl
  | cons c b ih => exact (ih (r.putByte c)).trans (size_putByte r c)

/-- Counters less than a lap apart name different cells. -/
theorem mod_ne_of_lt {i j n : Nat} (hij : i < j) (hn : j < i + n) : i % n ≠ j % n := by
  intro h
  have hz : (j - i) % n = 0 := Nat.sub_mod_eq_zero_of_mod_eq h.symm
  rw [Nat.mod_eq_of_lt (by omega)] at hz
  omega

theorem bytes_putByte (r : Ring) (b : UInt8) (h : r.inp < r.out + r.size) :
    (r.putByte b).bytes = r.bytes ++ [b] := by
  have hle := r.out_le
  rw [putByte, dif_pos h, bytes]
  show (List.range (r.inp + 1 - r.out)).map _ = _
  rw [show r.inp + 1 - r.out = (r.inp - r.out) + 1 by omega, List.range_succ, List.map_append,
    List.map_singleton]
  congr 1
  · -- the cell written is not one of those in use
    refine List.map_congr_left fun i hi => ?_
    have hi := List.mem_range.mp hi
    show (if (r.out + i) % r.size = r.inp % r.size then b else _) = _
    exact if_neg (mod_ne_of_lt (by omega) (by omega))
  · show [if (r.out + (r.inp - r.out)) % r.size = r.inp % r.size then b else _] = [b]
    rw [show r.out + (r.inp - r.out) = r.inp by omega, if_pos rfl]

theorem putByte_full (r : Ring) (b : UInt8) (h : ¬ r.inp < r.out + r.size) :
    r.putByte b = r :=
  dif_neg h

theorem bytes_put (r : Ring) (b : List UInt8) :
    (r.put b).bytes = r.bytes ++ b.take (r.size - r.bytes.length) := by
  induction b generalizing r with
  | nil => simp [put]
  | cons c b ih =>
    show ((r.putByte c).put b).bytes = _
    rw [ih, size_putByte]
    by_cases h : r.inp < r.out + r.size
    · have hle := r.out_le
      rw [bytes_putByte r c h, List.length_append, length_bytes, List.length_singleton,
        show r.size - (r.inp - r.out) = (r.size - (r.inp - r.out + 1)) + 1 by omega,
        List.take_succ_cons, List.append_assoc, List.singleton_append]
    · -- full, and every later byte is dropped too
      have hle := r.inp_le
      have hfull : r.size - r.bytes.length = 0 := by
        rw [length_bytes]
        omega
      rw [putByte_full r c h, hfull, List.take_zero, List.take_zero]

theorem bytes_get (r : Ring) (n : Nat) : (r.get n).bytes = r.bytes.drop n := by
  apply List.ext_getElem
  · rw [List.length_drop, length_bytes, length_bytes]
    show r.inp - (r.out + min n (r.inp - r.out)) = _
    omega
  · intro i h₁ h₂
    rw [length_bytes] at h₁
    have hlt : i < r.inp - (r.out + min n (r.inp - r.out)) := h₁
    rw [List.getElem_drop]
    simp only [bytes, List.getElem_map, List.getElem_range]
    show r.cells ((r.out + min n (r.inp - r.out) + i) % r.size) = _
    rw [show r.out + min n (r.inp - r.out) + i = r.out + (n + i) by omega]

end Ring

/-- The ring is a byte FIFO. -/
def ringFifo : ByteFifo where
  State := Ring
  init := Ring.init
  put r b := (r.put b, min b.length (r.size - r.bytes.length))
  get r n := (r.get n, r.bytes.take n)
  isEmpty r := r.inp == r.out
  size := Ring.size
  bytes := Ring.bytes
  bytes_init _ := rfl
  size_init _ := rfl
  length_bytes_le r := by
    have := r.inp_le
    rw [Ring.length_bytes]
    omega
  bytes_put := Ring.bytes_put
  put_count _ _ := rfl
  size_put := Ring.size_put
  bytes_get := Ring.bytes_get
  get_bytes _ _ := rfl
  size_get _ _ := rfl
  isEmpty_iff r := by
    have := r.out_le
    rw [beq_iff_eq, ← List.length_eq_zero_iff, Ring.length_bytes]
    omega

end Lidbg.Machine
