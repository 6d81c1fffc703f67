import Dot1x.Base.Exec
import Dot1x.Wire.Packet

/-!
# Buffers and the effects of a call

`malloc` and `realloc` of a null pointer return fresh memory of arbitrary contents or fail.
What they return during one call of a handler is a parameter of that call, its `Heap`. A
failed allocation throws and ends the call; so does a copy that would leave its destination,
which the hardware or the heap would answer in ways the model does not follow further.

Sizes are 32-bit. The log of a call records what its safety depends on: every subtraction of
sizes, every size a growable buffer is asked for as the plain sum, every copy from the input.
-/

namespace Dot1x.Eap

open Dot1x.Base Dot1x.Wire

/-- What a call does besides computing its value. -/
inductive Effect
  /-- The unsigned difference `a - b` was formed. -/
  | sub (a b : ℕ)
  /-- A growable buffer was asked for this many bytes. -/
  | need (n : ℕ)
  /-- This many bytes of the input were copied to an offset of a block of the given size. -/
  | copyIn (n off size : ℕ)
  /-- A text was shown to the user. -/
  | notice (text : List UInt8)

/-- How a call can end without returning. -/
inductive Failure
  | outOfMem
  | fault
  | tlsError

/-- A call of a method. -/
abbrev Call := Exec Effect Failure

/-- What `malloc n`, or `realloc` of a null pointer, returns during a call. -/
abbrev Heap := ℕ → Option Mem

/-- A number cut to a `size_t`. -/
@[irreducible] def toSize (n : ℕ) : ℕ := n % 2 ^ 32

/-- The difference of two sizes as `size_t` computes it. -/
@[irreducible] def wrapSub (a b : ℕ) : ℕ := if b ≤ a then a - b else 2 ^ 32 - (b - a)

/-- Form the difference of two sizes. -/
def subSize (a b : ℕ) : Call ℕ := do
  Exec.tell (.sub a b)
  pure (wrapSub a b)

/-- A length of the 32-bit program is below `2 ^ 32`. -/
theorem toSize_lt (n : ℕ) : toSize n < 2 ^ 32 := by
  unfold toSize
  omega

/-- A number that can be represented is its own length. -/
theorem toSize_of_lt {n : ℕ} (h : n < 2 ^ 32) : toSize n = n := by
  unfold toSize
  omega

/-- A difference that does not wrap determines the minuend. -/
theorem wrapSub_eq_iff {a b n : ℕ} (h : n + b < 2 ^ 32) : wrapSub a b = n ↔ a = n + b := by
  unfold wrapSub
  split <;> omega

/-- A difference that does not go below zero is exact. -/
theorem wrapSub_of_le {a b : ℕ} (h : b ≤ a) : wrapSub a b = a - b := by
  rw [wrapSub, if_pos h]

/-- Allocate a block, throwing `out_of_mem` when there is none. -/
def alloc (heap : Heap) (n : ℕ) : Call Mem :=
  match heap n with
  | some m => pure m
  | none => Exec.fail .outOfMem

/-- `memcpy` of `n` bytes of the input from `src` on to the offset `off` of a block. -/
def memcpyIn (block : Mem) (size off : ℕ) (input : Mem) (src n : ℕ) : Call Mem := do
  Exec.tell (.copyIn n off size)
  if off + n ≤ size then pure (write block off (slice input src n)) else Exec.fail .fault

/-- A buffer that can be made larger. Its size is a `size_t`. -/
structure Growable where
  size : ℕ
  buf : Mem
  size_lt : size < 2 ^ 32

/-- A fresh block of the size a caller asked for. -/
def Growable.fresh (what : ℕ) (p : Mem) : Growable := ⟨toSize what, p, toSize_lt what⟩

/-- `growable::need`. The argument is the sum formed by the caller before it is cut to a
`size_t`. A larger block does not inherit the contents: `_need` hands `realloc` its own null
pointer, not `buf`. -/
def Growable.need (g : Growable) (heap : Heap) (what : ℕ) : Call Growable := do
  Exec.tell (.need what)
  if g.size < toSize what then do
    let p ← alloc heap (toSize what)
    pure (.fresh what p)
  else pure g

/-- A byte string handed to a constructor: an object of the process, so shorter than the lower
half of the address space. -/
structure Block where
  bytes : List UInt8
  length_lt : bytes.length < 2 ^ 31

/-- A string of one byte. -/
def Block.single (b : UInt8) : Block := ⟨[b], by simp⟩

/-- A difference of lengths is the wrapped one. -/
@[simp] theorem subSize_result (a b : ℕ) : (subSize a b).result = .ok (wrapSub a b) := rfl

/-- A difference is logged with its operands. -/
@[simp] theorem subSize_log (a b : ℕ) : (subSize a b).log = [.sub a b] := rfl

/-- An allocation logs nothing. -/
@[simp] theorem alloc_log (heap : Heap) (n : ℕ) : (alloc heap n).log = [] := by
  unfold alloc
  cases heap n <;> rfl

/-- An allocation succeeds with the block that the heap has for its size. -/
theorem alloc_result_eq_ok {heap : Heap} {n : ℕ} {m : Mem} :
    (alloc heap n).result = .ok m ↔ heap n = some m := by
  unfold alloc
  cases heap n <;> simp

/-- A copy is logged with where it goes and how much room there is. -/
@[simp] theorem memcpyIn_log (block : Mem) (size off : ℕ) (input : Mem) (src n : ℕ) :
    (memcpyIn block size off input src n).log = [.copyIn n off size] := by
  rw [memcpyIn, Exec.log_bind_of_ok rfl]
  split <;> rfl

/-- A copy that returned stayed inside its destination. -/
theorem memcpyIn_result_eq_ok {block : Mem} {size off : ℕ} {input : Mem} {src n : ℕ} {m : Mem} :
    (memcpyIn block size off input src n).result = .ok m ↔
      off + n ≤ size ∧ m = write block off (slice input src n) := by
  rw [memcpyIn, Exec.result_bind_of_ok rfl]
  split
  · simp [*, eq_comm]
  · simp [*]

/-- A buffer that is asked for logs the size, whether it grows or not. -/
@[simp] theorem Growable.need_log (g : Growable) (heap : Heap) (what : ℕ) :
    (g.need heap what).log = [.need what] := by
  rw [Growable.need, Exec.log_bind_of_ok rfl]
  split
  · cases h : (alloc heap (toSize what)).result with
    | ok p => rw [Exec.log_bind_of_ok h, alloc_log]; rfl
    | error e => rw [Exec.log_bind_of_error h, alloc_log]; rfl
  · rfl

/-- A granted request left the buffer alone when it was large enough, and replaced it by a fresh
block of exactly the requested size otherwise. -/
theorem Growable.need_result_eq_ok {g g' : Growable} {heap : Heap} {what : ℕ} :
    (g.need heap what).result = .ok g' ↔
      if g.size < toSize what then
        ∃ p, heap (toSize what) = some p ∧ g' = .fresh what p
      else g' = g := by
  rw [Growable.need, Exec.result_bind_of_ok rfl]
  split
  · rw [Exec.result_bind_eq_ok]
    simp only [alloc_result_eq_ok, Exec.result_pure, Except.ok.injEq, eq_comm]
  · simp [eq_comm]

/-- A granted request leaves room for what was asked. -/
theorem Growable.le_size_of_need {g g' : Growable} {heap : Heap} {what : ℕ}
    (h : (g.need heap what).result = .ok g') : toSize what ≤ g'.size := by
  rw [need_result_eq_ok] at h
  split at h
  · obtain ⟨p, -, rfl⟩ := h
    exact Nat.le_refl _
  · subst h
    omega

/-- A request for what is there changes nothing. -/
theorem Growable.need_result_of_le {g : Growable} {what : ℕ} (heap : Heap)
    (h : toSize what ≤ g.size) : (g.need heap what).result = .ok g := by
  rw [need_result_eq_ok, if_neg (by omega)]

end Dot1x.Eap
