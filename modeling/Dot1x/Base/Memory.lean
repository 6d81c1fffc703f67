import Mathlib.Algebra.Group.Nat.Defs
import Mathlib.Data.List.Basic
import Mathlib.Data.List.GetD
import Mathlib.Data.List.TakeWhile
import Mathlib.Logic.Function.Basic

/-!
# Byte memories

A memory is a total map from offsets to bytes. Totality means that a read past the end of an
object is not an error of the model: it yields an arbitrary byte, as a read past a captured
frame does. Bounds are stated where they matter, by whoever owns the object.

Every store is one `write` of a byte list, so one pair of read lemmas covers single bytes,
words and block copies.
-/

namespace Dot1x.Base

/-- Byte contents by offset. -/
abbrev Mem := ℕ → UInt8

/-- The `n` bytes from offset `start` on. -/
def slice (m : Mem) (start n : ℕ) : List UInt8 := (List.range n).map fun i => m (start + i)

/-- Store the bytes `bs` from offset `start` on. -/
def write (m : Mem) (start : ℕ) (bs : List UInt8) : Mem :=
  fun i => if start ≤ i ∧ i < start + bs.length then bs.getD (i - start) 0 else m i

/-- The text at a pointer to characters. -/
def cstring (bytes : List UInt8) : List UInt8 := bytes.takeWhile (· ≠ 0)

/-- A slice is as long as asked for. -/
@[simp] theorem slice_length (m : Mem) (start n : ℕ) : (slice m start n).length = n := by
  simp [slice]

/-- A slice of no bytes is empty. -/
@[simp] theorem slice_zero (m : Mem) (start : ℕ) : slice m start 0 = [] := rfl

/-- A slice holds the bytes of the memory from its start on. -/
theorem slice_getElem (m : Mem) (start n i : ℕ) (hi : i < (slice m start n).length) :
    (slice m start n)[i] = m (start + i) := by
  simp [slice]

/-- The same for the lookup with a default value. -/
theorem slice_getD (m : Mem) (start : ℕ) {n i : ℕ} (hi : i < n) :
    (slice m start n).getD i 0 = m (start + i) := by
  rw [List.getD_eq_getElem _ _ (by rwa [slice_length]), slice_getElem]

/-- A slice depends on the bytes it covers only. -/
theorem slice_congr {m m' : Mem} {start n : ℕ}
    (h : ∀ i, start ≤ i → i < start + n → m i = m' i) : slice m start n = slice m' start n := by
  apply List.map_congr_left
  intro i hi
  have hlt : i < n := List.mem_range.mp hi
  exact h (start + i) (by omega) (by omega)

/-- Consecutive slices concatenate. -/
theorem slice_append (m : Mem) (start n k : ℕ) :
    slice m start n ++ slice m (start + n) k = slice m start (n + k) := by
  simp [slice, List.range_add, Function.comp_def, Nat.add_assoc]

/-- The first bytes of a slice. -/
theorem take_slice (m : Mem) (start : ℕ) {n k : ℕ} (h : k ≤ n) :
    (slice m start n).take k = slice m start k := by
  rw [← Nat.add_sub_cancel' h, ← slice_append, List.take_left' (slice_length ..)]

/-- A slice beginning at a known byte. -/
theorem slice_succ (m : Mem) (start n : ℕ) :
    slice m start (n + 1) = m start :: slice m (start + 1) n := by
  rw [Nat.add_comm n 1, ← slice_append]
  rfl

/-- A byte outside the stored range keeps its value. -/
theorem write_of_outside {m : Mem} {start i : ℕ} {bs : List UInt8}
    (h : i < start ∨ start + bs.length ≤ i) : write m start bs i = m i := by
  rw [write, if_neg (by omega)]

/-- A byte inside the stored range has the stored value. -/
theorem write_of_inside {m : Mem} {start i : ℕ} {bs : List UInt8}
    (hl : start ≤ i) (hr : i < start + bs.length) :
    write m start bs i = bs.getD (i - start) 0 := by
  rw [write, if_pos ⟨hl, hr⟩]

/-- Storing one byte and reading it back. -/
@[simp] theorem write_singleton_self (m : Mem) (start : ℕ) (b : UInt8) :
    write m start [b] start = b := by
  simp [write]

/-- Reading back a whole stored block. -/
@[simp] theorem slice_write_self (m : Mem) (start : ℕ) (bs : List UInt8) :
    slice (write m start bs) start bs.length = bs := by
  apply List.ext_getElem (by simp)
  intro i hi hi'
  rw [slice_getElem, write_of_inside (by omega) (by omega), Nat.add_sub_cancel_left,
    List.getD_eq_getElem _ _ hi']

/-- Reading back a stored block whose length is known under another name. -/
theorem slice_write_eq {m : Mem} {start n : ℕ} {bs : List UInt8} (h : bs.length = n) :
    slice (write m start bs) start n = bs := by
  rw [← h, slice_write_self]

/-- A slice that does not meet the stored range is unchanged. -/
theorem slice_write_disjoint {m : Mem} {start s n : ℕ} {bs : List UInt8}
    (h : s + n ≤ start ∨ start + bs.length ≤ s) : slice (write m start bs) s n = slice m s n :=
  slice_congr fun _ _ _ => write_of_outside (by omega)

/-- Bytes stored over zeros, with the zeros behind them. -/
theorem slice_write_padded (m : Mem) (start : ℕ) {bs : List UInt8} {n k : ℕ} (hle : bs.length ≤ n)
    (hn : n ≤ k) : slice (write (write m start (List.replicate k 0)) start bs) start n =
      bs ++ List.replicate (n - bs.length) 0 := by
  have hzero : slice (write m start (List.replicate k 0)) (start + bs.length) (n - bs.length) =
      List.replicate (n - bs.length) 0 := by
    refine List.eq_replicate_iff.mpr ⟨slice_length .., fun b hb => ?_⟩
    obtain ⟨i, hi, rfl⟩ := List.mem_map.mp hb
    have hi := List.mem_range.mp hi
    rw [write_of_inside (by omega) (by rw [List.length_replicate]; omega)]
    exact List.getD_replicate _ (by omega)
  rw [← Nat.add_sub_cancel' hle, ← slice_append, Nat.add_sub_cancel' hle, slice_write_self,
    slice_write_disjoint (Or.inr (Nat.le_refl _)), hzero]

/-- Storing the bytes that are there. -/
theorem write_slice_self (m : Mem) (start n : ℕ) : write m start (slice m start n) = m := by
  funext i
  by_cases hi : start ≤ i ∧ i < start + n
  · have hlt : i - start < (slice m start n).length := by
      rw [slice_length]
      omega
    rw [write_of_inside hi.1 (by rw [slice_length]; exact hi.2), List.getD_eq_getElem _ _ hlt,
      slice_getElem, Nat.add_sub_cancel' hi.1]
  · exact write_of_outside (by rw [slice_length]; omega)

/-- Storing nothing. -/
@[simp] theorem write_nil (m : Mem) (start : ℕ) : write m start [] = m :=
  funext fun _ => write_of_outside (by simp; omega)

/-- Storing one of the stored bytes again. -/
theorem write_write_set (m : Mem) (start : ℕ) {k : ℕ} {bs : List UInt8} (hk : k < bs.length)
    (b : UInt8) :
    write (write m start bs) (start + k) [b] = write m start (bs.set k b) := by
  funext i
  by_cases hi : i = start + k
  · subst hi
    rw [write_singleton_self, write_of_inside (Nat.le_add_right ..) (by rw [List.length_set]; omega),
      Nat.add_sub_cancel_left, List.getD_eq_getElem _ _ (by rwa [List.length_set]),
      List.getElem_set_self]
  · rw [write_of_outside (by rw [List.length_singleton]; omega)]
    by_cases hin : start ≤ i ∧ i < start + bs.length
    · rw [write_of_inside hin.1 hin.2, write_of_inside hin.1 (by rw [List.length_set]; exact hin.2),
        List.getD_eq_getElem _ _ (by omega),
        List.getD_eq_getElem _ _ (by rw [List.length_set]; omega), List.getElem_set_ne (by omega)]
    · rw [write_of_outside (by omega), write_of_outside (by rw [List.length_set]; omega)]

/-- Storing the same bytes twice is storing them once, whatever was stored in between. -/
theorem write_eq_write_of_outside {m m' : Mem} {start : ℕ} {bs : List UInt8}
    (h : ∀ i, i < start ∨ start + bs.length ≤ i → m i = m' i) :
    write m start bs = write m' start bs := by
  funext i
  by_cases hi : start ≤ i ∧ i < start + bs.length
  · rw [write_of_inside hi.1 hi.2, write_of_inside hi.1 hi.2]
  · rw [write_of_outside (by omega), write_of_outside (by omega), h i (by omega)]

/-- The value of a little-endian byte string. -/
def leValue : List UInt8 → ℕ
  | [] => 0
  | b :: bs => b.toNat + 256 * leValue bs

/-- The `w` low bytes of a number, least significant first. -/
def leBytes : ℕ → ℕ → List UInt8
  | 0, _ => []
  | w + 1, n => UInt8.ofNat n :: leBytes w (n / 256)

/-- The bytes of a number are as many as asked for. -/
@[simp] theorem leBytes_length (w n : ℕ) : (leBytes w n).length = w := by
  induction w generalizing n with
  | zero => rfl
  | succ w ih => simp [leBytes, ih]

/-- Only the low `w` bytes survive a store. -/
theorem leValue_leBytes (w n : ℕ) : leValue (leBytes w n) = n % 256 ^ w := by
  induction w generalizing n with
  | zero => simp [leBytes, leValue, Nat.mod_one]
  | succ w ih =>
    have hsplit : n % (256 * 256 ^ w) = n % 256 + 256 * (n / 256 % 256 ^ w) := Nat.mod_mul
    rw [leBytes, leValue, ih, UInt8.toNat_ofNat', Nat.pow_succ' (m := 256), hsplit]

/-- A byte string is recovered from its value and its length. -/
theorem leBytes_leValue (bs : List UInt8) : leBytes bs.length (leValue bs) = bs := by
  induction bs with
  | nil => rfl
  | cons b bs ih =>
    have hb : b.toNat < 2 ^ 8 := b.toNat_lt
    have hlow : UInt8.ofNat (b.toNat + 256 * leValue bs) = b := by
      apply UInt8.toNat_inj.mp
      rw [UInt8.toNat_ofNat']
      omega
    have hrest : (b.toNat + 256 * leValue bs) / 256 = leValue bs := by omega
    rw [List.length_cons, leValue, leBytes, hlow, hrest, ih]

/-- Bytes hold no more than they have room for. -/
theorem leValue_lt (bs : List UInt8) : leValue bs < 256 ^ bs.length := by
  rw [← leBytes_leValue bs, leValue_leBytes, leBytes_length]
  exact Nat.mod_lt _ (Nat.pow_pos (by decide))

/-- A text without zeros is what it is. -/
theorem cstring_of_notMem {bytes : List UInt8} (h : 0 ∉ bytes) : cstring bytes = bytes :=
  List.takeWhile_eq_self_iff.mpr fun b hb => by
    rw [decide_eq_true_eq]
    rintro rfl
    exact h hb

/-- A text ends at the first zero. -/
theorem cstring_append_zero (bytes rest : List UInt8) : cstring (bytes ++ 0 :: rest) = cstring bytes := by
  unfold cstring
  rw [List.takeWhile_append]
  split
  · rename_i hall
    rw [(List.takeWhile_prefix _).eq_of_length hall]
    simp
  · rfl

/-- The rest of a slice. -/
theorem drop_slice (m : Mem) (start : ℕ) {n k : ℕ} (h : k ≤ n) :
    (slice m start n).drop k = slice m (start + k) (n - k) := by
  rw [← Nat.add_sub_cancel' h, ← slice_append, List.drop_left' (slice_length ..),
    Nat.add_sub_cancel' h]

/-- Bytes stored behind a slice. -/
theorem slice_write_append (m : Mem) (n : ℕ) {k : ℕ} {bs : List UInt8} (h : bs.length = k) :
    slice (write m n bs) 0 (n + k) = slice m 0 n ++ bs := by
  rw [← slice_append, slice_write_disjoint (Or.inl (Nat.zero_add n).le), Nat.zero_add,
    slice_write_eq h]

/-- A byte stored behind a slice. -/
theorem slice_write_concat (m : Mem) (n : ℕ) (b : UInt8) :
    slice (write m n [b]) 0 (n + 1) = slice m 0 n ++ [b] := by
  rw [← slice_append, slice_write_disjoint (Or.inl (Nat.zero_add n).le), Nat.zero_add]
  exact congrArg (slice m 0 n ++ ·) (slice_write_self m n [b])

/-- A text with a zero behind it in a larger block. -/
theorem cstring_slice {m : Mem} {t : List UInt8} {n : ℕ} (h : slice m 0 (t.length + 1) = t ++ [0])
    (hlt : t.length < n) : cstring (slice m 0 n) = cstring t := by
  have hn : n = t.length + 1 + (n - (t.length + 1)) := by omega
  rw [hn, ← slice_append, h, List.append_assoc]
  exact cstring_append_zero ..

end Dot1x.Base
