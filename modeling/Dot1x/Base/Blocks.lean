import Dot1x.Base.Memory
import Mathlib.Data.Nat.Bitwise

/-!
# Blocks

Blocks of bytes that are combined with others in place, and blocks that are copied over memory they
lie in. The size of the pieces in which a block is combined does not matter, and a copy to a lower
address, made in ascending order, is a copy of what was there; so is one to a higher address, made
in descending order.

A chain of blocks is hidden by combining each of them with a pad that is made from the hidden block
before it; so the hidden blocks are enough to undo it.
-/

namespace Dot1x.Base

section Chain

variable {α : Type*} (mix : α → α → α) (pad : α → α)

/-- Each block is combined with the pad of the hidden block before it. -/
def hide : α → List α → List α
  | _, [] => []
  | previous, b :: bs => mix b (pad previous) :: hide (mix b (pad previous)) bs

/-- Each hidden block is combined with the pad of the hidden block before it. -/
def reveal : α → List α → List α
  | _, [] => []
  | previous, c :: cs => mix c (pad previous) :: reveal c cs

variable {mix pad}

/-- What was hidden is revealed, where combining with a pad a second time undoes it. -/
theorem reveal_hide {bs : List α} (hmix : ∀ b ∈ bs, ∀ c, mix (mix b (pad c)) (pad c) = b)
    (previous : α) : reveal mix pad previous (hide mix pad previous bs) = bs := by
  induction bs generalizing previous with
  | nil => rfl
  | cons b bs ih =>
    rw [hide, reveal, hmix b List.mem_cons_self,
      ih (fun b' hb' => hmix b' (List.mem_cons_of_mem b hb'))]

/-- Hiding keeps the number of blocks, which is what the length of the attribute depends on. -/
theorem hide_length (previous : α) (bs : List α) :
    (hide mix pad previous bs).length = bs.length := by
  induction bs generalizing previous with
  | nil => rfl
  | cons b bs ih => rw [hide, List.length_cons, ih, List.length_cons]

/-- What holds of every combined block holds of the hidden ones. -/
theorem forall_mem_hide {P : α → Prop} {bs : List α} (hmix : ∀ b ∈ bs, ∀ c, P (mix b (pad c)))
    (previous : α) : ∀ c ∈ hide mix pad previous bs, P c := by
  induction bs generalizing previous with
  | nil => exact fun c hc => absurd hc List.not_mem_nil
  | cons b bs ih =>
    exact List.forall_mem_cons.mpr ⟨hmix b List.mem_cons_self previous,
      ih (fun b' hb' => hmix b' (List.mem_cons_of_mem b hb')) _⟩

end Chain

section Split

variable {α : Type*} {w n : ℕ} {l : List α}

/-- The first `n` blocks of a list. -/
def blocks (w : ℕ) : ℕ → List α → List (List α)
  | 0, _ => []
  | n + 1, l => l.take w :: blocks w n (l.drop w)

/-- The blocks of a text are the text again, as far as they go. -/
theorem flatten_blocks (w n : ℕ) (l : List α) : (blocks w n l).flatten = l.take (w * n) := by
  induction n generalizing l with
  | zero => rfl
  | succ n ih => rw [blocks, List.flatten_cons, ih, Nat.mul_succ, Nat.add_comm, List.take_add]

/-- Cutting gives as many blocks as asked for. -/
theorem blocks_length (w n : ℕ) (l : List α) : (blocks w n l).length = n := by
  induction n generalizing l with
  | zero => rfl
  | succ n ih => rw [blocks, List.length_cons, ih]

/-- The blocks of a list that is long enough. -/
theorem length_of_mem_blocks (h : w * n ≤ l.length) : ∀ b ∈ blocks w n l, b.length = w := by
  induction n generalizing l with
  | zero => exact fun b hb => absurd hb List.not_mem_nil
  | succ n ih =>
    have hsucc : w * (n + 1) = w * n + w := Nat.mul_succ w n
    refine List.forall_mem_cons.mpr ⟨?_, ih (by rw [List.length_drop]; omega)⟩
    rw [List.length_take]
    omega

/-- What blocks of the same length make up. -/
theorem flatten_length {bs : List (List α)} (h : ∀ b ∈ bs, b.length = w) :
    bs.flatten.length = w * bs.length := by
  induction bs with
  | nil => rfl
  | cons b bs ih =>
    rw [List.flatten_cons, List.length_append, h b List.mem_cons_self,
      ih fun b' hb' => h b' (List.mem_cons_of_mem b hb'), List.length_cons, Nat.mul_succ,
      Nat.add_comm]

/-- Blocks of the same length are the blocks of what they make up. -/
theorem blocks_flatten {bs : List (List α)} (h : ∀ b ∈ bs, b.length = w) :
    blocks w bs.length bs.flatten = bs := by
  induction bs with
  | nil => rfl
  | cons b bs ih =>
    have hb : b.length = w := h b List.mem_cons_self
    rw [List.length_cons, blocks, List.flatten_cons, List.take_left' hb, List.drop_left' hb,
      ih fun b' hb' => h b' (List.mem_cons_of_mem b hb')]

/-- The first block of some bytes in memory, and the others. -/
theorem blocks_slice (m : Mem) (start w n : ℕ) : blocks w (n + 1) (slice m start (w * (n + 1))) =
    slice m start w :: blocks w n (slice m (start + w) (w * n)) := by
  have hle : w ≤ w * (n + 1) := Nat.le_mul_of_pos_right w n.succ_pos
  have hrest : w * (n + 1) - w = w * n := by rw [Nat.mul_succ, Nat.add_sub_cancel]
  rw [blocks, take_slice m start hle, drop_slice m start hle, hrest]

end Split

/-- Combining bytes with others twice. -/
theorem zipWith_xor_cancel {b k : List UInt8} (h : b.length ≤ k.length) :
    List.zipWith (· ^^^ ·) (List.zipWith (· ^^^ ·) b k) k = b := by
  induction b generalizing k with
  | nil => rfl
  | cons x b ih =>
    cases k with
    | nil => exact absurd h (Nat.not_succ_le_zero _)
    | cons y k =>
      rw [List.zipWith_cons_cons, List.zipWith_cons_cons, ih (Nat.le_of_succ_le_succ h),
        UInt8.xor_assoc, UInt8.xor_self, UInt8.xor_zero]

/-- Combining numbers combines their bytes. -/
theorem leBytes_xor (w x y : ℕ) :
    leBytes w (x ^^^ y) = List.zipWith (· ^^^ ·) (leBytes w x) (leBytes w y) := by
  induction w generalizing x y with
  | zero => rfl
  | succ w ih =>
    have hlow : UInt8.ofNat (x ^^^ y) = UInt8.ofNat x ^^^ UInt8.ofNat y := by
      apply UInt8.toNat_inj.mp
      rw [UInt8.toNat_xor, UInt8.toNat_ofNat', UInt8.toNat_ofNat', UInt8.toNat_ofNat']
      exact Nat.xor_mod_two_pow
    have hhigh : (x ^^^ y) / 256 = x / 256 ^^^ y / 256 := @Nat.xor_div_two_pow x y 8
    rw [leBytes, leBytes, leBytes, List.zipWith_cons_cons, hlow, hhigh, ih]

/-- Combine bytes with others in place, `n` times `w` of them. -/
def mixLoop (mix : List UInt8 → List UInt8 → List UInt8) (w : ℕ) :
    ℕ → Mem → ℕ → List UInt8 → Mem
  | 0, m, _, _ => m
  | n + 1, m, buf, pad =>
    mixLoop mix w n (write m buf (mix (slice m buf w) (pad.take w))) (buf + w) (pad.drop w)

/-- Storing bytes and then the bytes behind them. -/
theorem write_write_append (m : Mem) (start : ℕ) (bs cs : List UInt8) :
    write (write m start bs) (start + bs.length) cs = write m start (bs ++ cs) := by
  funext i
  by_cases hfirst : i < start + bs.length
  · rw [write_of_outside (Or.inl hfirst)]
    by_cases hlow : start ≤ i
    · rw [write_of_inside hlow hfirst, write_of_inside hlow (by rw [List.length_append]; omega),
        List.getD_append _ _ _ _ (by omega)]
    · rw [write_of_outside (Or.inl (Nat.not_le.mp hlow)),
        write_of_outside (Or.inl (Nat.not_le.mp hlow))]
  · by_cases hhigh : i < start + bs.length + cs.length
    · rw [write_of_inside (Nat.not_lt.mp hfirst) hhigh,
        write_of_inside (by omega) (by rw [List.length_append]; omega),
        List.getD_append_right _ _ _ _ (by omega), Nat.sub_sub]
    · rw [write_of_outside (by omega), write_of_outside (by omega),
        write_of_outside (by rw [List.length_append]; omega)]

/-- The size of the pieces does not matter. -/
theorem mixLoop_eq {mix : List UInt8 → List UInt8 → List UInt8} {f : UInt8 → UInt8 → UInt8}
    {w : ℕ} (hmix : ∀ b k, b.length = w → k.length = w → mix b k = List.zipWith f b k)
    {n : ℕ} {m : Mem} {buf : ℕ} {pad : List UInt8} (hpad : pad.length = w * n) :
    mixLoop mix w n m buf pad = write m buf (List.zipWith f (slice m buf (w * n)) pad) := by
  induction n generalizing m buf pad with
  | zero => exact (write_nil m buf).symm
  | succ n ih =>
    have hsucc : w * (n + 1) = w + w * n := by rw [Nat.mul_succ, Nat.add_comm]
    have htake : (pad.take w).length = w := by
      rw [List.length_take]
      omega
    have hfirst : mix (slice m buf w) (pad.take w) = List.zipWith f (slice m buf w) (pad.take w) :=
      hmix _ _ (slice_length ..) htake
    have hlength : (List.zipWith f (slice m buf w) (pad.take w)).length = w := by
      rw [List.length_zipWith, slice_length, htake, Nat.min_self]
    have hwhole : List.zipWith f (slice m buf (w + w * n)) pad =
        List.zipWith f (slice m buf w) (pad.take w) ++
          List.zipWith f (slice m (buf + w) (w * n)) (pad.drop w) := by
      rw [← List.zipWith_append (by rw [slice_length, htake]), List.take_append_drop, slice_append]
    rw [mixLoop, ih (by rw [List.length_drop]; omega), hsucc, hwhole, hfirst,
      ← write_write_append, hlength, slice_write_disjoint (Or.inr (by rw [hlength]))]

/-- Copy bytes one after another, those at low addresses first. -/
def copyAscending (m : Mem) (dst src : ℕ) : ℕ → Mem
  | 0 => m
  | n + 1 => write (copyAscending m dst src n) (dst + n) [copyAscending m dst src n (src + n)]

/-- No byte is overwritten before it is copied to a lower address. -/
theorem copyAscending_eq {m : Mem} {dst src : ℕ} (h : dst ≤ src) (n : ℕ) :
    copyAscending m dst src n = write m dst (slice m src n) := by
  induction n with
  | zero => exact (write_nil m dst).symm
  | succ n ih =>
    have hread : write m dst (slice m src n) (src + n) = m (src + n) :=
      write_of_outside (Or.inr (by rw [slice_length]; omega))
    have hlength : dst + n = dst + (slice m src n).length := by rw [slice_length]
    rw [copyAscending, ih, hread, hlength, write_write_append]
    congr 1
    exact slice_append m src n 1

/-- Copy bytes one after another, those at high addresses first. -/
def copyDescending (m : Mem) (dst src : ℕ) : ℕ → Mem
  | 0 => m
  | n + 1 => copyDescending (write m (dst + n) [m (src + n)]) dst src n

/-- Storing bytes behind others first. -/
theorem write_write_before (m : Mem) (start : ℕ) (bs cs : List UInt8) :
    write (write m (start + bs.length) cs) start bs = write m start (bs ++ cs) := by
  rw [← write_write_append]
  funext i
  by_cases hi : start ≤ i ∧ i < start + bs.length
  · rw [write_of_inside hi.1 hi.2, write_of_outside (Or.inl hi.2), write_of_inside hi.1 hi.2]
  · rw [write_of_outside (by omega)]
    by_cases hbehind : start + bs.length ≤ i ∧ i < start + bs.length + cs.length
    · rw [write_of_inside hbehind.1 hbehind.2, write_of_inside hbehind.1 hbehind.2]
    · rw [write_of_outside (by omega), write_of_outside (by omega), write_of_outside (by omega)]

/-- No byte is overwritten before it is copied to a higher address, or to bytes that are apart. -/
theorem copyDescending_eq {m : Mem} {dst src n : ℕ} (h : src ≤ dst ∨ dst + n ≤ src) :
    copyDescending m dst src n = write m dst (slice m src n) := by
  induction n generalizing m with
  | zero => exact (write_nil m dst).symm
  | succ n ih =>
    have hread : slice (write m (dst + n) [m (src + n)]) src n = slice m src n :=
      slice_congr fun i _ _ => write_of_outside (by rw [List.length_singleton]; omega)
    have hlength : dst + n = dst + (slice m src n).length := by rw [slice_length]
    rw [copyDescending, ih (by omega), hread, hlength, write_write_before]
    congr 1
    exact slice_append m src n 1

end Dot1x.Base
