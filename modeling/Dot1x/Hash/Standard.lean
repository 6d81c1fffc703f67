import Dot1x.Hash.Md5

/-!
# The hash of the standard

MD5 as it is defined: one step for each of 64 numbers, with the four variables moving on by one place,
and a text to which a one bit, zeros and the number of its bits were added. The functions of the
program keep the variables in place, mix them with fewer operations and write the steps out.
-/

namespace Dot1x.Hash

open Dot1x.Base

/-- The functions of the four rounds. -/
def mixing (round : ℕ) (x y z : UInt32) : UInt32 :=
  match round with
  | 0 => x &&& y ||| ~~~x &&& z
  | 1 => x &&& z ||| y &&& ~~~z
  | 2 => x ^^^ y ^^^ z
  | _ => y ^^^ (x ||| ~~~z)

/-- The word that a step takes. -/
def wordIndex (i : ℕ) : ℕ :=
  match i / 16 with
  | 0 => i
  | 1 => (5 * i + 1) % 16
  | 2 => (3 * i + 5) % 16
  | _ => 7 * i % 16

/-- How far a step rotates. -/
def shiftAmount (i : ℕ) : ℕ :=
  match i / 16 with
  | 0 => [7, 12, 17, 22].getD (i % 4) 0
  | 1 => [5, 9, 14, 20].getD (i % 4) 0
  | 2 => [4, 11, 16, 23].getD (i % 4) 0
  | _ => [6, 10, 15, 21].getD (i % 4) 0

/-- The constants of the steps, as the program has them. -/
def constants : List UInt32 :=
  [0xd76aa478, 0xe8c7b756, 0x242070db, 0xc1bdceee, 0xf57c0faf, 0x4787c62a, 0xa8304613, 0xfd469501,
    0x698098d8, 0x8b44f7af, 0xffff5bb1, 0x895cd7be, 0x6b901122, 0xfd987193, 0xa679438e, 0x49b40821,
    0xf61e2562, 0xc040b340, 0x265e5a51, 0xe9b6c7aa, 0xd62f105d, 0x02441453, 0xd8a1e681, 0xe7d3fbc8,
    0x21e1cde6, 0xc33707d6, 0xf4d50d87, 0x455a14ed, 0xa9e3e905, 0xfcefa3f8, 0x676f02d9, 0x8d2a4c8a,
    0xfffa3942, 0x8771f681, 0x6d9d6122, 0xfde5380c, 0xa4beea44, 0x4bdecfa9, 0xf6bb4b60, 0xbebfbc70,
    0x289b7ec6, 0xeaa127fa, 0xd4ef3085, 0x04881d05, 0xd9d4d039, 0xe6db99e5, 0x1fa27cf8, 0xc4ac5665,
    0xf4292244, 0x432aff97, 0xab9423a7, 0xfc93a039, 0x655b59c3, 0x8f0ccc92, 0xffeff47d, 0x85845dd1,
    0x6fa87e4f, 0xfe2ce6e0, 0xa3014314, 0x4e0811a1, 0xf7537e82, 0xbd3af235, 0x2ad7d2bb, 0xeb86d391]

/-- The constant of a step. -/
def constant (i : ℕ) : UInt32 := constants.getD i 0

/-- Rotation to the left. -/
def rotate (x : UInt32) (s : ℕ) : UInt32 := ⟨x.toBitVec.rotateLeft s⟩

/-- A word of a block. -/
def blockWord (block : List UInt8) (k : ℕ) : UInt32 :=
  UInt32.ofNat (leValue ((block.drop (4 * k)).take 4))

/-- What is put behind a text of some length. -/
def padding (n : ℕ) : List UInt8 :=
  0x80 :: List.replicate ((119 - n % 64) % 64) 0 ++ leBytes 8 (8 * n)

/-- The bytes of the chaining variables. -/
def chainBytes (r : Chain) : List UInt8 :=
  leBytes 4 r.a.toNat ++ leBytes 4 r.b.toNat ++ leBytes 4 r.c.toNat ++ leBytes 4 r.d.toNat

section

variable (T : ℕ → UInt32)

/-- A step: the variable that is first is replaced, and all move on. -/
def step (words : ℕ → UInt32) (r : Chain) (i : ℕ) : Chain :=
  ⟨r.d, r.b + rotate (r.a + mixing (i / 16) r.b r.c r.d + words (wordIndex i) + T i) (shiftAmount i),
    r.b, r.c⟩

/-- The compression function. -/
def compress (r : Chain) (block : List UInt8) : Chain :=
  let s := (List.range 64).foldl (step T (blockWord block)) r
  ⟨s.a + r.a, s.b + r.b, s.c + r.c, s.d + r.d⟩

/-- MD5 of a text, with the constants of the steps. -/
def digest (text : List UInt8) : List UInt8 :=
  chainBytes (absorb (compress T) blockLen initialChain (text ++ padding text.length))

/-- There is a constant for each of 64 steps. -/
theorem digest_congr {T T' : ℕ → UInt32} (h : ∀ i < 64, T i = T' i) : digest T = digest T' := by
  have hcompress : compress T = compress T' := by
    funext r block
    have hsteps : (List.range 64).foldl (step T (blockWord block)) r =
        (List.range 64).foldl (step T' (blockWord block)) r := by
      apply List.foldl_ext
      intro s i hi
      rw [step, step, h i (List.mem_range.mp hi)]
    rw [compress, compress, hsteps]
  funext text
  rw [digest, digest, hcompress]

end

/-- The optimised functions of the first two rounds are those of the standard. -/
theorem ff_eq (b c d : UInt32) : ff b c d = mixing 0 b c d := by
  apply UInt32.toBitVec_inj.mp
  simp only [ff, mixing, UInt32.toBitVec_xor, UInt32.toBitVec_and, UInt32.toBitVec_or,
    UInt32.toBitVec_not]
  ext i hi
  simp only [BitVec.getElem_xor, BitVec.getElem_and, BitVec.getElem_or, BitVec.getElem_not]
  cases b.toBitVec[i] <;> cases c.toBitVec[i] <;> cases d.toBitVec[i] <;> rfl

/-- The macro `FG` is the mixing function of the second round. -/
theorem fg_eq (b c d : UInt32) : fg b c d = mixing 1 b c d := by
  rw [fg, ff_eq]
  apply UInt32.toBitVec_inj.mp
  simp only [mixing, UInt32.toBitVec_and, UInt32.toBitVec_or, UInt32.toBitVec_not]
  ext i hi
  simp only [BitVec.getElem_and, BitVec.getElem_or, BitVec.getElem_not]
  cases b.toBitVec[i] <;> cases c.toBitVec[i] <;> cases d.toBitVec[i] <;> rfl

/-- `CYCLIC` rotates. -/
private theorem cyclic_eq (w : UInt32) {s : ℕ} (hpos : 0 < s) (hs : s < 32)
    : cyclic w s = rotate w s := by
  have hamount {n : ℕ} (hn : n < 32) : ((UInt32.ofNat n).toBitVec % 32).toNat = n := by
    have hsmall : n < UInt32.size := Nat.lt_trans hn (by decide)
    change (UInt32.ofNat n).toNat % 32 = n
    rw [UInt32.toNat_ofNat_of_lt' hsmall, Nat.mod_eq_of_lt hn]
  apply UInt32.toBitVec_inj.mp
  simp only [cyclic, rotate, UInt32.toBitVec_or, UInt32.toBitVec_shiftLeft,
    UInt32.toBitVec_shiftRight, BitVec.shiftLeft_eq', BitVec.ushiftRight_eq', hamount hs,
    hamount (n := 32 - s) (by omega), BitVec.rotateLeft_eq_rotateLeftAux_of_lt hs,
    BitVec.rotateLeftAux]

/-- Every step rotates. -/
private theorem shiftAmount_bounds (i : ℕ) : 0 < shiftAmount i ∧ shiftAmount i < 32 := by
  have hlt : i % 4 < 4 := Nat.mod_lt i (by decide)
  unfold shiftAmount
  generalize i % 4 = k at hlt
  split <;> revert k <;> decide

/-- What an operation for a step is told. -/
def operand (i : ℕ) : Operand := ⟨wordIndex i, shiftAmount i, constant i⟩

section Rows

variable {f : UInt32 → UInt32 → UInt32 → UInt32} {words : ℕ → UInt32} {i : ℕ}

/-- An operation computes the new variable of a step. -/
theorem op_eq (hf : ∀ x y z, f x y z = mixing (i / 16) x y z) (a b c d : UInt32) :
    op f words a b c d (operand i) = (step constant words ⟨a, b, c, d⟩ i).b := by
  obtain ⟨hpos, hlt⟩ := shiftAmount_bounds i
  simp only [op, operand, step, hf, cyclic_eq _ hpos hlt]
  rw [UInt32.add_comm, UInt32.add_assoc a, UInt32.add_assoc a]

/-- Four operations are four steps. -/
theorem row_eq (hf : ∀ j < 4, ∀ x y z, f x y z = mixing ((i + j) / 16) x y z) (r : Chain) :
    row f words r (operand i) (operand (i + 1)) (operand (i + 2)) (operand (i + 3)) =
      [i, i + 1, i + 2, i + 3].foldl (step constant words) r := by
  have h₀ : ∀ a b c d, op f words a b c d (operand i) = _ := op_eq (hf 0 (by decide))
  have h₁ : ∀ a b c d, op f words a b c d (operand (i + 1)) = _ := op_eq (hf 1 (by decide))
  have h₂ : ∀ a b c d, op f words a b c d (operand (i + 2)) = _ := op_eq (hf 2 (by decide))
  have h₃ : ∀ a b c d, op f words a b c d (operand (i + 3)) = _ := op_eq (hf 3 (by decide))
  simp only [row, h₀, h₁, h₂, h₃]
  rfl

/-- Four rows are a round. -/
theorem round_eq (n : ℕ) (hf : ∀ x y z, f x y z = mixing n x y z) (r : Chain) :
    [16 * n, 16 * n + 4, 16 * n + 8, 16 * n + 12].foldl (fun r i =>
        row f words r (operand i) (operand (i + 1)) (operand (i + 2)) (operand (i + 3))) r =
      (List.range' (16 * n) 16).foldl (step constant words) r := by
  have hmix (k : ℕ) (hk : k + 4 ≤ 16) (j : ℕ) (hj : j < 4) (x y z : UInt32) :
      f x y z = mixing ((16 * n + k + j) / 16) x y z := by
    have hround : (16 * n + k + j) / 16 = n := by omega
    rw [hround, hf]
  simp only [List.foldl_cons, List.foldl_nil]
  rw [row_eq (i := 16 * n) (hmix 0 (by decide)), row_eq (hmix 4 (by decide)), row_eq (hmix 8 (by decide)),
    row_eq (hmix 12 (by decide)), ← List.foldl_append, ← List.foldl_append, ← List.foldl_append]
  rfl

end Rows

/-- The first round is sixteen steps. -/
private theorem round1_eq (words : ℕ → UInt32) (r : Chain) :
    round1 words r = (List.range' 0 16).foldl (step constant words) r :=
  round_eq 0 ff_eq r

/-- The second round is sixteen steps. -/
private theorem round2_eq (words : ℕ → UInt32) (r : Chain) :
    round2 words r = (List.range' 16 16).foldl (step constant words) r :=
  round_eq 1 fg_eq r

/-- The third round is sixteen steps. -/
private theorem round3_eq (words : ℕ → UInt32) (r : Chain) :
    round3 words r = (List.range' 32 16).foldl (step constant words) r :=
  round_eq 2 (fun _ _ _ => rfl) r

/-- The fourth round is sixteen steps. -/
private theorem round4_eq (words : ℕ → UInt32) (r : Chain) :
    round4 words r = (List.range' 48 16).foldl (step constant words) r :=
  round_eq 3 (fun _ _ _ => rfl) r

/-- A word index lies within the block. -/
private theorem wordIndex_lt {i : ℕ} (hi : i < 64) : wordIndex i < 16 := by
  unfold wordIndex
  split
  · omega
  all_goals exact Nat.mod_lt _ (by decide)

/-- The words of a block in memory are those of its bytes. -/
private theorem correctWords_eq (m : Mem) (words : ℕ) {k : ℕ} (hk : k < 16) :
    correctWords m words k = blockWord (slice m words blockLen) k := by
  have hblock : blockLen = 64 := rfl
  rw [correctWords, blockWord, drop_slice m words (by omega), take_slice _ _ (by omega)]

/-- A pass of the loop compresses a block. -/
private theorem processWords_eq (m : Mem) (words : ℕ) (r : Chain) :
    processWords m words r = compress constant r (slice m words blockLen) := by
  have hsteps (word : ℕ → UInt32) : round4 word (round3 word (round2 word (round1 word r))) =
      (List.range 64).foldl (step constant word) r := by
    rw [round1_eq, round2_eq, round3_eq, round4_eq, ← List.foldl_append, ← List.foldl_append,
      ← List.foldl_append]
    rfl
  have hwords : (List.range 64).foldl (step constant (correctWords m words)) r =
      (List.range 64).foldl (step constant (blockWord (slice m words blockLen))) r := by
    apply List.foldl_ext
    intro r i hi
    rw [step, step, correctWords_eq m words (wordIndex_lt (List.mem_range.mp hi))]
  rw [processWords, compress, hsteps, hwords]

/-- The loop compresses one block after the other. -/
private theorem blockLoop_eq (m : Mem) (words n : ℕ) (r : Chain) :
    blockLoop m words n r =
      (blocks blockLen n (slice m words (blockLen * n))).foldl (compress constant) r := by
  rw [blocks_slice_eq, List.foldl_map, blockLoop]
  simp only [processWords_eq]
  rfl

/-- `md5_process_block` absorbs the blocks it is given. -/
theorem processBlock_chain (m : Mem) (buffer : ℕ) {len : ℕ} (h : blockLen ∣ len) (ctx : Md5Ctx) :
    (processBlock m buffer len ctx).chain =
      absorb (compress constant) blockLen ctx.chain (slice m buffer len) := by
  obtain ⟨n, rfl⟩ := h
  have hpasses : (blockLen * n / 4 + 15) / 16 = n := by
    rw [blockLen]
    omega
  have hblocks : blockLen * n / blockLen = n := Nat.mul_div_cancel_left n (by decide)
  rw [processBlock, hpasses, blockLoop_eq, absorb, slice_length, hblocks]

end Dot1x.Hash
