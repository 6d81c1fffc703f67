import Dot1x.Base.Blocks

/-!
# Hashing block by block

An iterated hash function has a compression function absorb a text one block after the other. An
implementation that is given the text in pieces keeps the state and the items that do not make up a
block yet; `Absorbed` is what such a pair has to do with the text so far. It also counts the text,
often in two words, and writes the count behind it.
-/

namespace Dot1x.Base

section Absorb

variable {σ α : Type*} (compress : σ → List α → σ) (w : ℕ)

/-- Absorb the whole blocks of a text. -/
def absorb (s : σ) (text : List α) : σ := (blocks w (text.length / w) text).foldl compress s

/-- Some whole blocks of a text were absorbed and the rest is pending. -/
def Absorbed (init : σ) (text : List α) (s : σ) (pending : List α) : Prop :=
  ∃ taken, text = taken ++ pending ∧ w ∣ taken.length ∧ s = absorb compress w init taken

variable {compress} {w} {s init : σ} {text pending : List α}

/-- Nothing to absorb leaves the state, the base of the inductions over pieces. -/
@[simp] theorem absorb_nil (s : σ) : absorb compress w s [] = s := by
  simp [absorb, blocks]

/-- The first block is absorbed first. -/
theorem absorb_block (hw : 0 < w) (s : σ) {b : List α} (hb : b.length = w) (rest : List α) :
    absorb compress w s (b ++ rest) = absorb compress w (compress s b) rest := by
  have hcount : (b ++ rest).length / w = rest.length / w + 1 := by
    rw [List.length_append, hb, Nat.add_comm, Nat.add_div_right _ hw]
  rw [absorb, hcount, blocks, List.take_left' hb, List.drop_left' hb, List.foldl_cons, absorb]

/-- A text that ends with a block may be absorbed before another is known. -/
theorem absorb_append (hw : 0 < w) (s : σ) {taken : List α} (h : w ∣ taken.length) (rest : List α) :
    absorb compress w s (taken ++ rest) = absorb compress w (absorb compress w s taken) rest := by
  obtain ⟨n, hn⟩ := h
  induction n generalizing s taken with
  | zero => rw [List.length_eq_zero_iff.mp hn, List.nil_append, absorb_nil]
  | succ n ih =>
    have hsucc : w * (n + 1) = w * n + w := Nat.mul_succ w n
    have hfirst : (taken.take w).length = w := by
      rw [List.length_take]
      omega
    have hothers : (taken.drop w).length = w * n := by
      rw [List.length_drop]
      omega
    rw [← List.take_append_drop w taken, List.append_assoc, absorb_block hw s hfirst,
      absorb_block hw s hfirst, ih _ hothers]

/-- Nothing was absorbed yet. -/
theorem Absorbed.start (init : σ) : Absorbed compress w init [] init [] :=
  ⟨[], rfl, Nat.dvd_zero w, (absorb_nil init).symm⟩

/-- What comes in is put behind what is pending. -/
theorem Absorbed.push (h : Absorbed compress w init text s pending) (more : List α) :
    Absorbed compress w init (text ++ more) s (pending ++ more) := by
  obtain ⟨taken, rfl, hdvd, hs⟩ := h
  exact ⟨taken, List.append_assoc .., hdvd, hs⟩

/-- Blocks that are pending are absorbed. -/
theorem Absorbed.flush (hw : 0 < w) {rest : List α}
    (h : Absorbed compress w init text s (pending ++ rest)) (hdvd : w ∣ pending.length) :
    Absorbed compress w init text (absorb compress w s pending) rest := by
  obtain ⟨taken, rfl, hdvd', rfl⟩ := h
  refine ⟨taken ++ pending, (List.append_assoc ..).symm, ?_, (absorb_append hw init hdvd' _).symm⟩
  rw [List.length_append]
  exact Nat.dvd_add hdvd' hdvd

/-- When nothing is pending the text was absorbed. -/
theorem Absorbed.eq_absorb (h : Absorbed compress w init text s []) :
    s = absorb compress w init text := by
  obtain ⟨taken, rfl, -, rfl⟩ := h
  rw [List.append_nil]

/-- What is pending is a part of the text. -/
theorem Absorbed.length_le (h : Absorbed compress w init text s pending) :
    pending.length ≤ text.length := by
  obtain ⟨taken, rfl, -, -⟩ := h
  simp

/-- All but what is pending makes up blocks. -/
theorem Absorbed.mod_eq (h : Absorbed compress w init text s pending) :
    text.length % w = pending.length % w := by
  obtain ⟨taken, rfl, ⟨n, hn⟩, -⟩ := h
  rw [List.length_append, hn, Nat.mul_add_mod]

end Absorb

section Counter

/-- Add a number to one that is kept in two words, the low word first. -/
def addCarry (total : UInt32 × UInt32) (n : ℕ) : UInt32 × UInt32 :=
  let low := total.1 + UInt32.ofNat n
  (low, if low.toNat < n then total.2 + 1 else total.2)

/-- The number in two words. -/
def wordsValue (total : UInt32 × UInt32) : ℕ := total.1.toNat + 2 ^ 32 * total.2.toNat

/-- The two words of the number, multiplied by eight. -/
def timesEight (total : UInt32 × UInt32) : UInt32 × UInt32 :=
  (total.1 <<< 3, total.2 <<< 3 ||| total.1 >>> 29)

/-- The carry is noticed when a word was added. -/
theorem wordsValue_addCarry (total : UInt32 × UInt32) {n : ℕ} (hn : n < 2 ^ 32) :
    wordsValue (addCarry total n) = (wordsValue total + n) % 2 ^ 64 := by
  have hlow := total.1.toNat_lt
  have hhigh := total.2.toNat_lt
  have hsum : (total.1 + UInt32.ofNat n).toNat = (total.1.toNat + n) % 2 ^ 32 := by
    rw [UInt32.toNat_add, UInt32.toNat_ofNat_of_lt' hn]
  simp only [addCarry, wordsValue, hsum]
  split
  · rw [UInt32.toNat_add, UInt32.toNat_one]
    omega
  · omega

/-- The two words of the bit count hold eight times the byte count, as far as 64 bits go. -/
theorem wordsValue_timesEight (total : UInt32 × UInt32) :
    wordsValue (timesEight total) = 8 * wordsValue total % 2 ^ 64 := by
  have hlow := total.1.toNat_lt
  have hhigh := total.2.toNat_lt
  have hfirst : (total.1 <<< 3).toNat = total.1.toNat * 8 % 2 ^ 32 := by
    rw [UInt32.toNat_shiftLeft]
    exact congrArg (· % 2 ^ 32) (Nat.shiftLeft_eq _ _)
  have hup : (total.2 <<< 3).toNat = (total.2.toNat % 2 ^ 29) <<< 3 := by
    rw [UInt32.toNat_shiftLeft]
    change total.2.toNat <<< 3 % 2 ^ 32 = _
    rw [Nat.shiftLeft_eq, Nat.shiftLeft_eq]
    omega
  have hdown : (total.1 >>> 29).toNat = total.1.toNat / 2 ^ 29 := by
    rw [UInt32.toNat_shiftRight]
    exact Nat.shiftRight_eq_div_pow _ _
  have hsecond : (total.2 <<< 3 ||| total.1 >>> 29).toNat =
      total.2.toNat % 2 ^ 29 * 8 + total.1.toNat / 2 ^ 29 := by
    rw [UInt32.toNat_or, hup, hdown, ← Nat.shiftLeft_add_eq_or_of_lt (by omega), Nat.shiftLeft_eq]
  simp only [timesEight, wordsValue, hfirst, hsecond]
  omega

end Counter

/-- The blocks of some bytes in memory, by their places. -/
theorem blocks_slice_eq (m : Mem) (start w n : ℕ) : blocks w n (slice m start (w * n)) =
    (List.range n).map fun i => slice m (start + w * i) w := by
  induction n generalizing start with
  | zero => rfl
  | succ n ih =>
    rw [blocks_slice, ih, List.range_succ_eq_map, List.map_cons, List.map_map]
    refine congrArg₂ List.cons rfl (List.map_congr_left fun i _ => ?_)
    rw [Function.comp_apply, Nat.succ_eq_add_one, Nat.mul_succ, Nat.add_assoc, Nat.add_comm w]

/-- The low bytes of a number, in two steps. -/
theorem leBytes_add (w k n : ℕ) : leBytes (w + k) n = leBytes w n ++ leBytes k (n / 256 ^ w) := by
  induction w generalizing n with
  | zero => simp [leBytes]
  | succ w ih =>
    have hnext : n / 256 / 256 ^ w = n / 256 ^ (w + 1) := by
      rw [Nat.div_div_eq_div_mul, Nat.pow_succ' (m := 256)]
    rw [Nat.add_right_comm, leBytes, ih, hnext]
    rfl

/-- The low bytes of a number do not depend on what is above them. -/
theorem leBytes_mod (w n : ℕ) : leBytes w (n % 256 ^ w) = leBytes w n := by
  rw [← leValue_leBytes]
  exact (congrArg (leBytes · _) (leBytes_length w n)).symm.trans (leBytes_leValue _)

/-- The bytes of a number in two words. -/
theorem leBytes_words (total : UInt32 × UInt32) :
    leBytes 4 total.1.toNat ++ leBytes 4 total.2.toNat = leBytes 8 (wordsValue total) := by
  have hlow := total.1.toNat_lt
  have hfirst : leBytes 4 (wordsValue total) = leBytes 4 total.1.toNat := by
    rw [← leBytes_mod 4 (wordsValue total), ← leBytes_mod 4 total.1.toNat]
    congr 1
    simp only [wordsValue]
    omega
  have hsecond : wordsValue total / 256 ^ 4 = total.2.toNat := by
    simp only [wordsValue]
    omega
  rw [leBytes_add 4 4, hfirst, hsecond]

end Dot1x.Base
