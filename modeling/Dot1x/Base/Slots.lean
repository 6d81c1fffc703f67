import Mathlib.Algebra.Group.Fin.Basic
import Mathlib.Data.List.Basic
import Mathlib.Data.List.Nodup
import Mathlib.Data.List.Range
import Mathlib.Algebra.GroupWithZero.Nat

/-!
# Consecutive slots of a ring

A ring of `m` slots is `Fin m` with its modular addition. The slots in use are consecutive, from a
first one on; a slot is taken at the end and given back at the beginning. Where entries are taken in
the order of a time stamp, giving back the expired ones from the beginning gives back all of them.
-/

namespace Dot1x.Base

variable {m : ℕ} [NeZero m]

/-- The slots from `first` on. -/
def slots (first : Fin m) (n : ℕ) : List (Fin m) :=
  (List.range n).map fun k => first + Fin.ofNat m k

/-- The first slot and those after it. -/
theorem slots_succ (first : Fin m) (n : ℕ) :
    slots first (n + 1) = first :: slots (first + 1) n := by
  have hone : (1 : Fin m) = Fin.ofNat m 1 := rfl
  have hstep (k : ℕ) : first + Fin.ofNat m (k + 1) = first + 1 + Fin.ofNat m k := by
    rw [add_assoc, hone]
    congr 1
    apply Fin.ext
    simp [Fin.val_add, Nat.add_comm]
  simp only [slots, List.range_succ_eq_map, List.map_cons, List.map_map, Function.comp_def,
    Nat.succ_eq_add_one, hstep, Fin.ofNat_zero, add_zero]

/-- The last slot and those before it. -/
theorem slots_concat (first : Fin m) (n : ℕ) :
    slots first (n + 1) = slots first n ++ [first + Fin.ofNat m n] := by
  simp [slots, List.range_succ]

/-- Different distances lead to different slots. -/
theorem add_ofNat_inj {first : Fin m} {k n : ℕ} (hk : k < m) (hn : n < m)
    (h : first + Fin.ofNat m k = first + Fin.ofNat m n) : k = n := by
  have hval := congrArg Fin.val (add_left_cancel h)
  rwa [Fin.val_ofNat, Fin.val_ofNat, Nat.mod_eq_of_lt hk, Nat.mod_eq_of_lt hn] at hval

/-- A slot is in use if it is near enough to the first one. -/
theorem mem_slots_iff {first a : Fin m} {n : ℕ} (hn : n ≤ m) :
    a ∈ slots first n ↔ (a - first).val < n := by
  simp only [slots, List.mem_map, List.mem_range]
  constructor
  · rintro ⟨k, hk, rfl⟩
    rwa [add_sub_cancel_left, Fin.val_ofNat, Nat.mod_eq_of_lt (hk.trans_le hn)]
  · intro h
    exact ⟨_, h, by rw [Fin.ofNat_val_eq_self, add_sub_cancel]⟩

/-- The slot after those in use is free, as long as there is a free one. -/
theorem add_ofNat_notMem_slots {first : Fin m} {n : ℕ} (hn : n < m) :
    first + Fin.ofNat m n ∉ slots first n := by
  intro hmem
  obtain ⟨k, hk, heq⟩ := List.mem_map.mp hmem
  have hlt := List.mem_range.mp hk
  have hsame := add_ofNat_inj (hlt.trans hn) hn heq
  omega

/-- The slot after those in use is the first one only if none is in use. -/
theorem add_ofNat_eq_self_iff {first : Fin m} {n : ℕ} (hn : n < m) :
    first + Fin.ofNat m n = first ↔ n = 0 := by
  constructor
  · intro h
    exact add_ofNat_inj hn (Nat.zero_lt_of_lt hn) (h.trans (add_zero first).symm)
  · rintro rfl
    exact add_zero first

/-- Where what may go comes first, dropping from the beginning drops all of it. -/
theorem dropWhile_eq_filter {α : Type*} {p : α → Bool} {l : List α}
    (h : l.Pairwise fun a b => p b = true → p a = true) :
    l.dropWhile p = l.filter fun a => !p a := by
  induction l with
  | nil => rfl
  | cons a l ih =>
    rw [List.pairwise_cons] at h
    cases ha : p a with
    | true => rw [List.dropWhile_cons_of_pos ha, ih h.2, List.filter_cons_of_neg (by simp [ha])]
    | false =>
      have hall : ∀ b ∈ a :: l, (!p b) = true := by
        rw [List.forall_mem_cons]
        refine ⟨by simp [ha], fun b hb => ?_⟩
        cases hpb : p b with
        | true => cases ha.symm.trans (h.1 b hb hpb)
        | false => rfl
      rw [List.dropWhile_cons_of_neg (by simp [ha]), List.filter_eq_self.mpr hall]

end Dot1x.Base
