import Mathlib.Data.List.DropRight
import Mathlib.Data.List.Infix

/-!
# Streaks

The streak of a history is the number of events at its end that satisfy a predicate, counted back to
the last one that does not. A counter that is incremented for the former and cleared for the latter
holds the streak.
-/

namespace Dot1x.Base

variable {α : Type} {p : α → Bool} {past : List α} {e : α} {n : ℕ}

/-- How many events at the end of a history satisfy the predicate, one after the other. -/
def streak (p : α → Bool) (past : List α) : ℕ := (past.rtakeWhile p).length

/-- There is no streak in an empty list. -/
@[simp] theorem streak_nil : streak p [] = 0 := by simp [streak]

/-- One more. -/
theorem streak_concat_of_pos (h : p e) : streak p (past ++ [e]) = streak p past + 1 := by
  rw [streak, List.rtakeWhile_concat_pos p past e h, List.length_append, streak]
  rfl

/-- The end of a streak. -/
theorem streak_concat_of_neg (h : ¬p e) : streak p (past ++ [e]) = 0 := by
  rw [streak, List.rtakeWhile_concat_neg p past e h, List.length_nil]

/-- A streak of equal events is a suffix of the history. -/
theorem replicate_suffix_iff [DecidableEq α] :
    List.replicate n e <:+ past ↔ n ≤ streak (fun x => x = e) past := by
  induction past using List.reverseRecOn generalizing n with
  | nil => rw [List.suffix_nil, List.replicate_eq_nil_iff, streak_nil, Nat.le_zero]
  | append_singleton past x ih =>
    cases n with
    | zero => simp
    | succ n =>
      rw [List.replicate_succ', List.suffix_concat_iff]
      by_cases hx : x = e
      · subst hx
        rw [streak_concat_of_pos (by simp), Nat.succ_le_succ_iff, ← ih]
        constructor
        · rintro (hnil | ⟨row, hrow, hsuffix⟩)
          · exact absurd hnil (List.concat_ne_nil _ _)
          · rwa [List.append_cancel_right hrow]
        · exact fun h => Or.inr ⟨_, rfl, h⟩
      · rw [streak_concat_of_neg (by simpa using hx)]
        refine iff_of_false ?_ (Nat.not_succ_le_zero n)
        rintro (hnil | ⟨row, hrow, -⟩)
        · exact List.concat_ne_nil _ _ hnil
        · exact hx (List.cons.inj (List.append_inj' hrow rfl).2).1.symm

end Dot1x.Base
