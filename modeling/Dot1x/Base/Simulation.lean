import Dot1x.Base.Exec

/-!
# Executions of two models

A detailed execution simulates an abstract one when both return related values or both end in the
same failure. What they log on the way is not compared: the detailed one may log more. There is one
rule for each way an execution is built.
-/

namespace Dot1x.Base.Exec

variable {ε ε' φ α α' β β' : Type} {R : α → β → Prop} {x : Exec ε φ α} {y : Exec ε' φ β}

/-- Both return related values or end in the same failure. -/
structure Simulates (R : α → β → Prop) (x : Exec ε φ α) (y : Exec ε' φ β) : Prop where
  ok : ∀ a, x.result = .ok a → ∃ b, y.result = .ok b ∧ R a b
  error : ∀ e, x.result = .error e → y.result = .error e

namespace Simulates

/-- Values that are related are simulations of each other. -/
theorem pure {a : α} {b : β} (h : R a b) :
    Simulates R (pure a : Exec ε φ α) (pure b : Exec ε' φ β) where
  ok _ ha := ⟨b, rfl, by cases ha; exact h⟩
  error _ he := by cases he

/-- A failure simulates the same failure. -/
theorem fail (e : φ) : Simulates R (Exec.fail e : Exec ε φ α) (Exec.fail e : Exec ε' φ β) where
  ok _ ha := by cases ha
  error _ he := by cases he; rfl

/-- A simulation holds for every weaker relation. -/
theorem mono {R' : α → β → Prop} (h : Simulates R x y) (himp : ∀ a b, R a b → R' a b) :
    Simulates R' x y where
  ok a ha := (h.ok a ha).imp fun b hb => ⟨hb.1, himp a b hb.2⟩
  error := h.error

/-- The same result in both. -/
theorem of_result_eq {x : Exec ε φ α} {y : Exec ε' φ α} (h : x.result = y.result) :
    Simulates (· = ·) x y where
  ok a ha := ⟨a, h.symm.trans ha, rfl⟩
  error _ he := h.symm.trans he

/-- Related first parts, and related continuations of related values. -/
theorem bind {f : α → Exec ε φ α'} {g : β → Exec ε' φ β'} {S : α' → β' → Prop}
    (first : Simulates R x y) (rest : ∀ a b, R a b → Simulates S (f a) (g b)) :
    Simulates S (x >>= f) (y >>= g) where
  ok a' ha := by
    obtain ⟨a, hx, hf⟩ := result_bind_eq_ok.mp ha
    obtain ⟨b, hy, hab⟩ := first.ok a hx
    obtain ⟨b', hg, hS⟩ := (rest a b hab).ok a' hf
    exact ⟨b', result_bind_eq_ok.mpr ⟨b, hy, hg⟩, hS⟩
  error e he := by
    rcases result_bind_eq_error.mp he with hx | ⟨a, hx, hf⟩
    · exact result_bind_eq_error.mpr (Or.inl (first.error e hx))
    · obtain ⟨b, hy, hab⟩ := first.ok a hx
      exact result_bind_eq_error.mpr (Or.inr ⟨b, hy, (rest a b hab).error e hf⟩)

end Simulates

end Dot1x.Base.Exec
