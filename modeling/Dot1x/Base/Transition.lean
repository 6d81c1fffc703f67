import Mathlib.Logic.Basic
import Mathlib.Data.List.Basic

/-!
# Guarded runs of a transition system

A step is a partial function of a state and a label; the label fixes every choice the
environment makes. `Steps step ok` relates the ends of a run all of whose steps satisfy the
guard `ok`, which may read the state before the step. The unguarded runs are the instance with
the guard `fun _ _ => True`. An invariant is shown once for a step and then holds at the end of
every run.
-/

namespace Dot1x.Base

variable {σ α : Type*}

/-- Runs of `step`, oldest label first, whose steps satisfy `ok`. -/
inductive Steps (step : σ → α → Option σ) (ok : σ → α → Prop) : σ → List α → σ → Prop
  | nil (s : σ) : Steps step ok s [] s
  | snoc {s t u : σ} {as : List α} {a : α} :
      Steps step ok s as t → ok t a → step t a = some u → Steps step ok s (as ++ [a]) u

/-- Runs without a guard. -/
abbrev Run (step : σ → α → Option σ) : σ → List α → σ → Prop := Steps step fun _ _ => True

namespace Steps

variable {step : σ → α → Option σ} {ok : σ → α → Prop} {s t u : σ} {as bs : List α}

/-- What holds of no labels and the start, and is preserved by every admitted step, holds of the
labels of a run and its end. -/
theorem trace_invariant {I : List α → σ → Prop} (run : Steps step ok s as t) (init : I [] s)
    (preserve : ∀ as t a u, Steps step ok s as t → I as t → ok t a → step t a = some u →
      I (as ++ [a]) u) : I as t := by
  induction run with
  | nil => exact init
  | snoc first hok hstep ih => exact preserve _ _ _ _ first ih hok hstep

/-- What holds at the start and is preserved by every admitted step holds at the end. -/
theorem invariant {I : σ → Prop} (run : Steps step ok s as t) (init : I s)
    (preserve : ∀ s a t, I s → ok s a → step s a = some t → I t) : I t :=
  run.trace_invariant (I := fun _ => I) init fun _ s a t _ => preserve s a t

/-- A weaker guard admits more runs. -/
theorem mono {ok' : σ → α → Prop} (run : Steps step ok s as t) (h : ∀ s a, ok s a → ok' s a) :
    Steps step ok' s as t := by
  induction run with
  | nil => exact .nil _
  | snoc _ hok hstep ih => exact ih.snoc (h _ _ hok) hstep

/-- What all labels of a run satisfy may be added to its guard. -/
theorem labelled {P : α → Prop} (run : Steps step ok s as t) (h : ∀ a ∈ as, P a) :
    Steps step (fun s a => ok s a ∧ P a) s as t := by
  induction run with
  | nil => exact .nil _
  | snoc _ hok hstep ih =>
    rw [List.forall_mem_append] at h
    exact (ih h.1).snoc ⟨hok, h.2 _ (List.mem_singleton_self _)⟩ hstep

/-- Runs compose. -/
theorem trans (first : Steps step ok s as t) (second : Steps step ok t bs u) :
    Steps step ok s (as ++ bs) u := by
  induction second with
  | nil => rwa [List.append_nil]
  | snoc _ hok hstep ih => exact List.append_assoc .. ▸ ih.snoc hok hstep

/-- A run of one step. -/
theorem single {a : α} (hok : ok s a) (hstep : step s a = some t) : Steps step ok s [a] t :=
  (Steps.nil s).snoc hok hstep

/-- A run without steps. -/
theorem nil_iff : Steps step ok s [] t ↔ t = s := by
  constructor
  · intro run
    generalize hbs : ([] : List α) = bs at run
    cases run with
    | nil => rfl
    | snoc => exact absurd hbs.symm (List.concat_ne_nil _ _)
  · rintro rfl
    exact .nil _

/-- The last step of a run. -/
theorem snoc_iff {a : α} : Steps step ok s (as ++ [a]) u ↔
    ∃ t, Steps step ok s as t ∧ ok t a ∧ step t a = some u := by
  constructor
  · intro run
    generalize hbs : as ++ [a] = bs at run
    cases run with
    | nil => exact absurd hbs (List.concat_ne_nil a as)
    | snoc first hok hstep =>
      obtain ⟨rfl, ha⟩ := List.append_inj' hbs rfl
      cases ha
      exact ⟨_, first, hok, hstep⟩
  · rintro ⟨t, first, hok, hstep⟩
    exact first.snoc hok hstep

/-- The first step of a run. -/
theorem cons_inv {a : α} (run : Steps step ok s (a :: as) u) :
    ∃ t, ok s a ∧ step s a = some t ∧ Steps step ok t as u := by
  generalize hbs : a :: as = bs at run
  induction run generalizing as with
  | nil => exact absurd hbs (List.cons_ne_nil a as)
  | @snoc v w bs b first hok hstep ih =>
    cases bs with
    | nil =>
      cases hbs
      cases nil_iff.mp first
      exact ⟨w, hok, hstep, .nil w⟩
    | cons c bs =>
      rw [List.cons_append] at hbs
      injection hbs with hhead htail
      obtain ⟨t, hfirst, ht, rest⟩ := ih (by rw [hhead])
      exact ⟨t, hfirst, ht, htail ▸ rest.snoc hok hstep⟩

/-- The labels determine the end of a run. -/
theorem deterministic {ok' : σ → α → Prop} (run : Steps step ok s as t)
    (run' : Steps step ok' s as u) : t = u := by
  induction run generalizing u with
  | nil => exact (nil_iff.mp run').symm
  | snoc _ _ hstep ih =>
    obtain ⟨t', first, -, hstep'⟩ := snoc_iff.mp run'
    cases ih first
    exact Option.some.inj (hstep.symm.trans hstep')

/-- Where the guard is exactly what a step has to satisfy to preserve a property, the runs along
which the property holds are those all of whose steps satisfy the guard. -/
theorem forall_prefix_iff {I P : σ → Prop} (run : Run step s as t) (hI : I s) (hP : P s)
    (keep : ∀ s a t, I s → step s a = some t → I t)
    (exact' : ∀ s a t, I s → P s → step s a = some t → (P t ↔ ok s a)) :
    (∀ bs u, bs <+: as → Run step s bs u → P u) ↔ Steps step ok s as t := by
  induction run with
  | nil =>
    refine iff_of_true (fun bs u hbs hu => ?_) (.nil _)
    rw [List.prefix_nil] at hbs
    subst hbs
    rwa [nil_iff.mp hu]
  | @snoc t u as a first _ hstep ih =>
    have hIt : I t := first.invariant hI fun s a t hs _ h => keep s a t hs h
    constructor
    · intro hall
      have hfirst := ih.mp fun bs v hbs =>
        hall bs v (hbs.trans (List.prefix_append as [a]))
      have hPt : P t := hall as t (List.prefix_append as [a]) first
      have hPu : P u := hall (as ++ [a]) u List.prefix_rfl (first.snoc trivial hstep)
      exact hfirst.snoc ((exact' t a u hIt hPt hstep).mp hPu) hstep
    · intro guarded bs v hbs hv
      obtain ⟨t', hguarded, hok, hstep'⟩ := snoc_iff.mp guarded
      cases hguarded.deterministic first
      have hbefore := ih.mpr hguarded
      rcases List.prefix_concat_iff.mp hbs with rfl | hshort
      · cases hv.deterministic (first.snoc trivial hstep)
        exact (exact' t a _ hIt (hbefore as t List.prefix_rfl first) hstep').mpr hok
      · exact hbefore bs v hshort hv

/-- In a run from `s` over the labels `as` to `t`, the step from `u` with the label `a` comes after the
labels `before`, and all steps after it satisfy `keeps`. -/
def Since (step : σ → α → Option σ) (keeps : σ → α → Prop) (s : σ) (as : List α) (t : σ)
    (before : List α) (u : σ) (a : α) : Prop :=
  ∃ after v, as = before ++ a :: after ∧ Run step s before u ∧ step u a = some v ∧
    Steps step keeps v after t

/-- Where a condition holds after a step exactly if the step sets it, or if it held before and the
step keeps it, it holds at the end of a run exactly if it was set and then kept, or held at the
start and was kept throughout. -/
theorem since_iff {P : σ → Prop} {sets keeps : σ → α → Prop} (run : Run step s as t)
    (h : ∀ s a t, step s a = some t → (P t ↔ sets s a ∨ P s ∧ keeps s a)) :
    P t ↔ (∃ before u a, sets u a ∧ Since step keeps s as t before u a) ∨
      P s ∧ Steps step keeps s as t := by
  induction run with
  | nil =>
    constructor
    · exact fun hs => Or.inr ⟨hs, .nil _⟩
    · rintro (⟨before, u, a, -, after, v, hnil, -⟩ | ⟨hs, -⟩)
      · exact absurd hnil.symm (List.append_ne_nil_of_right_ne_nil before (List.cons_ne_nil a after))
      · exact hs
  | @snoc t u as a first _ hstep ih =>
    rw [h t a u hstep, ih]
    constructor
    · rintro (hsets | ⟨⟨before, v, b, hsets, after, w, rfl, hbefore, hset, hkept⟩ | ⟨hs, hkept⟩,
        hkeeps⟩)
      · exact Or.inl ⟨as, t, a, hsets, [], u, rfl, first, hstep, .nil u⟩
      · refine Or.inl ⟨before, v, b, hsets, after ++ [a], w, ?_, hbefore, hset,
          hkept.snoc hkeeps hstep⟩
        rw [List.append_assoc, List.cons_append]
      · exact Or.inr ⟨hs, hkept.snoc hkeeps hstep⟩
    · rintro (⟨before, v, b, hsets, after, w, hsplit, hbefore, hset, hkept⟩ | ⟨hs, hkept⟩)
      · rcases List.eq_nil_or_concat' after with rfl | ⟨after, c, rfl⟩
        · obtain ⟨rfl, hlast⟩ := List.append_inj' hsplit rfl
          cases hlast
          cases hbefore.deterministic first
          exact Or.inl hsets
        · obtain ⟨x, hkeptBefore, hkeeps, -⟩ := snoc_iff.mp hkept
          rw [← List.cons_append, ← List.append_assoc] at hsplit
          obtain ⟨rfl, hend⟩ := List.append_inj' hsplit rfl
          cases hend
          have hx : Run step s (before ++ b :: after) x :=
            hbefore.trans ((single trivial hset).trans (hkeptBefore.mono fun _ _ _ => trivial))
          cases hx.deterministic first
          exact Or.inr
            ⟨Or.inl ⟨before, v, b, hsets, after, w, rfl, hbefore, hset, hkeptBefore⟩, hkeeps⟩
      · obtain ⟨x, hkept, hkeeps, -⟩ := snoc_iff.mp hkept
        cases hkept.deterministic first
        exact Or.inr ⟨Or.inr ⟨hs, hkept⟩, hkeeps⟩

end Steps

/-- Evaluate a list of labels. -/
def runLabels (step : σ → α → Option σ) : σ → List α → Option σ
  | s, [] => some s
  | s, a :: as => (step s a).bind fun t => runLabels step t as

/-- Running labels one after the other. -/
theorem runLabels_append {step : σ → α → Option σ} {s : σ} {as bs : List α} :
    runLabels step s (as ++ bs) = (runLabels step s as).bind (runLabels step · bs) := by
  induction as generalizing s with
  | nil => rfl
  | cons a as ih =>
    rw [List.cons_append, runLabels, runLabels, Option.bind_assoc]
    exact congrArg _ (funext fun t => ih)

/-- A run is a successful evaluation. -/
theorem runLabels_of_run {step : σ → α → Option σ} {ok : σ → α → Prop} {s t : σ} {as : List α}
    (run : Steps step ok s as t) : runLabels step s as = some t := by
  induction run with
  | nil => rfl
  | snoc _ _ hstep ih =>
    rw [runLabels_append, ih, Option.bind_some, runLabels, hstep]
    rfl

/-- A successful evaluation is a run. -/
theorem run_of_runLabels {step : σ → α → Option σ} {s t : σ} {as : List α}
    (h : runLabels step s as = some t) : Run step s as t := by
  induction as generalizing s with
  | nil =>
    cases h
    exact .nil _
  | cons a as ih =>
    obtain ⟨u, hu, hrest⟩ := Option.bind_eq_some_iff.mp h
    exact (Steps.single trivial hu).trans (ih hrest)

/-- Make a step only where the guard is satisfied. -/
def guarded (step : σ → α → Option σ) (ok : σ → α → Prop) [∀ s a, Decidable (ok s a)] (s : σ)
    (a : α) : Option σ :=
  if ok s a then step s a else none

/-- A run of guarded steps is a guarded run. -/
theorem Steps.of_guarded {step : σ → α → Option σ} {ok : σ → α → Prop}
    [∀ s a, Decidable (ok s a)] {s t : σ} {as : List α} (run : Run (guarded step ok) s as t) :
    Steps step ok s as t := by
  induction run with
  | nil => exact .nil _
  | snoc _ _ hstep ih =>
    unfold guarded at hstep
    split at hstep
    · rename_i hok
      exact ih.snoc hok hstep
    · cases hstep

end Dot1x.Base
