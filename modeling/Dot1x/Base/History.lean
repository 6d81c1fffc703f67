import Dot1x.Base.Exec
import Mathlib.Data.List.Infix

/-!
# Events and what came before them

The log of an execution is a history. `Along P past log` says of every event of the log that it
stands in the relation `P` to the events before it, those of the past included. Whatever has this form
is shown for one step at a time, together with an invariant that relates the history to the state.
-/

namespace Dot1x.Base

variable {ε φ σ α : Type} {P Q : List ε → ε → Prop} {past log log' : List ε} {e : ε}

/-- Every event is related to the history before it. -/
def Along (P : List ε → ε → Prop) (past log : List ε) : Prop :=
  ∀ before e after, log = before ++ e :: after → P (past ++ before) e

namespace Along

/-- The empty trace meets every condition. -/
@[simp] theorem nil : Along P past [] := by
  intro before e after h
  cases List.append_ne_nil_of_right_ne_nil before (List.cons_ne_nil e after) h.symm

/-- The first event and those after it. -/
@[simp] theorem cons_iff : Along P past (e :: log) ↔ P past e ∧ Along P (past ++ [e]) log := by
  constructor
  · intro h
    refine ⟨by simpa using h [] e log rfl, fun before e' after hlog => ?_⟩
    rw [List.append_assoc]
    exact h (e :: before) e' after (congrArg (e :: ·) hlog)
  · rintro ⟨hfirst, hrest⟩ before e' after hlog
    cases before with
    | nil =>
      cases hlog
      rwa [List.append_nil]
    | cons x before =>
      obtain ⟨rfl, htail⟩ := List.cons.inj hlog
      have h := hrest before e' after htail
      rwa [List.append_assoc] at h

/-- A trace meets a condition if its first effect does and the rest does after it. -/
theorem cons (hfirst : P past e) (hrest : Along P (past ++ [e]) log) : Along P past (e :: log) :=
  cons_iff.mpr ⟨hfirst, hrest⟩

/-- A trace of one effect meets a condition if the effect does. -/
theorem single (h : P past e) : Along P past [e] := cons h nil

/-- Two parts of a log. -/
theorem append_iff : Along P past (log ++ log') ↔ Along P past log ∧ Along P (past ++ log) log' := by
  induction log generalizing past with
  | nil => simp
  | cons e log ih =>
    rw [List.cons_append, cons_iff, cons_iff, ih, and_assoc, List.append_assoc]
    rfl

/-- Two relations at once. -/
theorem and (h : Along P past log) (h' : Along Q past log) :
    Along (fun past e => P past e ∧ Q past e) past log :=
  fun before e after hlog => ⟨h before e after hlog, h' before e after hlog⟩

/-- A condition on the single events. -/
theorem of_forall {p : ε → Prop} (h : ∀ e ∈ log, p e) : Along (fun _ => p) past log :=
  fun before e _ hlog => h e (hlog ▸ List.mem_append_right before List.mem_cons_self)

/-- The beginning of a log. -/
theorem of_prefix (h : Along P past log) (hfirst : log' <+: log) : Along P past log' := by
  obtain ⟨rest, rfl⟩ := hfirst
  exact (append_iff.mp h).1

/-- The event at a position, and those before it. -/
theorem getElem? (h : Along P past log) {i : ℕ} (hi : log[i]? = some e) :
    P (past ++ log.take i) e := by
  obtain ⟨hlt, rfl⟩ := List.getElem?_eq_some_iff.mp hi
  exact h _ _ (log.drop (i + 1)) (by rw [← List.drop_eq_getElem_cons hlt, List.take_append_drop])

end Along

namespace Exec

/-- What every step adds to the history stands in the relation, and the invariant is kept. -/
structure Extends (I : List ε → σ → Prop) (P : List ε → ε → Prop) (past : List ε)
    (x : Exec ε φ σ) : Prop where
  along : Along P past x.log
  invariant : ∀ t, x.result = .ok t → I (past ++ x.log) t

/-- The effects of an execution are the first ones of a list; if it returns, they are all of them, and
what it returns is known. -/
structure Within (x : Exec ε φ σ) (full : List ε) (r : Option σ) : Prop where
  isPrefix : x.log <+: full
  returned : ∀ t, x.result = .ok t → x.log = full ∧ r = some t

/-- Every step that is made meets a condition on the history and the state before it. -/
def Meets (step : σ → α → Exec ε φ σ) (ok : List ε → σ → α → Prop) (past : List ε) (s : σ)
    (as : List α) : Prop :=
  ∀ before a after, as = before ++ a :: after →
    ∀ t, (before.foldlM step s).result = .ok t → ok (past ++ (before.foldlM step s).log) t a

variable {I : List ε → σ → Prop} {step : σ → α → Exec ε φ σ} {ok : List ε → σ → α → Prop} {s : σ}
  {a : α} {as : List α}

namespace Within

variable {β : Type} {x : Exec ε φ σ} {full : List ε} {r : Option σ} {t : σ}

/-- The rule for a returned value. -/
theorem pure : Within (pure t : Exec ε φ σ) [] (some t) :=
  ⟨List.prefix_refl _, fun _ h => ⟨rfl, congrArg some (Except.ok.inj h)⟩⟩

/-- The rule for an abnormal end. -/
theorem fail {e : φ} : Within (Exec.fail e : Exec ε φ σ) full r := by
  refine ⟨List.nil_prefix, fun t h => ?_⟩
  cases h

/-- The rule for a sequence whose first part returned. -/
theorem bind {y : Exec ε φ β} {f : β → Exec ε φ σ} {b : β} (hy : y.result = .ok b)
    (h : Within (f b) full r) : Within (y >>= f) (y.log ++ full) r := by
  constructor
  · rw [log_bind_of_ok hy]
    exact (List.prefix_append_right_inj _).mpr h.isPrefix
  · intro t ht
    rw [result_bind_of_ok hy] at ht
    obtain ⟨hlog, hr⟩ := h.returned t ht
    exact ⟨by rw [log_bind_of_ok hy, hlog], hr⟩

/-- The rule for a sequence whose first part ended abnormally. -/
theorem bind_error {y : Exec ε φ β} {f : β → Exec ε φ σ} {e : φ} (hy : y.result = .error e) :
    Within (y >>= f) (y.log ++ full) r := by
  constructor
  · rw [log_bind_of_error hy]
    exact List.prefix_append ..
  · intro t ht
    obtain ⟨b, hb, -⟩ := result_bind_eq_ok.mp ht
    cases hy.symm.trans hb

/-- The rule for an effect. -/
theorem tell {e : ε} {f : Unit → Exec ε φ σ} (h : Within (f ()) full r) :
    Within (Exec.tell e >>= f) (e :: full) r :=
  bind (result_tell e) h

/-- The value of an execution is changed. -/
theorem bind_pure {g : σ → σ} (h : Within x full r) :
    Within (x >>= fun t => (Pure.pure (g t) : Exec ε φ σ)) full (r.map g) := by
  constructor
  · rw [log_bind_pure]
    exact h.isPrefix
  · intro t ht
    obtain ⟨u, hu, htu⟩ := result_bind_eq_ok.mp ht
    obtain ⟨hlog, rfl⟩ := h.returned u hu
    cases htu
    exact ⟨log_bind_pure.trans hlog, rfl⟩

/-- A property of the whole list is one of the execution. -/
theorem extends_of (h : Within x full r) (halong : Along P past full)
    (hinvariant : ∀ t, r = some t → I (past ++ full) t) : Extends I P past x := by
  refine ⟨halong.of_prefix h.isPrefix, fun t ht => ?_⟩
  obtain ⟨hlog, hr⟩ := h.returned t ht
  rw [hlog]
  exact hinvariant t hr

end Within

/-- Every step is looked at together with those before it. -/
theorem Meets.of_take (h : ∀ i a, as[i]? = some a → ∀ t, ((as.take i).foldlM step s).result = .ok t →
    ok (past ++ ((as.take i).foldlM step s).log) t a) : Meets step ok past s as := by
  intro before a after has
  have hi : as[before.length]? = some a := by
    rw [has, List.getElem?_append_right (Nat.le_refl _), Nat.sub_self]
    rfl
  have hbefore : as.take before.length = before := by
    rw [has]
    exact List.take_left
  have hstep := h before.length a hi
  rwa [hbefore] at hstep

/-- The first step, and those after it. -/
theorem Meets.cons (h : Meets step ok past s (a :: as)) : ok past s a ∧
    ∀ t, (step s a).result = .ok t → Meets step ok (past ++ (step s a).log) t as := by
  constructor
  · have hfirst := h [] a as rfl s rfl
    rwa [List.foldlM_nil, log_pure, List.append_nil] at hfirst
  · intro t ht before b after has u hu
    have hrun : ((a :: before).foldlM step s).log =
        (step s a).log ++ (before.foldlM step t).log := by
      rw [List.foldlM_cons, log_bind_of_ok ht]
    have hend : ((a :: before).foldlM step s).result = .ok u := by
      rwa [List.foldlM_cons, result_bind_of_ok ht]
    have hlater := h (a :: before) b after (congrArg (a :: ·) has) u hend
    rwa [hrun, ← List.append_assoc] at hlater

/-- The history of a run of steps that meet a condition. -/
theorem Extends.foldlM (h : ∀ past s a, I past s → ok past s a → Extends I P past (step s a))
    (hs : I past s) (hok : Meets step ok past s as) : Extends I P past (as.foldlM step s) := by
  induction as generalizing past s with
  | nil =>
    refine ⟨Along.nil, fun t ht => ?_⟩
    cases ht
    rwa [List.foldlM_nil, log_pure, List.append_nil]
  | cons a as ih =>
    obtain ⟨hadmitted, hlater⟩ := hok.cons
    rw [List.foldlM_cons]
    have hfirst := h past s a hs hadmitted
    cases hres : (step s a).result with
    | error e =>
      refine ⟨by rw [log_bind_of_error hres]; exact hfirst.along, fun t ht => ?_⟩
      obtain ⟨u, hu, -⟩ := result_bind_eq_ok.mp ht
      cases hres.symm.trans hu
    | ok u =>
      have hrest := ih (hfirst.invariant u hres) (hlater u hres)
      refine ⟨?_, fun t ht => ?_⟩
      · rw [log_bind_of_ok hres, Along.append_iff]
        exact ⟨hfirst.along, hrest.along⟩
      · rw [result_bind_of_ok hres] at ht
        rw [log_bind_of_ok hres, ← List.append_assoc]
        exact hrest.invariant t ht

/-- The rule for an effect. -/
theorem Extends.tell {e : ε} {f : Unit → Exec ε φ σ} (he : P past e)
    (h : Extends I P (past ++ [e]) (f ())) : Extends I P past (Exec.tell e >>= f) := by
  have hlog : (Exec.tell e >>= f).log = e :: (f ()).log := rfl
  refine ⟨by rw [hlog]; exact .cons he h.along, fun t ht => ?_⟩
  have hend := h.invariant t ht
  rwa [List.append_assoc] at hend

/-- The first step, and those after it, meet the condition. -/
theorem Meets.of_cons (hfirst : ok past s a)
    (hlater : ∀ t, (step s a).result = .ok t → Meets step ok (past ++ (step s a).log) t as) :
    Meets step ok past s (a :: as) := by
  intro before b after has t ht
  cases before with
  | nil =>
    cases has
    cases ht
    rwa [List.foldlM_nil, log_pure, List.append_nil]
  | cons x before =>
    obtain ⟨rfl, htail⟩ := List.cons.inj has
    rw [List.foldlM_cons] at ht ⊢
    obtain ⟨u, hu, hrest⟩ := result_bind_eq_ok.mp ht
    rw [log_bind_of_ok hu, ← List.append_assoc]
    exact hlater u hu before b after htail t hrest

/-- Where a step that stands in the relation meets the condition, the runs along which the relation
holds are those whose steps meet the condition. -/
theorem Extends.along_iff (h : ∀ past s a, I past s → ok past s a → Extends I P past (step s a))
    (hok : ∀ past s a, I past s → Along P past (step s a).log → ok past s a) (hs : I past s) :
    Along P past (as.foldlM step s).log ↔ Meets step ok past s as := by
  refine ⟨fun halong => ?_, fun hmeets => (Extends.foldlM h hs hmeets).along⟩
  induction as generalizing past s with
  | nil =>
    intro before a after has
    cases List.append_ne_nil_of_right_ne_nil before (List.cons_ne_nil a after) has.symm
  | cons a as ih =>
    rw [List.foldlM_cons] at halong
    cases hres : (step s a).result with
    | error e =>
      rw [log_bind_of_error hres] at halong
      refine .of_cons (hok past s a hs halong) fun t ht => ?_
      cases hres.symm.trans ht
    | ok u =>
      rw [log_bind_of_ok hres, Along.append_iff] at halong
      have hfirst := hok past s a hs halong.1
      refine .of_cons hfirst fun t ht => ?_
      cases hres.symm.trans ht
      exact ih ((h past s a hs hfirst).invariant u hres) halong.2

/-- A run whose steps return under the invariant returns. -/
theorem Extends.returns (h : ∀ past s a, I past s → ok past s a → Extends I P past (step s a))
    (hreturns : ∀ past s a, I past s → ∃ t, (step s a).result = .ok t) (hs : I past s)
    (hok : Meets step ok past s as) : ∃ t, (as.foldlM step s).result = .ok t := by
  induction as generalizing past s with
  | nil => exact ⟨s, rfl⟩
  | cons a as ih =>
    obtain ⟨hfirst, hlater⟩ := hok.cons
    obtain ⟨u, hu⟩ := hreturns past s a hs
    rw [List.foldlM_cons, result_bind_of_ok hu]
    exact ih ((h past s a hs hfirst).invariant u hu) (hlater u hu)

end Exec

end Dot1x.Base
