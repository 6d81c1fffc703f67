import Mathlib.Logic.Basic

/-!
# Executions with a log

A call of a C function returns a value or ends abnormally, and on the way it performs effects
of interest: an unsigned subtraction, a block copy, a message. `Exec` keeps both. The log
survives an abnormal end, so what led to it can still be stated. `Exec.Sat` is partial
correctness over both, with one rule for each way an execution is built.
-/

namespace Dot1x.Base

/-- The effects performed so far and either a value or the failure that ended the call. -/
structure Exec (ε φ α : Type) where
  log : List ε
  result : Except φ α

namespace Exec

variable {ε φ α β : Type}

/-- Return a value without any effect. -/
protected def pure (a : α) : Exec ε φ α := ⟨[], .ok a⟩

/-- Continue with the value, if there is one. -/
protected def bind (x : Exec ε φ α) (f : α → Exec ε φ β) : Exec ε φ β :=
  match x.result with
  | .ok a => ⟨x.log ++ (f a).log, (f a).result⟩
  | .error e => ⟨x.log, .error e⟩

instance : Monad (Exec ε φ) where
  pure := Exec.pure
  bind := Exec.bind

/-- Mapping the identity, for the functor laws. -/
theorem id_map' {α : Type} (x : Exec ε φ α) : id <$> x = x := by
  obtain ⟨log, e | a⟩ := x
  · rfl
  · exact congrArg (Exec.mk · _) (List.append_nil log)

/-- Sequencing is associative, for the monad laws. -/
theorem bind_assoc' {α β γ : Type} (x : Exec ε φ α) (f : α → Exec ε φ β)
    (g : β → Exec ε φ γ) : x >>= f >>= g = x >>= fun a => f a >>= g := by
  change Exec.bind (Exec.bind x f) g = Exec.bind x fun a => Exec.bind (f a) g
  obtain ⟨log, e | a⟩ := x
  · rfl
  · simp only [Exec.bind]
    cases (f a).result with
    | error e => rfl
    | ok b => simp only [List.append_assoc]

instance : LawfulMonad (Exec ε φ) :=
  .mk' _ id_map' (fun _ _ => congrArg (Exec.mk · _) (List.nil_append _)) bind_assoc'

/-- Perform one effect. -/
def tell (e : ε) : Exec ε φ Unit := ⟨[e], .ok ()⟩

/-- End the call abnormally. -/
def fail (e : φ) : Exec ε φ α := ⟨[], .error e⟩

/-- A pure computation leaves no trace. -/
@[simp] theorem log_pure (a : α) : (pure a : Exec ε φ α).log = [] := rfl

/-- A pure computation gives its value. -/
@[simp] theorem result_pure (a : α) : (pure a : Exec ε φ α).result = .ok a := rfl

/-- An effect is its own trace. -/
@[simp] theorem log_tell (e : ε) : (tell e : Exec ε φ Unit).log = [e] := rfl

/-- An effect gives nothing. -/
@[simp] theorem result_tell (e : ε) : (tell e : Exec ε φ Unit).result = .ok () := rfl

/-- A failure leaves no trace of its own. -/
@[simp] theorem log_fail (e : φ) : (fail e : Exec ε φ α).log = [] := rfl

/-- A failure gives its error. -/
@[simp] theorem result_fail (e : φ) : (fail e : Exec ε φ α).result = .error e := rfl

/-- A value of a sequence comes from a value of its first part. -/
theorem result_bind_eq_ok {x : Exec ε φ α} {f : α → Exec ε φ β} {b : β} :
    (x >>= f).result = .ok b ↔ ∃ a, x.result = .ok a ∧ (f a).result = .ok b := by
  change (Exec.bind x f).result = .ok b ↔ _
  unfold Exec.bind
  cases x.result <;> simp

/-- A failure of a sequence is one of its parts'. -/
theorem result_bind_eq_error {x : Exec ε φ α} {f : α → Exec ε φ β} {e : φ} :
    (x >>= f).result = .error e ↔
      x.result = .error e ∨ ∃ a, x.result = .ok a ∧ (f a).result = .error e := by
  change (Exec.bind x f).result = .error e ↔ _
  unfold Exec.bind
  cases x.result <;> simp

/-- The log of a sequence whose first part returned. -/
theorem log_bind_of_ok {x : Exec ε φ α} {f : α → Exec ε φ β} {a : α} (h : x.result = .ok a) :
    (x >>= f).log = x.log ++ (f a).log := by
  change (Exec.bind x f).log = _
  rw [Exec.bind, h]

/-- The result of a sequence whose first part returned. -/
theorem result_bind_of_ok {x : Exec ε φ α} {f : α → Exec ε φ β} {a : α} (h : x.result = .ok a) :
    (x >>= f).result = (f a).result := by
  change (Exec.bind x f).result = _
  rw [Exec.bind, h]

/-- A sequence whose first part returned. -/
theorem mk_ok_bind (log : List ε) (a : α) (f : α → Exec ε φ β) :
    (⟨log, .ok a⟩ >>= f : Exec ε φ β) = ⟨log ++ (f a).log, (f a).result⟩ := rfl

/-- The log of a sequence whose first part ended abnormally. -/
theorem log_bind_of_error {x : Exec ε φ α} {f : α → Exec ε φ β} {e : φ}
    (h : x.result = .error e) : (x >>= f).log = x.log := by
  change (Exec.bind x f).log = _
  rw [Exec.bind, h]

/-- Computing with the value of an execution has no effects. -/
theorem log_bind_pure {x : Exec ε φ α} {f : α → β} :
    (x >>= fun a => (pure (f a) : Exec ε φ β)).log = x.log := by
  cases hx : x.result with
  | ok a => rw [log_bind_of_ok hx, log_pure, List.append_nil]
  | error e => exact log_bind_of_error hx

/-- Whatever happens later, the effects of the first part stay in the log. -/
theorem mem_log_bind_left {x : Exec ε φ α} {f : α → Exec ε φ β} {e : ε} (h : e ∈ x.log) :
    e ∈ (x >>= f).log := by
  cases hx : x.result with
  | ok a => exact log_bind_of_ok hx ▸ List.mem_append_left _ h
  | error e' => exact log_bind_of_error hx ▸ h

/-- The effects of the second part are in the log when the first one returned. -/
theorem mem_log_bind_right {x : Exec ε φ α} {f : α → Exec ε φ β} {a : α} {e : ε}
    (hx : x.result = .ok a) (h : e ∈ (f a).log) : e ∈ (x >>= f).log :=
  log_bind_of_ok hx ▸ List.mem_append_right _ h

/-- The first effect of the first part is the first one of the sequence. -/
theorem head?_log_bind {x : Exec ε φ α} {f : α → Exec ε φ β} {e : ε} (h : x.log.head? = some e) :
    (x >>= f).log.head? = some e := by
  cases hx : x.result with
  | ok a => rw [log_bind_of_ok hx, List.head?_append, h, Option.some_or]
  | error e' => rwa [log_bind_of_error hx]

/-- A property of all effects of a sequence, part by part. -/
theorem forall_log_bind {x : Exec ε φ α} {f : α → Exec ε φ β} {P : ε → Prop}
    (hx : ∀ e ∈ x.log, P e) (hf : ∀ a, x.result = .ok a → ∀ e ∈ (f a).log, P e) :
    ∀ e ∈ (x >>= f).log, P e := by
  intro e he
  cases hr : x.result with
  | ok a =>
    rw [log_bind_of_ok hr, List.mem_append] at he
    exact he.elim (hx e) (hf a hr e)
  | error e' => exact hx e (log_bind_of_error hr ▸ he)

/-- An execution of which some effects are not looked at. -/
def keep (p : ε → Bool) (x : Exec ε φ α) : Exec ε φ α := ⟨x.log.filter p, x.result⟩

/-- Of a computation without effects nothing is left out. -/
theorem keep_of_silent {p : ε → Bool} {x : Exec ε φ α} (h : x.log = []) : x.keep p = x := by
  rw [keep, h, List.filter_nil, ← h]

/-- Effects are looked at part by part. -/
theorem keep_bind (p : ε → Bool) (x : Exec ε φ α) (f : α → Exec ε φ β) :
    (x >>= f).keep p = x.keep p >>= fun a => (f a).keep p := by
  obtain ⟨log, e | a⟩ := x
  · rfl
  · exact congrArg (Exec.mk · _) (List.filter_append ..)

/-- A value that an execution yields is the one it returned. -/
theorem result_of_toOption {x : Exec ε φ α} {a : α} (h : x.result.toOption = some a) :
    x.result = .ok a := by
  cases hr : x.result with
  | ok b =>
    rw [hr] at h
    exact congrArg Except.ok (Option.some.inj h)
  | error e =>
    rw [hr] at h
    cases h

/-- Partial correctness: every effect satisfies `P` and a returned value satisfies `Q`. -/
structure Sat (P : ε → Prop) (Q : α → Prop) (x : Exec ε φ α) : Prop where
  effects : ∀ e ∈ x.log, P e
  value : ∀ a, x.result = .ok a → Q a

namespace Sat

variable {P : ε → Prop} {Q : α → Prop} {R : β → Prop}

/-- The rule for a returned value. -/
theorem pure {a : α} (h : Q a) : Sat P Q (pure a : Exec ε φ α) :=
  ⟨by simp, fun _ hres => Except.ok.inj hres ▸ h⟩

/-- The rule for an effect. -/
theorem tell {e : ε} {Q : Unit → Prop} (he : P e) (h : Q ()) : Sat P Q (Exec.tell e : Exec ε φ Unit) :=
  ⟨by simpa using he, fun _ _ => h⟩

/-- The rule for an abnormal end. -/
theorem fail {e : φ} : Sat P Q (Exec.fail e : Exec ε φ α) :=
  ⟨by simp, fun _ hres => nomatch hres⟩

/-- The rule of consequence. -/
theorem mono {P' : ε → Prop} {Q' : α → Prop} {x : Exec ε φ α} (h : Sat P Q x)
    (hP : ∀ e, P e → P' e) (hQ : ∀ a, Q a → Q' a) : Sat P' Q' x :=
  ⟨fun e he => hP e (h.effects e he), fun a hres => hQ a (h.value a hres)⟩

/-- An execution returns what it returns. -/
theorem of_effects {x : Exec ε φ α} (h : ∀ e ∈ x.log, P e) : Sat P (fun a => x.result = .ok a) x :=
  ⟨h, fun _ => id⟩

/-- The rule for a sequence. -/
theorem bind {x : Exec ε φ α} {f : α → Exec ε φ β} (hx : Sat P Q x)
    (hf : ∀ a, Q a → Sat P R (f a)) : Sat P R (x >>= f) where
  effects := forall_log_bind hx.effects fun a hres => (hf a (hx.value a hres)).effects
  value := by
    intro b hb
    obtain ⟨a, ha, hfa⟩ := result_bind_eq_ok.mp hb
    exact (hf a (hx.value a ha)).value b hfa

end Sat

/-- A failure of some kind comes right after an effect that it is related to. -/
def CausedBy (K : φ → Prop) (R : φ → ε → Prop) (x : Exec ε φ α) : Prop :=
  ∀ e, x.result = .error e → K e → ∃ t, x.log.getLast? = some t ∧ R e t

namespace CausedBy

variable {K : φ → Prop} {R : φ → ε → Prop}

/-- What returns does not fail. -/
theorem of_ok {x : Exec ε φ α} {a : α} (h : x.result = .ok a) : CausedBy K R x :=
  fun e he => by cases h.symm.trans he

/-- A failure of another kind needs no cause. -/
theorem fail {e : φ} (h : ¬K e) : CausedBy K R (Exec.fail e : Exec ε φ α) := by
  intro e' he' hK
  cases he'
  exact absurd hK h

/-- The rule for a sequence. -/
theorem bind {x : Exec ε φ α} {f : α → Exec ε φ β} (hx : CausedBy K R x)
    (hf : ∀ a, CausedBy K R (f a)) : CausedBy K R (x >>= f) := by
  intro e he hK
  rcases result_bind_eq_error.mp he with hfirst | ⟨a, ha, hsecond⟩
  · rw [log_bind_of_error hfirst]
    exact hx e hfirst hK
  · obtain ⟨t, hlast, ht⟩ := hf a e hsecond hK
    refine ⟨t, ?_, ht⟩
    rw [log_bind_of_ok ha, List.getLast?_append, hlast]
    rfl

end CausedBy

/-- Some effects decide how an execution ends. -/
def DecidedBy (R : ε → φ → Prop) (x : Exec ε φ α) : Prop :=
  ∀ t ∈ x.log, ∀ e, R t e → x.result = .error e

namespace DecidedBy

variable {R : ε → φ → Prop}

/-- A computation without effects decides whatever it returns. -/
theorem of_silent {x : Exec ε φ α} (h : x.log = []) : DecidedBy R x := by
  intro t ht
  rw [h] at ht
  cases ht

/-- The rule for a sequence. -/
theorem bind {x : Exec ε φ α} {f : α → Exec ε φ β} (hx : DecidedBy R x)
    (hf : ∀ a, DecidedBy R (f a)) : DecidedBy R (x >>= f) := by
  intro t ht e he
  rw [result_bind_eq_error]
  cases hres : x.result with
  | error e' =>
    rw [log_bind_of_error hres] at ht
    exact Or.inl (hres.symm.trans (hx t ht e he))
  | ok a =>
    rw [log_bind_of_ok hres, List.mem_append] at ht
    rcases ht with hfirst | hsecond
    · cases hres.symm.trans (hx t hfirst e he)
    · exact Or.inr ⟨a, rfl, hf a t hsecond e he⟩

end DecidedBy

end Exec

end Dot1x.Base
