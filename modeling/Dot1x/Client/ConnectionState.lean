import Dot1x.Client.Listener

/-!
# What the connection state tells

The listener enters CONNECTED for a Success in CONNECTING only. A request that is answered while
the port is authenticated leads to RECONNECTING, and nothing but a Failure or a Logout leads out
of that state: a Success in it is deliberately not handled. So the port is authenticated in
CONNECTED and in RECONNECTING.
-/

namespace Dot1x.Client

open Dot1x.Base Dot1x.Wire Dot1x.Eap Dot1x.Link

/-- The automaton behind the state: what a result of the EAP layer does to it. -/
def ConState.after : ConState → Ret → ConState
  | .connected, .cont | .reconnecting, .cont => .reconnecting
  | _, .cont => .connecting
  | .connecting, .ok => .connected
  | _, .fail => .unconnected
  | st, _ => st

/-- The states in which the port is authenticated. -/
def ConState.Authenticated (st : ConState) : Prop := st = .connected ∨ st = .reconnecting

namespace Listener

variable {V : Vtable Handler} {s s' t : Listener} {a : Action} {as : List Action}
  {outs : List Output} {rc : Ret}

/-- Recording a result follows the automaton. -/
theorem settle_state {l : Ll8023} {e : EapState Handler} {sends : Bool}
    (h : settle s l e sends rc = some (s', outs)) : s'.state = s.state.after rc := by
  cases rc with
  | cont =>
    simp only [settle] at h
    split at h
    · cases h
      cases s.state <;> simp [ConState.after]
    · cases h
  | ok =>
    simp only [settle] at h
    split at h <;> cases h <;> cases hs : s.state <;> simp_all [ConState.after]
  | old =>
    simp only [settle] at h
    split at h
    · cases h
      cases s.state <;> rfl
    · cases h
  | inv | abort | fail =>
    cases h
    cases s.state <;> rfl

/-- What a step does to the state: `Logout` clears it, the result of the EAP layer acts on it as
in the automaton, and a step without either leaves it alone. -/
theorem step_state (h : s.step V a = some (s', outs)) :
    (a = .logout ∧ s'.state = .unconnected) ∨
      (a ≠ .logout ∧ (∀ rc, .processed rc ∉ outs) ∧ s'.state = s.state) ∨
      (a ≠ .logout ∧
        ∃ rc, (∀ rc', .processed rc' ∈ outs ↔ rc' = rc) ∧ s'.state = s.state.after rc) := by
  cases a with
  | logout =>
    cases h
    exact Or.inl ⟨rfl, rfl⟩
  | login c =>
    refine Or.inr (Or.inl ⟨by simp, ?_⟩)
    simp only [step, login] at h
    split at h
    · cases h
    · split at h
      · cases h
        simp
      · split at h <;> cases h <;> simp [transmitted]
  | deliver d =>
    refine Or.inr ?_
    cases delivers_of_deliver h with
    | waits => exact Or.inl ⟨by simp, by simp, rfl⟩
    | @settles _ _ _ _ r _ outs _ _ _ _ _ _ hsettle =>
      have hnone (rc : Ret) : .processed rc ∉ outs := processed_notMem_settle hsettle
      exact Or.inr ⟨by simp, r.1, by simp [hnone], settle_state hsettle⟩

/-- The state after a step in which a result was processed. -/
theorem Processes.state_eq (hp : Processes V s a rc) (h : s.next V a = some s') :
    s'.state = s.state.after rc := by
  obtain ⟨t, outs, hstep, hmem⟩ := hp
  rw [next, hstep, Option.map_some, Option.some.injEq] at h
  subst h
  rcases step_state hstep with ⟨rfl, -⟩ | ⟨-, hnone, -⟩ | ⟨-, rc', hrc, hstate⟩
  · cases hstep
    simp [transmitted] at hmem
  · exact absurd hmem (hnone rc)
  · rw [(hrc rc).mp hmem]
    exact hstate

/-- Without a logout the state changes by a processed result only. -/
theorem next_state (h : s.next V a = some s') (ha : a ≠ .logout) :
    s'.state = s.state ∨ ∃ rc, Processes V s a rc ∧ s'.state = s.state.after rc := by
  obtain ⟨⟨t, outs⟩, hstep, rfl⟩ := Option.map_eq_some_iff.mp h
  rcases step_state hstep with ⟨rfl, -⟩ | ⟨-, -, hsame⟩ | ⟨-, rc, hrc, hstate⟩
  · exact absurd rfl ha
  · exact Or.inl hsame
  · exact Or.inr ⟨rc, ⟨t, outs, hstep, (hrc rc).mpr rfl⟩, hstate⟩

/-- The step is neither a logout nor the processing of a failure. -/
def Keeps (V : Vtable Handler) (s : Listener) (a : Action) : Prop :=
  a ≠ .logout ∧ ¬Processes V s a .fail

/-- The step is neither of these nor the answer to a request. -/
def Quiet (V : Vtable Handler) (s : Listener) (a : Action) : Prop :=
  Keeps V s a ∧ ¬Processes V s a .cont

/-- A connection lasts until a request is answered, a failure is processed or the user logs out. -/
private theorem connected_of_quiet (run : Steps (next V) (Quiet V) s as t)
    (hs : s.state = .connected) :
    t.state = .connected := by
  refine run.invariant (I := fun s => s.state = .connected) hs fun s a s' hstate hquiet hnext => ?_
  rcases next_state hnext hquiet.1.1 with hsame | ⟨rc, hp, hafter⟩
  · rw [hsame, hstate]
  · rw [hafter, hstate]
    cases rc with
    | cont => exact absurd hp hquiet.2
    | fail => exact absurd hp hquiet.1.2
    | _ => rfl

/-- A renewal lasts until a failure is processed or the user logs out. -/
private theorem reconnecting_of_keeps (run : Steps (next V) (Keeps V) s as t)
    (hs : s.state = .reconnecting) : t.state = .reconnecting := by
  refine run.invariant (I := fun s => s.state = .reconnecting) hs
    fun s a s' hstate hkeeps hnext => ?_
  rcases next_state hnext hkeeps.1 with hsame | ⟨rc, hp, hafter⟩
  · rw [hsame, hstate]
  · rw [hafter, hstate]
    cases rc with
    | fail => exact absurd hp hkeeps.2
    | _ => rfl

/-- Keep a note of whether a Success was processed in CONNECTING, with no failure and no logout
since. -/
def note (st : ConState) (noted : Bool) (a : Action) (outs : List Output) : Bool :=
  match a with
  | .logout => false
  | _ => if reports .fail outs then false
    else noted || (reports .ok outs && decide (st = .connecting))

/-- The listener together with that note. -/
def noting (V : Vtable Handler) (p : Listener × Bool) (a : Action) : Option (Listener × Bool) :=
  (p.1.step V a).map fun r => (r.1, note p.1.state p.2 a r.2)

/-- A step keeps the note in agreement with the state. -/
theorem noting_authenticated {p q : Listener × Bool} (hp : p.2 ↔ p.1.state.Authenticated)
    (h : noting V p a = some q) : q.2 ↔ q.1.state.Authenticated := by
  obtain ⟨s, noted⟩ := p
  obtain ⟨⟨s', outs⟩, hstep, rfl⟩ := Option.map_eq_some_iff.mp h
  dsimp only at hp ⊢
  rcases step_state hstep with ⟨rfl, hstate⟩ | ⟨ha, hnone, hstate⟩ | ⟨ha, rc, hrc, hstate⟩
  · simp [note, hstate, ConState.Authenticated]
  · have hnote : note s.state noted a outs = noted := by
      cases a <;> simp_all [note, reports_iff]
    rw [hnote, hstate, hp]
  · have hreports (rc' : Ret) : reports rc' outs = decide (rc' = rc) := by
      rw [Bool.eq_iff_iff, reports_iff, hrc, decide_eq_true_iff]
    have hnote : note s.state noted a outs = if Ret.fail = rc then false else
        noted || (decide (Ret.ok = rc) && decide (s.state = .connecting)) := by
      cases a with
      | logout => exact absurd rfl ha
      | login | deliver => simp [note, hreports]
    rw [hnote, hstate]
    cases rc <;> cases hs : s.state <;> simp_all [ConState.after, ConState.Authenticated]

/-- In every run from the start the state is CONNECTED or RECONNECTING exactly when a Success was
processed in CONNECTING, with no failure and no logout since. -/
theorem authenticated_iff_noted {noted : Bool} (run : Run (noting V) (init, false) as (s, noted)) :
    noted ↔ s.state.Authenticated := by
  refine run.invariant (I := fun p => p.2 ↔ p.1.state.Authenticated) ?_
    fun p a q hp _ h => noting_authenticated hp h
  simp [init, ConState.Authenticated]

/-- In every run the state tells whether the port is authenticated, and a Success leads from
CONNECTING to CONNECTED, which lasts until a request is answered, but leaves RECONNECTING alone. -/
theorem state_tells_authenticated {noted : Bool}
    (run : Run (noting V) (init, false) as (s, noted)) :
    (noted ↔ s.state.Authenticated) ∧
      ∀ a s', Processes V s a .ok → s.next V a = some s' →
        (s.state = .connecting → ∀ bs t, Steps (next V) (Quiet V) s' bs t → t.state = .connected) ∧
        (s.state = .reconnecting →
          ∀ bs t, Steps (next V) (Keeps V) s' bs t → t.state = .reconnecting) := by
  refine ⟨authenticated_iff_noted run, fun a s' hok hnext => ⟨?_, ?_⟩⟩
  · intro hs bs t quiet
    refine connected_of_quiet quiet ?_
    rw [hok.state_eq hnext, hs]
    rfl
  · intro hs bs t keeps
    refine reconnecting_of_keeps keeps ?_
    rw [hok.state_eq hnext, hs]
    rfl

/-- A login and an authentication that succeeds. -/
def firstRound : List Action :=
  [.login (plainLogin (.single 97)), .deliver identityRequest, .deliver successPacket]

/-- After one successful authentication the port is authenticated. -/
theorem state_tells_authenticated_firstRound :
    ∃ s, Run (noting plainVtable) (init, false) firstRound (s, true) ∧ s.state.Authenticated := by
  have heval : (runLabels (noting plainVtable) (init, false) firstRound).map Prod.snd = some true := by
    decide +kernel
  obtain ⟨⟨s, noted⟩, hrun, rfl⟩ := Option.map_eq_some_iff.mp heval
  have run := run_of_runLabels hrun
  exact ⟨s, run, (state_tells_authenticated run).1.mp rfl⟩

/-- A second authentication that succeeds as well ends in RECONNECTING. -/
theorem reconnecting_after_second_success :
    ∃ s s', Run (next plainVtable) init (firstRound ++ [.deliver identityRequest]) s ∧
      s.state = .reconnecting ∧ Processes plainVtable s (.deliver successPacket) .ok ∧
      s.next plainVtable (.deliver successPacket) = some s' ∧ s'.state ≠ .connected := by
  have heval : ((runLabels (next plainVtable) init (firstRound ++ [.deliver identityRequest])).bind
      fun s => (s.step plainVtable (.deliver successPacket)).map fun r =>
        (s.state, reports .ok r.2, r.1.state)) = some (.reconnecting, true, .reconnecting) := by
    decide +kernel
  obtain ⟨s, hrun, hlast⟩ := Option.bind_eq_some_iff.mp heval
  obtain ⟨⟨s', outs⟩, hstep, heq⟩ := Option.map_eq_some_iff.mp hlast
  simp only [Prod.mk.injEq] at heq
  obtain ⟨hstate, hok, hstate'⟩ := heq
  refine ⟨s, s', run_of_runLabels hrun, hstate, ⟨s', outs, hstep, reports_iff.mp hok⟩, ?_, ?_⟩
  · rw [next, hstep, Option.map_some]
  · simp [hstate']

end Listener

end Dot1x.Client
