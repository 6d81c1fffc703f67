import Dot1x.Client.ConnectionState

/-!
# What the user interface is told

The dialogs follow the events of a session: requests until the authentication has succeeded, then
nothing but the end of the connection. What a result of the EAP layer does to the state also fixes
whether an event is reported, so the events so far can be read off the state while the thread runs.
-/

namespace Dot1x.Client

open Dot1x.Base Dot1x.Wire Dot1x.Eap Dot1x.Link

/-- The event that is reported for a result. -/
def ConState.event : ConState → Ret → Option EapEvent
  | .unconnected, .cont | .connecting, .cont => some .requestId
  | .connecting, .ok => some .success
  | _, .fail => some .fail
  | _, _ => none

/-- The events of a session in their order: any number of requests, a success behind at least one of
them or none, and at the end a failure or none. -/
def SessionTrace (ids : List EapEvent) : Prop :=
  ∃ n last, (last = [] ∨ last = [EapEvent.fail]) ∧
    (ids = List.replicate n .requestId ++ last ∨
      ids = List.replicate (n + 1) .requestId ++ .success :: last)

/-- The events so far in a session that goes on. -/
def ConState.Follows : ConState → List EapEvent → Prop
  | .unconnected, ids => ids = []
  | .connecting, ids => ∃ n, ids = List.replicate (n + 1) .requestId
  | _, ids => ∃ n, ids = List.replicate (n + 1) .requestId ++ [.success]

/-- A call of the event handler: its arguments, and the state before the step in which it was made. -/
structure Report where
  event : EapEvent
  state : ConState
  before : ConState

/-- The arguments of the event handler in a step. -/
def events (outs : List Output) : List (EapEvent × ConState) :=
  outs.filterMap fun
    | .event id state => some (id, state)
    | _ => none

namespace ConState

variable {st : ConState} {ids : List EapEvent} {rc : Ret}

/-- The events of a session that goes on, or that ends here. -/
theorem Follows.sessionTrace (h : st.Follows ids) {last : List EapEvent}
    (hlast : last = [] ∨ last = [.fail]) : SessionTrace (ids ++ last) := by
  cases st with
  | unconnected =>
    cases h
    exact ⟨0, last, hlast, Or.inl rfl⟩
  | connecting =>
    obtain ⟨n, rfl⟩ := h
    exact ⟨n + 1, last, hlast, Or.inl rfl⟩
  | reconnecting | connected =>
    obtain ⟨n, rfl⟩ := h
    exact ⟨n, last, hlast, Or.inr (by rw [List.append_assoc]; rfl)⟩

/-- A result that does not end the session moves the state and the events together. -/
theorem Follows.after (h : st.Follows ids) (hrc : rc ≠ .fail) :
    (st.after rc).Follows (ids ++ (st.event rc).toList) := by
  have hrequest (n : ℕ) : List.replicate n EapEvent.requestId ++ [.requestId] =
      List.replicate (n + 1) .requestId := (List.replicate_succ' ..).symm
  cases rc with
  | fail => exact absurd rfl hrc
  | cont =>
    cases st with
    | unconnected =>
      cases h
      exact ⟨0, rfl⟩
    | connecting =>
      obtain ⟨n, rfl⟩ := h
      exact ⟨n + 1, hrequest (n + 1)⟩
    | reconnecting | connected =>
      obtain ⟨n, rfl⟩ := h
      exact ⟨n, List.append_nil _⟩
  | ok =>
    cases st with
    | connecting =>
      obtain ⟨n, rfl⟩ := h
      exact ⟨n, rfl⟩
    | unconnected | reconnecting | connected =>
      change Follows _ (ids ++ [])
      rwa [List.append_nil]
  | inv | abort | old =>
    cases st <;> (change Follows _ (ids ++ []); rwa [List.append_nil])

end ConState

namespace Listener

variable {V : Vtable Handler} {s s' s₀ s₁ : Listener} {c : LoginCall} {d : Delivery}
  {as : List Action} {ds : List Delivery} {outs : List Output} {rc : Ret} {trace : List Report}

/-- The listener together with the reports of a session. -/
def tracing (V : Vtable Handler) (p : Listener × List Report) (a : Action) :
    Option (Listener × List Report) :=
  (p.1.step V a).map fun r =>
    (r.1, p.2 ++ (events r.2).map fun ev => ⟨ev.1, ev.2, p.1.state⟩)

/-- What has been told in a session. -/
structure Told (s : Listener) (trace : List Report) : Prop where
  follows : s.thread = true → s.state.Follows (trace.map (·.event))
  session : SessionTrace (trace.map (·.event))
  state : ∀ r ∈ trace, r.state = r.before ∧ (r.event = .success → r.state = .connecting)
  ended : .fail ∈ trace.map (·.event) → s.thread = false

/-- Settling a result reports at most one event, with the state as it was. -/
theorem settle_events {l : Ll8023} {e : EapState Handler} {sends : Bool}
    (h : settle s l e sends rc = some (s', outs)) :
    events outs = ((s.state.event rc).map fun id => (id, s.state)).toList := by
  cases rc with
  | cont =>
    simp only [settle] at h
    split at h
    · cases h
      cases hs : s.state <;> simp [events, transmitted, ConState.event]
    · cases h
  | ok =>
    simp only [settle] at h
    split at h <;> cases h <;> cases hs : s.state <;> simp_all [events, ConState.event]
  | old =>
    simp only [settle] at h
    split at h
    · cases h
      cases hs : s.state <;> simp [events, transmitted, ConState.event]
    · cases h
  | inv | abort | fail =>
    cases h
    cases hs : s.state <;> simp [events, ConState.event]

/-- The thread ends with a failure. -/
theorem settle_thread {l : Ll8023} {e : EapState Handler} {sends : Bool}
    (h : settle s l e sends rc = some (s', outs)) :
    s'.thread = if rc = .fail then false else s.thread := by
  cases rc with
  | cont | old =>
    simp only [settle] at h
    split at h
    · cases h
      rfl
    · cases h
  | ok =>
    simp only [settle] at h
    split at h <;> cases h <;> rfl
  | inv | abort | fail =>
    cases h
    rfl

/-- A login is for a listener without a thread, tells nothing and leaves the state alone. -/
theorem login_quiet (h : s₀.step V (.login c) = some (s₁, outs)) :
    s₀.thread = false ∧ s₁.state = s₀.state ∧ events outs = [] := by
  simp only [step, login] at h
  split at h
  · cases h
  · rename_i hfree
    refine ⟨?_, ?_⟩
    · by_contra hthread
      exact hfree (Or.inr (Or.inr (Bool.not_eq_false _ ▸ hthread)))
    · split at h
      · cases h
        exact ⟨rfl, rfl⟩
      · split at h <;> cases h <;> exact ⟨rfl, rfl⟩

/-- Without a thread the state is UNCONNECTED. -/
theorem unconnected_of_step {a : Action} (hs : s.thread = false → s.state = .unconnected)
    (h : s.step V a = some (s', outs)) : s'.thread = false → s'.state = .unconnected := by
  cases a with
  | logout =>
    cases h
    exact fun _ => rfl
  | login c =>
    obtain ⟨hthread, hstate, -⟩ := login_quiet h
    exact fun _ => hstate.trans (hs hthread)
  | deliver d =>
    cases delivers_of_deliver h with
    | waits hrunning => exact hs
    | @settles _ _ _ _ r _ _ hrunning _ _ _ _ _ hsettle =>
      intro hthread
      rw [settle_thread hsettle, hrunning] at hthread
      split at hthread
      · rename_i hfail
        rw [settle_state hsettle, hfail]
        cases s.state <;> rfl
      · cases hthread

/-- After a login the state is UNCONNECTED and nothing has been told. -/
theorem told_of_login (before : Run (next V) init as s₀)
    (h : s₀.step V (.login c) = some (s₁, outs)) :
    s₁.state = .unconnected ∧ events outs = [] ∧ Told s₁ [] := by
  have hunconnected : s₀.thread = false → s₀.state = .unconnected := by
    refine before.invariant (I := fun s => s.thread = false → s.state = .unconnected) (fun _ => rfl)
      fun s a t hs _ hnext => ?_
    obtain ⟨⟨t, outs⟩, hstep, rfl⟩ := Option.map_eq_some_iff.mp hnext
    exact unconnected_of_step hs hstep
  obtain ⟨hthread, hsame, hquiet⟩ := login_quiet h
  have hstate : s₁.state = .unconnected := hsame.trans (hunconnected hthread)
  refine ⟨hstate, hquiet, ?_, ⟨0, [], Or.inl rfl, Or.inl rfl⟩, by simp, by simp⟩
  intro _
  rw [hstate]
  rfl

/-- What the thread does with a delivery keeps the reports in order. -/
theorem Told.deliver (htold : Told s trace) (h : s.step V (.deliver d) = some (s', outs)) :
    Told s' (trace ++ (events outs).map fun ev => ⟨ev.1, ev.2, s.state⟩) := by
  cases delivers_of_deliver h with
  | waits =>
    change Told _ (trace ++ [])
    rw [List.append_nil]
    exact ⟨htold.follows, htold.session, htold.state, htold.ended⟩
  | @settles _ _ _ _ r _ outs hrunning _ _ _ _ _ hsettle =>
    obtain ⟨rc, e', o⟩ := r
    have hfollows := htold.follows hrunning
    have hevents : events outs = ((s.state.event rc).map fun id => (id, s.state)).toList :=
      settle_events hsettle
    change Told _ (trace ++ (events outs).map _)
    have hids : (trace ++ (events outs).map fun ev =>
        (⟨ev.1, ev.2, s.state⟩ : Report)).map (·.event) =
          trace.map (·.event) ++ (s.state.event rc).toList := by
      rw [hevents]
      cases s.state.event rc <;> simp
    have hthread := settle_thread hsettle
    have hstate := settle_state hsettle
    constructor
    · intro hgoing
      rw [hthread] at hgoing
      split at hgoing
      · cases hgoing
      · rename_i hrc
        rw [hids, hstate]
        exact hfollows.after hrc
    · rw [hids]
      by_cases hrc : rc = .fail
      · have hfail : s.state.event rc = some .fail := by rw [hrc]; cases s.state <;> rfl
        rw [hfail]
        exact hfollows.sessionTrace (Or.inr rfl)
      · have hgoing := (hfollows.after hrc).sessionTrace (Or.inl rfl)
        rwa [List.append_nil] at hgoing
    · intro r hr
      rcases List.mem_append.mp hr with hr | hr
      · exact htold.state r hr
      · rw [hevents] at hr
        obtain ⟨⟨id, st⟩, hmem, rfl⟩ := List.mem_map.mp hr
        simp only [Option.mem_toList, Option.map_eq_some_iff, Prod.mk.injEq] at hmem
        obtain ⟨_, hid, rfl, rfl⟩ := hmem
        refine ⟨rfl, fun hsuccess => ?_⟩
        dsimp only at hsuccess ⊢
        subst hsuccess
        cases hs : s.state <;> rw [hs] at hid <;> cases rc <;> simp_all [ConState.event]
    · rw [hids, hthread]
      intro hfail
      rcases List.mem_append.mp hfail with hbefore | hnow
      · rw [htold.ended hbefore] at hrunning
        cases hrunning
      · rw [if_pos]
        cases hs : s.state <;> rw [hs] at hnow <;> cases rc <;> simp_all [ConState.event]

/-- In every session, whatever happened before, the login finds the state UNCONNECTED, and what is
told until the listener ends or the user logs out is a session in order, with the states as they
were. -/
theorem session_told (before : Run (next V) init as s₀)
    (hlogin : s₀.step V (.login c) = some (s₁, outs))
    (run : Run (tracing V) (s₁, []) (ds.map .deliver) (s, trace)) :
    s₁.state = .unconnected ∧ events outs = [] ∧ Told s trace ∧ events s.logout.2 = [] := by
  obtain ⟨hstate, hquiet, htold⟩ := told_of_login before hlogin
  refine ⟨hstate, hquiet, ?_, ?_⟩
  · have hrun := run.labelled (P := fun a => ∃ d, a = .deliver d) (by simp)
    refine hrun.invariant (I := fun p => Told p.1 p.2) htold fun p a q hp ha hnext => ?_
    obtain ⟨d, rfl⟩ := ha.2
    obtain ⟨⟨t, outs⟩, hstep, rfl⟩ := Option.map_eq_some_iff.mp hnext
    exact hp.deliver hstep
  · cases hio : s.io <;> simp [logout, hio, events, transmitted]

/-- The end of a connection. -/
def failurePacket : Delivery := plainDelivery [4, 7, 0, 4]

/-- A connection that is made and ends. -/
def roundTrip : List Delivery := [identityRequest, successPacket, failurePacket]

/-- A connection that is made and ends is told in this order. -/
theorem session_told_roundTrip : ∃ s₁ outs s trace,
    init.step plainVtable (.login (plainLogin (.single 97))) = some (s₁, outs) ∧
    Run (tracing plainVtable) (s₁, []) (roundTrip.map .deliver) (s, trace) ∧
    trace.map (·.event) = [.requestId, .success, .fail] ∧
    s₁.state = .unconnected ∧ events outs = [] ∧ Told s trace ∧ events s.logout.2 = [] := by
  have heval : (init.step plainVtable (.login (plainLogin (.single 97)))).bind (fun r =>
      (runLabels (tracing plainVtable) (r.1, []) (roundTrip.map .deliver)).map fun p =>
        p.2.map (·.event)) = some [.requestId, .success, .fail] := by
    decide +kernel
  obtain ⟨⟨s₁, outs⟩, hlogin, hrest⟩ := Option.bind_eq_some_iff.mp heval
  obtain ⟨⟨s, trace⟩, hrun, hids⟩ := Option.map_eq_some_iff.mp hrest
  have run := run_of_runLabels hrun
  exact ⟨s₁, outs, s, trace, hlogin, run, hids, session_told (.nil init) hlogin run⟩

end Listener

end Dot1x.Client
