import Dot1x.Radius.Coherence

/-!
# Responses that are stored are returned

The reader stores a response in the variable of the call it is for and clears its entry. From then
on the call is to return the response with the value true. It does so when it finds its entry
cleared after a wait; it does not look again anywhere else. So the response is lost when the call
leaves the loop on another way after the response was stored: when it fails to write its request,
its wait times out or its deadline has passed. And it is lost when the call had left the loop
before.
-/

namespace Dot1x.Radius

open Dot1x.Base

/-- A call waits or will wait, so it will look for its response. -/
def Phase.expects {P A : Type} : Phase P A → Bool
  | .writing (.waiter _) => true
  | .waiting _ => true
  | .woken _ => true
  | .testing (.waiter _) => true
  | _ => false

/-- A call is past the loop. -/
def Phase.left {P A : Type} : Phase P A → Bool
  | .leaving _ => true
  | _ => false

namespace Socket

variable {P A : Type}

/-- A response is there for a call, and the call returned it or will look for it. -/
structure Holds (s : Socket P A) (id : Id) (pdu : P) : Prop where
  response : s.response id = some pdu
  clear : s.pendingRequests id = none
  returns : s.result id = some true ∨ (s.phase id).any Phase.expects

variable {s s' : Socket P A} {id j : Id} {pdu : P} {ph : Phase P A}

/-- A call that holds a response returned it or will look for it. -/
theorem Holds.of_phase (hs : s.Holds id pdu) (hphase : s.phase id = some ph) :
    ph.result = some true ∨ ph.expects := by
  have hreturns := hs.returns
  rwa [result, hphase, Option.bind_some, Option.any_some] at hreturns

/-- Such a call is in none of the phases in which it would do neither. -/
theorem Holds.ne (hs : s.Holds id pdu) (hphase : s.phase j = some ph)
    (hresult : ph.result = none) (hexpects : ph.expects = false) : id ≠ j := by
  rintro rfl
  rcases hs.of_phase hphase with h | h
  · cases hresult.symm.trans h
  · cases hexpects.symm.trans h

/-- What is done to other calls does not matter. -/
theorem Holds.of_ne (hs : s.Holds id pdu) (hcalls : s'.calls id = s.calls id)
    (hclear : s'.pendingRequests id = s.pendingRequests id) : s'.Holds id pdu where
  response := by
    rw [Socket.response, hcalls]
    exact hs.response
  clear := hclear.trans hs.clear
  returns := by
    rw [result, phase, hcalls]
    exact hs.returns

/-- The call goes on to another phase in which it looks for its response or has returned it. -/
theorem Holds.goTo (hs : s.Holds id pdu) (hph : ph.result = some true ∨ ph.expects) :
    (s.goTo id ph).Holds id pdu := by
  obtain ⟨c, hc, hpdu⟩ := Option.bind_eq_some_iff.mp hs.response
  have hcalls : (s.goTo id ph).calls id = some { c with phase := ph } := by
    simp [Socket.goTo, hc]
  refine ⟨?_, hs.clear, ?_⟩
  · rw [Socket.response, hcalls]
    exact hpdu
  · rw [result, phase, hcalls]
    exact hph

/-- The other calls stay as they are when one goes on. -/
@[simp] theorem goTo_calls_of_ne (h : id ≠ j) : (s.goTo j ph).calls id = s.calls id :=
  Function.update_of_ne h ..

/-- The other calls stay as they are when a response is stored. -/
@[simp] theorem store_calls_of_ne (h : id ≠ j) : (s.store j pdu).calls id = s.calls id :=
  Function.update_of_ne h ..

/-- The other calls stay as they are when one begins. -/
@[simp] theorem enter_calls_of_ne {server : Server A} (h : id ≠ j) :
    (s.enter j ph server).calls id = s.calls id :=
  Function.update_of_ne h ..

/-- A signal does not touch the calls. -/
@[simp] theorem signalCall_calls (call : Option Id) : (s.signalCall call).calls = s.calls := by
  obtain ⟨events, -, heq⟩ := signalCall_eq s call
  rw [heq]

/-- A signal does not touch the entries. -/
@[simp] theorem signalCall_pendingRequests (call : Option Id) :
    (s.signalCall call).pendingRequests = s.pendingRequests := by
  obtain ⟨events, -, heq⟩ := signalCall_eq s call
  rw [heq]

/-- Giving up a sync point does not touch the calls. -/
@[simp] theorem dropSyncPoint_calls : (s.dropSyncPoint j).calls = s.calls := by
  simp only [dropSyncPoint, freeReadSyncPoint_calls]

/-- Cleaning up does not touch the other calls. -/
@[simp] theorem cleanUp_calls_of_ne {role : Role} (h : id ≠ j) :
    (s.cleanUp j role).calls id = s.calls id := by
  simp only [cleanUp, handOver, goTo_calls_of_ne h]
  split <;> split <;> simp

/-- Cleaning up does not touch the entries of other calls. -/
@[simp] theorem cleanUp_pendingRequests_of_ne {role : Role} (h : id ≠ j) :
    (s.cleanUp j role).pendingRequests id = s.pendingRequests id := by
  simp only [cleanUp, handOver, Socket.goTo]
  split <;> split <;> simp [Function.update_of_ne h]

/-- Going on does not touch the responses. -/
@[simp] theorem response_goTo : (s.goTo j ph).response id = s.response id := by
  by_cases h : id = j
  · subst h
    simp only [response, Socket.goTo, Function.update_self]
    cases s.calls id <;> rfl
  · rw [response, response, goTo_calls_of_ne h]

/-- A response that is stored is there. -/
theorem response_store (h : (s.role id).isSome) : (s.store id pdu).response id = some pdu := by
  simp only [response, store, Function.update_self]
  cases hc : s.calls id with
  | none => simp [role, phase, hc] at h
  | some c => rfl

/-- A signal does not touch the responses. -/
@[simp] theorem response_signalCall (call : Option Id) :
    (s.signalCall call).response id = s.response id := by
  rw [response, response, signalCall_calls]

/-- Handing over does not touch the responses. -/
@[simp] theorem response_handOver : s.handOver.response id = s.response id := by
  rw [handOver, response_signalCall]
  rfl

/-- A signal changes no phase. -/
@[simp] theorem phase_signalCall (call : Option Id) :
    (s.signalCall call).phase id = s.phase id := by
  rw [phase, phase, signalCall_calls]

/-- Handing over changes no phase. -/
@[simp] theorem phase_handOver : s.handOver.phase id = s.phase id := by
  rw [handOver, phase_signalCall]
  rfl

/-- A call whose entry is still set holds no response. -/
theorem Holds.ne_of_pending (hs : s.Holds id pdu) (hpending : (s.pendingRequests j).isSome) :
    id ≠ j := by
  rintro rfl
  rw [hs.clear] at hpending
  cases hpending

/-- A response that is awaited is for a call that holds none. -/
theorem Holds.ne_of_isAwaited [DecidableEq A] {T : PduType P} {d : Datagram P A}
    (hs : s.Holds id pdu) (hawaited : s.isAwaited T d = true) : id ≠ T.id d.pdu := by
  refine hs.ne_of_pending ?_
  rw [isAwaited, decide_eq_true_eq] at hawaited
  rw [hawaited]
  rfl

/-- Another call goes on. -/
theorem Holds.goTo_of_ne (hs : s.Holds id pdu) (hj : id ≠ j) : (s.goTo j ph).Holds id pdu :=
  hs.of_ne (goTo_calls_of_ne hj) rfl

/-- A response is stored for another call. -/
theorem Holds.store {other : P} (hs : s.Holds id pdu) (hj : id ≠ j) :
    (s.store j other).Holds id pdu :=
  hs.of_ne (store_calls_of_ne hj) (Function.update_of_ne hj ..)

/-- Signals do not take the response away. -/
theorem Holds.signalCall (hs : s.Holds id pdu) (call : Option Id) :
    (s.signalCall call).Holds id pdu :=
  hs.of_ne (congrFun (signalCall_calls call) id) (congrFun (signalCall_pendingRequests call) id)

/-- Neither does handing over. -/
theorem Holds.handOver (hs : s.Holds id pdu) : s.handOver.Holds id pdu := by
  have hfree : ({ s with isReading := false } : Socket P A).Holds id pdu := hs.of_ne rfl rfl
  exact hfree.signalCall _

/-- Nor giving up a sync point. -/
theorem Holds.dropSyncPoint (hs : s.Holds id pdu) : (s.dropSyncPoint j).Holds id pdu :=
  hs.of_ne (congrFun dropSyncPoint_calls id) (congrFun dropSyncPoint_pendingRequests id)

/-- A call, this one or another, enters the loop after its request was written or its deadline was
looked at. The one that holds a response is not the reader there. -/
theorem Holds.loop {role : Role} (hs : s.Holds id pdu) (hphase : s.phase j = some ph)
    (hph : ph = .writing role ∨ ph = .testing role) : (s.goTo j role.loop).Holds id pdu := by
  by_cases hj : id = j
  · subst hj
    have hexpects := hs.of_phase hphase
    cases role with
    | reader =>
      rcases hph with rfl | rfl
      · simp [Phase.result, Phase.expects] at hexpects
      · simp [Phase.result, Phase.expects] at hexpects
    | waiter i => exact hs.goTo (Or.inr rfl)
  · exact hs.goTo_of_ne hj

/-- A call for which a response is awaited is in progress, and if it is neither the reader nor past
the loop it will look for the response. -/
theorem Coherent.expects (h : s.Coherent) (hpending : (s.pendingRequests id).isSome)
    (hreader : s.role id ≠ some .reader) (hleft : (s.phase id).any Phase.left = false) :
    (s.phase id).any Phase.expects := by
  cases hp : s.phase id with
  | none =>
    rw [h.pending id (by rw [role, hp]; rfl)] at hpending
    cases hpending
  | some ph =>
    rw [role_of_phase hp] at hreader
    rw [hp] at hleft
    cases ph with
    | writing role | testing role =>
      cases role with
      | reader => exact absurd rfl hreader
      | waiter => rfl
    | reading | received => exact absurd rfl hreader
    | waiting | woken => rfl
    | leaving => cases hleft
    | returned =>
      rw [h.pending id (role_of_phase hp)] at hpending
      cases hpending

variable [DecidableEq A] (T : PduType P)

/-- The response a step stores, and for whom. -/
def stored (s : Socket P A) : Action P A → Option (Id × P)
  | .dispatch id true =>
    match s.phase id with
    | some (.received d) => if s.isAwaited T d then some (T.id d.pdu, d.pdu) else none
    | _ => none
  | _ => none

/-- A step does not lose a response: a call that fails to write, whose wait times out or whose
deadline has passed has none yet, and a response is not stored for a call that has left the loop. -/
def Keeps (s : Socket P A) : Action P A → Prop
  | .write id false => (s.pendingRequests id).isSome
  | .timeOut id => (s.pendingRequests id).isSome
  | .deadline id true => (s.pendingRequests id).isSome
  | .dispatch id true =>
    match s.stored T (.dispatch id true) with
    | some (n, _) => (s.phase n).any Phase.left = false
    | none => True
  | _ => True

/-- A new call with an identifier is made. -/
def Calls (id : Id) : Action P A → Prop
  | .call request _ _ => T.id request = id
  | _ => False

/-- The call with an identifier leaves the loop without looking for its response. -/
def Leaves (id : Id) : Action P A → Prop
  | .write k false => k = id
  | .timeOut k => k = id
  | .deadline k true => k = id
  | _ => False

variable {T} {a : Action P A}

/-- A step that does not lose a response lets no call leave for which one is there. -/
theorem Holds.not_leaves (hs : s.Holds id pdu) (hkeeps : Keeps T s a) : ¬Leaves id a := by
  intro hleaves
  have hpending : (s.pendingRequests id).isSome := by
    unfold Leaves at hleaves
    split at hleaves
    · exact hleaves ▸ hkeeps
    · exact hleaves ▸ hkeeps
    · exact hleaves ▸ hkeeps
    · exact hleaves.elim
  rw [hs.clear] at hpending
  cases hpending

/-- A response that was stored is kept by every step but one that lets its call leave. -/
theorem Holds.step (hs : s.Holds id pdu) (hleaves : ¬Leaves id a) (hcalls : ¬Calls T id a)
    (hstep : s.step T a = some s') : s'.Holds id pdu := by
  cases branch_of_step hstep with
  | refused => exact hs.of_ne (enter_calls_of_ne (Ne.symm hcalls)) rfl
  | began =>
    exact hs.of_ne (enter_calls_of_ne (Ne.symm hcalls)) (Function.update_of_ne (Ne.symm hcalls) ..)
  | joined =>
    exact hs.of_ne (enter_calls_of_ne (Ne.symm hcalls)) (Function.update_of_ne (Ne.symm hcalls) ..)
  | @wrote k written role hphase =>
    cases written with
    | true => exact hs.loop hphase (Or.inl rfl)
    | false => exact hs.goTo_of_ne fun hk => hleaves hk.symm
  | read hphase => exact hs.goTo_of_ne (hs.ne hphase rfl rfl)
  | dropped hphase => exact hs.goTo_of_ne (hs.ne hphase rfl rfl)
  | kept hphase haw hid =>
    have hk := hs.ne hphase rfl rfl
    exact (hs.store hk).handOver.goTo_of_ne hk
  | delivered hphase haw hid =>
    exact ((hs.store (hs.ne_of_isAwaited haw)).signalCall _).goTo_of_ne (hs.ne hphase rfl rfl)
  | stranded hphase haw hid =>
    exact (hs.store (hs.ne_of_isAwaited haw)).goTo_of_ne (hs.ne hphase rfl rfl)
  | @woke k i hphase hset =>
    have hreset : (s.reset i).Holds id pdu := hs.of_ne rfl rfl
    by_cases hk : id = k
    · subst hk
      exact hreset.goTo (Or.inr rfl)
    · exact hreset.goTo_of_ne hk
  | timedOut hphase => exact hs.goTo_of_ne fun hk => hleaves hk.symm
  | @answered k i hphase hclear =>
    by_cases hk : id = k
    · subst hk
      exact hs.dropSyncPoint.goTo (Or.inl rfl)
    · exact hs.dropSyncPoint.goTo_of_ne hk
  | promoted hphase hpending hfree =>
    rw [dropSyncPoint_isReading]
    exact hs.dropSyncPoint.of_ne (goTo_calls_of_ne (hs.ne_of_pending hpending)) rfl
  | disturbed hphase hpending hbusy => exact hs.goTo_of_ne (hs.ne_of_pending hpending)
  | @tested k passed role hphase =>
    cases passed with
    | false => exact hs.loop hphase (Or.inr rfl)
    | true => exact hs.goTo_of_ne fun hk => hleaves hk.symm
  | cleaned hphase =>
    have hk := hs.ne hphase rfl rfl
    exact hs.of_ne (cleanUp_calls_of_ne hk) (cleanUp_pendingRequests_of_ne hk)
  | refreshed => exact hs.of_ne rfl rfl

/-- A response is stored by the reader, for the call with its identifier. -/
theorem stored_eq_some (h : s.stored T a = some (id, pdu)) : ∃ k d, a = .dispatch k true ∧
    s.phase k = some (.received d) ∧ s.isAwaited T d = true ∧ T.id d.pdu = id ∧ d.pdu = pdu := by
  unfold stored at h
  split at h
  · rename_i k
    split at h
    · rename_i d hphase
      split at h
      · rename_i haw
        cases h
        exact ⟨k, d, rfl, hphase, haw, rfl, rfl⟩
      · cases h
    · cases h
  · cases h

/-- A response that is stored, and not for a call that has left the loop, is there. -/
theorem Coherent.holds (h : s.Coherent) (hkeeps : Keeps T s a)
    (hstored : s.stored T a = some (id, pdu)) (hstep : s.step T a = some s') :
    s'.Holds id pdu := by
  obtain ⟨k, d, rfl, hphase, haw, rfl, rfl⟩ := stored_eq_some hstored
  have hreader := role_of_phase hphase
  have hpending : (s.pendingRequests (T.id d.pdu)).isSome := by
    rw [isAwaited, decide_eq_true_eq] at haw
    rw [haw]
    rfl
  have hrole : (s.role (T.id d.pdu)).isSome := by
    rw [Option.isSome_iff_ne_none]
    intro hnone
    rw [h.pending _ hnone] at hpending
    cases hpending
  have hstore : (s.store (T.id d.pdu) d.pdu).response (T.id d.pdu) = some d.pdu :=
    response_store hrole
  simp only [Keeps, hstored] at hkeeps
  have hother (hid : T.id d.pdu ≠ k) : (s.phase (T.id d.pdu)).any Phase.expects :=
    h.expects hpending (fun hrole' => hid (h.unique _ _ hrole' hreader)) hkeeps
  cases branch_of_step hstep with
  | dropped hphase' hnot =>
    cases hphase.symm.trans hphase'
    cases haw.symm.trans (hnot rfl)
  | kept hphase' _ hid =>
    cases hphase.symm.trans hphase'
    subst hid
    refine ⟨by rw [response_goTo, response_handOver, hstore], ?_, Or.inl ?_⟩
    · simp [Socket.goTo, Socket.handOver, Socket.store]
    · rw [result, phase_goTo_self, phase_handOver, phase_store, hphase]
      rfl
  | delivered hphase' _ hid =>
    cases hphase.symm.trans hphase'
    refine ⟨by rw [response_goTo, response_signalCall, hstore], ?_, Or.inr ?_⟩
    · simp [Socket.goTo, Socket.store]
    · rw [phase_goTo_of_ne hid, phase_signalCall, phase_store]
      exact hother hid
  | stranded hphase' _ hid =>
    cases hphase.symm.trans hphase'
    refine ⟨by rw [response_goTo, hstore], ?_, Or.inr ?_⟩
    · simp [Socket.goTo, Socket.store]
    · rw [phase_goTo_of_ne hid, phase_store]
      exact hother hid

/-- In every run whose steps lose no response, a call for which a response was stored returns true
with exactly that response, if it returns. -/
theorem response_returned {oldestId : Id} {as bs : List (Action P A)} {u v w : Socket P A}
    (before : Steps (step T) (Keeps T) (new oldestId) as u) (hkeeps : Keeps T u a)
    (hstored : u.stored T a = some (id, pdu)) (hstep : u.step T a = some v)
    (after : Steps (step T) (fun s b => Keeps T s b ∧ ¬Calls T id b) v bs w) {result : Bool}
    (hresult : w.result id = some result) : result = true ∧ w.response id = some pdu := by
  have hcoherent : u.Coherent := before.invariant (.new oldestId) fun _ _ _ h _ hs => h.step hs
  have hholds : w.Holds id pdu :=
    after.invariant (I := fun s => s.Holds id pdu) (hcoherent.holds hkeeps hstored hstep)
      fun _ _ _ h hok hs => h.step (h.not_leaves hok.1) hok.2 hs
  refine ⟨?_, hholds.response⟩
  obtain ⟨ph, hphase, hres⟩ := Option.bind_eq_some_iff.mp hresult
  rcases hholds.of_phase hphase with h | h
  · exact Option.some.inj (hres.symm.trans h)
  · cases ph with
    | returned => cases h
    | writing | reading | received | waiting | woken | testing | leaving => cases hres

instance (s : Socket P A) : (a : Action P A) → Decidable (Keeps T s a)
  | .write id false | .timeOut id | .deadline id true =>
    inferInstanceAs (Decidable ((s.pendingRequests id).isSome = true))
  | .dispatch id true =>
    match h : s.stored T (.dispatch id true) with
    | some (n, _) =>
      decidable_of_iff ((s.phase n).any Phase.left = false) (by simp only [Keeps, h])
    | none => .isTrue (by simp only [Keeps, h])
  | .call .. | .write _ true | .read .. | .dispatch _ false | .wake _ | .check _
  | .deadline _ false | .cleanUp _ | .refresh _ => inferInstanceAs (Decidable True)

instance (id : Id) : (a : Action P A) → Decidable (Calls T id a)
  | .call request _ _ => inferInstanceAs (Decidable (T.id request = id))
  | .write .. | .read .. | .dispatch .. | .wake _ | .timeOut _ | .check _ | .deadline ..
  | .cleanUp _ | .refresh _ => inferInstanceAs (Decidable False)

/-- A call that waits finds its response and returns it. -/
theorem response_returned_waiter : ∃ u v w,
    Steps (step plainPdu) (Keeps plainPdu) (new 0)
      (beginAll [0, 1] ++ [.read 0 (some ⟨1, minPduLength, plainServer⟩)]) u ∧
    u.stored plainPdu (.dispatch 0 true) = some (1, 1) ∧
    u.step plainPdu (.dispatch 0 true) = some v ∧
    Run (step plainPdu) v [.wake 1, .check 1] w ∧
    w.result 1 = some true ∧ w.response 1 = some 1 := by
  have heval : ((runLabels (guarded (step plainPdu) (Keeps plainPdu)) (new 0)
      (beginAll [0, 1] ++ [.read 0 (some ⟨1, minPduLength, plainServer⟩)])).bind fun u =>
        (u.step plainPdu (.dispatch 0 true)).bind fun v =>
          (runLabels (guarded (step plainPdu) fun s b => Keeps plainPdu s b ∧
              ¬Calls plainPdu 1 b) v [.wake 1, .check 1]).map fun w =>
            (u.stored plainPdu (.dispatch 0 true), decide (Keeps plainPdu u (.dispatch 0 true)),
              w.result 1)) = some (some (1, 1), true, some true) := by
    decide +kernel
  obtain ⟨u, hu, heval⟩ := Option.bind_eq_some_iff.mp heval
  obtain ⟨v, hv, heval⟩ := Option.bind_eq_some_iff.mp heval
  obtain ⟨w, hw, heval⟩ := Option.map_eq_some_iff.mp heval
  simp only [Prod.mk.injEq, decide_eq_true_eq] at heval
  obtain ⟨hstored, hkeeps, hresult⟩ := heval
  have before := Steps.of_guarded (run_of_runLabels hu)
  have after := Steps.of_guarded (run_of_runLabels hw)
  refine ⟨u, v, w, before, hstored, hv, after.mono fun _ _ _ => trivial, hresult, ?_⟩
  exact (response_returned before hkeeps hstored hv after hresult).2

/-- A call whose wait times out just before its response arrives returns false. -/
theorem not_response_returned_late : ∃ u v w,
    Run (step plainPdu) (new 0)
      (beginAll [0, 1] ++ [.timeOut 1, .read 0 (some ⟨1, minPduLength, plainServer⟩)]) u ∧
    u.stored plainPdu (.dispatch 0 true) = some (1, 1) ∧
    u.step plainPdu (.dispatch 0 true) = some v ∧
    Run (step plainPdu) v [.cleanUp 1] w ∧
    w.result 1 = some false ∧ w.response 1 = some 1 := by
  have heval : ((runLabels (step plainPdu) (new 0)
      (beginAll [0, 1] ++ [.timeOut 1, .read 0 (some ⟨1, minPduLength, plainServer⟩)])).bind fun u =>
        (u.step plainPdu (.dispatch 0 true)).bind fun v =>
          (runLabels (step plainPdu) v [.cleanUp 1]).map fun w =>
            (u.stored plainPdu (.dispatch 0 true), w.result 1, w.response 1)) =
              some (some (1, 1), some false, some 1) := by
    decide +kernel
  obtain ⟨u, hu, heval⟩ := Option.bind_eq_some_iff.mp heval
  obtain ⟨v, hv, heval⟩ := Option.bind_eq_some_iff.mp heval
  obtain ⟨w, hw, heval⟩ := Option.map_eq_some_iff.mp heval
  simp only [Prod.mk.injEq] at heval
  obtain ⟨hstored, hresult, hresponse⟩ := heval
  exact ⟨u, v, w, run_of_runLabels hu, hstored, hv, run_of_runLabels hw, hresult, hresponse⟩

end Socket

end Dot1x.Radius
