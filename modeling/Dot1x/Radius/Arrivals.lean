import Dot1x.Radius.Dispatcher
import Mathlib.Data.Fintype.EquivFin

/-!
# What arrives while a request is pending

What arrives is read in order as long as some call reads. Every datagram that is read is in the hand
of the reader until it is discarded or stored for the call whose request it answers. As long as
nothing fails or times out for a call, the first datagram that answers its request is stored for it,
and the call returns that one: if it waits, its sync point stays signalled until its wait is
satisfied.
-/

namespace Dot1x.Radius

open Dot1x.Base

instance {P A : Type} [DecidableEq A] (T : PduType P) (d : Datagram P A) :
    Decidable (d.Acceptable T) :=
  decidable_of_iff (minPduLength ≤ d.bytesRead ∧ T.isValid d.pdu = true)
    ⟨fun h => ⟨h.1, h.2⟩, fun h => ⟨h.long, h.valid⟩⟩

instance {P A : Type} [DecidableEq A] (T : PduType P) (d : Datagram P A) (id : Id)
    (server : Server A) : Decidable (d.Answers T id server) :=
  decidable_of_iff (d.Acceptable T ∧ T.id d.pdu = id ∧ d.source = server)
    ⟨fun h => ⟨h.1, h.2.1, h.2.2⟩, fun h => ⟨h.toAcceptable, h.id, h.source⟩⟩

/-- The datagram that a call has in hand. -/
def Phase.datagram {P A : Type} : Phase P A → Option (Datagram P A)
  | .received d => some d
  | _ => none

/-- A datagram is in hand in the one phase that holds it. -/
theorem Phase.datagram_eq_some {P A : Type} {ph : Phase P A} {d : Datagram P A} :
    ph.datagram = some d ↔ ph = .received d := by
  cases ph <;> simp [Phase.datagram]

/-- A call is neither past the loop nor has it returned. -/
def Phase.goesOn {P A : Type} : Phase P A → Bool
  | .leaving _ => false
  | .returned _ => false
  | _ => true

/-- A call that enters the loop goes on. -/
theorem Role.goesOn_loop {P A : Type} (role : Role) : (role.loop : Phase P A).goesOn = true := by
  cases role <;> rfl

namespace Socket

variable {P A : Type} {s s' : Socket P A} {id j k : Id} {d : Datagram P A} {ph : Phase P A}

/-- The datagram that was read last, until it is discarded or stored. -/
def inHand (s : Socket P A) : Option (Datagram P A) :=
  (List.finRange 256).findSome? fun j => (s.phase j).bind Phase.datagram

/-- The same of the phase of a call. -/
theorem datagram_phase :
    (s.phase j).bind Phase.datagram = some d ↔ s.phase j = some (.received d) := by
  rw [Option.bind_eq_some_iff]
  constructor
  · rintro ⟨ph, hph, hd⟩
    rwa [Phase.datagram_eq_some.mp hd] at hph
  · exact fun h => ⟨_, h, rfl⟩

/-- Nothing is in hand exactly where no call has received a datagram. -/
theorem inHand_eq_none : s.inHand = none ↔ ∀ j d, s.phase j ≠ some (.received d) := by
  rw [inHand, List.findSome?_eq_none_iff]
  refine ⟨fun h j d hj => ?_, fun h j _ => ?_⟩
  · cases (h j (List.mem_finRange j)).symm.trans (datagram_phase.mpr hj)
  · exact Option.eq_none_iff_forall_ne_some.mpr fun d hd => h j d (datagram_phase.mp hd)

/-- Only the reader has a datagram in hand. -/
theorem Coherent.inHand_of_phase (h : s.Coherent) (hj : s.phase j = some (.received d)) :
    s.inHand = some d := by
  cases hin : s.inHand with
  | none => exact absurd hj (inHand_eq_none.mp hin j d)
  | some d' =>
    obtain ⟨k, -, hk⟩ := List.exists_of_findSome?_eq_some hin
    have hk := datagram_phase.mp hk
    have hkj := h.unique k j (role_of_phase hk) (role_of_phase hj)
    rw [hkj, hj] at hk
    cases hk
    rfl

/-- While another call is the reader and has read nothing, there is nothing in hand. -/
theorem Coherent.inHand_of_reading (h : s.Coherent) (hj : s.role j = some .reader)
    (hnone : ∀ d, s.phase j ≠ some (.received d)) : s.inHand = none := by
  rw [inHand_eq_none]
  intro k d hk
  have hkj := h.unique k j (role_of_phase hk) hj
  exact hnone d (hkj ▸ hk)

/-- What is in hand is known from the calls. -/
theorem inHand_of_calls (h : s'.calls = s.calls) : s'.inHand = s.inHand := by
  simp only [inHand, phase, h]

/-- What is in hand depends on the phases of the calls. -/
theorem inHand_congr (k : Id) (hothers : ∀ j, j ≠ k → s'.phase j = s.phase j)
    (hbefore : (s.phase k).bind Phase.datagram = none)
    (hafter : (s'.phase k).bind Phase.datagram = none) : s'.inHand = s.inHand := by
  refine congrArg (List.findSome? · _) (funext fun j => ?_)
  by_cases hj : j = k
  · rw [hj, hbefore, hafter]
  · rw [hothers j hj]

/-- A call that has nothing in hand goes on and has nothing in hand. -/
theorem inHand_goTo (hphase : s.phase k = some ph) (hbefore : ph.datagram = none)
    {ph' : Phase P A} (hafter : ph'.datagram = none) : (s.goTo k ph').inHand = s.inHand := by
  refine inHand_congr k (fun j hj => phase_goTo_of_ne hj) ?_ ?_
  · rw [hphase]
    exact hbefore
  · rw [phase_goTo_self, hphase]
    exact hafter

/-- A call that begins has nothing in hand. -/
theorem inHand_enter (hid : s.role k = none) {server : Server A} (hph : ph.datagram = none) :
    (s.enter k ph server).inHand = s.inHand := by
  refine inHand_congr k (fun j hj => phase_enter_of_ne hj) ?_ ?_
  · cases hp : s.phase k with
    | none => rfl
    | some q =>
      rw [role_of_phase hp] at hid
      cases q <;> first | rfl | cases hid
  · rw [phase_enter_self]
    exact hph

variable [DecidableEq A] {T : PduType P} {a : Action P A}

omit [DecidableEq A] in
/-- The reader goes on with a datagram that is acceptable. -/
theorem afterRead_of_acceptable (h : d.Acceptable T) : afterRead T (some d) = .received d :=
  afterRead_eq_received.mpr ⟨rfl, h⟩

omit [DecidableEq A] in
/-- The reader drops a datagram that is not acceptable, and looks at its deadline. -/
theorem afterRead_of_not_acceptable (h : ¬d.Acceptable T) :
    afterRead T (some d) = .testing .reader := by
  rw [afterRead]
  split
  · rfl
  · rename_i hgood
    have hreceived : afterRead T (some d) = .received d := if_neg hgood
    exact absurd (afterRead_eq_received.mp hreceived).2 h

/-- The datagram that a step deals with: one that is discarded at once, or what was in hand. -/
def dealt (T : PduType P) (s : Socket P A) : Action P A → Option (Datagram P A)
  | .read _ (some d) => if d.Acceptable T then none else some d
  | .dispatch id _ => (s.phase id).bind Phase.datagram
  | _ => none

/-- In a step, what was in hand and what is read is dealt with or in hand afterwards. -/
def Conserves (T : PduType P) (s : Socket P A) (a : Action P A) (s' : Socket P A) : Prop :=
  s.inHand.toList ++ a.datagram.toList = (s.dealt T a).toList ++ s'.inHand.toList

/-- A step that neither reads nor deals with anything. -/
theorem conserves_of_same (hread : a.datagram = none) (hdealt : s.dealt T a = none)
    (hsame : s'.inHand = s.inHand) : Conserves T s a s' := by
  rw [Conserves, hread, hdealt, hsame]
  exact List.append_nil _

/-- The reader deals with what it has in hand. Nobody else has anything in hand. -/
theorem Coherent.conserves_of_dealt (h : s.Coherent) (hphase : s.phase k = some (.received d))
    (hread : a.datagram = none) (hdealt : s.dealt T a = some d)
    (hothers : ∀ j, j ≠ k → s'.phase j = s.phase j)
    (hself : ∀ d, s'.phase k ≠ some (.received d)) : Conserves T s a s' := by
  have hnone : s'.inHand = none := by
    rw [inHand_eq_none]
    intro j d' hj
    by_cases hjk : j = k
    · exact hself d' (hjk ▸ hj)
    · rw [hothers j hjk] at hj
      exact hjk (h.unique j k (role_of_phase hj) (role_of_phase hphase))
  rw [Conserves, h.inHand_of_phase hphase, hread, hdealt, hnone]

/-- The reader reads, and has nothing in hand before that. -/
theorem Coherent.conserves_read {datagram : Option (Datagram P A)} (h : s.Coherent)
    (hphase : s.phase k = some .reading)
    (hstep : s.step T (.read k datagram) = some (s.goTo k (afterRead T datagram))) :
    Conserves T s (.read k datagram) (s.goTo k (afterRead T datagram)) := by
  cases datagram with
  | none => exact conserves_of_same rfl rfl (inHand_goTo hphase rfl rfl)
  | some d =>
    have hbefore : s.inHand = none := h.inHand_of_reading (role_of_phase hphase)
      fun d hd => by cases hphase.symm.trans hd
    have hself : (s.goTo k (afterRead T (some d))).phase k = some (afterRead T (some d)) :=
      phase_goTo hphase
    rw [Conserves]
    by_cases hgood : d.Acceptable T
    · rw [afterRead_of_acceptable hgood] at hstep hself ⊢
      rw [hbefore, (h.step hstep).inHand_of_phase hself, dealt, if_pos hgood]
      rfl
    · rw [afterRead_of_not_acceptable hgood] at hstep hself ⊢
      rw [inHand_goTo hphase rfl rfl, hbefore, dealt, if_neg hgood]
      rfl

/-- What is read is in hand until it is dealt with. -/
theorem Coherent.conserves_step (h : s.Coherent) (hstep : s.step T a = some s') :
    Conserves T s a s' := by
  have hleft {s' : Socket P A} {k : Id} {d : Datagram P A} {ph : Phase P A}
      (hself : s'.phase k = some ph) (hph : ph.datagram = none) :
      s'.phase k ≠ some (.received d) := fun hd => by
    cases hself.symm.trans hd
    cases hph
  cases branch_of_step hstep with
  | refused hid => exact conserves_of_same rfl rfl (inHand_enter hid rfl)
  | began hid => exact conserves_of_same rfl rfl (inHand_enter hid rfl)
  | joined hid => exact conserves_of_same rfl rfl (inHand_enter hid rfl)
  | @wrote k written role hphase =>
    refine conserves_of_same rfl rfl (inHand_goTo hphase rfl ?_)
    cases written <;> cases role <;> rfl
  | read hphase => exact h.conserves_read hphase hstep
  | dropped hphase =>
    exact h.conserves_of_dealt hphase rfl (datagram_phase.mpr hphase)
      (fun j hj => phase_goTo_of_ne hj) fun _ => hleft (phase_goTo hphase) rfl
  | @kept k d hphase =>
    refine h.conserves_of_dealt hphase rfl (datagram_phase.mpr hphase) (fun j hj => ?_)
      fun _ => hleft (phase_goTo ((phase_handOver.trans phase_store).trans hphase)) rfl
    rw [phase_goTo_of_ne hj, phase_handOver, phase_store]
  | @delivered k d hphase =>
    refine h.conserves_of_dealt hphase rfl (datagram_phase.mpr hphase) (fun j hj => ?_)
      fun _ => hleft (phase_goTo (((phase_signalCall _).trans phase_store).trans hphase)) rfl
    rw [phase_goTo_of_ne hj, phase_signalCall, phase_store]
  | @stranded k d hphase =>
    refine h.conserves_of_dealt hphase rfl (datagram_phase.mpr hphase) (fun j hj => ?_)
      fun _ => hleft (phase_goTo (phase_store.trans hphase)) rfl
    rw [phase_goTo_of_ne hj, phase_store]
  | @woke k i hphase => exact conserves_of_same rfl rfl (inHand_goTo (s := s.reset i) hphase rfl rfl)
  | timedOut hphase => exact conserves_of_same rfl rfl (inHand_goTo hphase rfl rfl)
  | answered hphase =>
    exact conserves_of_same rfl rfl ((inHand_goTo (dropSyncPoint_phase.trans hphase) rfl rfl).trans
      (inHand_of_calls dropSyncPoint_calls))
  | @promoted k i hphase =>
    have hwoken : { s with isReading := true }.phase k = some (.woken i) := hphase
    exact conserves_of_same rfl rfl ((inHand_goTo (dropSyncPoint_phase.trans hwoken) rfl rfl).trans
      (inHand_of_calls dropSyncPoint_calls))
  | disturbed hphase => exact conserves_of_same rfl rfl (inHand_goTo hphase rfl rfl)
  | @tested k passed role hphase =>
    refine conserves_of_same rfl rfl (inHand_goTo hphase rfl ?_)
    cases passed <;> cases role <;> rfl
  | cleaned hphase =>
    exact conserves_of_same rfl rfl
      ((inHand_of_calls cleanUp_calls).trans (inHand_goTo hphase rfl rfl))
  | refreshed => exact conserves_of_same rfl rfl rfl

/-- Nothing that has to do with a call fails or times out in a step, and no other call takes its
identifier. -/
def Timely (T : PduType P) (id : Id) : Action P A → Prop
  | .call request _ _ => T.id request ≠ id
  | .write k written => k = id → written = true
  | .read k datagram => k = id → datagram.isSome
  | .dispatch _ locked => locked = true
  | .timeOut k => k ≠ id
  | .deadline k passed => k = id → passed = false
  | _ => True

/-- A call waits for its response. -/
structure Awaits (s : Socket P A) (id : Id) (server : Server A) : Prop where
  pending : s.pendingRequests id = some server
  goesOn : (s.phase id).any Phase.goesOn

variable {server : Server A}

omit [DecidableEq A] in
/-- A step that leaves the call and its entry alone. -/
theorem Awaits.of_same (hs : s.Awaits id server) (hphase : s'.phase id = s.phase id)
    (hpending : s'.pendingRequests id = s.pendingRequests id) : s'.Awaits id server :=
  ⟨hpending.trans hs.pending, by rw [hphase, hs.goesOn]⟩

omit [DecidableEq A] in
/-- Some call goes to another phase. -/
theorem Awaits.goTo (hs : s.Awaits id server) (k : Id) (hph : k = id → ph.goesOn) :
    (s.goTo k ph).Awaits id server := by
  by_cases hk : id = k
  · refine ⟨hs.pending, ?_⟩
    have hgoesOn := hs.goesOn
    subst hk
    rw [phase_goTo_self]
    cases hp : s.phase id with
    | none => simp [hp] at hgoesOn
    | some q => exact hph rfl
  · exact hs.of_same (phase_goTo_of_ne hk) rfl

omit [DecidableEq A] in
/-- A call that does not go on is not one that waits for its response. -/
theorem Awaits.ne (hs : s.Awaits id server) (hphase : s.phase k = some ph)
    (hph : ph.goesOn = false) : k ≠ id := by
  rintro rfl
  have hgoesOn := hs.goesOn
  rw [hphase, Option.any_some, hph] at hgoesOn
  cases hgoesOn

/-- A response that is not for the reader is for a call that owns a sync point. -/
theorem Coherent.event_of_isAwaited (h : s.Coherent) (hphase : s.phase k = some (.received d))
    (hawaited : s.isAwaited T d = true) (hid : T.id d.pdu ≠ k) :
    ∃ set, (s.readSyncPointIndices (T.id d.pdu)).bind s.readSyncPoints = some set := by
  obtain ⟨role, hrole⟩ := Option.isSome_iff_exists.mp (h.role_of_isAwaited hawaited)
  cases role with
  | reader => exact absurd (h.unique _ _ hrole (role_of_phase hphase)) hid
  | waiter i =>
    have hindex := h.index_waiter hrole
    obtain ⟨set, hset⟩ := Option.isSome_iff_exists.mp (h.event _ i hindex).2
    exact ⟨set, by rw [hindex, Option.bind_some, hset]⟩

omit [DecidableEq A] in
/-- The response of another call is stored. -/
theorem Awaits.store {pdu : P} (hs : s.Awaits id server) (hj : id ≠ j) :
    (s.store j pdu).Awaits id server :=
  hs.of_same phase_store (Function.update_of_ne hj ..)

omit [DecidableEq A] in
/-- Signals do not end the waiting. -/
theorem Awaits.signalCall (hs : s.Awaits id server) (call : Option Id) :
    (s.signalCall call).Awaits id server :=
  hs.of_same (phase_signalCall call) (congrFun (signalCall_pendingRequests call) id)

omit [DecidableEq A] in
/-- The reader hands over its role. -/
theorem Awaits.handOver (hs : s.Awaits id server) : s.handOver.Awaits id server := by
  have hfree : ({ s with isReading := false } : Socket P A).Awaits id server := hs.of_same rfl rfl
  exact hfree.signalCall _

omit [DecidableEq A] in
/-- A call, this one or another, gives up its sync point. -/
theorem Awaits.dropSyncPoint (hs : s.Awaits id server) : (s.dropSyncPoint j).Awaits id server :=
  hs.of_same dropSyncPoint_phase (congrFun dropSyncPoint_pendingRequests id)

omit [DecidableEq A] in
/-- The reader goes on, whatever it has read. -/
private theorem goesOn_afterRead : (afterRead T (some d)).goesOn = true := by
  rw [afterRead]
  split
  · rfl
  · rfl

/-- A response that is dispatched, but not stored for the call, is for another one. -/
theorem ne_of_dispatched (hstored : ∀ pdu, s.stored T (.dispatch k true) ≠ some (id, pdu))
    (hphase : s.phase k = some (.received d)) (hawaited : s.isAwaited T d = true) :
    id ≠ T.id d.pdu := by
  rintro rfl
  refine hstored d.pdu ?_
  rw [stored_dispatch hphase, if_pos hawaited]

/-- A call goes on waiting as long as its response is not stored. -/
theorem Awaits.step (hs : s.Awaits id server) (h : s.Coherent) (htimely : Timely T id a)
    (hstored : ∀ pdu, s.stored T a ≠ some (id, pdu)) (hstep : s.step T a = some s') :
    s'.Awaits id server := by
  cases branch_of_step hstep with
  | refused => exact hs.of_same (phase_enter_of_ne (Ne.symm htimely)) rfl
  | began =>
    exact hs.of_same (phase_enter_of_ne (Ne.symm htimely))
      (Function.update_of_ne (Ne.symm htimely) ..)
  | joined =>
    exact hs.of_same (phase_enter_of_ne (Ne.symm htimely))
      (Function.update_of_ne (Ne.symm htimely) ..)
  | @wrote k written role =>
    refine hs.goTo k fun hk => ?_
    rw [htimely hk, if_pos rfl]
    exact role.goesOn_loop
  | @read k datagram =>
    refine hs.goTo k fun hk => ?_
    obtain ⟨d, rfl⟩ := Option.isSome_iff_exists.mp (htimely hk)
    exact goesOn_afterRead
  | @dropped k => exact hs.goTo k fun _ => rfl
  | @kept k d hphase hawaited hid =>
    have hk : id ≠ k := hid ▸ ne_of_dispatched hstored hphase hawaited
    exact (hs.store hk).handOver.goTo k fun hne => absurd hne.symm hk
  | @delivered k d hphase hawaited =>
    have hstore : (s.store (T.id d.pdu) d.pdu).Awaits id server :=
      hs.store (ne_of_dispatched hstored hphase hawaited)
    exact (hstore.signalCall _).goTo k fun _ => rfl
  | stranded hphase hawaited hid hnone =>
    cases hnone.symm.trans (h.event_of_isAwaited hphase hawaited hid).choose_spec
  | @woke k i hphase =>
    have hreset : (s.reset i).Awaits id server := hs.of_same rfl rfl
    exact hreset.goTo k fun _ => rfl
  | @timedOut k => exact hs.goTo k fun hk => absurd hk htimely
  | @answered k i hphase hclear =>
    refine hs.dropSyncPoint.goTo k fun hk => ?_
    rw [hk, hs.pending] at hclear
    cases hclear
  | @promoted k i hphase =>
    have hbusy : ({ s with isReading := true } : Socket P A).Awaits id server := hs.of_same rfl rfl
    exact hbusy.dropSyncPoint.goTo k fun _ => rfl
  | @disturbed k => exact hs.goTo k fun _ => rfl
  | @tested k passed role =>
    refine hs.goTo k fun hk => ?_
    rw [htimely hk]
    exact role.goesOn_loop
  | @cleaned k role hphase =>
    have hk : id ≠ k := (hs.ne hphase rfl).symm
    refine hs.of_same ?_ (cleanUp_pendingRequests_of_ne hk)
    rw [phase, cleanUp_calls_of_ne hk, phase]
  | refreshed => exact hs.of_same rfl rfl

/-- The sync point of a call is signalled, unless its wait was satisfied already. -/
def Notified (s : Socket P A) (id : Id) : Prop :=
  ∀ i, s.readSyncPointIndices id = some i →
    s.phase id = some (.woken i) ∨ s.readSyncPoints i = some true

omit [DecidableEq A] in
/-- A step that leaves the call and its sync point alone, but for signals. -/
theorem Notified.of_same (hs : s.Notified id) (hphase : s'.phase id = s.phase id)
    (hindex : s'.readSyncPointIndices id = s.readSyncPointIndices id)
    (hevent : ∀ i, s.readSyncPointIndices id = some i → s.readSyncPoints i = some true →
      s'.readSyncPoints i = some true) : s'.Notified id := by
  intro i hi
  rw [hindex] at hi
  rw [hphase]
  exact (hs i hi).imp_right (hevent i hi)

omit [DecidableEq A] in
/-- A signal does not take back another one. -/
private theorem signalCall_keeps {call : Option Id} {i : Index}
    (h : s.readSyncPoints i = some true) :
    (s.signalCall call).readSyncPoints i = some true := by
  unfold signalCall
  split
  · exact h
  · rename_i k _
    by_cases hk : i = k
    · simp [signal, ← hk, h]
    · exact (Function.update_of_ne hk ..).trans h

omit [DecidableEq A] in
/-- Another call goes to another phase, or this one without having been woken. -/
theorem Notified.goTo (hs : s.Notified id) (k : Id)
    (hk : k = id → ∀ i, s.phase id ≠ some (.woken i)) : (s.goTo k ph).Notified id := by
  intro i hi
  rcases hs i hi with hwoken | hset
  · by_cases hne : id = k
    · exact absurd hwoken (hk hne.symm i)
    · exact Or.inl ((phase_goTo_of_ne hne).trans hwoken)
  · exact Or.inr hset

omit [DecidableEq A] in
/-- Another call gives up its sync point. -/
theorem Notified.drop (hs : s.Notified id) (h : s.Coherent) {i : Index}
    (hrole : s.role k = some (.waiter i)) (hk : id ≠ k) : (s.dropSyncPoint k).Notified id := by
  obtain ⟨hindex, htables⟩ := h.drop_tables hrole
  refine hs.of_same dropSyncPoint_phase ((hindex id).trans (if_neg hk)) fun n hn hset => ?_
  rw [(htables id n hk hn).2, hset]

omit [DecidableEq A] in
/-- A signal to any call leaves the notified ones notified. -/
theorem Notified.signalCall (hs : s.Notified id) (call : Option Id) :
    (s.signalCall call).Notified id := by
  obtain ⟨events, -, heq⟩ := signalCall_eq s call
  refine hs.of_same (phase_signalCall call) ?_ fun _ _ hset => signalCall_keeps hset
  rw [heq]

omit [DecidableEq A] in
/-- So does the reader that hands over its role. -/
theorem Notified.handOver (hs : s.Notified id) : s.handOver.Notified id :=
  Notified.signalCall (s := { s with isReading := false }) (hs.of_same rfl rfl fun _ _ h => h) _

omit [DecidableEq A] in
/-- A step that leaves the call and all sync points alone. -/
theorem Notified.of_tables (hs : s.Notified id) (hphase : s'.phase id = s.phase id)
    (hindex : s'.readSyncPointIndices = s.readSyncPointIndices)
    (hevents : s'.readSyncPoints = s.readSyncPoints) : s'.Notified id :=
  hs.of_same hphase (by rw [hindex]) fun _ _ hset => by rw [hevents, hset]

omit [DecidableEq A] in
/-- A response is stored, for this call or another one. -/
theorem Notified.store {pdu : P} (hs : s.Notified id) : (s.store j pdu).Notified id :=
  hs.of_tables phase_store rfl rfl

omit [DecidableEq A] in
/-- Another call takes a sync point that is not in use. -/
theorem Notified.joined {n : Index} {sv : Server A} (hs : s.Notified id) (h : s.Coherent)
    (hunused : s.syncPointMap n = false) (hj : id ≠ j)
    (hindex : s'.readSyncPointIndices = Function.update s.readSyncPointIndices j (some n))
    (hevents : ∀ i, i ≠ n → s'.readSyncPoints i = s.readSyncPoints i)
    (hphases : s'.calls = s.calls) : (s'.enter j ph sv).Notified id := by
  refine hs.of_same ?_ ?_ fun i hi hset => ?_
  · rw [phase_enter_of_ne hj, phase, hphases, ← phase]
  · exact (congrFun hindex id).trans (Function.update_of_ne hj ..)
  · have hne : i ≠ n := by
      rintro rfl
      cases hunused.symm.trans (h.event id i hi).1
    exact (hevents i hne).trans hset

omit [DecidableEq A] in
/-- The wait of a call, of this one or another, is satisfied. -/
theorem Notified.woke {n : Index} (hs : s.Notified id) (h : s.Coherent)
    (hphase : s.phase k = some (.waiting n)) : ((s.reset n).goTo k (.woken n)).Notified id := by
  have hindex := h.index_waiter (role_of_phase hphase)
  by_cases hk : id = k
  · subst hk
    intro i hi
    cases hindex.symm.trans hi
    exact Or.inl (phase_goTo (s := s.reset n) hphase)
  · have hreset : (s.reset n).Notified id := by
      refine hs.of_same rfl rfl fun i hi hset => ?_
      have hne : i ≠ n := by
        rintro rfl
        exact hk (h.distinct id k i hi hindex)
      exact (Function.update_of_ne hne ..).trans hset
    exact hreset.goTo k fun hne => absurd hne.symm hk

omit [DecidableEq A] in
/-- A call whose wait brought its response gives up its sync point. -/
theorem Notified.answered {n : Index} (hs : s.Notified id) (h : s.Coherent)
    (hphase : s.phase k = some (.woken n)) : ((s.dropSyncPoint k).goTo k ph).Notified id := by
  have hrole : s.role k = some (.waiter n) := role_of_phase hphase
  by_cases hk : id = k
  · subst hk
    intro i hi
    cases ((h.drop_tables hrole).1 id).symm.trans hi |>.symm.trans (if_pos rfl)
  · exact (hs.drop h hrole hk).goTo k fun hne => absurd hne.symm hk

omit [DecidableEq A] in
/-- Another call leaves after a time-out or an error. -/
theorem Notified.cleaned {role : Role} (hs : s.Notified id) (h : s.Coherent)
    (hrole : s.role k = some role) (hk : id ≠ k) : (s.cleanUp k role).Notified id := by
  have hclear : { s with
      pendingRequests := Function.update s.pendingRequests k none }.Notified id :=
    hs.of_tables rfl rfl rfl
  cases role with
  | reader =>
    rw [h.cleanUp_reader hrole]
    exact hclear.handOver.goTo k fun hne => absurd hne.symm hk
  | waiter n =>
    rw [h.cleanUp_waiter hrole]
    exact (hclear.drop (h.clear k) hrole hk).goTo k fun hne => absurd hne.symm hk

/-- A call for which a response is there stays signalled until its wait is satisfied. -/
theorem Notified.step (hs : s.Notified id) (h : s.Coherent) {pdu : P} (hholds : s.Holds id pdu)
    (htimely : Timely T id a) (hstep : s.step T a = some s') : s'.Notified id := by
  have hmoved {k : Id} {ph ph' : Phase P A} (hphase : s.phase k = some ph)
      (hnot : ∀ i, ph ≠ .woken i) : (s.goTo k ph').Notified id :=
    hs.goTo k fun hk i hi => hnot i (Option.some.inj ((hk ▸ hphase).symm.trans hi))
  cases branch_of_step hstep with
  | refused => exact hs.of_tables (phase_enter_of_ne (Ne.symm htimely)) rfl rfl
  | began => exact hs.of_tables (phase_enter_of_ne (Ne.symm htimely)) rfl rfl
  | joined _ _ hunused =>
    exact hs.joined h hunused (Ne.symm htimely) rfl (fun i hi => Function.update_of_ne hi ..) rfl
  | wrote hphase => exact hmoved hphase fun _ h => by cases h
  | read hphase => exact hmoved hphase fun _ h => by cases h
  | dropped hphase => exact hmoved hphase fun _ h => by cases h
  | @kept k d hphase =>
    exact hs.store.handOver.goTo k fun hk => absurd hk.symm (hholds.ne hphase rfl rfl)
  | @delivered k d hphase =>
    exact (hs.store.signalCall _).goTo k fun hk => absurd hk.symm (hholds.ne hphase rfl rfl)
  | @stranded k d hphase =>
    exact hs.store.goTo k fun hk => absurd hk.symm (hholds.ne hphase rfl rfl)
  | woke hphase => exact hs.woke h hphase
  | @timedOut k => exact hs.goTo k fun hk => absurd hk htimely
  | answered hphase => exact hs.answered h hphase
  | @promoted k n hphase hpending =>
    have hk := hholds.ne_of_pending hpending
    have hdrop := hs.drop h (role_of_phase hphase) hk
    rw [dropSyncPoint_isReading]
    have hfree : { s.dropSyncPoint k with isReading := true }.Notified id :=
      hdrop.of_tables rfl rfl rfl
    exact hfree.goTo k fun hne => absurd hne.symm hk
  | @disturbed k n hphase hpending =>
    exact hs.goTo k fun hk => absurd hk.symm (hholds.ne_of_pending hpending)
  | tested hphase => exact hmoved hphase fun _ h => by cases h
  | cleaned hphase => exact hs.cleaned h (role_of_phase hphase) (hholds.ne hphase rfl rfl)
  | refreshed => exact hs.of_tables rfl rfl rfl

/-- A call whose response is stored is signalled. -/
theorem Coherent.notified (h : s.Coherent) {pdu : P} (hstored : s.stored T a = some (id, pdu))
    (hstep : s.step T a = some s') : s'.Notified id := by
  obtain ⟨k, d, rfl, hphase, hawaited, rfl, rfl⟩ := stored_eq_some hstored
  cases branch_of_step hstep with
  | dropped hphase' hnot =>
    cases hphase.symm.trans hphase'
    cases hawaited.symm.trans (hnot rfl)
  | kept hphase' _ hid =>
    cases hphase.symm.trans hphase'
    subst hid
    have hnone := h.index_reader (role_of_phase hphase)
    obtain ⟨events, -, heq⟩ := signalCall_eq
      { s.store (T.id d.pdu) d.pdu with isReading := false }
      { s.store (T.id d.pdu) d.pdu with isReading := false }.heir
    intro i hi
    rw [Socket.handOver, heq] at hi
    cases hnone.symm.trans hi
  | delivered hphase' _ hid =>
    cases hphase.symm.trans hphase'
    obtain ⟨set, hset⟩ := h.event_of_isAwaited hphase hawaited hid
    obtain ⟨n, hindex, hevent⟩ := Option.bind_eq_some_iff.mp hset
    have hsignal : (s.store (T.id d.pdu) d.pdu).signalCall (some (T.id d.pdu)) =
        (s.store (T.id d.pdu) d.pdu).signal n := by
      simp only [Socket.signalCall, Option.bind_some, Socket.store, hindex]
    rw [hsignal]
    intro i hi
    cases hindex.symm.trans hi
    exact Or.inr (by simp [Socket.goTo, signal, Socket.store, hevent])
  | stranded hphase' _ hid hnone =>
    cases hphase.symm.trans hphase'
    obtain ⟨set, hset⟩ := h.event_of_isAwaited hphase hawaited hid
    cases hnone.symm.trans hset

/-- A call waits as long as nothing was found for it; then it has what was found. -/
def Stands (s : Socket P A) (id : Id) (server : Server A) : Option (Datagram P A) → Prop
  | none => s.Awaits id server
  | some d => s.Holds id d.pdu ∧ s.Notified id

/-- The first of some datagrams that answers a request. -/
def firstAnswer (T : PduType P) (id : Id) (server : Server A) (ds : List (Datagram P A)) :
    Option (Datagram P A) :=
  ds.find? fun d => d.Answers T id server

/-- The first answer among datagrams that follow each other. -/
theorem firstAnswer_append {ds es : List (Datagram P A)} :
    firstAnswer T id server (ds ++ es) =
      (firstAnswer T id server ds).or (firstAnswer T id server es) :=
  List.find?_append

/-- A datagram that answers, in front, is the first answer. -/
theorem firstAnswer_cons {ds : List (Datagram P A)} (h : d.Answers T id server) :
    firstAnswer T id server (d :: ds) = some d := by
  simp [firstAnswer, h]

/-- There is no first answer exactly where nothing answers. -/
theorem firstAnswer_eq_none {ds : List (Datagram P A)} :
    firstAnswer T id server ds = none ↔ ∀ d ∈ ds, ¬d.Answers T id server := by
  simp [firstAnswer]

/-- The first answer is one of the datagrams, and answers. -/
theorem mem_of_firstAnswer {ds : List (Datagram P A)}
    (h : firstAnswer T id server ds = some d) : d ∈ ds ∧ d.Answers T id server := by
  have hmem := List.mem_of_find?_eq_some h
  have hanswers := List.find?_some h
  exact ⟨hmem, of_decide_eq_true hanswers⟩

/-- The first answer among one datagram at most. -/
theorem firstAnswer_toList {o : Option (Datagram P A)} :
    firstAnswer T id server o.toList = some d ↔ o = some d ∧ d.Answers T id server := by
  cases o with
  | none => simp [firstAnswer]
  | some d' =>
    rw [Option.some.injEq]
    constructor
    · intro h
      obtain ⟨hmem, hanswers⟩ := mem_of_firstAnswer h
      exact ⟨(List.mem_singleton.mp hmem).symm, hanswers⟩
    · rintro ⟨rfl, hanswers⟩
      exact firstAnswer_cons hanswers

/-- What is dealt with is not acceptable or was in hand. -/
private theorem dealt_eq_some (h : s.dealt T a = some d) : ¬d.Acceptable T ∨
    ∃ k locked, a = .dispatch k locked ∧ s.phase k = some (.received d) := by
  unfold dealt at h
  split at h
  · split at h
    · cases h
    · rename_i hnot
      cases h
      exact Or.inl hnot
  · exact Or.inr ⟨_, _, rfl, datagram_phase.mp h⟩
  · cases h

/-- What a step deals with is stored for a call that waits if it answers its request. -/
theorem Awaits.stored_of_answers (hs : s.Awaits id server) (htimely : Timely T id a)
    (hdealt : s.dealt T a = some d) (hanswers : d.Answers T id server) :
    s.stored T a = some (id, d.pdu) := by
  obtain ⟨k, locked, rfl, hphase⟩ :=
    (dealt_eq_some hdealt).resolve_left fun hnot => hnot hanswers.toAcceptable
  cases (show locked = true from htimely)
  have hawaited : s.isAwaited T d = true := by
    rw [isAwaited, decide_eq_true_eq, hanswers.id, hs.pending, hanswers.source]
  rw [stored_dispatch hphase, if_pos hawaited, hanswers.id]

/-- Nothing else is stored for a call that waits. -/
theorem Awaits.answers_of_stored (hs : s.Awaits id server) {pdu : P}
    (hgood : ∀ j d, s.phase j = some (.received d) → d.Acceptable T)
    (hstored : s.stored T a = some (id, pdu)) :
    ∃ d, s.dealt T a = some d ∧ d.Answers T id server := by
  obtain ⟨k, d, rfl, hphase, hawaited, rfl, rfl⟩ := stored_eq_some hstored
  rw [isAwaited, decide_eq_true_eq, hs.pending] at hawaited
  exact ⟨d, datagram_phase.mpr hphase, hgood k d hphase, rfl, (Option.some.inj hawaited).symm⟩

omit [DecidableEq A] in
/-- A step that is timely for a call does not let it leave. -/
theorem Timely.not_leaves (h : Timely T id a) : ¬Leaves id a := by
  intro hleaves
  unfold Leaves at hleaves
  split at hleaves
  · cases h hleaves
  · exact h hleaves
  · cases h hleaves
  · exact hleaves

omit [DecidableEq A] in
/-- A step that is timely for a call makes no other call with its identifier. -/
theorem Timely.not_calls (h : Timely T id a) : ¬Calls T id a := by
  intro hcalls
  unfold Calls at hcalls
  split at hcalls
  · exact h hcalls
  · exact hcalls

/-- Where a call stands after a step depends on what the step deals with. -/
theorem Stands.step {found : Option (Datagram P A)} (hs : s.Stands id server found)
    (h : s.Coherent) (hgood : ∀ j d, s.phase j = some (.received d) → d.Acceptable T)
    (htimely : Timely T id a) (hstep : s.step T a = some s') :
    s'.Stands id server (found.or (firstAnswer T id server (s.dealt T a).toList)) := by
  cases found with
  | some d =>
    obtain ⟨hholds, hnotified⟩ := hs
    exact ⟨hholds.step htimely.not_leaves htimely.not_calls hstep,
      hnotified.step h hholds htimely hstep⟩
  | none =>
    rw [Option.none_or]
    cases hfirst : firstAnswer T id server (s.dealt T a).toList with
    | none =>
      refine Awaits.step hs h htimely (fun pdu hstored => ?_) hstep
      obtain ⟨d, hanswers⟩ := Awaits.answers_of_stored hs hgood hstored
      cases hfirst.symm.trans (firstAnswer_toList.mpr hanswers)
    | some d =>
      obtain ⟨hdealt, hanswers⟩ := firstAnswer_toList.mp hfirst
      have hstored := Awaits.stored_of_answers hs htimely hdealt hanswers
      refine ⟨h.holds ?_ hstored hstep, h.notified hstored hstep⟩
      obtain ⟨k, d', rfl, -⟩ := stored_eq_some hstored
      have hgoesOn := Awaits.goesOn hs
      simp only [Keeps, hstored]
      cases hp : s.phase id with
      | none => rfl
      | some ph =>
        rw [hp] at hgoesOn
        cases ph <;> first | rfl | cases hgoesOn

omit [DecidableEq A] in
/-- A sync point is free as long as some call is not in progress. -/
private theorem Accounted.exists_unused (hacc : s.Accounted) (h : s.Coherent)
    (hid : s.role id = none) :
    ∃ i, s.syncPointMap i = false := by
  by_contra hall
  simp only [not_exists, Bool.not_eq_false] at hall
  choose owner howner using fun i => hacc.owned i (hall i)
  have hinj : Function.Injective owner := fun i j hij => by
    have hi := howner i
    rw [hij, howner j] at hi
    exact (Option.some.inj hi).symm
  obtain ⟨i, hi⟩ := Finite.surjective_of_injective hinj id
  have hindex := howner i
  rw [hi, h.index, hid] at hindex
  cases hindex

/-- A valid request that is made waits for its response. -/
theorem Coherent.awaits (h : s.Coherent) (hacc : s.Accounted) {request : P}
    (hvalid : T.isValid request = true) (hstep : s.step T (.call request server true) = some s') :
    s'.Awaits (T.id request) server := by
  simp only [Socket.step, call] at hstep
  split at hstep
  · cases hstep
  · rename_i hid
    rw [Option.not_isSome_iff_eq_none] at hid
    rw [if_neg (by simp [hvalid, h.pending _ hid])] at hstep
    split at hstep
    · cases hstep
      exact ⟨Function.update_self .., by rw [phase_enter_self]; rfl⟩
    · obtain ⟨i, hi⟩ := hacc.exists_unused h hid
      cases halloc : (List.finRange 256).find? fun i => !s.syncPointMap i with
      | none =>
        have hused := List.find?_eq_none.mp halloc i (List.mem_finRange i)
        simp [hi] at hused
      | some n =>
        simp only [allocReadSyncPoint, halloc, Option.map_some] at hstep
        cases hstep
        exact ⟨Function.update_self .., by rw [phase_enter_self]; rfl⟩

/-- The server of a call stays. -/
theorem server_step (hcalls : ¬Calls T id a) (hstep : s.step T a = some s') :
    s'.server id = s.server id := by
  cases effect_of_step hstep with
  | refreshed => rfl
  | entered _ hentered =>
    rw [Socket.server, hentered, Function.update_of_ne (Ne.symm hcalls), Socket.server]
  | moved _ hid hmoved => exact (Moves.of_calls hid hmoved).server id
  | stored _ hphase _ hmoved =>
    exact (Moves.of_store (by rw [role_of_phase hphase]; rfl) hmoved).server id

/-- Nothing is left to be done for the call with an identifier: while it is in progress there is
nothing in hand, and it goes on only if something is read or times out. -/
structure Settled (T : PduType P) (s : Socket P A) (id : Id) : Prop where
  inHand : s.role id ≠ none → s.inHand = none
  write : s.step T (.write id true) = none
  wake : s.step T (.wake id) = none
  check : s.step T (.check id) = none
  deadline : s.step T (.deadline id false) = none

/-- A call that was given a response has returned it when nothing is left to be done. -/
theorem Settled.returned (hs : s.Settled T id) (h : s.Coherent) {pdu : P} (hholds : s.Holds id pdu)
    (hnotified : s.Notified id) : s.result id = some true := by
  rcases hholds.returns with hresult | hexpects
  · exact hresult
  · exfalso
    have hwrite := hs.write
    have hwake := hs.wake
    have hcheck := hs.check
    have hdeadline := hs.deadline
    cases hp : s.phase id with
    | none => simp [hp] at hexpects
    | some ph =>
      rw [hp, Option.any_some] at hexpects
      cases ph with
      | writing role => simp [Socket.step, hp] at hwrite
      | waiting i =>
        have hset := (hnotified i (h.index_waiter (role_of_phase hp))).resolve_left
          fun hwoken => by cases hp.symm.trans hwoken
        simp [Socket.step, hp, hset] at hwake
      | woken i => simp [Socket.step, hp] at hcheck
      | testing role => simp [Socket.step, hp] at hdeadline
      | reading | received | leaving | returned => cases hexpects

/-- What was read is dealt with in order, and the first answer is stored for the call. -/
theorem stands_of_run {oldestId : Id} {as bs : List (Action P A)} {v : Socket P A}
    (before : Run (step T) (new oldestId) as v) (hv : v.Awaits id server)
    (timely : Steps (step T) (fun _ a => Timely T id a) v bs s) :
    ∃ handled, v.inHand.toList ++ reads bs = handled ++ s.inHand.toList ∧
      s.Stands id server (firstAnswer T id server handled) := by
  refine timely.trace_invariant (I := fun bs s => ∃ handled,
    v.inHand.toList ++ reads bs = handled ++ s.inHand.toList ∧
      s.Stands id server (firstAnswer T id server handled)) ⟨[], List.append_nil _, hv⟩ ?_
  rintro cs t a u first ⟨handled, hseen, hstands⟩ htimely hstep
  obtain ⟨hs, -, -, hledger⟩ := ledger_of_run (before.trans (first.mono fun _ _ _ => trivial))
  refine ⟨handled ++ (t.dealt T a).toList, ?_, ?_⟩
  · have hconserves : t.inHand.toList ++ a.datagram.toList = _ := hs.conserves_step hstep
    rw [reads_concat, ← List.append_assoc, hseen, List.append_assoc, hconserves, List.append_assoc]
  · rw [firstAnswer_append]
    exact hstands.step hs (fun j d hj => (hledger.received j d hj).2.1) htimely hstep

/-- A request is made in some state of a socket, and datagrams arrive before its call times out.
They are read in the order in which they arrive; some of them may not be read. Nothing fails for the
call, and in the end nothing is left to be done with what was read. -/
structure Hears (T : PduType P) (u : Socket P A) (request : P) (server : Server A)
    (bs : List (Action P A)) (s : Socket P A) (arrivals read : List (Datagram P A)) : Prop where
  run : ∃ v, u.step T (.call request server true) = some v ∧
    Steps (step T) (fun _ a => Timely T (T.id request) a) v bs s ∧
    v.inHand.toList ++ reads bs = read
  inOrder : read <+: arrivals
  settled : s.Settled T (T.id request)

/-- If one of the datagrams that are read answers the request, the call has returned the first one.
Otherwise it goes on waiting. -/
theorem Hears.returned {oldestId : Id} {as bs : List (Action P A)} {u : Socket P A} {request : P}
    {arrivals read : List (Datagram P A)} (h : Hears T u request server bs s arrivals read)
    (before : Run (step T) (new oldestId) as u) (hvalid : T.isValid request = true) :
    s.Coherent ∧ s.server (T.id request) = some server ∧
      match firstAnswer T (T.id request) server read with
      | some f => s.result (T.id request) = some true ∧ s.response (T.id request) = some f.pdu
      | none => s.Awaits (T.id request) server := by
  obtain ⟨v, hcall, timely, hread⟩ := h.run
  obtain ⟨hu, hacc, -, -⟩ := ledger_of_run before
  have hawaits := hu.awaits hacc hvalid hcall
  have started : Run (step T) (new oldestId) _ v := before.snoc trivial hcall
  have ended : Run (step T) (new oldestId) _ s :=
    started.trans (timely.mono fun _ _ _ => trivial)
  obtain ⟨-, -, hserves, -⟩ := ledger_of_run started
  obtain ⟨hs, -, -, -⟩ := ledger_of_run ended
  have hserver : s.server (T.id request) = some server :=
    timely.invariant (I := fun s => s.server (T.id request) = some server)
      (hserves.server _ _ hawaits.pending)
      fun _ _ _ hsv htimely hstep => (server_step htimely.not_calls hstep).trans hsv
  refine ⟨hs, hserver, ?_⟩
  obtain ⟨handled, hseen, hstands⟩ := stands_of_run started hawaits timely
  rw [hread] at hseen
  cases hfound : firstAnswer T (T.id request) server handled with
  | none =>
    rw [hfound] at hstands
    -- A call that waits is in progress, so everything that was read has been dealt with.
    have hrole : s.role (T.id request) ≠ none := fun hover => by
      cases (hs.pending _ hover).symm.trans (Awaits.pending hstands)
    rw [h.settled.inHand hrole, Option.toList_none, List.append_nil] at hseen
    rw [hseen, hfound]
    exact hstands
  | some f =>
    rw [hfound] at hstands
    obtain ⟨hholds, hnotified⟩ := hstands
    rw [hseen, firstAnswer_append, hfound, Option.some_or]
    exact ⟨h.settled.returned hs hholds hnotified, hholds.response⟩

/-- The wait or the read of the call with an identifier times out. -/
def TimesOut (id : Id) : Action P A → Prop
  | .timeOut k => k = id
  | .read k none => k = id
  | _ => False

/-- What follows when nothing is left to be done for a call: it is over or times out first, and its
identifier is not used again. -/
structure Concludes (T : PduType P) (id : Id) (s : Socket P A) (after : List (Action P A))
    (w : Socket P A) : Prop where
  run : Steps (step T) (fun _ a => ¬Calls T id a) s after w
  first : ∀ a ∈ after.head?, s.role id = none ∨ TimesOut id a

/-- A call that is over stays as it is until its identifier is used again. -/
theorem Coherent.calls_of_over (h : s.Coherent) (hid : s.role id = none)
    (hcalls : ¬Calls T id a) (hstep : s.step T a = some s') : s'.calls id = s.calls id := by
  have hne {k : Id} (hk : (s.role k).isSome) : id ≠ k := by
    rintro rfl
    rw [hid] at hk
    cases hk
  cases effect_of_step hstep with
  | refreshed => rfl
  | entered _ hentered => rw [hentered, Function.update_of_ne (Ne.symm hcalls)]
  | moved _ hk hmoved => rw [hmoved, goTo_calls_of_ne (hne hk)]
  | @stored _ _ d _ _ hphase hawaited hmoved =>
    have hpending : (s.role (T.id d.pdu)).isSome := h.role_of_isAwaited hawaited
    rw [hmoved, goTo_calls_of_ne (hne (by rw [role_of_phase hphase]; rfl)),
      store_calls_of_ne (hne hpending)]

/-- A call is past the loop, or it was and returned false. -/
def Failed (s : Socket P A) (id : Id) : Prop :=
  ∃ ph, s.phase id = some ph ∧ (ph.left = true ∨ ph = .returned false)

/-- A call that is past the loop only cleans up. -/
theorem Failed.step (hs : s.Failed id) (hcalls : ¬Calls T id a)
    (hstep : s.step T a = some s') : s'.Failed id := by
  obtain ⟨ph, hphase, hleft⟩ := hs
  have hkeep (h : s'.phase id = s.phase id) : s'.Failed id := ⟨ph, h.trans hphase, hleft⟩
  -- Who makes another step than to clean up is in another phase.
  have hne {k : Id} {ph' : Phase P A} (hk : s.phase k = some ph')
      (hin : ph'.left = false) (hrole : ph'.role ≠ none) : id ≠ k := by
    rintro rfl
    cases hphase.symm.trans hk
    rcases hleft with h | rfl
    · cases hin.symm.trans h
    · exact hrole rfl
  have hmoved {u : Socket P A} {k : Id} {ph' ph'' : Phase P A} (hk : s.phase k = some ph')
      (hin : ph'.left = false) (hrole : ph'.role ≠ none) (hu : u.phase id = s.phase id)
      (hs' : s' = u.goTo k ph'') : s'.Failed id :=
    hkeep (by rw [hs', phase_goTo_of_ne (hne hk hin hrole), hu])
  cases branch_of_step hstep with
  | refused | began | joined => exact hkeep (phase_enter_of_ne (Ne.symm hcalls))
  | wrote hk | read hk | dropped hk | timedOut hk | disturbed hk | tested hk =>
    exact hmoved hk rfl (Option.some_ne_none _) rfl rfl
  | kept hk =>
    exact hmoved hk rfl (Option.some_ne_none _) (phase_handOver.trans phase_store) rfl
  | delivered hk =>
    exact hmoved hk rfl (Option.some_ne_none _) ((phase_signalCall _).trans phase_store) rfl
  | stranded hk => exact hmoved hk rfl (Option.some_ne_none _) phase_store rfl
  | woke hk => exact hmoved (u := s.reset _) hk rfl (Option.some_ne_none _) rfl rfl
  | answered hk => exact hmoved hk rfl (Option.some_ne_none _) dropSyncPoint_phase rfl
  | promoted hk =>
    exact hmoved (u := { s with isReading := true }.dropSyncPoint _) hk rfl
      (Option.some_ne_none _) dropSyncPoint_phase rfl
  | @cleaned k role hk =>
    by_cases hne : id = k
    · subst hne
      refine ⟨.returned false, ?_, Or.inr rfl⟩
      rw [phase, cleanUp_calls, ← phase, phase_goTo_self, hphase]
      rfl
    · exact hkeep (by rw [phase, cleanUp_calls, ← phase, phase_goTo_of_ne hne])
  | refreshed => exact hkeep rfl

omit [DecidableEq A] in
/-- A call that is past the loop has not returned true. -/
theorem Failed.result_ne (hs : s.Failed id) : s.result id ≠ some true := by
  obtain ⟨ph, hphase, hleft⟩ := hs
  intro hresult
  cases hphase.symm.trans (phase_of_result hresult)
  rcases hleft with h | h
  · cases h
  · cases h

/-- A call that times out is past the loop. -/
theorem TimesOut.failed (ha : TimesOut id a) (hstep : s.step T a = some s') : s'.Failed id := by
  cases branch_of_step hstep with
  | timedOut hphase =>
    cases ha
    exact ⟨_, phase_goTo_self.trans (by rw [hphase]; rfl), Or.inl rfl⟩
  | @read k datagram hphase =>
    cases datagram with
    | none =>
      cases ha
      exact ⟨_, phase_goTo_self.trans (by rw [hphase]; rfl), Or.inl rfl⟩
    | some d => exact ha.elim
  | _ => exact ha.elim

/-- What a call that is over has returned and was given stays. -/
theorem Concludes.calls_of_over {w : Socket P A} {after : List (Action P A)}
    (h : Concludes T id s after w) (hs : s.Coherent) (hid : s.role id = none) :
    w.calls id = s.calls id := by
  refine (h.run.invariant (I := fun w => w.Coherent ∧ w.calls id = s.calls id) ⟨hs, rfl⟩ ?_).2
  rintro t a u ⟨ht, hsame⟩ hcalls hstep
  have hrole : t.role id = none := by
    rw [role, phase, hsame]
    exact hid
  exact ⟨ht.step hstep, (ht.calls_of_over hrole hcalls hstep).trans hsame⟩

/-- A call that waits does not return true any more. -/
theorem Concludes.result_ne {w : Socket P A} {after : List (Action P A)}
    (h : Concludes T id s after w) (hs : s.role id ≠ none) : w.result id ≠ some true := by
  cases after with
  | nil =>
    cases Steps.nil_iff.mp h.run
    intro hresult
    exact hs (by rw [role, phase_of_result hresult]; rfl)
  | cons a after =>
    obtain ⟨u, -, hstep, rest⟩ := Steps.cons_inv h.run
    have ha := (h.first a rfl).resolve_left hs
    have hfailed : w.Failed id := rest.invariant (I := fun w => w.Failed id) (ha.failed hstep)
      fun _ _ _ hfailed hcalls hstep => hfailed.step hcalls hstep
    exact hfailed.result_ne

end Socket

end Dot1x.Radius
