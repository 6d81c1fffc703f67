import Dot1x.Radius.Coherence
import Mathlib.Data.Fintype.Basic

/-!
# The role of the reader is handed over

When nobody reads and some call still waits for its response, one such call should be on its way to
become the reader: its sync point is signalled, or its wait has already been satisfied. A reader that
leaves signals the first call in ring order that owns a sync point, whether or not that call has its
response already, is still to begin its wait, or is about to give up. So the role is lost in three
ways: the signal goes to a call that has no use for it while others wait, a wait ends by a timeout
although its sync point was signalled, or a call begins to wait after the signal that should have
been its own was used up. These are the only ways.
-/

namespace Dot1x.Radius

open Dot1x.Base

/-- The call waits on its sync point, or its wait was just satisfied. -/
def Phase.waits {P A : Type} : Phase P A → Bool
  | .waiting _ => true
  | .woken _ => true
  | _ => false

namespace Socket

variable {P A : Type}

/-- A call waits, or has just waited, and its entry is still set. -/
def needs (s : Socket P A) (id : Id) : Bool :=
  (s.pendingRequests id).isSome && (s.phase id).any Phase.waits

/-- The sync point of a waiting call is signalled, or the wait was satisfied by the signal. -/
def signalled (s : Socket P A) (id : Id) : Bool :=
  match s.phase id with
  | some (.waiting i) => s.readSyncPoints i = some true
  | some (.woken _) => true
  | _ => false

/-- While nobody reads and calls wait for their responses, one of these is signalled. -/
def HandedOver (s : Socket P A) : Prop :=
  s.isReading = false → (∃ id, s.needs id) → ∃ id, s.needs id ∧ s.signalled id

/-- When calls wait for their responses, the one that is woken by a leaving reader is among them, or
one of them is signalled anyway. -/
def HeirNeeds (s : Socket P A) : Prop :=
  (∃ id, s.needs id) → ∃ id, s.needs id ∧ (s.signalled id ∨ s.heir = some id)

/-- When a call with its entry set begins to wait while nobody reads, its sync point is signalled, or
another such call is. -/
def MayWait (s : Socket P A) (id : Id) (i : Index) : Prop :=
  s.isReading = false → (s.pendingRequests id).isSome →
    s.readSyncPoints i = some true ∨ ∃ j, s.needs j ∧ s.signalled j

/-- When a wait times out while nobody reads, another call is signalled or no other one waits for its
response. -/
def MayTimeOut (s : Socket P A) (id : Id) : Prop :=
  s.isReading = false → (∃ j, j ≠ id ∧ s.needs j) → ∃ j, j ≠ id ∧ s.needs j ∧ s.signalled j

variable {s s' : Socket P A} {id j : Id} {i : Index}

/-- What a call needs depends on its phase and its entry. -/
theorem needs_congr (hphase : s'.phase j = s.phase j)
    (hpending : s'.pendingRequests j = s.pendingRequests j) : s'.needs j = s.needs j := by
  rw [needs, needs, hphase, hpending]

/-- Whether a call is signalled depends on its phase and its sync point. -/
theorem signalled_congr (hphase : s'.phase j = s.phase j)
    (hevent : ∀ i, s.phase j = some (.waiting i) → s'.readSyncPoints i = s.readSyncPoints i) :
    s'.signalled j = s.signalled j := by
  rw [signalled, signalled, hphase]
  split
  · rename_i hwaiting
    rw [hevent _ hwaiting]
  · rfl
  · rfl

/-- The property is about who reads, who needs a response and who of these is signalled. -/
theorem HandedOver.congr (hs : s.HandedOver) (hreading : s'.isReading = s.isReading)
    (hneeds : ∀ j, s'.needs j = s.needs j)
    (hsignalled : ∀ j, s.needs j → s'.signalled j = s.signalled j) : s'.HandedOver := by
  rintro hfree ⟨j, hj⟩
  obtain ⟨k, hk, hsig⟩ := hs (hreading ▸ hfree) ⟨j, hneeds j ▸ hj⟩
  exact ⟨k, by rwa [hneeds], by rwa [hsignalled k hk]⟩

/-- While somebody reads there is nothing to hand over. -/
theorem handedOver_of_isReading (h : s.isReading = true) : s.HandedOver := by
  intro hfree
  cases h.symm.trans hfree

/-- A step of a call that does not wait, before it and after it, leaves the property alone. -/
theorem HandedOver.of_idle (hs : s.HandedOver) (id : Id) (hreading : s'.isReading = s.isReading)
    (hphase : ∀ j, j ≠ id → s'.phase j = s.phase j)
    (hpending : ∀ j, j ≠ id → s'.pendingRequests j = s.pendingRequests j)
    (hevent : ∀ j i, j ≠ id → s.phase j = some (.waiting i) →
      s'.readSyncPoints i = s.readSyncPoints i)
    (hbefore : s.needs id = false) (hafter : s'.needs id = false) : s'.HandedOver := by
  refine hs.congr hreading (fun j => ?_) (fun j hj => ?_)
  · by_cases h : j = id
    · rw [h, hbefore, hafter]
    · exact needs_congr (hphase j h) (hpending j h)
  · have hne : j ≠ id := by
      intro h
      rw [h, hbefore] at hj
      cases hj
    exact signalled_congr (hphase j hne) fun i => hevent j i hne

/-- The events on which other calls wait are not touched when a call gives up its sync point. -/
theorem Coherent.drop_event (h : s.Coherent) (hrole : s.role id = some (.waiter i)) {k : Index}
    (hne : j ≠ id) (hwaiting : s.phase j = some (.waiting k)) :
    (s.dropSyncPoint id).readSyncPoints k = s.readSyncPoints k := by
  have hindex := h.index_waiter (role_of_phase hwaiting)
  exact ((h.drop_tables hrole).2 j k hne hindex).2

/-- The events on which other calls wait are not touched when a wait resets its own. -/
theorem Coherent.reset_event (h : s.Coherent) (hrole : s.role id = some (.waiter i)) {k : Index}
    (hne : j ≠ id) (hwaiting : s.phase j = some (.waiting k)) :
    (s.reset i).readSyncPoints k = s.readSyncPoints k := by
  refine Function.update_of_ne (fun hki => ?_) ..
  have hindex := h.index_waiter (role_of_phase hwaiting)
  exact hne (h.distinct j id i (hki ▸ hindex) (h.index_waiter hrole))

/-- What a call in a phase needs. -/
theorem needs_of_phase {ph : Phase P A} (h : s.phase j = some ph) :
    s.needs j = ((s.pendingRequests j).isSome && ph.waits) := by
  rw [needs, h, Option.any_some]

/-- A call in a phase that is not one of waiting needs nothing. -/
theorem needs_of_idle {ph : Phase P A} (h : s.phase j = some ph) (hidle : ph.waits = false) :
    s.needs j = false := by
  rw [needs_of_phase h, hidle, Bool.and_false]

/-- A call that needs a response waits on a sync point of its own. -/
theorem phase_of_needs (hj : s.needs j) :
    ∃ i, s.phase j = some (.waiting i) ∨ s.phase j = some (.woken i) := by
  cases hp : s.phase j with
  | none => simp [needs, hp] at hj
  | some ph =>
    rw [needs_of_phase hp, Bool.and_eq_true] at hj
    cases ph with
    | waiting i => exact ⟨i, Or.inl rfl⟩
    | woken i => exact ⟨i, Or.inr rfl⟩
    | writing | reading | received | testing | leaving | returned => cases hj.2

/-- A call that needs a response is one of those that wait. -/
private theorem role_of_needs (hj : s.needs j) : ∃ i, s.role j = some (.waiter i) := by
  obtain ⟨i, hp | hp⟩ := phase_of_needs hj
  · exact ⟨i, role_of_phase hp⟩
  · exact ⟨i, role_of_phase hp⟩

/-- A call that does not wait needs nothing. -/
theorem needs_eq_false (h : ∀ i, s.role j ≠ some (.waiter i)) : s.needs j = false := by
  rw [← Bool.not_eq_true]
  intro hj
  obtain ⟨i, hrole⟩ := role_of_needs hj
  exact h i hrole

/-- The reader does not wait for anybody. -/
theorem needs_eq_false_of_reader (hrole : s.role j = some .reader) : s.needs j = false :=
  needs_eq_false fun i hi => by cases hrole.symm.trans hi

/-- After a signal, those of the calls that wait are signalled that were and the one it was for. -/
theorem Coherent.signalled_signalCall (h : s.Coherent) {call : Option Id} (hj : s.needs j) :
    (s.signalCall call).signalled j ↔ s.signalled j ∨ call = some j := by
  obtain ⟨k, hp | hp⟩ := phase_of_needs hj
  · have hindex := h.index_waiter (role_of_phase hp)
    have hp' : (s.signalCall call).phase j = some (.waiting k) := by
      obtain ⟨events, -, heq⟩ := signalCall_eq s call
      rw [heq]
      exact hp
    simp only [signalled, hp, hp', decide_eq_true_eq]
    unfold Socket.signalCall
    split
    · rename_i hnone
      refine ⟨Or.inl, fun hor => hor.elim id fun hcall => ?_⟩
      rw [hcall] at hnone
      cases hindex.symm.trans hnone
    · rename_i i hsome
      obtain ⟨t, rfl, ht⟩ := Option.bind_eq_some_iff.mp hsome
      by_cases hki : k = i
      · subst hki
        have htj := h.distinct t j k ht hindex
        obtain ⟨b, hb⟩ := Option.isSome_iff_exists.mp (h.event j k hindex).2
        simp [signal, htj, hb]
      · have htj : t ≠ j := by
          intro heq
          rw [heq, hindex] at ht
          exact hki (Option.some.inj ht)
        simp [signal, Function.update_of_ne hki, htj]
  · have hp' : (s.signalCall call).phase j = some (.woken k) := by
      obtain ⟨events, -, heq⟩ := signalCall_eq s call
      rw [heq]
      exact hp
    simp [signalled, hp, hp']

/-- The reader hands over its role exactly when its heir needs it. -/
theorem Coherent.handOver_iff (h : s.Coherent) (hrole : s.role id = some .reader)
    (result : Bool) : (s.handOver.goTo id (.returned result)).HandedOver ↔ s.HeirNeeds := by
  have hover : s.handOver = { s.signalCall s.heir with isReading := false } := by
    rw [Socket.handOver, signalCall_isReading]
    rfl
  have hphase (j : Id) (hne : j ≠ id) :
      (s.handOver.goTo id (.returned result)).phase j = (s.signalCall s.heir).phase j := by
    rw [phase_goTo_of_ne hne, hover]
    rfl
  have hidle : s.needs id = false := needs_eq_false_of_reader hrole
  have hneeds (j : Id) : (s.handOver.goTo id (.returned result)).needs j = s.needs j := by
    by_cases hne : j = id
    · rw [hne, hidle]
      refine needs_eq_false fun i hi => ?_
      rw [role_goTo (by rw [hover]; exact Option.isSome_iff_exists.mpr ⟨_, role_signalCall.trans hrole⟩),
        if_pos rfl] at hi
      cases hi
    · obtain ⟨events, -, heq⟩ := signalCall_eq s s.heir
      refine needs_congr ?_ ?_
      · rw [hphase j hne, heq]
        rfl
      · rw [hover, heq]
        rfl
  have hsignalled (j : Id) (hj : s.needs j) :
      (s.handOver.goTo id (.returned result)).signalled j ↔ s.signalled j ∨ s.heir = some j := by
    have hne : j ≠ id := by
      intro heq
      rw [heq, hidle] at hj
      cases hj
    rw [← h.signalled_signalCall hj, Bool.coe_iff_coe]
    refine signalled_congr (hphase j hne) fun _ _ => ?_
    rw [hover]
    rfl
  have hfree : (s.handOver.goTo id (.returned result)).isReading = false := by
    rw [hover]
    rfl
  simp only [HandedOver, HeirNeeds, hfree, hneeds, true_imp_iff]
  refine imp_congr_right fun _ => exists_congr fun j => ?_
  exact and_congr_right fun hj => hsignalled j hj

/-- What the heir is to do depends on who needs a response, who is signalled and who the heir is. -/
private theorem heirNeeds_congr (hneeds : ∀ j, s'.needs j = s.needs j)
    (hsignalled : ∀ j, s.needs j → s'.signalled j = s.signalled j) (hheir : s'.heir = s.heir) :
    s'.HeirNeeds ↔ s.HeirNeeds := by
  simp only [HeirNeeds, hneeds, hheir]
  refine imp_congr_right fun _ => exists_congr fun j => ?_
  exact and_congr_right fun hj => by rw [hsignalled j hj]

/-- Clearing the entry of the reader does not change what its heir is to do. -/
theorem heirNeeds_clear (hphase : ∀ j, s'.phase j = s.phase j)
    (hpending : ∀ j, j ≠ id → s'.pendingRequests j = s.pendingRequests j)
    (hevents : s'.readSyncPoints = s.readSyncPoints) (hheir : s'.heir = s.heir)
    (hrole : s.role id = some .reader) : s'.HeirNeeds ↔ s.HeirNeeds := by
  refine heirNeeds_congr (fun j => ?_) (fun j _ => ?_) hheir
  · by_cases hj : j = id
    · have hrole' : s'.role id = some .reader := by
        rw [role, hphase]
        exact hrole
      rw [hj, needs_eq_false_of_reader hrole, needs_eq_false_of_reader hrole']
    · exact needs_congr (hphase j) (hpending j hj)
  · exact signalled_congr (hphase j) fun i _ => by rw [hevents]

/-- A call begins to wait. -/
private theorem wait_iff {ph : Phase P A} (hs : s.HandedOver) (hphase : s.phase id = some ph)
    (hidle : ph.waits = false) : (s.goTo id (.waiting i)).HandedOver ↔ s.MayWait id i := by
  have hself : (s.goTo id (.waiting i)).phase id = some (.waiting i) := phase_goTo hphase
  have hneedsId : (s.goTo id (.waiting i)).needs id = (s.pendingRequests id).isSome := by
    rw [needs_of_phase hself, Phase.waits, Bool.and_true]
    rfl
  have hsignalledId : (s.goTo id (.waiting i)).signalled id ↔ s.readSyncPoints i = some true := by
    simp only [signalled, hself, decide_eq_true_eq]
    rfl
  have hother (j : Id) (hj : j ≠ id) : (s.goTo id (.waiting i)).needs j = s.needs j ∧
      (s.goTo id (.waiting i)).signalled j = s.signalled j :=
    ⟨needs_congr (phase_goTo_of_ne hj) rfl, signalled_congr (phase_goTo_of_ne hj) fun _ _ => rfl⟩
  have hne (j : Id) (hj : s.needs j) : j ≠ id := by
    intro heq
    rw [heq, needs_of_phase hphase, hidle, Bool.and_false] at hj
    cases hj
  have hkeep (hfound : ∃ j, s.needs j ∧ s.signalled j) :
      ∃ j, (s.goTo id (.waiting i)).needs j ∧ (s.goTo id (.waiting i)).signalled j := by
    obtain ⟨j, hj, hsig⟩ := hfound
    obtain ⟨hn, hg⟩ := hother j (hne j hj)
    exact ⟨j, by rwa [hn], by rwa [hg]⟩
  constructor
  · intro hover hfree hpending
    obtain ⟨j, hj, hsig⟩ := hover hfree ⟨id, by rw [hneedsId]; exact hpending⟩
    by_cases hid : j = id
    · exact Or.inl (hsignalledId.mp (hid ▸ hsig))
    · obtain ⟨hn, hg⟩ := hother j hid
      exact Or.inr ⟨j, by rwa [← hn], by rwa [← hg]⟩
  · rintro hmay hfree ⟨j, hj⟩
    by_cases hid : j = id
    · subst hid
      rcases hmay hfree (by rwa [hneedsId] at hj) with hset | hfound
      · exact ⟨j, hj, hsignalledId.mpr hset⟩
      · exact hkeep hfound
    · exact hkeep (hs hfree ⟨j, by rwa [(hother j hid).1] at hj⟩)

/-- A wait times out. -/
private theorem timeOut_iff (hphase : s.phase id = some (.waiting i)) :
    (s.goTo id (.leaving (.waiter i))).HandedOver ↔ s.MayTimeOut id := by
  have hneedsId : (s.goTo id (.leaving (.waiter i))).needs id = false := by
    rw [needs_of_phase (phase_goTo hphase)]
    exact Bool.and_false _
  have hneeds (j : Id) :
      (s.goTo id (.leaving (.waiter i))).needs j ↔ j ≠ id ∧ s.needs j := by
    by_cases hj : j = id
    · simp [hj, hneedsId]
    · rw [needs_congr (phase_goTo_of_ne hj) rfl]
      simp [hj]
  have hsignalled (j : Id) (hj : j ≠ id) :
      (s.goTo id (.leaving (.waiter i))).signalled j = s.signalled j :=
    signalled_congr (phase_goTo_of_ne hj) fun _ _ => rfl
  simp only [HandedOver, MayTimeOut, hneeds, and_assoc]
  refine imp_congr_right fun _ => imp_congr_right fun _ => exists_congr fun j => ?_
  exact and_congr_right fun hj => by rw [hsignalled j hj]

/-- A call goes on from one phase that is not one of waiting to another. -/
theorem HandedOver.goTo_idle {ph ph' : Phase P A} (hs : s.HandedOver)
    (hphase : s.phase id = some ph) (hbefore : ph.waits = false) (hafter : ph'.waits = false) :
    (s.goTo id ph').HandedOver := by
  refine hs.of_idle id rfl (fun j hj => phase_goTo_of_ne hj) (fun _ _ => rfl)
    (fun _ _ _ _ => rfl) ?_ ?_
  · exact needs_of_idle hphase hbefore
  · exact needs_of_idle (phase_goTo hphase) hafter

/-- While a call is the reader, somebody reads. -/
theorem Coherent.isReading_of_phase {ph : Phase P A} (h : s.Coherent)
    (hphase : s.phase id = some ph) (hrole : ph.role = some .reader) : s.isReading = true :=
  h.isReading_of_reader ((role_of_phase hphase).trans hrole)

/-- A call enters its loop: the reader to read, any other to wait. -/
private theorem Coherent.loop_iff {ph : Phase P A} {role : Role} (h : s.Coherent)
    (hs : s.HandedOver)
    (hphase : s.phase id = some ph) (hrole : ph.role = some role) (hidle : ph.waits = false) :
    (s.goTo id role.loop).HandedOver ↔
      match role with
      | .reader => True
      | .waiter i => s.MayWait id i := by
  cases role with
  | reader =>
    exact iff_of_true (handedOver_of_isReading (h.isReading_of_phase hphase hrole)) trivial
  | waiter i => exact wait_iff hs hphase hidle

/-- A wait is satisfied. -/
private theorem Coherent.handedOver_woke (h : s.Coherent) (hs : s.HandedOver)
    (hphase : s.phase id = some (.waiting i)) (hset : s.readSyncPoints i = some true) :
    ((s.reset i).goTo id (.woken i)).HandedOver := by
  have hself : ((s.reset i).goTo id (.woken i)).phase id = some (.woken i) :=
    phase_goTo (s := s.reset i) hphase
  refine hs.congr rfl (fun j => ?_) (fun j _ => ?_)
  · by_cases hj : j = id
    · rw [hj, needs_of_phase hself, needs_of_phase hphase]
      rfl
    · exact needs_congr (phase_goTo_of_ne hj) rfl
  · by_cases hj : j = id
    · simp [hj, signalled, hself, hphase, hset]
    · exact signalled_congr (phase_goTo_of_ne hj) fun k hk =>
        h.reset_event (role_of_phase hphase) hj hk

/-- A call whose wait brought the response gives up its sync point, and returns. -/
private theorem Coherent.handedOver_answered (h : s.Coherent) (hs : s.HandedOver)
    (hphase : s.phase id = some (.woken i)) (hclear : s.pendingRequests id = none) :
    ((s.dropSyncPoint id).goTo id (.returned true)).HandedOver := by
  refine hs.of_idle id (freeReadSyncPoint_isReading _) (fun j hj => ?_) (fun j _ => ?_)
    (fun j k hj hk => h.drop_event (role_of_phase hphase) hj hk) ?_ ?_
  · rw [phase_goTo_of_ne hj, dropSyncPoint_phase]
  · exact congrFun dropSyncPoint_pendingRequests j
  · rw [needs, hclear]
    rfl
  · exact needs_of_idle (phase_goTo (dropSyncPoint_phase.trans hphase)) rfl

/-- The reader stays the reader when it delivers a response to another call. -/
private theorem Coherent.handedOver_delivered {d : Datagram P A} {ph : Phase P A} {pdu : P}
    (h : s.Coherent) (hphase : s.phase id = some (.received d)) :
    (((s.store j pdu).signalCall (some j)).goTo id ph).HandedOver := by
  refine handedOver_of_isReading ?_
  obtain ⟨events, -, heq⟩ := signalCall_eq (s.store j pdu) (some j)
  rw [heq]
  exact h.isReading_of_phase hphase rfl

variable [DecidableEq A] (T : PduType P)

/-- A step does not lose the role of the reader. -/
def HandsOver (s : Socket P A) : Action P A → Prop
  | .dispatch id true =>
    match s.phase id with
    | some (.received d) => s.isAwaited T d = true → T.id d.pdu = id → s.HeirNeeds
    | _ => True
  | .cleanUp id =>
    match s.phase id with
    | some (.leaving .reader) => s.HeirNeeds
    | _ => True
  | .write id true =>
    match s.phase id with
    | some (.writing (.waiter i)) => s.MayWait id i
    | _ => True
  | .deadline id false =>
    match s.phase id with
    | some (.testing (.waiter i)) => s.MayWait id i
    | _ => True
  | .timeOut id => s.MayTimeOut id
  | _ => True

variable {T} {a : Action P A}

/-- The request is written, or the socket fails. -/
private theorem Coherent.handedOver_write {written : Bool} {role : Role} (h : s.Coherent)
    (hs : s.HandedOver) (hphase : s.phase id = some (.writing role)) :
    (s.goTo id (if written then role.loop else .leaving role)).HandedOver ↔
      HandsOver T s (.write id written) := by
  cases written with
  | false => exact iff_of_true (hs.goTo_idle hphase rfl rfl) trivial
  | true =>
    simp only [HandsOver, hphase]
    cases role with
    | reader => exact h.loop_iff hs hphase rfl rfl
    | waiter i => exact h.loop_iff hs hphase rfl rfl

/-- The deadline is looked at. -/
private theorem Coherent.handedOver_deadline {passed : Bool} {role : Role} (h : s.Coherent)
    (hs : s.HandedOver) (hphase : s.phase id = some (.testing role)) :
    (s.goTo id (if passed then .leaving role else role.loop)).HandedOver ↔
      HandsOver T s (.deadline id passed) := by
  cases passed with
  | true => exact iff_of_true (hs.goTo_idle hphase rfl rfl) trivial
  | false =>
    simp only [HandsOver, hphase]
    cases role with
    | reader => exact h.loop_iff hs hphase rfl rfl
    | waiter i => exact h.loop_iff hs hphase rfl rfl

/-- The reader receives its own response, and leaves. -/
private theorem Coherent.handedOver_kept {d : Datagram P A} (h : s.Coherent)
    (hphase : s.phase id = some (.received d)) (hawaited : s.isAwaited T d = true)
    (hid : T.id d.pdu = id) :
    ((s.store id d.pdu).handOver.goTo id (.returned true)).HandedOver ↔
      HandsOver T s (.dispatch id true) := by
  have hrole : s.role id = some .reader := role_of_phase hphase
  simp only [HandsOver, hphase, hawaited, hid, true_imp_iff]
  rw [(h.store id d.pdu).handOver_iff (role_store.trans hrole)]
  exact heirNeeds_clear (fun _ => phase_store) (fun j hj => Function.update_of_ne hj ..) rfl rfl
    hrole

/-- A call leaves after a time-out or an error. -/
private theorem Coherent.handedOver_cleaned {role : Role} (h : s.Coherent) (hs : s.HandedOver)
    (hphase : s.phase id = some (.leaving role)) :
    (s.cleanUp id role).HandedOver ↔ HandsOver T s (.cleanUp id) := by
  have hrole : s.role id = some role := role_of_phase hphase
  simp only [HandsOver, hphase]
  cases role with
  | reader =>
    rw [h.cleanUp_reader hrole, (h.clear id).handOver_iff hrole]
    exact heirNeeds_clear (fun _ => rfl) (fun j hj => Function.update_of_ne hj ..) rfl rfl hrole
  | waiter i =>
    rw [h.cleanUp_waiter hrole]
    refine iff_of_true (hs.of_idle id (freeReadSyncPoint_isReading _) (fun j hj => ?_)
      (fun j hj => ?_) (fun j k hj hk => (h.clear id).drop_event hrole hj hk)
      (needs_of_idle hphase rfl) ?_) trivial
    · rw [phase_goTo_of_ne hj, dropSyncPoint_phase]
      rfl
    · exact (congrFun dropSyncPoint_pendingRequests j).trans (Function.update_of_ne hj ..)
    · exact needs_of_idle (phase_goTo (dropSyncPoint_phase.trans hphase)) rfl

/-- What a step has to satisfy is exactly what keeps the property. -/
theorem Coherent.handedOver_step (h : s.Coherent) (hs : s.HandedOver)
    (hstep : s.step T a = some s') : s'.HandedOver ↔ HandsOver T s a := by
  cases branch_of_step hstep with
  | refused hid =>
    refine iff_of_true (hs.of_idle _ rfl (fun j hj => phase_enter_of_ne hj)
      (fun _ _ => rfl) (fun _ _ _ _ => rfl) ?_ ?_) trivial
    · exact needs_eq_false fun i hi => by cases hid.symm.trans hi
    · exact needs_of_idle phase_enter_self rfl
  | began hid hfree => exact iff_of_true (handedOver_of_isReading rfl) trivial
  | joined hid hbusy hunused => exact iff_of_true (handedOver_of_isReading hbusy) trivial
  | wrote hphase => exact h.handedOver_write hs hphase
  | read hphase =>
    exact iff_of_true (handedOver_of_isReading (h.isReading_of_phase hphase rfl)) trivial
  | @dropped id locked d hphase hnot =>
    refine iff_of_true (handedOver_of_isReading (h.isReading_of_phase hphase rfl)) ?_
    cases locked with
    | false => trivial
    | true =>
      simp only [HandsOver, hphase, hnot rfl]
      intro hawaited
      cases hawaited
  | kept hphase hawaited hid => exact h.handedOver_kept hphase hawaited hid
  | delivered hphase hawaited hid =>
    refine iff_of_true (h.handedOver_delivered hphase) ?_
    simp only [HandsOver, hphase]
    exact fun _ hsame => absurd hsame hid
  | stranded hphase hawaited hid =>
    refine iff_of_true (handedOver_of_isReading (h.isReading_of_phase hphase rfl)) ?_
    simp only [HandsOver, hphase]
    exact fun _ hsame => absurd hsame hid
  | woke hphase hset => exact iff_of_true (h.handedOver_woke hs hphase hset) trivial
  | timedOut hphase => exact timeOut_iff hphase
  | answered hphase hclear => exact iff_of_true (h.handedOver_answered hs hphase hclear) trivial
  | promoted hphase =>
    exact iff_of_true (handedOver_of_isReading (freeReadSyncPoint_isReading _)) trivial
  | disturbed hphase hpending hbusy =>
    exact iff_of_true (handedOver_of_isReading hbusy) trivial
  | tested hphase => exact h.handedOver_deadline hs hphase
  | cleaned hphase => exact h.handedOver_cleaned hs hphase
  | refreshed =>
    exact iff_of_true (hs.congr rfl (fun _ => rfl) fun _ _ => rfl) trivial

/-- In a run the role of the reader is never lost exactly when every step hands it over. -/
theorem handedOver_iff {oldestId : Id} {as : List (Action P A)}
    (run : Run (step T) (new oldestId) as s) :
    (∀ bs u, bs <+: as → Run (step T) (new oldestId) bs u → u.HandedOver) ↔
      Steps (step T) (HandsOver T) (new oldestId) as s := by
  refine run.forall_prefix_iff (I := Coherent) (.new oldestId) ?_
    (fun _ _ _ h hstep => h.step hstep) fun _ _ _ h hs hstep => h.handedOver_step hs hstep
  rintro - ⟨j, hj⟩
  simp [needs, phase, Socket.new] at hj

instance (s : Socket P A) : Decidable s.HeirNeeds := inferInstanceAs (Decidable (_ → _))

instance (s : Socket P A) (id : Id) (i : Index) : Decidable (s.MayWait id i) :=
  inferInstanceAs (Decidable (_ → _ → _))

instance (s : Socket P A) (id : Id) : Decidable (s.MayTimeOut id) :=
  inferInstanceAs (Decidable (_ → _ → _))

instance (s : Socket P A) (a : Action P A) : Decidable (HandsOver T s a) := by
  unfold HandsOver
  split <;> first | infer_instance | (split <;> infer_instance)

/-- The reader receives its own response and is succeeded by the call that waits. -/
theorem handedOver_succession : ∃ s,
    Run (step plainPdu) (new 0) (beginAll [0, 1] ++ readAndDeliver 0 0) s ∧
      ∀ bs u, bs <+: beginAll [0, 1] ++ readAndDeliver 0 0 → Run (step plainPdu) (new 0) bs u →
        u.HandedOver := by
  have heval : (runLabels (guarded (step plainPdu) (HandsOver plainPdu)) (new 0)
      (beginAll [0, 1] ++ readAndDeliver 0 0)).isSome := by
    decide +kernel
  obtain ⟨s, hs⟩ := Option.isSome_iff_exists.mp heval
  have hguarded := Steps.of_guarded (run_of_runLabels hs)
  have run := hguarded.mono fun _ _ _ => trivial
  exact ⟨s, run, (handedOver_iff run).mpr hguarded⟩

/-- Two calls wait. The reader delivers the response of the first of them, receives its own and
signals the first once more. Nobody wakes the second. -/
theorem not_handedOver_first : ∃ s,
    Run (step plainPdu) (new 0)
      (beginAll [0, 1, 2] ++ readAndDeliver 0 1 ++ [.deadline 0 false] ++ readAndDeliver 0 0) s ∧
    s.isReading = false ∧ s.needs 2 ∧ (∀ id, s.needs id → s.signalled id = false) ∧
      ¬s.HandedOver := by
  have heval : (runLabels (step plainPdu) (new 0)
      (beginAll [0, 1, 2] ++ readAndDeliver 0 1 ++ [.deadline 0 false] ++ readAndDeliver 0 0)).map (fun s =>
        decide (s.isReading = false ∧ s.needs 2 ∧ ∀ id, s.needs id → s.signalled id = false)) =
          some true := by
    decide +kernel
  obtain ⟨s, hrun, hs⟩ := Option.map_eq_some_iff.mp heval
  obtain ⟨hfree, hneeds, hnone⟩ := of_decide_eq_true hs
  refine ⟨s, run_of_runLabels hrun, hfree, hneeds, hnone, fun hover => ?_⟩
  obtain ⟨j, hj, hsig⟩ := hover hfree ⟨2, hneeds⟩
  cases (hnone j hj).symm.trans hsig

end Socket

end Dot1x.Radius
