import Dot1x.Radius.Socket

/-!
# Coherence of the tables

The tables of the socket agree with the calls in progress in every reachable state: the calls that
wait own different sync points, which exist and are marked as used; a pending entry belongs to a
call in progress; and the socket is being read exactly when one call is the reader.
-/

namespace Dot1x.Radius

open Dot1x.Base

/-- The sync point that belongs to a role. -/
def Role.index : Role → Option Index
  | .reader => none
  | .waiter i => some i

namespace Socket

variable {P A : Type} {s s' : Socket P A} {id j k : Id} {i : Index} {role : Role}
  {ph : Phase P A}

/-- The call that goes on is in its new phase, if it is there. -/
@[simp] theorem phase_goTo_self : (s.goTo id ph).phase id = (s.phase id).map fun _ => ph := by
  simp only [phase, goTo, Function.update_self, Option.map_map]
  rfl

/-- The same, of a call that is in some phase. -/
theorem phase_goTo {ph' : Phase P A} (hphase : s.phase id = some ph') :
    (s.goTo id ph).phase id = some ph := by
  rw [phase_goTo_self, hphase, Option.map_some]

/-- The other calls stay in their phases. -/
@[simp] theorem phase_goTo_of_ne (h : j ≠ id) : (s.goTo id ph).phase j = s.phase j := by
  simp only [phase, goTo, Function.update_of_ne h]

/-- A call that begins is in its first phase. -/
theorem phase_enter_self {server : Server A} : (s.enter id ph server).phase id = some ph := by
  simp only [phase, enter, Function.update_self, Option.map_some]

/-- The other calls stay in their phases when one begins. -/
@[simp] theorem phase_enter_of_ne {server : Server A} (h : j ≠ id) :
    (s.enter id ph server).phase j = s.phase j := by
  simp only [phase, enter, Function.update_of_ne h]

/-- Storing a response changes no phase. -/
@[simp] theorem phase_store {pdu : P} : (s.store id pdu).phase j = s.phase j := by
  by_cases h : j = id
  · subst h
    simp only [phase, store, Function.update_self, Option.map_map]
    rfl
  · simp only [phase, store, Function.update_of_ne h]

/-- Giving back a sync point does not touch the calls. -/
@[simp] theorem freeReadSyncPoint_calls (index : Option Index) :
    (s.freeReadSyncPoint index).calls = s.calls := by
  cases index <;> rfl

/-- Giving back a sync point does not touch the entries. -/
@[simp] theorem freeReadSyncPoint_pendingRequests (index : Option Index) :
    (s.freeReadSyncPoint index).pendingRequests = s.pendingRequests := by
  cases index <;> rfl

/-- Giving back a sync point does not change who owns one. -/
@[simp] theorem freeReadSyncPoint_readSyncPointIndices (index : Option Index) :
    (s.freeReadSyncPoint index).readSyncPointIndices = s.readSyncPointIndices := by
  cases index <;> rfl

/-- Giving back a sync point does not change who reads. -/
@[simp] theorem freeReadSyncPoint_isReading (index : Option Index) :
    (s.freeReadSyncPoint index).isReading = s.isReading := by
  cases index <;> rfl

/-- Freeing a sync point leaves the others alone. -/
theorem freeReadSyncPoint_of_ne (h : k ≠ i) :
    (s.freeReadSyncPoint (some i)).syncPointMap k = s.syncPointMap k ∧
      (s.freeReadSyncPoint (some i)).readSyncPoints k = s.readSyncPoints k := by
  refine ⟨by simp only [freeReadSyncPoint, Function.update_of_ne h], ?_⟩
  simp only [freeReadSyncPoint]
  split
  · rw [Function.update_of_ne h]
  · rfl

/-- Giving up a sync point changes no phase. -/
@[simp] theorem dropSyncPoint_phase : (s.dropSyncPoint id).phase j = s.phase j := by
  simp only [phase, dropSyncPoint, freeReadSyncPoint_calls]

/-- Giving up a sync point does not touch the entries. -/
@[simp] theorem dropSyncPoint_pendingRequests :
    (s.dropSyncPoint id).pendingRequests = s.pendingRequests := by
  simp only [dropSyncPoint, freeReadSyncPoint_pendingRequests]

/-- Who reads does not matter when a sync point is given up. -/
theorem dropSyncPoint_isReading {reading : Bool} :
    { s with isReading := reading }.dropSyncPoint id =
      { s.dropSyncPoint id with isReading := reading } := by
  simp only [dropSyncPoint]
  cases s.readSyncPointIndices id <;> rfl

/-- Signals touch nothing but the events, of which there are as many as before. -/
theorem signalCall_eq (s : Socket P A) (id : Option Id) : ∃ events,
    (∀ i, (events i).isSome = (s.readSyncPoints i).isSome) ∧
      s.signalCall id = { s with readSyncPoints := events } := by
  unfold signalCall
  split
  · exact ⟨s.readSyncPoints, fun _ => rfl, rfl⟩
  · rename_i i _
    refine ⟨_, fun k => ?_, rfl⟩
    by_cases h : k = i
    · subst h
      simp
    · rw [Function.update_of_ne h]

/-- Who reads does not matter for a signal. -/
theorem signalCall_isReading {reading : Bool} {call : Option Id} :
    { s with isReading := reading }.signalCall call =
      { s.signalCall call with isReading := reading } := by
  simp only [signalCall]
  cases call.bind s.readSyncPointIndices <;> rfl

/-- Storing a response changes no role. -/
@[simp] theorem role_store {pdu : P} : (s.store id pdu).role j = s.role j := by
  rw [role, phase_store, role]

/-- A signal changes no role. -/
@[simp] theorem role_signalCall {call : Option Id} : (s.signalCall call).role j = s.role j := by
  obtain ⟨events, -, heq⟩ := signalCall_eq s call
  rw [heq]
  rfl

/-- The call that goes on has the role of its new phase. -/
theorem role_goTo (hid : (s.role id).isSome) :
    (s.goTo id ph).role j = if j = id then ph.role else s.role j := by
  unfold role
  split
  · rename_i h
    subst h
    rw [phase_goTo_self]
    cases hp : s.phase j with
    | none => simp [role, hp] at hid
    | some q => rfl
  · rename_i h
    rw [phase_goTo_of_ne h]

/-- A call that begins has the role of its first phase. -/
theorem role_enter_self {server : Server A} : (s.enter id ph server).role id = ph.role := by
  rw [role, phase_enter_self, Option.bind_some]

/-- The other calls keep their roles when one begins. -/
theorem role_enter_of_ne {server : Server A} (h : j ≠ id) :
    (s.enter id ph server).role j = s.role j := by
  rw [role, phase_enter_of_ne h, role]

/-- The role of a call is that of its phase. -/
theorem role_of_phase (h : s.phase id = some ph) : s.role id = ph.role := by
  rw [role, h, Option.bind_some]

/-- The tables agree with the calls in progress. -/
structure Coherent (s : Socket P A) : Prop where
  index : ∀ j, s.readSyncPointIndices j = (s.role j).bind Role.index
  pending : ∀ j, s.role j = none → s.pendingRequests j = none
  event : ∀ j i, s.readSyncPointIndices j = some i →
    s.syncPointMap i = true ∧ (s.readSyncPoints i).isSome
  distinct : ∀ j k i, s.readSyncPointIndices j = some i → s.readSyncPointIndices k = some i → j = k
  reading : s.isReading = true ↔ ∃ j, s.role j = some .reader
  unique : ∀ j k, s.role j = some .reader → s.role k = some .reader → j = k

namespace Coherent

/-- A new socket has no calls. -/
theorem new (oldestId : Id) : (Socket.new oldestId : Socket P A).Coherent where
  index _ := rfl
  pending _ _ := rfl
  event _ _ h := nomatch h
  distinct _ _ _ h := nomatch h
  reading := by simp [Socket.new, role, phase]
  unique _ _ h := nomatch h

/-- A call that waits owns its sync point. -/
theorem index_waiter (h : s.Coherent) (hrole : s.role id = some (.waiter i)) :
    s.readSyncPointIndices id = some i := by
  rw [h.index, hrole]
  rfl

/-- The reader owns no sync point. -/
theorem index_reader (h : s.Coherent) (hrole : s.role id = some .reader) :
    s.readSyncPointIndices id = none := by
  rw [h.index, hrole]
  rfl

/-- Where a call is the reader, somebody reads. -/
theorem isReading_of_reader (h : s.Coherent) (hrole : s.role id = some .reader) :
    s.isReading = true :=
  h.reading.mpr ⟨id, hrole⟩

/-- A change that concerns neither roles nor the ownership of sync points. -/
theorem of_same (h : s.Coherent) (hrole : ∀ j, s'.role j = s.role j)
    (hindex : s'.readSyncPointIndices = s.readSyncPointIndices)
    (hpending : ∀ j, s.pendingRequests j = none → s'.pendingRequests j = none)
    (hmap : s'.syncPointMap = s.syncPointMap)
    (hevents : ∀ i, (s'.readSyncPoints i).isSome = (s.readSyncPoints i).isSome)
    (hreading : s'.isReading = s.isReading) : s'.Coherent where
  index j := by rw [hindex, hrole, h.index]
  pending j hj := hpending j (h.pending j (hrole j ▸ hj))
  event j i hj := by
    rw [hmap, hevents]
    exact h.event j i (hindex ▸ hj)
  distinct := by
    rw [hindex]
    exact h.distinct
  reading := by simp only [hreading, hrole, h.reading]
  unique := by
    simp only [hrole]
    exact h.unique

/-- A call goes on in its role. -/
theorem goTo (h : s.Coherent) (hrole : s.role id = some role) (hph : ph.role = some role) :
    (s.goTo id ph).Coherent := by
  refine h.of_same (fun j => ?_) rfl (fun _ hj => hj) rfl (fun _ => rfl) rfl
  rw [role_goTo (by rw [hrole]; rfl)]
  split
  · rename_i heq
    rw [heq, hrole, hph]
  · rfl

/-- A signal sets an event that is owned. -/
theorem signalCall (h : s.Coherent) (id : Option Id) : (s.signalCall id).Coherent := by
  obtain ⟨events, hevents, heq⟩ := signalCall_eq s id
  rw [heq]
  exact h.of_same (fun _ => rfl) rfl (fun _ hj => hj) rfl hevents rfl

/-- The wait that is satisfied resets an event that is owned. -/
theorem reset (h : s.Coherent) (hset : s.readSyncPoints i = some true) : (s.reset i).Coherent := by
  refine h.of_same (fun _ => rfl) rfl (fun _ hj => hj) rfl (fun k => ?_) rfl
  by_cases hk : k = i
  · subst hk
    simp [Socket.reset, hset]
  · simp only [Socket.reset, Function.update_of_ne hk]

/-- An entry may be cleared at any time. -/
theorem store (h : s.Coherent) (id : Id) (pdu : P) : (s.store id pdu).Coherent := by
  refine h.of_same (fun j => ?_) rfl (fun j hj => ?_) rfl (fun _ => rfl) rfl
  · simp only [role, phase_store]
  · by_cases heq : j = id
    · subst heq
      exact Function.update_self ..
    · exact (Function.update_of_ne heq ..).trans hj

/-- Clearing an entry concerns no role and no sync point. -/
theorem clear (h : s.Coherent) (id : Id) :
    { s with pendingRequests := Function.update s.pendingRequests id none }.Coherent := by
  refine h.of_same (fun j => rfl) rfl (fun j hj => ?_) rfl (fun _ => rfl) rfl
  by_cases heq : j = id
  · subst heq
    exact Function.update_self ..
  · exact (Function.update_of_ne heq ..).trans hj

/-- The call was and is the reader or neither, or it was the reader and nobody is now, or nobody was
and it is now. -/
def ReaderMoves (s s' : Socket P A) (id : Id) : Prop :=
  (s'.role id = some .reader ↔ s.role id = some .reader) ∧ s'.isReading = s.isReading ∨
  s.role id = some .reader ∧ s'.role id ≠ some .reader ∧ s'.isReading = false ∨
  s.isReading = false ∧ s'.role id = some .reader ∧ s'.isReading = true

/-- The flag still tells whether there is a reader. -/
private theorem reading_of_moves (h : s.Coherent) (hreader : ReaderMoves s s' id)
    (hrole : ∀ j, j ≠ id → s'.role j = s.role j) :
    s'.isReading = true ↔ ∃ j, s'.role j = some .reader := by
  rcases hreader with ⟨hid, hsame⟩ | ⟨hwas, hnot, hfree⟩ | ⟨-, his, htaken⟩
  · rw [hsame, h.reading]
    refine exists_congr fun j => ?_
    by_cases hj : j = id
    · rw [hj, hid]
    · rw [hrole j hj]
  · refine iff_of_false (by rw [hfree]; exact Bool.false_ne_true) fun ⟨j, hj⟩ => ?_
    by_cases hjid : j = id
    · exact hnot (hjid ▸ hj)
    · exact hjid (h.unique j id (hrole j hjid ▸ hj) hwas)
  · exact iff_of_true htaken ⟨id, his⟩

/-- If the call is the reader now, no other is. -/
private theorem not_reader_of_moves (h : s.Coherent) (hreader : ReaderMoves s s' id)
    (hrole : ∀ j, j ≠ id → s'.role j = s.role j) {j : Id} (hne : j ≠ id)
    (hid : s'.role id = some .reader) : s'.role j ≠ some .reader := by
  intro hj
  rw [hrole j hne] at hj
  rcases hreader with ⟨hiff, -⟩ | ⟨-, hnot, -⟩ | ⟨hfree, -, -⟩
  · exact hne (h.unique j id hj (hiff.mp hid))
  · exact hnot hid
  · exact Bool.false_ne_true (hfree.symm.trans (h.isReading_of_reader hj))

/-- A change of the role of one call, which may gain a sync point that nobody owns. -/
theorem of_change (h : s.Coherent) (id : Id) (hrole : ∀ j, j ≠ id → s'.role j = s.role j)
    (hindex : ∀ j, j ≠ id → s'.readSyncPointIndices j = s.readSyncPointIndices j)
    (hown : s'.readSyncPointIndices id = (s'.role id).bind Role.index)
    (hpending : ∀ j, j ≠ id → s'.pendingRequests j = s.pendingRequests j)
    (hclear : s'.role id = none → s'.pendingRequests id = none)
    (htables : ∀ j i, j ≠ id → s.readSyncPointIndices j = some i →
      s'.syncPointMap i = s.syncPointMap i ∧
        (s'.readSyncPoints i).isSome = (s.readSyncPoints i).isSome)
    (hnew : ∀ i, s'.readSyncPointIndices id = some i → s'.syncPointMap i = true ∧
      (s'.readSyncPoints i).isSome ∧ ∀ j, j ≠ id → s.readSyncPointIndices j ≠ some i)
    (hreader : ReaderMoves s s' id) : s'.Coherent where
  index j := by
    by_cases hj : j = id
    · rw [hj, hown]
    · rw [hindex j hj, hrole j hj, h.index]
  pending j hnone := by
    by_cases hj : j = id
    · subst hj
      exact hclear hnone
    · rw [hpending j hj]
      exact h.pending j (hrole j hj ▸ hnone)
  event j i hi := by
    by_cases hj : j = id
    · subst hj
      exact ⟨(hnew i hi).1, (hnew i hi).2.1⟩
    · rw [hindex j hj] at hi
      obtain ⟨hmap, hevent⟩ := htables j i hj hi
      rw [hmap, hevent]
      exact h.event j i hi
  distinct j k i hi hk := by
    by_cases hj : j = id
    · by_cases hkid : k = id
      · rw [hj, hkid]
      · rw [hindex k hkid] at hk
        exact absurd hk ((hnew i (hj ▸ hi)).2.2 k hkid)
    · rw [hindex j hj] at hi
      by_cases hkid : k = id
      · exact absurd hi ((hnew i (hkid ▸ hk)).2.2 j hj)
      · rw [hindex k hkid] at hk
        exact h.distinct j k i hi hk
  reading := h.reading_of_moves hreader hrole
  unique j k hj hk := by
    by_cases hjid : j = id
    · by_cases hkid : k = id
      · rw [hjid, hkid]
      · exact absurd hk (h.not_reader_of_moves hreader hrole hkid (hjid ▸ hj))
    · by_cases hkid : k = id
      · exact absurd hj (h.not_reader_of_moves hreader hrole hjid (hkid ▸ hk))
      · exact h.unique j k (hrole j hjid ▸ hj) (hrole k hkid ▸ hk)

/-- The reader gives up its role and returns. -/
theorem handOver (h : s.Coherent) (hrole : s.role id = some .reader)
    (hclear : s.pendingRequests id = none) (result : Bool) :
    (s.handOver.goTo id (.returned result)).Coherent := by
  obtain ⟨events, hevents, heq⟩ := signalCall_eq { s with isReading := false }
    { s with isReading := false }.heir
  have hrole' (j : Id) : ({ s with isReading := false, readSyncPoints := events }.goTo id
      (.returned result)).role j = if j = id then none else s.role j :=
    role_goTo (Option.isSome_iff_exists.mpr ⟨_, hrole⟩)
  rw [Socket.handOver, heq]
  have hnone := (hrole' id).trans (if_pos rfl)
  refine h.of_change id (fun j hj => (hrole' j).trans (if_neg hj)) (fun _ _ => rfl) ?_
    (fun _ _ => rfl) (fun _ => hclear) (fun _ i _ _ => ⟨rfl, hevents i⟩) (fun i hi => ?_)
    (Or.inr (Or.inl ⟨hrole, by rw [hnone]; exact nofun, rfl⟩))
  · rw [hnone]
    exact h.index_reader hrole
  · cases (h.index_reader hrole).symm.trans hi

/-- The tables after a waiter gave up its sync point. -/
theorem drop_tables (h : s.Coherent) (hrole : s.role id = some (.waiter i)) :
    (∀ j, (s.dropSyncPoint id).readSyncPointIndices j =
      if j = id then none else s.readSyncPointIndices j) ∧
    ∀ j k, j ≠ id → s.readSyncPointIndices j = some k →
      (s.dropSyncPoint id).syncPointMap k = s.syncPointMap k ∧
        (s.dropSyncPoint id).readSyncPoints k = s.readSyncPoints k := by
  have hindex := h.index_waiter hrole
  refine ⟨fun j => ?_, fun j k hne hk => ?_⟩
  · simp only [dropSyncPoint, freeReadSyncPoint_readSyncPointIndices, Function.update_apply]
  · have hki : k ≠ i := fun heq => hne (h.distinct j id i (heq ▸ hk) hindex)
    simp only [dropSyncPoint, hindex]
    exact freeReadSyncPoint_of_ne hki

/-- A waiter gives up its sync point, and either returns or becomes the reader. -/
theorem drop (h : s.Coherent) (hrole : s.role id = some (.waiter i)) {reading : Bool}
    (hph : ph.role = none ∧ s.pendingRequests id = none ∧ reading = s.isReading ∨
      ph.role = some .reader ∧ s.isReading = false ∧ reading = true) :
    (({ s with isReading := reading }.dropSyncPoint id).goTo id ph).Coherent := by
  obtain ⟨hindex, htables⟩ := h.drop_tables hrole
  have hrole' (j : Id) : ({ s.dropSyncPoint id with isReading := reading }.goTo id ph).role j =
      if j = id then ph.role else s.role j := by
    have hsame (j : Id) : { s.dropSyncPoint id with isReading := reading }.role j = s.role j := by
      change ((s.dropSyncPoint id).phase j).bind Phase.role = _
      rw [dropSyncPoint_phase]
      rfl
    rw [role_goTo (by rw [hsame, hrole]; rfl), hsame]
  have hid := (hrole' id).trans (if_pos rfl)
  have hnone := (hindex id).trans (if_pos rfl)
  rw [dropSyncPoint_isReading]
  refine h.of_change id (fun j hj => (hrole' j).trans (if_neg hj))
    (fun j hj => (hindex j).trans (if_neg hj)) ?_ (fun j _ => ?_) (fun hph' => ?_)
    (fun j k hj hk => ⟨(htables j k hj hk).1, congrArg _ (htables j k hj hk).2⟩)
    (fun k hk => ?_) ?_
  · rw [hid]
    rcases hph with ⟨hph, -⟩ | ⟨hph, -⟩ <;> rw [hph] <;> exact hnone
  · exact congrFun dropSyncPoint_pendingRequests j
  · rw [hid] at hph'
    rcases hph with ⟨-, hclear, -⟩ | ⟨hph, -⟩
    · exact (congrFun dropSyncPoint_pendingRequests id).trans hclear
    · cases hph.symm.trans hph'
  · cases hnone.symm.trans hk
  · rw [ReaderMoves, hid, hrole]
    rcases hph with ⟨hph, -, hsame⟩ | ⟨hph, hfree, htaken⟩
    · exact Or.inl ⟨by rw [hph]; exact ⟨nofun, nofun⟩, hsame⟩
    · exact Or.inr (Or.inr ⟨hfree, hph, htaken⟩)

/-- A call that returns at once. -/
theorem refused (h : s.Coherent) (hid : s.role id = none) (result : Bool) (server : Server A) :
    (s.enter id (.returned result) server).Coherent := by
  have hrole (j : Id) : (s.enter id (.returned result) server).role j = s.role j := by
    by_cases hj : j = id
    · rw [hj, role_enter_self, hid]
      rfl
    · exact role_enter_of_ne hj
  exact h.of_same hrole rfl (fun _ hj => hj) rfl (fun _ => rfl) rfl

/-- A call that begins as the reader. -/
theorem began (h : s.Coherent) (hid : s.role id = none) (hfree : s.isReading = false)
    (server : Server A) :
    ({ s with
      isReading := true
      pendingRequests := Function.update s.pendingRequests id (some server) }.enter id
        (.writing .reader) server).Coherent := by
  have hindex : s.readSyncPointIndices id = none := by
    rw [h.index, hid]
    rfl
  refine h.of_change id (fun _ hj => role_enter_of_ne hj) (fun _ _ => rfl) ?_
    (fun j hj => Function.update_of_ne hj ..) (fun hnone => ?_) (fun _ _ _ _ => ⟨rfl, rfl⟩)
    (fun i hi => ?_) (Or.inr (Or.inr ⟨hfree, role_enter_self, rfl⟩))
  · rw [role_enter_self]
    exact hindex
  · cases role_enter_self.symm.trans hnone
  · cases hindex.symm.trans hi

/-- A call that begins by waiting, on a sync point that was not used. -/
theorem joined (h : s.Coherent) (hid : s.role id = none) (hunused : s.syncPointMap i = false)
    (server : Server A) (count : ℕ) (event : Bool) :
    ({ s with
      syncPointMap := Function.update s.syncPointMap i true
      readSyncPoints := Function.update s.readSyncPoints i (some event)
      readSyncPointIndices := Function.update s.readSyncPointIndices id (some i)
      nestedCount := count
      pendingRequests := Function.update s.pendingRequests id (some server) }.enter id
        (.writing (.waiter i)) server).Coherent := by
  have hunowned (j : Id) (k : Index) (hk : s.readSyncPointIndices j = some k) : k ≠ i := by
    intro heq
    subst heq
    exact Bool.false_ne_true (hunused.symm.trans (h.event j k hk).1)
  refine h.of_change id (fun _ hj => role_enter_of_ne hj)
    (fun j hj => Function.update_of_ne hj ..) ?_ (fun j hj => Function.update_of_ne hj ..)
    (fun hnone => ?_) (fun j k hj hk => ?_) (fun k hk => ?_) (Or.inl ⟨?_, rfl⟩)
  · rw [role_enter_self]
    exact Function.update_self ..
  · cases role_enter_self.symm.trans hnone
  · have hne := hunowned j k hk
    exact ⟨Function.update_of_ne hne .., congrArg Option.isSome (Function.update_of_ne hne ..)⟩
  · have hki : Function.update s.readSyncPointIndices id (some i) id = some k := hk
    rw [Function.update_self] at hki
    cases hki
    have hevent : Function.update s.readSyncPoints i (some event) i = some event :=
      Function.update_self ..
    exact ⟨Function.update_self .., congrArg Option.isSome hevent,
      fun j _ hj => hunowned j i hj rfl⟩
  · rw [role_enter_self, hid]
    exact ⟨nofun, nofun⟩

/-- What cleaning up is for the reader. -/
theorem cleanUp_reader (h : s.Coherent) (hrole : s.role id = some .reader) :
    s.cleanUp id .reader = ({ s with
      pendingRequests := Function.update s.pendingRequests id none }.handOver.goTo id
        (.returned false)) := by
  have hindex := h.index_reader hrole
  have hreading := h.isReading_of_reader hrole
  simp [cleanUp, hindex, hreading]

/-- What cleaning up is for a waiter. -/
theorem cleanUp_waiter (h : s.Coherent) (hrole : s.role id = some (.waiter i)) :
    s.cleanUp id (.waiter i) = ({ s with
      pendingRequests := Function.update s.pendingRequests id none }.dropSyncPoint id).goTo id
        (.returned false) := by
  have hindex := h.index_waiter hrole
  simp [cleanUp, hindex]

/-- Every step keeps the tables coherent. -/
theorem step {T : PduType P} [DecidableEq A] (h : s.Coherent) {a : Action P A}
    (hstep : s.step T a = some s') : s'.Coherent := by
  cases branch_of_step hstep with
  | refused hid => exact h.refused hid _ _
  | began hid hfree => exact h.began hid hfree _
  | joined hid _ hunused => exact h.joined hid hunused _ _ _
  | wrote hphase =>
    refine h.goTo (role_of_phase hphase) ?_
    split
    · exact Role.role_loop _
    · rfl
  | read hphase =>
    refine h.goTo (role_of_phase hphase) ?_
    unfold afterRead
    split
    · rfl
    · split <;> rfl
  | dropped hphase => exact h.goTo (role_of_phase hphase) rfl
  | kept hphase =>
    exact (h.store _ _).handOver (role_store.trans (role_of_phase hphase))
      (Function.update_self ..) true
  | delivered hphase =>
    refine ((h.store _ _).signalCall _).goTo ?_ rfl
    exact role_signalCall.trans (role_store.trans (role_of_phase hphase))
  | stranded hphase =>
    exact (h.store _ _).goTo (role_store.trans (role_of_phase hphase)) rfl
  | woke hphase hset =>
    have hrole := role_of_phase hphase
    exact (h.reset hset).goTo hrole rfl
  | timedOut hphase => exact h.goTo (role_of_phase hphase) rfl
  | answered hphase hclear =>
    exact h.drop (role_of_phase hphase) (Or.inl ⟨rfl, hclear, rfl⟩)
  | promoted hphase _ hfree =>
    exact h.drop (role_of_phase hphase) (Or.inr ⟨rfl, hfree, rfl⟩)
  | disturbed hphase => exact h.goTo (role_of_phase hphase) rfl
  | tested hphase =>
    refine h.goTo (role_of_phase hphase) ?_
    split
    · rfl
    · exact Role.role_loop _
  | @cleaned id role hphase =>
    have hrole := role_of_phase hphase
    cases role with
    | reader =>
      rw [h.cleanUp_reader hrole]
      exact (h.clear id).handOver hrole (Function.update_self ..) false
    | waiter i =>
      rw [h.cleanUp_waiter hrole]
      exact (h.clear id).drop hrole (Or.inl ⟨rfl, Function.update_self .., rfl⟩)
  | refreshed => exact h.of_same (fun _ => rfl) rfl (fun _ hj => hj) rfl (fun _ => rfl) rfl

end Coherent

end Socket

end Dot1x.Radius
