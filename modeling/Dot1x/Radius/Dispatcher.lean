import Dot1x.Radius.Response
import Mathlib.Data.Finset.Card
import Mathlib.Data.Fintype.Basic
import Mathlib.Data.List.Perm.Subperm

/-!
# The dispatcher of responses

The invariant of the socket over all interleavings of calls: who reads, which sync points are in
use and how many, which calls have a pending entry, and what the calls that returned true were
given. What was read so far is not part of the state; it is known from the steps.
-/

namespace Dot1x.Radius

open Dot1x.Base
open scoped List

/-- The datagram that a step reads. -/
def Action.datagram {P A : Type} : Action P A → Option (Datagram P A)
  | .read _ datagram => datagram
  | _ => none

/-- The datagrams that are read, one for each read that succeeds. -/
def reads {P A : Type} (as : List (Action P A)) : List (Datagram P A) :=
  as.filterMap Action.datagram

/-- One step more may read a datagram more. -/
theorem reads_concat {P A : Type} {as : List (Action P A)} {a : Action P A} :
    reads (as ++ [a]) = reads as ++ a.datagram.toList := by
  rw [reads, List.filterMap_append, reads]
  cases h : a.datagram <;> simp [h]

/-- What was read stays read. -/
theorem mem_reads_concat {P A : Type} {as : List (Action P A)} {a : Action P A} {d : Datagram P A}
    (hd : d ∈ reads as) : d ∈ reads (as ++ [a]) := by
  rw [reads_concat]
  exact List.mem_append_left _ hd

/-- There is no less read after a step more. -/
theorem reads_subperm_concat {P A : Type} {as : List (Action P A)} {a : Action P A} :
    (reads as).map Datagram.pdu <+~ (reads (as ++ [a])).map Datagram.pdu := by
  rw [reads_concat, List.map_append]
  exact (List.sublist_append_left _ _).subperm

/-- A datagram that the reader does not discard at once. -/
structure Datagram.Acceptable {P A : Type} (T : PduType P) (d : Datagram P A) : Prop where
  long : minPduLength ≤ d.bytesRead
  valid : T.isValid d.pdu = true

/-- A datagram answers the request with an identifier that was sent to a server. -/
structure Datagram.Answers {P A : Type} (T : PduType P) (d : Datagram P A) (id : Id)
    (server : Server A) : Prop extends d.Acceptable T where
  id : T.id d.pdu = id
  source : d.source = server

namespace Phase

variable {P A : Type} {ph : Phase P A}

/-- A call in this phase has neither just read a datagram nor been answered. -/
def Quiet : Phase P A → Prop
  | .received _ => False
  | .returned result => result = false
  | _ => True

/-- A quiet phase is not that of having received. -/
theorem Quiet.ne_received {d : Datagram P A} (h : ph.Quiet) : ph ≠ .received d := by
  rintro rfl
  exact h

/-- A quiet phase is not that of having returned true. -/
theorem Quiet.ne_returned (h : ph.Quiet) : ph ≠ .returned true := by
  rintro rfl
  cases h

/-- The loop is entered quietly. -/
theorem quiet_loop {role : Role} : Quiet (role.loop : Phase P A) := by
  cases role with
  | reader => trivial
  | waiter index => trivial

end Phase

namespace Socket

variable {P A : Type} {s s' : Socket P A} {id j : Id} {i : Index} {pdu : P}

/-- The calls that own a sync point. -/
def owners (s : Socket P A) : Finset Id :=
  Finset.univ.filter fun j => (s.readSyncPointIndices j).isSome

/-- The owners are the calls that own a sync point. -/
theorem mem_owners : j ∈ s.owners ↔ (s.readSyncPointIndices j).isSome := by
  simp [owners]

/-- Every sync point in use is owned by a call, and the calls that own one are counted. -/
structure Accounted (s : Socket P A) : Prop where
  owned : ∀ i, s.syncPointMap i = true → ∃ j, s.readSyncPointIndices j = some i
  count : s.nestedCount = s.owners.card

namespace Accounted

/-- In a new socket no sync point is in use. -/
theorem new (oldestId : Id) : (Socket.new oldestId : Socket P A).Accounted where
  owned _ h := nomatch h
  count := by simp [Socket.new, owners]

/-- A change that does not concern the ownership of sync points. -/
theorem of_same (h : s.Accounted) (hmap : s'.syncPointMap = s.syncPointMap)
    (hindex : s'.readSyncPointIndices = s.readSyncPointIndices)
    (hcount : s'.nestedCount = s.nestedCount) : s'.Accounted where
  owned i hi := by
    rw [hindex]
    exact h.owned i (hmap ▸ hi)
  count := by
    rw [hcount, h.count, owners, owners, hindex]

/-- A call that owns none takes a sync point. -/
theorem take (h : s.Accounted) (hnone : s.readSyncPointIndices id = none)
    (hmap : s'.syncPointMap = Function.update s.syncPointMap i true)
    (hindex : s'.readSyncPointIndices = Function.update s.readSyncPointIndices id (some i))
    (hcount : s'.nestedCount = s.nestedCount + 1) : s'.Accounted where
  owned k hk := by
    rw [hindex]
    by_cases hki : k = i
    · subst hki
      exact ⟨id, Function.update_self ..⟩
    · rw [hmap, Function.update_of_ne hki] at hk
      obtain ⟨j, hj⟩ := h.owned k hk
      have hne : j ≠ id := by
        rintro rfl
        cases hnone.symm.trans hj
      exact ⟨j, (Function.update_of_ne hne ..).trans hj⟩
  count := by
    have hinsert : s'.owners = insert id s.owners := by
      ext j
      rw [Finset.mem_insert, mem_owners, mem_owners, hindex]
      by_cases hj : j = id
      · simp [hj]
      · simp [hj]
    have hnew : id ∉ s.owners := by
      rw [mem_owners, hnone]
      exact Bool.false_ne_true
    rw [hcount, h.count, hinsert, Finset.card_insert_of_notMem hnew]

/-- A call gives up the sync point that it owns. -/
theorem drop (h : s.Accounted) (hsome : s.readSyncPointIndices id = some i) :
    (s.dropSyncPoint id).Accounted where
  owned k hk := by
    simp only [dropSyncPoint, freeReadSyncPoint_readSyncPointIndices, hsome] at hk ⊢
    have hki : k ≠ i := by
      rintro rfl
      simp [freeReadSyncPoint] at hk
    rw [(freeReadSyncPoint_of_ne hki).1] at hk
    obtain ⟨j, hj⟩ := h.owned k hk
    have hne : j ≠ id := by
      rintro rfl
      exact hki (Option.some.inj (hj.symm.trans hsome))
    exact ⟨j, (Function.update_of_ne hne ..).trans hj⟩
  count := by
    have herase : (s.dropSyncPoint id).owners = s.owners.erase id := by
      ext j
      simp only [Finset.mem_erase, mem_owners, dropSyncPoint,
        freeReadSyncPoint_readSyncPointIndices]
      by_cases hj : j = id
      · simp [hj]
      · simp [hj]
    have hmem : id ∈ s.owners := by
      rw [mem_owners, hsome]
      rfl
    rw [herase, Finset.card_erase_of_mem hmem, ← h.count]
    simp only [dropSyncPoint, hsome, freeReadSyncPoint]

/-- The reader hands over its role, which concerns no sync point. -/
theorem handOver (h : s.Accounted) : s.handOver.Accounted := by
  obtain ⟨events, -, heq⟩ := signalCall_eq { s with isReading := false }
    { s with isReading := false }.heir
  rw [Socket.handOver, heq]
  exact h.of_same rfl rfl rfl

/-- Every step accounts for the sync points. -/
theorem step {T : PduType P} [DecidableEq A] (h : s.Accounted) (hs : s.Coherent) {a : Action P A}
    (hstep : s.step T a = some s') : s'.Accounted := by
  have hwaiter {id : Id} {i : Index} {ph : Phase P A} (hphase : s.phase id = some ph)
      (hph : ph.role = some (.waiter i)) : s.readSyncPointIndices id = some i :=
    hs.index_waiter ((role_of_phase hphase).trans hph)
  cases branch_of_step hstep with
  | refused | began | wrote | read | dropped | woke | timedOut | disturbed | tested | refreshed =>
    exact h.of_same rfl rfl rfl
  | @joined request _ _ hid =>
    have hnone : s.readSyncPointIndices (T.id request) = none := by
      rw [hs.index, hid]
      rfl
    exact h.take hnone rfl rfl rfl
  | @kept id d =>
    have hstore : (s.store id d.pdu).Accounted := h.of_same rfl rfl rfl
    exact hstore.handOver.of_same rfl rfl rfl
  | @delivered _ d =>
    obtain ⟨events, -, heq⟩ := signalCall_eq (s.store (T.id d.pdu) d.pdu) (some (T.id d.pdu))
    rw [heq]
    exact h.of_same rfl rfl rfl
  | stranded => exact h.of_same rfl rfl rfl
  | answered hphase => exact (h.drop (hwaiter hphase rfl)).of_same rfl rfl rfl
  | promoted hphase =>
    rw [dropSyncPoint_isReading]
    exact (h.drop (hwaiter hphase rfl)).of_same rfl rfl rfl
  | @cleaned id role hphase =>
    have hrole := role_of_phase hphase
    have hclear : { s with
        pendingRequests := Function.update s.pendingRequests id none }.Accounted :=
      h.of_same rfl rfl rfl
    cases role with
    | reader =>
      rw [hs.cleanUp_reader hrole]
      exact hclear.handOver.of_same rfl rfl rfl
    | waiter i =>
      rw [hs.cleanUp_waiter hrole]
      exact (hclear.drop (hs.index_waiter hrole)).of_same rfl rfl rfl

end Accounted

/-- The server of the call with an identifier. -/
def server (s : Socket P A) (id : Id) : Option (Server A) := (s.calls id).map Call.server

variable {ph : Phase P A}

/-- A call keeps its server when it goes on. -/
private theorem server_goTo : (s.goTo id ph).server j = s.server j := by
  by_cases h : j = id
  · subst h
    simp only [server, goTo, Function.update_self, Option.map_map]
    rfl
  · rw [server, server, goTo_calls_of_ne h]

/-- A call keeps its server when its response is stored. -/
theorem server_store : (s.store id pdu).server j = s.server j := by
  by_cases h : j = id
  · subst h
    simp only [server, store, Function.update_self, Option.map_map]
    rfl
  · rw [server, server, store_calls_of_ne h]

/-- A call that is in progress goes to another phase; nothing else happens to the calls. -/
structure Moves (s s' : Socket P A) (id : Id) (ph : Phase P A) : Prop where
  phase : s'.phase id = some ph
  others : ∀ j, j ≠ id → s'.phase j = s.phase j
  server : ∀ j, s'.server j = s.server j

/-- A call goes on where nothing else happens to the calls. -/
theorem Moves.of_calls (hid : (s.role id).isSome) (hcalls : s'.calls = (s.goTo id ph).calls) :
    Moves s s' id ph where
  phase := by
    rw [Socket.phase, hcalls]
    cases hp : s.phase id with
    | none => simp [role, hp] at hid
    | some q => exact phase_goTo_self.trans (by rw [hp]; rfl)
  others j hj := by
    rw [Socket.phase, hcalls]
    exact phase_goTo_of_ne hj
  server j := by
    rw [Socket.server, hcalls]
    exact server_goTo

/-- Cleaning up ends a call and clears its entry. -/
theorem cleanUp_calls {role : Role} :
    (s.cleanUp id role).calls = (s.goTo id (.returned false)).calls := by
  have hover (u : Socket P A) : u.handOver.calls = u.calls := signalCall_calls _
  simp only [cleanUp, Socket.goTo]
  split <;> split <;> simp [hover]

/-- Cleaning up clears the entry of the call. -/
theorem cleanUp_pendingRequests {role : Role} :
    (s.cleanUp id role).pendingRequests = Function.update s.pendingRequests id none := by
  have hover (u : Socket P A) : u.handOver.pendingRequests = u.pendingRequests :=
    signalCall_pendingRequests _
  simp only [cleanUp, Socket.goTo]
  split <;> split <;> simp [hover]

/-- Storing a response changes neither the phases nor the servers. -/
theorem Moves.of_store {n : Id} (hid : (s.role id).isSome)
    (hcalls : s'.calls = ((s.store n pdu).goTo id ph).calls) : Moves s s' id ph := by
  have hmoves := Moves.of_calls (s := s.store n pdu) (role_store.symm ▸ hid) hcalls
  exact ⟨hmoves.phase, fun j hj => (hmoves.others j hj).trans phase_store,
    fun j => (hmoves.server j).trans server_store⟩

/-- The response of another call is stored. -/
theorem response_store_of_ne (h : j ≠ id) : (s.store id pdu).response j = s.response j := by
  rw [response, response, store_calls_of_ne h]

/-- What the reader makes of what it has read. -/
theorem afterRead_eq_received {T : PduType P} {datagram : Option (Datagram P A)} {d : Datagram P A} :
    afterRead T datagram = .received d ↔ datagram = some d ∧ d.Acceptable T := by
  cases datagram with
  | none => simp [afterRead]
  | some d' =>
    simp only [afterRead, Bool.or_eq_true, decide_eq_true_eq, Bool.not_eq_true']
    split
    · rename_i hbad
      refine iff_of_false (fun h => by cases h) ?_
      rintro ⟨hd, hgood⟩
      cases hd
      rcases hbad with hshort | hinvalid
      · exact absurd hgood.long (Nat.not_le.mpr hshort)
      · cases hinvalid.symm.trans hgood.valid
    · rename_i hgood
      rw [not_or, Nat.not_lt, Bool.not_eq_false] at hgood
      constructor
      · intro h
        cases h
        exact ⟨rfl, hgood.1, hgood.2⟩
      · rintro ⟨hd, -⟩
        cases hd
        rfl

/-- The reader does not return when it has read. -/
theorem afterRead_ne_returned {T : PduType P} {datagram : Option (Datagram P A)} {result : Bool} :
    afterRead T datagram ≠ .returned result := by
  cases datagram with
  | none => exact fun h => by cases h
  | some d =>
    rw [afterRead]
    split
    · exact fun h => by cases h
    · exact fun h => by cases h

/-- The call of a phase that has a role is in progress. -/
theorem role_isSome_of_phase {role : Role} (hphase : s.phase id = some ph)
    (hrole : ph.role = some role) : (s.role id).isSome := by
  rw [role_of_phase hphase, hrole]
  rfl

variable [DecidableEq A] {T : PduType P}

/-- What a step does to the calls and to the pending entries. -/
inductive Effect (T : PduType P) (s : Socket P A) : Action P A → Socket P A → Prop
  /-- A call is made; it returns false or waits for its response. -/
  | entered {request : P} {server : Server A} {locked : Bool} {ph : Phase P A} {s' : Socket P A}
      (hid : s.role (T.id request) = none)
      (hcalls : s'.calls = Function.update s.calls (T.id request) (some ⟨ph, none, server⟩))
      (hpending : ph = .returned false ∧ s'.pendingRequests = s.pendingRequests ∨
        (∃ role, ph = .writing role) ∧ s'.pendingRequests =
          Function.update s.pendingRequests (T.id request) (some server)) :
      Effect T s (.call request server locked) s'
  /-- A call goes on; it receives what it read, returns true if its entry is cleared, and returns
  false when it has cleared the entry. -/
  | moved {a : Action P A} {id : Id} {s' : Socket P A} (ph : Phase P A)
      (hid : (s.role id).isSome) (hcalls : s'.calls = (s.goTo id ph).calls)
      (hpending : s'.pendingRequests = s.pendingRequests ∨ ph = .returned false ∧
        s'.pendingRequests = Function.update s.pendingRequests id none)
      (hreceived : ∀ d, ph = .received d →
        s.role id = some .reader ∧ a = .read id (some d) ∧ d.Acceptable T)
      (hreturned : ph = .returned true → s.pendingRequests id = none)
      (hstored : s.stored T a = none) : Effect T s a s'
  /-- The reader stores a response, and returns true if it is its own. -/
  | stored {a : Action P A} {id : Id} {d : Datagram P A} {s' : Socket P A} (ph : Phase P A)
      (hphase : s.phase id = some (.received d)) (hawaited : s.isAwaited T d = true)
      (hcalls : s'.calls = ((s.store (T.id d.pdu) d.pdu).goTo id ph).calls)
      (hpending : s'.pendingRequests = Function.update s.pendingRequests (T.id d.pdu) none)
      (hreceived : ∀ d', ph ≠ .received d')
      (hreturned : ph = .returned true → T.id d.pdu = id)
      (hread : a.datagram = none)
      (hstored : s.stored T a = some (T.id d.pdu, d.pdu)) : Effect T s a s'
  | refreshed {oldestId : Id} : Effect T s (.refresh oldestId) { s with oldestId := oldestId }

/-- What is stored when a datagram is dispatched. -/
theorem stored_dispatch {d : Datagram P A} (hphase : s.phase id = some (.received d)) :
    s.stored T (.dispatch id true) =
      if s.isAwaited T d then some (T.id d.pdu, d.pdu) else none := by
  simp only [stored, hphase]

/-- A call that goes on to a quiet phase. -/
theorem Effect.passed {a : Action P A} (hquiet : ph.Quiet) (hid : (s.role id).isSome)
    (hcalls : s'.calls = (s.goTo id ph).calls)
    (hpending : s'.pendingRequests = s.pendingRequests ∨ ph = .returned false ∧
      s'.pendingRequests = Function.update s.pendingRequests id none)
    (hstored : s.stored T a = none) : Effect T s a s' :=
  .moved ph hid hcalls hpending (fun _ h => absurd h hquiet.ne_received)
    (fun h => absurd h hquiet.ne_returned) hstored

/-- The reader looks at what it has read. -/
private theorem effect_read {datagram : Option (Datagram P A)}
    (hphase : s.phase id = some .reading) :
    Effect T s (.read id datagram) (s.goTo id (afterRead T datagram)) := by
  refine .moved _ (role_isSome_of_phase hphase rfl) rfl (Or.inl rfl) (fun d h => ?_)
    (fun h => absurd h afterRead_ne_returned) rfl
  obtain ⟨rfl, hgood⟩ := afterRead_eq_received.mp h
  exact ⟨role_of_phase hphase, rfl, hgood⟩

/-- The reader stores its own response. -/
private theorem effect_kept {d : Datagram P A} (hphase : s.phase id = some (.received d))
    (hawaited : s.isAwaited T d = true) (hid : T.id d.pdu = id) :
    Effect T s (.dispatch id true) ((s.store id d.pdu).handOver.goTo id (.returned true)) := by
  refine .stored (.returned true) hphase hawaited ?_ ?_ (fun _ h => by cases h) (fun _ => hid)
    rfl ?_
  · rw [hid]
    simp [Socket.goTo, Socket.handOver]
  · rw [hid]
    simp [Socket.goTo, Socket.handOver, store]
  · rw [stored_dispatch hphase, if_pos hawaited]

/-- The reader stores the response of another call and goes on to a quiet phase. -/
theorem effect_stored {d : Datagram P A} (hphase : s.phase id = some (.received d))
    (hawaited : s.isAwaited T d = true) (hquiet : ph.Quiet)
    (hcalls : s'.calls = ((s.store (T.id d.pdu) d.pdu).goTo id ph).calls)
    (hpending : s'.pendingRequests = Function.update s.pendingRequests (T.id d.pdu) none) :
    Effect T s (.dispatch id true) s' :=
  .stored ph hphase hawaited hcalls hpending (fun _ => hquiet.ne_received)
    (fun h => absurd h hquiet.ne_returned) rfl (by rw [stored_dispatch hphase, if_pos hawaited])

/-- Every step has one of these effects. -/
theorem effect_of_step {a : Action P A} (hstep : s.step T a = some s') : Effect T s a s' := by
  cases branch_of_step hstep with
  | refused hid => exact .entered hid rfl (Or.inl ⟨rfl, rfl⟩)
  | began hid => exact .entered hid rfl (Or.inr ⟨⟨_, rfl⟩, rfl⟩)
  | joined hid => exact .entered hid rfl (Or.inr ⟨⟨_, rfl⟩, rfl⟩)
  | @wrote id written role hphase =>
    refine .passed ?_ (role_isSome_of_phase hphase rfl) rfl (Or.inl rfl) rfl
    cases written with
    | true => exact Phase.quiet_loop
    | false => trivial
  | read hphase => exact effect_read hphase
  | @dropped id locked d hphase hnot =>
    refine .passed (by trivial) (role_isSome_of_phase hphase rfl) rfl (Or.inl rfl) ?_
    cases locked with
    | true => rw [stored_dispatch hphase, hnot rfl, if_neg Bool.false_ne_true]
    | false => rfl
  | kept hphase hawaited hid => exact effect_kept hphase hawaited hid
  | @delivered id d hphase hawaited hid =>
    have hquiet : Phase.Quiet (.testing .reader : Phase P A) := trivial
    refine effect_stored hphase hawaited hquiet ?_ ?_
    · simp [Socket.goTo]
    · simp [Socket.goTo, store]
  | @stranded id d hphase hawaited =>
    have hquiet : Phase.Quiet (.leaving .reader : Phase P A) := trivial
    exact effect_stored hphase hawaited hquiet rfl rfl
  | woke hphase => exact .passed (by trivial) (role_isSome_of_phase hphase rfl) rfl (Or.inl rfl) rfl
  | timedOut hphase =>
    exact .passed (by trivial) (role_isSome_of_phase hphase rfl) rfl (Or.inl rfl) rfl
  | answered hphase hclear =>
    refine .moved (.returned true) (role_isSome_of_phase hphase rfl) ?_ (Or.inl ?_)
      (fun _ h => by cases h) (fun _ => hclear) rfl
    · simp [Socket.goTo]
    · simp [Socket.goTo]
  | promoted hphase =>
    have hquiet : Phase.Quiet (.testing .reader : Phase P A) := trivial
    rw [dropSyncPoint_isReading]
    refine .passed hquiet (role_isSome_of_phase hphase rfl) ?_ (Or.inl ?_) rfl
    · simp [Socket.goTo]
    · simp [Socket.goTo]
  | disturbed hphase =>
    exact .passed (by trivial) (role_isSome_of_phase hphase rfl) rfl (Or.inl rfl) rfl
  | @tested id passed role hphase =>
    refine .passed ?_ (role_isSome_of_phase hphase rfl) rfl (Or.inl rfl) rfl
    cases passed with
    | true => trivial
    | false => exact Phase.quiet_loop
  | cleaned hphase =>
    exact .passed (by trivial) (role_isSome_of_phase hphase rfl) cleanUp_calls
      (Or.inr ⟨rfl, cleanUp_pendingRequests⟩) rfl
  | refreshed => exact .refreshed

/-- The responses that the steps store, and for whom. -/
def deliveries (T : PduType P) : Socket P A → List (Action P A) → List (Id × P)
  | _, [] => []
  | s, a :: as => (s.stored T a).toList ++ (s.step T a).elim [] fun s' => deliveries T s' as

/-- The deliveries of one step more. -/
theorem deliveries_concat {as : List (Action P A)} {a : Action P A}
    (run : Run (step T) s as s') :
    deliveries T s (as ++ [a]) = deliveries T s as ++ (s'.stored T a).toList := by
  have heval := runLabels_of_run run
  clear run
  induction as generalizing s with
  | nil =>
    cases heval
    rw [List.nil_append, deliveries, deliveries, List.nil_append]
    cases s'.step T a <;> exact List.append_nil _
  | cons b as ih =>
    obtain ⟨u, hu, hrest⟩ := Option.bind_eq_some_iff.mp heval
    rw [List.cons_append, deliveries, deliveries, hu, Option.elim_some, Option.elim_some, ih hrest,
      List.append_assoc]

/-- The call with an awaited response is in progress. -/
theorem Coherent.role_of_isAwaited (hs : s.Coherent) {d : Datagram P A}
    (hawaited : s.isAwaited T d = true) : (s.role (T.id d.pdu)).isSome := by
  rw [Option.isSome_iff_ne_none]
  intro hnone
  rw [isAwaited, decide_eq_true_eq, hs.pending _ hnone] at hawaited
  cases hawaited

/-- The response is there when it was stored. -/
theorem Coherent.response_stored (hs : s.Coherent) {d : Datagram P A}
    (hawaited : s.isAwaited T d = true)
    (hcalls : s'.calls = ((s.store (T.id d.pdu) d.pdu).goTo id ph).calls) :
    s'.response (T.id d.pdu) = some d.pdu := by
  rw [Socket.response, hcalls]
  exact response_goTo.trans (response_store (hs.role_of_isAwaited hawaited))

omit [DecidableEq A] in
/-- The other calls have the responses that they had. -/
theorem response_stored_of_ne {n : Id}
    (hcalls : s'.calls = ((s.store n pdu).goTo id ph).calls) (h : j ≠ n) :
    s'.response j = s.response j := by
  rw [Socket.response, hcalls]
  exact response_goTo.trans (response_store_of_ne h)

/-- What a call that has its response, or is to find it, was given. -/
structure Serves (s : Socket P A) : Prop where
  server : ∀ j sv, s.pendingRequests j = some sv → s.server j = some sv
  settled : ∀ j, (s.role j).isSome → s.pendingRequests j = none → (s.response j).isSome
  returned : ∀ j, s.result j = some true → (s.response j).isSome

omit [DecidableEq A] in
/-- A call has returned true in one phase only. -/
theorem phase_of_result (h : s.result j = some true) : s.phase j = some (.returned true) := by
  obtain ⟨ph, hphase, hresult⟩ := Option.bind_eq_some_iff.mp h
  cases ph with
  | returned result =>
    cases hresult
    exact hphase
  | writing | reading | received | waiting | woken | testing | leaving => cases hresult

/-- The same of one call. -/
structure ServesAt (s : Socket P A) (j : Id) : Prop where
  server : ∀ sv, s.pendingRequests j = some sv → s.server j = some sv
  settled : (s.role j).isSome → s.pendingRequests j = none → (s.response j).isSome
  returned : s.result j = some true → (s.response j).isSome

omit [DecidableEq A] in
/-- The statement about all calls is that about each. -/
theorem serves_iff : s.Serves ↔ ∀ j, s.ServesAt j :=
  ⟨fun h j => ⟨h.server j, h.settled j, h.returned j⟩,
    fun h => ⟨fun j => (h j).server, fun j => (h j).settled, fun j => (h j).returned⟩⟩

omit [DecidableEq A] in
/-- A step that leaves a call and its entry alone. -/
theorem ServesAt.congr (h : s.ServesAt j) (hcalls : s'.calls j = s.calls j)
    (hpending : s'.pendingRequests j = s.pendingRequests j) : s'.ServesAt j where
  server sv hsv := by
    rw [Socket.server, hcalls]
    exact h.server sv (hpending ▸ hsv)
  settled hrole hnone := by
    simp only [role, phase, response, hcalls] at hrole ⊢
    exact h.settled hrole (hpending ▸ hnone)
  returned hresult := by
    simp only [result, phase, response, hcalls] at hresult ⊢
    exact h.returned hresult

omit [DecidableEq A] in
/-- A call that goes on, and returns true only if its entry is cleared. -/
theorem ServesAt.moved (h : s.ServesAt j) (hid : (s.role j).isSome)
    (hserver : s'.server j = s.server j) (hresponse : s'.response j = s.response j)
    (hpending : s'.pendingRequests j = s.pendingRequests j)
    (hreturned : s'.result j = some true → s.pendingRequests j = none) : s'.ServesAt j where
  server sv hsv := by
    rw [hserver]
    exact h.server sv (hpending ▸ hsv)
  settled _ hnone := by
    rw [hresponse]
    exact h.settled hid (hpending ▸ hnone)
  returned hresult := by
    rw [hresponse]
    exact h.settled hid (hreturned hresult)

omit [DecidableEq A] in
/-- A call that has its response. -/
theorem servesAt_of_response (hnone : s.pendingRequests j = none)
    (hsome : (s.response j).isSome) : s.ServesAt j where
  server sv hsv := by
    cases hnone.symm.trans hsv
  settled _ _ := hsome
  returned _ := hsome

omit [DecidableEq A] in
/-- A call that returned false. -/
theorem servesAt_of_failed (hphase : s.phase j = some (.returned false))
    (hnone : s.pendingRequests j = none) : s.ServesAt j where
  server sv hsv := by
    cases hnone.symm.trans hsv
  settled hrole _ := by
    rw [role, hphase] at hrole
    cases hrole
  returned hresult := by
    rw [result, hphase] at hresult
    cases hresult

omit [DecidableEq A] in
/-- A call that is to be sent. -/
theorem servesAt_of_writing {role : Role} {server : Server A}
    (hcall : s.calls j = some ⟨.writing role, none, server⟩)
    (hpending : s.pendingRequests j = some server) : s.ServesAt j where
  server sv hsv := by
    rw [Socket.server, hcall]
    exact hpending.symm.trans hsv
  settled _ hnone := by
    cases hpending.symm.trans hnone
  returned hresult := by
    rw [result, phase, hcall] at hresult
    cases hresult

/-- Every step keeps the entries and the responses of the calls together. -/
theorem Serves.step (h : s.Serves) (hs : s.Coherent) {a : Action P A}
    (hstep : s.step T a = some s') : s'.Serves := by
  have h := serves_iff.mp h
  refine serves_iff.mpr fun j => ?_
  cases effect_of_step hstep with
  | refreshed => exact (h j).congr rfl rfl
  | @entered request server locked ph _ hid hcalls hpending =>
    by_cases hne : j = T.id request
    · have hself : s'.calls j = some ⟨ph, none, server⟩ := by
        rw [hcalls, hne, Function.update_self]
      rcases hpending with ⟨rfl, hsame⟩ | ⟨⟨role, rfl⟩, hset⟩
      · refine servesAt_of_failed (by rw [phase, hself]; rfl) ?_
        rw [hsame, hne, hs.pending _ hid]
      · exact servesAt_of_writing hself (by rw [hset, hne, Function.update_self])
    · refine (h j).congr (by rw [hcalls, Function.update_of_ne hne]) ?_
      rcases hpending with ⟨-, hsame⟩ | ⟨-, hset⟩
      · rw [hsame]
      · rw [hset, Function.update_of_ne hne]
  | @moved _ id _ ph hid hcalls hpending hreceived hreturned hstored =>
    have hmoves := Moves.of_calls hid hcalls
    by_cases hne : j = id
    · subst hne
      rcases hpending with hsame | ⟨rfl, hset⟩
      · refine (h j).moved hid (hmoves.server j) ?_ (congrFun hsame j) fun hresult => ?_
        · rw [Socket.response, hcalls]
          exact response_goTo
        · cases hmoves.phase.symm.trans (phase_of_result hresult)
          exact hreturned rfl
      · exact servesAt_of_failed hmoves.phase (by rw [hset, Function.update_self])
    · refine (h j).congr (by rw [hcalls]; exact Function.update_of_ne hne ..) ?_
      rcases hpending with hsame | ⟨-, hset⟩
      · rw [hsame]
      · rw [hset, Function.update_of_ne hne]
  | @stored _ id d _ ph hphase hawaited hcalls hpending hreceived hreturned hread hstored =>
    have hid : (s.role id).isSome := by
      rw [role_of_phase hphase]
      rfl
    have hmoves := Moves.of_store hid hcalls
    by_cases hne : j = T.id d.pdu
    · subst hne
      refine servesAt_of_response (by rw [hpending, Function.update_self]) ?_
      rw [hs.response_stored hawaited hcalls]
      rfl
    have hpending : s'.pendingRequests j = s.pendingRequests j := by
      rw [hpending, Function.update_of_ne hne]
    by_cases hjid : j = id
    · subst hjid
      refine (h j).moved hid (hmoves.server j) (response_stored_of_ne hcalls hne) hpending
        fun hresult => ?_
      cases hmoves.phase.symm.trans (phase_of_result hresult)
      exact absurd (hreturned rfl).symm hne
    · refine (h j).congr ?_ hpending
      rw [hcalls]
      exact (Function.update_of_ne hjid ..).trans (store_calls_of_ne hne)

/-- What was read is handed to the calls at most once: what the reader has in hand has not been
delivered yet, and what a call was given was read and delivered to it. -/
structure Ledger (T : PduType P) (start : Socket P A) (as : List (Action P A))
    (s : Socket P A) : Prop where
  received : ∀ j d, s.phase j = some (.received d) → d ∈ reads as ∧ d.Acceptable T ∧
    (deliveries T start as).map Prod.snd ++ [d.pdu] <+~ (reads as).map Datagram.pdu
  given : ∀ j pdu, s.response j = some pdu → (j, pdu) ∈ deliveries T start as ∧
    ∃ d ∈ reads as, ∃ sv, d.Answers T j sv ∧ s.server j = some sv ∧ d.pdu = pdu
  once : (deliveries T start as).map Prod.snd <+~ (reads as).map Datagram.pdu

section

variable {start : Socket P A} {as : List (Action P A)} {a : Action P A}

/-- What a call was given stays given. -/
theorem Ledger.given_concat (h : Ledger T start as s) (run : Run (Socket.step T) start as s)
    (hserver : s'.server j = s.server j) (hj : s.response j = some pdu) :
    (j, pdu) ∈ deliveries T start (as ++ [a]) ∧
      ∃ d ∈ reads (as ++ [a]), ∃ sv, d.Answers T j sv ∧ s'.server j = some sv ∧ d.pdu = pdu := by
  obtain ⟨hdel, d, hd, sv, hanswers, hsv, hpdu⟩ := h.given j pdu hj
  rw [deliveries_concat run]
  exact ⟨List.mem_append_left _ hdel, d, mem_reads_concat hd, sv, hanswers, hserver.trans hsv,
    hpdu⟩

/-- A step that stores nothing. What a call has in hand after it, it had in hand before or has just
read. -/
theorem Ledger.unstored (h : Ledger T start as s) (run : Run (Socket.step T) start as s)
    (hstored : s.stored T a = none)
    (hreceived : ∀ j d, s'.phase j = some (.received d) →
      s.phase j = some (.received d) ∨ a.datagram = some d ∧ d.Acceptable T)
    (hgiven : ∀ j pdu, s'.response j = some pdu →
      s.response j = some pdu ∧ s'.server j = s.server j) :
    Ledger T start (as ++ [a]) s' := by
  have hkeep : deliveries T start (as ++ [a]) = deliveries T start as := by
    rw [deliveries_concat run, hstored, Option.toList_none, List.append_nil]
  refine ⟨fun j d hj => ?_, fun j pdu hj => ?_, hkeep ▸ h.once.trans reads_subperm_concat⟩
  · rw [hkeep]
    rcases hreceived j d hj with hold | ⟨hread, hgood⟩
    · obtain ⟨hd, hgood, hsub⟩ := h.received j d hold
      exact ⟨mem_reads_concat hd, hgood, hsub.trans reads_subperm_concat⟩
    · rw [reads_concat, hread, List.map_append]
      exact ⟨List.mem_append_right _ (List.mem_singleton_self d), hgood,
        h.once.append (List.Subperm.refl _)⟩
  · obtain ⟨hold, hserver⟩ := hgiven j pdu hj
    exact h.given_concat run hserver hold

/-- A call is made. -/
theorem Ledger.entered {request : P} {server : Server A} {locked : Bool}
    (h : Ledger T start as s) (run : Run (Socket.step T) start as s)
    (hcalls : s'.calls = Function.update s.calls (T.id request) (some ⟨ph, none, server⟩))
    (hph : ph = .returned false ∨ ∃ role, ph = .writing role) :
    Ledger T start (as ++ [.call request server locked]) s' := by
  have hself : s'.calls (T.id request) = some ⟨ph, none, server⟩ := by
    rw [hcalls, Function.update_self]
  have hother {j : Id} (hj : j ≠ T.id request) : s'.calls j = s.calls j := by
    rw [hcalls, Function.update_of_ne hj]
  refine h.unstored run rfl (fun j d hj => ?_) (fun j pdu hj => ?_)
  · by_cases hne : j = T.id request
    · rw [hne, phase, hself] at hj
      rcases hph with rfl | ⟨role, rfl⟩
      · cases hj
      · cases hj
    · rw [phase, hother hne] at hj
      exact Or.inl hj
  · by_cases hne : j = T.id request
    · rw [hne, response, hself] at hj
      cases hj
    · rw [response, hother hne] at hj
      exact ⟨hj, by rw [Socket.server, hother hne, Socket.server]⟩

/-- A call goes on. -/
theorem Ledger.moved (h : Ledger T start as s) (run : Run (Socket.step T) start as s)
    (hid : (s.role id).isSome) (hcalls : s'.calls = (s.goTo id ph).calls)
    (hphase : ∀ d, ph = .received d → a.datagram = some d ∧ d.Acceptable T)
    (hstored : s.stored T a = none) : Ledger T start (as ++ [a]) s' := by
  have hmoves := Moves.of_calls hid hcalls
  refine h.unstored run hstored (fun j d hj => ?_) (fun j pdu hj => ?_)
  · by_cases hne : j = id
    · subst hne
      exact Or.inr (hphase d (Option.some.inj (hmoves.phase.symm.trans hj)))
    · exact Or.inl ((hmoves.others j hne).symm.trans hj)
  · rw [Socket.response, hcalls] at hj
    exact ⟨response_goTo.symm.trans hj, hmoves.server j⟩

/-- The reader stores the response it has in hand, and has nothing in hand then. -/
theorem Ledger.stored {d : Datagram P A} (h : Ledger T start as s)
    (run : Run (Socket.step T) start as s) (hs : s.Coherent) (hserves : s.Serves)
    (hphase : s.phase id = some (.received d)) (hawaited : s.isAwaited T d = true)
    (hcalls : s'.calls = ((s.store (T.id d.pdu) d.pdu).goTo id ph).calls)
    (hnot : ∀ d', ph ≠ .received d') (hstored : s.stored T a = some (T.id d.pdu, d.pdu)) :
    Ledger T start (as ++ [a]) s' := by
  have hreader : s.role id = some .reader := role_of_phase hphase
  have hmoves := Moves.of_store (role_isSome_of_phase hphase rfl) hcalls
  obtain ⟨hd, hgood, hsub⟩ := h.received id d hphase
  have hdel : deliveries T start (as ++ [a]) =
      deliveries T start as ++ [(T.id d.pdu, d.pdu)] := by
    rw [deliveries_concat run, hstored, Option.toList_some]
  refine ⟨fun j d' hj => ?_, fun j pdu hj => ?_, ?_⟩
  · -- Only the reader has received anything, and it has moved on.
    by_cases hne : j = id
    · rw [hne, hmoves.phase] at hj
      exact absurd (Option.some.inj hj) (hnot d')
    · rw [hmoves.others j hne] at hj
      exact absurd (hs.unique j id (role_of_phase hj) hreader) hne
  · by_cases hne : j = T.id d.pdu
    · subst hne
      rw [hs.response_stored hawaited hcalls, Option.some.injEq] at hj
      subst hj
      rw [isAwaited, decide_eq_true_eq] at hawaited
      refine ⟨hdel ▸ List.mem_append_right _ (List.mem_singleton_self _), d, mem_reads_concat hd,
        d.source, ⟨hgood, rfl, rfl⟩, ?_, rfl⟩
      rw [hmoves.server]
      exact hserves.server _ _ hawaited
    · rw [response_stored_of_ne hcalls hne] at hj
      exact h.given_concat run (hmoves.server j) hj
  · rw [hdel, List.map_append]
    exact hsub.trans reads_subperm_concat

/-- Every step keeps the ledger. -/
theorem Ledger.step (h : Ledger T start as s) (run : Run (Socket.step T) start as s)
    (hs : s.Coherent) (hserves : s.Serves) (hstep : s.step T a = some s') :
    Ledger T start (as ++ [a]) s' := by
  cases effect_of_step hstep with
  | refreshed => exact h.unstored run rfl (fun _ _ => Or.inl) fun _ _ hj => ⟨hj, rfl⟩
  | entered hid hcalls hpending =>
    exact h.entered run hcalls (hpending.imp (fun hfailed => hfailed.1) fun hset => hset.1)
  | moved ph hid hcalls hpending hphase hreturned hstored =>
    refine h.moved run hid hcalls (fun d hd => ?_) hstored
    obtain ⟨-, rfl, hgood⟩ := hphase d hd
    exact ⟨rfl, hgood⟩
  | stored ph hphase hawaited hcalls hpending hnot hreturned hread hstored =>
    exact h.stored run hs hserves hphase hawaited hcalls hnot hstored

end

/-- The dispatcher invariant, of a state that is reached from a new socket. -/
structure Dispatches (T : PduType P) (start : Socket P A) (as : List (Action P A))
    (s : Socket P A) : Prop where
  /-- At most one call reads. -/
  reader : ∀ j k, s.role j = some .reader → s.role k = some .reader → j = k
  reading : s.isReading = true ↔ ∃ j, s.role j = some .reader
  /-- The sync points in use are those that calls own, each its own. -/
  distinct : ∀ j k i, s.readSyncPointIndices j = some i → s.readSyncPointIndices k = some i → j = k
  marked : ∀ i, s.syncPointMap i = true ↔ ∃ j, s.readSyncPointIndices j = some i
  event : ∀ j i, s.readSyncPointIndices j = some i → (s.readSyncPoints i).isSome
  count : s.nestedCount = s.owners.card
  /-- An entry belongs to a call in progress that reads or owns a sync point. -/
  pending : ∀ j, (s.pendingRequests j).isSome → s.role j = some .reader ∨
    ∃ i, s.role j = some (.waiter i) ∧ s.readSyncPointIndices j = some i
  /-- A call that returned true was given what a datagram from its server answered. -/
  answered : ∀ j c, s.calls j = some c → c.phase = .returned true →
    ∃ d ∈ reads as, d.Answers T j c.server ∧ c.pdu = some d.pdu
  /-- No two calls are given what was read once. -/
  apart : ∀ j k pdu, j ≠ k → s.response j = some pdu → s.response k = some pdu →
    [pdu, pdu] <+~ (reads as).map Datagram.pdu
  once : (deliveries T start as).map Prod.snd <+~ (reads as).map Datagram.pdu
  /-- When all calls have returned, nothing is left set. -/
  idle : (∀ j, s.role j = none) → s.isReading = false ∧ s.nestedCount = 0 ∧
    (∀ j, s.pendingRequests j = none ∧ s.readSyncPointIndices j = none) ∧
    ∀ i, s.syncPointMap i = false

/-- The ledger of every run. -/
theorem ledger_of_run {oldestId : Id} {as : List (Action P A)}
    (run : Run (Socket.step T) (new oldestId) as s) :
    s.Coherent ∧ s.Accounted ∧ s.Serves ∧ Ledger T (new oldestId) as s := by
  refine run.trace_invariant (I := fun as s => s.Coherent ∧ s.Accounted ∧ s.Serves ∧
    Ledger T (new oldestId) as s) ⟨.new oldestId, .new oldestId, ?_, ?_⟩ ?_
  · exact ⟨fun _ _ h => (by cases h), fun _ h => (by cases h), fun _ h => by cases h⟩
  · exact ⟨fun _ _ h => (by cases h), fun _ _ h => (by cases h), List.Subperm.refl _⟩
  · rintro bs t a u first ⟨hs, haccounted, hserves, hledger⟩ - hstep
    exact ⟨hs.step hstep, haccounted.step hs hstep, hserves.step hs hstep,
      hledger.step first hs hserves hstep⟩

/-- Over every interleaving of calls the dispatcher keeps its invariant. -/
theorem dispatches {oldestId : Id} {as : List (Action P A)}
    (run : Run (Socket.step T) (new oldestId) as s) : Dispatches T (new oldestId) as s := by
  obtain ⟨hs, haccounted, hserves, hledger⟩ := ledger_of_run run
  have hindex {j : Id} (hj : s.role j = none) : s.readSyncPointIndices j = none := by
    rw [hs.index, hj]
    rfl
  refine ⟨hs.unique, hs.reading, hs.distinct, fun i => ⟨haccounted.owned i, ?_⟩,
    fun j i hi => (hs.event j i hi).2, haccounted.count, fun j hj => ?_, fun j c hc hret => ?_,
    fun j k pdu hjk hj hk => ?_, hledger.once, fun hidle => ⟨?_, ?_, ?_, fun i => ?_⟩⟩
  · rintro ⟨j, hj⟩
    exact (hs.event j i hj).1
  · cases hrole : s.role j with
    | none =>
      rw [hs.pending j hrole] at hj
      cases hj
    | some role =>
      cases role with
      | reader => exact Or.inl rfl
      | waiter i => exact Or.inr ⟨i, rfl, hs.index_waiter hrole⟩
  · have hsome : (s.response j).isSome := hserves.returned j (by simp [result, phase, hc, hret,
      Phase.result])
    obtain ⟨pdu, hpdu⟩ := Option.isSome_iff_exists.mp hsome
    obtain ⟨-, d, hd, sv, hanswers, hsv, rfl⟩ := hledger.given j pdu hpdu
    rw [Socket.server, hc] at hsv
    rw [response, hc] at hpdu
    exact ⟨d, hd, Option.some.inj hsv ▸ hanswers, hpdu⟩
  · have hboth : [(j, pdu), (k, pdu)] ⊆ deliveries T (new oldestId) as := by
      simp [(hledger.given j pdu hj).1, (hledger.given k pdu hk).1]
    have hnodup : [(j, pdu), (k, pdu)].Nodup := by simpa using hjk
    obtain ⟨l, hperm, hsub⟩ := hnodup.subperm hboth
    have htwo : [pdu, pdu] <+~ (deliveries T (new oldestId) as).map Prod.snd :=
      ⟨l.map Prod.snd, hperm.map Prod.snd, hsub.map Prod.snd⟩
    exact htwo.trans hledger.once
  · rw [← Bool.not_eq_true, hs.reading]
    rintro ⟨j, hj⟩
    cases (hidle j).symm.trans hj
  · rw [haccounted.count, Finset.card_eq_zero, Finset.eq_empty_iff_forall_notMem]
    intro j hj
    rw [mem_owners, hindex (hidle j)] at hj
    cases hj
  · exact fun j => ⟨hs.pending j (hidle j), hindex (hidle j)⟩
  · rw [← Bool.not_eq_true]
    intro hi
    obtain ⟨j, hj⟩ := haccounted.owned i hi
    cases (hindex (hidle j)).symm.trans hj

/-- Of two calls the reader hands the other its response, and both return. -/
theorem dispatches_two : ∃ s : Socket Id ℕ,
    s.result 0 = some true ∧ s.result 1 = some true ∧
    Dispatches plainPdu (new 0) (beginAll [0, 1] ++ readAndDeliver 0 1 ++ [.wake 1, .check 1,
      .deadline 0 false] ++ readAndDeliver 0 0) s := by
  have heval : (runLabels (Socket.step plainPdu) (new 0) (beginAll [0, 1] ++ readAndDeliver 0 1 ++
      [.wake 1, .check 1, .deadline 0 false] ++ readAndDeliver 0 0)).map
        (fun s => (s.result 0, s.result 1)) = some (some true, some true) := by
    decide +kernel
  obtain ⟨s, hs, hresults⟩ := Option.map_eq_some_iff.mp heval
  rw [Prod.mk.injEq] at hresults
  exact ⟨s, hresults.1, hresults.2, dispatches (run_of_runLabels hs)⟩

end Socket

end Dot1x.Radius
