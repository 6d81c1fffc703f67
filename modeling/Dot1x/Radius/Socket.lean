import Dot1x.Base.Transition
import Mathlib.Logic.Function.Basic
import Mathlib.Algebra.GroupWithZero.Nat

/-!
# Concurrent requests on one RADIUS socket

Any number of threads call `MakeRequest` on a socket. One of them, the reader, reads the responses
of all; the others wait on sync points of their own until their response is there or they are to
become the reader. A step is a critical section under the read mutex, a write, a read, or the end of
a wait or of a test of the deadline, so a run is an interleaving of calls.

A call is known by the identifier of its request. Two calls that are in progress at the same time
have different identifiers. Where `MakeRequest` stands in a call says whether the call is the reader
or which sync point is its own, so neither of the local variables `shouldRead` and `syncPoint` is
kept apart from it.

A sync point is an event that one signal sets and one wait resets. The first of them are permanent:
they keep a signal that nobody waited for. The others are deleted when they are freed.
-/

namespace Dot1x.Radius

open Dot1x.Base

/-- Identifiers and indices are counted modulo 256. -/
instance instNeZeroByte : NeZero 256 := ⟨by decide⟩

/-- The identifier of a request. -/
abbrev Id := Fin 256

/-- An index of a sync point. -/
abbrev Index := Fin 256

/-- Sync points that are never deleted. -/
def permanentSyncPoints : ℕ := 8

/-- The shortest PDU. -/
def minPduLength : ℕ := 20

/-- What the socket asks of a PDU. -/
structure PduType (P : Type) where
  isValid : P → Bool
  id : P → Id

/-- The server a request is for. -/
structure Server (A : Type) where
  addr : A
  port : ℕ
  deriving DecidableEq

/-- A datagram from the socket. -/
structure Datagram (P A : Type) where
  pdu : P
  bytesRead : ℕ
  source : Server A

/-- What a call in progress is to the others. -/
inductive Role
  | reader
  | waiter (index : Index)
  deriving DecidableEq

/-- Where `MakeRequest` stands in a call. -/
inductive Phase (P A : Type)
  /-- It is about to write the request. -/
  | writing (role : Role)
  /-- It reads from the socket. -/
  | reading
  /-- It read a valid PDU and is about to lock the mutex. -/
  | received (d : Datagram P A)
  /-- It waits on its sync point. -/
  | waiting (index : Index)
  /-- Its wait was satisfied and it is about to lock the mutex. -/
  | woken (index : Index)
  /-- It is about to test the deadline. -/
  | testing (role : Role)
  /-- It is past the loop. -/
  | leaving (role : Role)
  | returned (result : Bool)

/-- What a call returned. -/
def Phase.result {P A : Type} : Phase P A → Option Bool
  | .returned result => some result
  | _ => none

/-- The role of a call in progress. -/
def Phase.role {P A : Type} : Phase P A → Option Role
  | .writing role => some role
  | .reading => some .reader
  | .received _ => some .reader
  | .waiting index => some (.waiter index)
  | .woken index => some (.waiter index)
  | .testing role => some role
  | .leaving role => some role
  | .returned _ => none

/-- The top of the loop. -/
def Role.loop {P A : Type} : Role → Phase P A
  | .reader => .reading
  | .waiter index => .waiting index

/-- A call keeps its role when it enters the loop. -/
@[simp] theorem Role.role_loop {P A : Type} (role : Role) :
    (role.loop : Phase P A).role = some role := by
  cases role <;> rfl

/-- A call: where it stands, the variable its caller passed for the response, and the server. -/
structure Call (P A : Type) where
  phase : Phase P A
  pdu : Option P
  server : Server A

/-- The data members of a socket, and the calls. The entry of a pending request refers to the
variable of the call with the same identifier. -/
structure Socket (P A : Type) where
  calls : Id → Option (Call P A)
  pendingRequests : Id → Option (Server A)
  readSyncPointIndices : Id → Option Index
  readSyncPoints : Index → Option Bool
  syncPointMap : Index → Bool
  isReading : Bool
  nestedCount : ℕ
  oldestId : Id

/-- What happens next. -/
inductive Action (P A : Type)
  /-- `MakeRequest` is called; the wait for the mutex may time out. -/
  | call (request : P) (server : Server A) (locked : Bool)
  | write (id : Id) (written : Bool)
  /-- A read ends, with an error or with a datagram. -/
  | read (id : Id) (datagram : Option (Datagram P A))
  | dispatch (id : Id) (locked : Bool)
  | wake (id : Id)
  | timeOut (id : Id)
  | check (id : Id)
  | deadline (id : Id) (passed : Bool)
  | cleanUp (id : Id)
  /-- The cache of identifiers is refreshed. -/
  | refresh (oldestId : Id)

namespace Socket

variable {P A : Type}

/-- The constructor. -/
def new (oldestId : Id) : Socket P A where
  calls _ := none
  pendingRequests _ := none
  readSyncPointIndices _ := none
  readSyncPoints i := if i < permanentSyncPoints then some false else none
  syncPointMap _ := false
  isReading := false
  nestedCount := 0
  oldestId := oldestId

/-- The phase of the call with an identifier. -/
def phase (s : Socket P A) (id : Id) : Option (Phase P A) := (s.calls id).map Call.phase

/-- The role of the call with an identifier, if it is in progress. -/
def role (s : Socket P A) (id : Id) : Option Role := (s.phase id).bind Phase.role

/-- What the call with an identifier returned. -/
def result (s : Socket P A) (id : Id) : Option Bool := (s.phase id).bind Phase.result

/-- The variable that the caller with an identifier passed. -/
def response (s : Socket P A) (id : Id) : Option P := (s.calls id).bind Call.pdu

/-- A call goes on. -/
def goTo (s : Socket P A) (id : Id) (phase : Phase P A) : Socket P A :=
  { s with calls := Function.update s.calls id ((s.calls id).map fun c => { c with phase := phase }) }

/-- A new call stands somewhere. -/
def enter (s : Socket P A) (id : Id) (phase : Phase P A) (server : Server A) : Socket P A :=
  { s with calls := Function.update s.calls id (some ⟨phase, none, server⟩) }

/-- Set the event of a sync point, if there is one. -/
def signal (s : Socket P A) (i : Index) : Socket P A :=
  { s with
    readSyncPoints := Function.update s.readSyncPoints i ((s.readSyncPoints i).map fun _ => true) }

/-- A satisfied wait resets the event. -/
def reset (s : Socket P A) (i : Index) : Socket P A :=
  { s with readSyncPoints := Function.update s.readSyncPoints i (some false) }

/-- `AllocReadSyncPoint` takes the first free index. `new` returns no null pointer. -/
def allocReadSyncPoint (s : Socket P A) : Option (Index × Socket P A) :=
  ((List.finRange 256).find? fun i => !s.syncPointMap i).map fun i =>
    (i, { s with
      syncPointMap := Function.update s.syncPointMap i true
      readSyncPoints := Function.update s.readSyncPoints i
        (some ((s.readSyncPoints i).getD false)) })

/-- `FreeReadSyncPoint` -/
def freeReadSyncPoint (s : Socket P A) : Option Index → Socket P A
  | none => s
  | some i => { s with
      syncPointMap := Function.update s.syncPointMap i false
      readSyncPoints :=
        if permanentSyncPoints ≤ i then Function.update s.readSyncPoints i none
        else s.readSyncPoints }

/-- Give up the sync point of a call. -/
def dropSyncPoint (s : Socket P A) (id : Id) : Socket P A :=
  let s := s.freeReadSyncPoint (s.readSyncPointIndices id)
  { s with
    readSyncPointIndices := Function.update s.readSyncPointIndices id none
    nestedCount := s.nestedCount - 1 }

/-- The first identifier in ring order that owns a sync point. -/
def firstOwner (s : Socket P A) : Option Id :=
  ((List.finRange 256).map (s.oldestId + ·)).find? fun j =>
    ((s.readSyncPointIndices j).bind s.readSyncPoints).isSome

/-- The call that the reader wakes when it leaves. -/
def heir (s : Socket P A) : Option Id := if s.nestedCount ≠ 0 then s.firstOwner else none

/-- Signal a call, if there is one and it owns a sync point. -/
def signalCall (s : Socket P A) (id : Option Id) : Socket P A :=
  match id.bind s.readSyncPointIndices with
  | none => s
  | some i => s.signal i

/-- The reader gives up its role. -/
def handOver (s : Socket P A) : Socket P A :=
  let s := { s with isReading := false }
  s.signalCall s.heir

/-- Store a response for a call and clear the entry of its request. -/
def store (s : Socket P A) (id : Id) (pdu : P) : Socket P A :=
  { s with
    calls := Function.update s.calls id ((s.calls id).map fun c => { c with pdu := some pdu })
    pendingRequests := Function.update s.pendingRequests id none }

variable [DecidableEq A] (T : PduType P)

/-- A datagram is the response to a pending request. -/
def isAwaited (s : Socket P A) (d : Datagram P A) : Bool :=
  s.pendingRequests (T.id d.pdu) = some d.source

/-- The first critical section. Only concurrent calls with different identifiers are considered. -/
def call (s : Socket P A) (request : P) (server : Server A) (locked : Bool) : Option (Socket P A) :=
  let id := T.id request
  if (s.role id).isSome then none
  else if !T.isValid request || !locked || (s.pendingRequests id).isSome then
    some (s.enter id (.returned false) server)
  else
    let register (s : Socket P A) (role : Role) : Socket P A :=
      { s with pendingRequests := Function.update s.pendingRequests id (some server) }.enter id
        (.writing role) server
    if !s.isReading then some (register { s with isReading := true } .reader)
    else match s.allocReadSyncPoint with
      | none => some (s.enter id (.returned false) server)
      | some (i, s) => some (register { s with
          readSyncPointIndices := Function.update s.readSyncPointIndices id (some i)
          nestedCount := s.nestedCount + 1 } (.waiter i))

/-- What follows a read. -/
def afterRead : Option (Datagram P A) → Phase P A
  | none => .leaving .reader
  | some d =>
    if d.bytesRead < minPduLength || !T.isValid d.pdu then .testing .reader else .received d

/-- The critical section of the reader: deliver a response. -/
def dispatch (s : Socket P A) (id : Id) (d : Datagram P A) : Socket P A :=
  if s.isAwaited T d then
    let n := T.id d.pdu
    let s := s.store n d.pdu
    if n = id then s.handOver.goTo id (.returned true)
    else if ((s.readSyncPointIndices n).bind s.readSyncPoints).isSome then
      (s.signalCall (some n)).goTo id (.testing .reader)
    else s.goTo id (.leaving .reader)
  else s.goTo id (.testing .reader)

/-- The critical section of a call that was woken. -/
def check (s : Socket P A) (id : Id) (i : Index) : Socket P A :=
  if (s.pendingRequests id).isNone then (s.dropSyncPoint id).goTo id (.returned true)
  else if !s.isReading then
    ({ s with isReading := true }.dropSyncPoint id).goTo id (.testing .reader)
  else s.goTo id (.testing (.waiter i))

/-- The last critical section. -/
def cleanUp (s : Socket P A) (id : Id) (role : Role) : Socket P A :=
  let s := { s with pendingRequests := Function.update s.pendingRequests id none }
  let s := if (s.readSyncPointIndices id).isSome then s.dropSyncPoint id else s
  let s := if s.isReading ∧ role = .reader then s.handOver else s
  s.goTo id (.returned false)

/-- The step function. -/
def step (s : Socket P A) : Action P A → Option (Socket P A)
  | .call request server locked => s.call T request server locked
  | .write id written =>
    match s.phase id with
    | some (.writing role) => some (s.goTo id (if written then role.loop else .leaving role))
    | _ => none
  | .read id datagram =>
    match s.phase id with
    | some .reading => some (s.goTo id (afterRead T datagram))
    | _ => none
  | .dispatch id locked =>
    match s.phase id with
    | some (.received d) =>
      some (if locked then s.dispatch T id d else s.goTo id (.testing .reader))
    | _ => none
  | .wake id =>
    match s.phase id with
    | some (.waiting i) =>
      if s.readSyncPoints i = some true then some ((s.reset i).goTo id (.woken i)) else none
    | _ => none
  | .timeOut id =>
    match s.phase id with
    | some (.waiting i) => some (s.goTo id (.leaving (.waiter i)))
    | _ => none
  | .check id =>
    match s.phase id with
    | some (.woken i) => some (s.check id i)
    | _ => none
  | .deadline id passed =>
    match s.phase id with
    | some (.testing role) => some (s.goTo id (if passed then .leaving role else role.loop))
    | _ => none
  | .cleanUp id =>
    match s.phase id with
    | some (.leaving role) => some (s.cleanUp id role)
    | _ => none
  | .refresh oldestId => some { s with oldestId := oldestId }

/-- What a step is, branch by branch. -/
inductive Branch (T : PduType P) (s : Socket P A) : Action P A → Socket P A → Prop
  | refused {request : P} {server : Server A} {locked : Bool}
      (hid : s.role (T.id request) = none) :
      Branch T s (.call request server locked) (s.enter (T.id request) (.returned false) server)
  | began {request : P} {server : Server A} (hid : s.role (T.id request) = none)
      (hfree : s.isReading = false) :
      Branch T s (.call request server true)
        ({ s with
          isReading := true
          pendingRequests := Function.update s.pendingRequests (T.id request) (some server) }.enter
            (T.id request) (.writing .reader) server)
  | joined {request : P} {server : Server A} {i : Index} (hid : s.role (T.id request) = none)
      (hbusy : s.isReading = true) (hunused : s.syncPointMap i = false) :
      Branch T s (.call request server true)
        ({ s with
          syncPointMap := Function.update s.syncPointMap i true
          readSyncPoints := Function.update s.readSyncPoints i
            (some ((s.readSyncPoints i).getD false))
          readSyncPointIndices := Function.update s.readSyncPointIndices (T.id request) (some i)
          nestedCount := s.nestedCount + 1
          pendingRequests := Function.update s.pendingRequests (T.id request) (some server) }.enter
            (T.id request) (.writing (.waiter i)) server)
  | wrote {id : Id} {written : Bool} {role : Role} (hphase : s.phase id = some (.writing role)) :
      Branch T s (.write id written) (s.goTo id (if written then role.loop else .leaving role))
  | read {id : Id} {datagram : Option (Datagram P A)} (hphase : s.phase id = some .reading) :
      Branch T s (.read id datagram) (s.goTo id (afterRead T datagram))
  | dropped {id : Id} {locked : Bool} {d : Datagram P A} (hphase : s.phase id = some (.received d))
      (hnot : locked = true → s.isAwaited T d = false) :
      Branch T s (.dispatch id locked) (s.goTo id (.testing .reader))
  | kept {id : Id} {d : Datagram P A} (hphase : s.phase id = some (.received d))
      (hawaited : s.isAwaited T d = true) (hid : T.id d.pdu = id) :
      Branch T s (.dispatch id true) ((s.store id d.pdu).handOver.goTo id (.returned true))
  | delivered {id : Id} {d : Datagram P A} (hphase : s.phase id = some (.received d))
      (hawaited : s.isAwaited T d = true) (hid : T.id d.pdu ≠ id) :
      Branch T s (.dispatch id true)
        (((s.store (T.id d.pdu) d.pdu).signalCall (some (T.id d.pdu))).goTo id (.testing .reader))
  | stranded {id : Id} {d : Datagram P A} (hphase : s.phase id = some (.received d))
      (hawaited : s.isAwaited T d = true) (hid : T.id d.pdu ≠ id)
      (hnone : (s.readSyncPointIndices (T.id d.pdu)).bind s.readSyncPoints = none) :
      Branch T s (.dispatch id true) ((s.store (T.id d.pdu) d.pdu).goTo id (.leaving .reader))
  | woke {id : Id} {i : Index} (hphase : s.phase id = some (.waiting i))
      (hset : s.readSyncPoints i = some true) :
      Branch T s (.wake id) ((s.reset i).goTo id (.woken i))
  | timedOut {id : Id} {i : Index} (hphase : s.phase id = some (.waiting i)) :
      Branch T s (.timeOut id) (s.goTo id (.leaving (.waiter i)))
  | answered {id : Id} {i : Index} (hphase : s.phase id = some (.woken i))
      (hclear : s.pendingRequests id = none) :
      Branch T s (.check id) ((s.dropSyncPoint id).goTo id (.returned true))
  | promoted {id : Id} {i : Index} (hphase : s.phase id = some (.woken i))
      (hpending : (s.pendingRequests id).isSome) (hfree : s.isReading = false) :
      Branch T s (.check id)
        (({ s with isReading := true }.dropSyncPoint id).goTo id (.testing .reader))
  | disturbed {id : Id} {i : Index} (hphase : s.phase id = some (.woken i))
      (hpending : (s.pendingRequests id).isSome) (hbusy : s.isReading = true) :
      Branch T s (.check id) (s.goTo id (.testing (.waiter i)))
  | tested {id : Id} {passed : Bool} {role : Role} (hphase : s.phase id = some (.testing role)) :
      Branch T s (.deadline id passed) (s.goTo id (if passed then .leaving role else role.loop))
  | cleaned {id : Id} {role : Role} (hphase : s.phase id = some (.leaving role)) :
      Branch T s (.cleanUp id) (s.cleanUp id role)
  | refreshed {oldestId : Id} : Branch T s (.refresh oldestId) { s with oldestId := oldestId }

variable {T} {s s' : Socket P A} {a : Action P A}

/-- The branches of `MakeRequest` up to its loop. -/
theorem branch_of_call {request : P} {server : Server A} {locked : Bool}
    (h : s.call T request server locked = some s') : Branch T s (.call request server locked) s' := by
  simp only [call] at h
  split at h
  · cases h
  · rename_i hid
    rw [Option.not_isSome_iff_eq_none] at hid
    split at h
    · cases h
      exact .refused hid
    · rename_i hopen
      have hlocked : locked = true := by
        cases locked <;> simp_all
      subst hlocked
      split at h
      · rename_i hfree
        cases h
        exact .began hid (by simpa using hfree)
      · rename_i hbusy
        cases halloc : (List.finRange 256).find? fun i => !s.syncPointMap i with
        | none =>
          simp only [allocReadSyncPoint, halloc, Option.map_none] at h
          cases h
          exact .refused hid
        | some i =>
          simp only [allocReadSyncPoint, halloc, Option.map_some] at h
          cases h
          refine .joined hid (by simpa using hbusy) ?_
          simpa using List.find?_some halloc

/-- The branches of dispatching a datagram. -/
theorem branch_of_dispatch {id : Id} {d : Datagram P A} (hphase : s.phase id = some (.received d)) :
    Branch T s (.dispatch id true) (s.dispatch T id d) := by
  simp only [dispatch]
  split
  · rename_i hawaited
    split
    · rename_i hid
      rw [hid]
      exact .kept hphase hawaited hid
    · rename_i hid
      split
      · exact .delivered hphase hawaited hid
      · rename_i hnone
        exact .stranded hphase hawaited hid (Option.not_isSome_iff_eq_none.mp hnone)
  · rename_i hnot
    exact .dropped hphase fun _ => Bool.not_eq_true _ ▸ hnot

/-- Every step is one of the branches. -/
theorem branch_of_step (h : s.step T a = some s') : Branch T s a s' := by
  cases a with
  | call request server locked => exact branch_of_call h
  | refresh oldestId =>
    cases h
    exact .refreshed
  | dispatch id locked =>
    simp only [step] at h
    split at h
    · rename_i d hphase
      cases h
      cases locked with
      | true => exact branch_of_dispatch hphase
      | false => exact .dropped hphase nofun
    · cases h
  | wake id =>
    simp only [step] at h
    split at h
    · rename_i i hphase
      split at h
      · rename_i hset
        cases h
        exact .woke hphase hset
      · cases h
    · cases h
  | check id =>
    simp only [step, check] at h
    split at h
    · rename_i i hphase
      cases h
      split
      · rename_i hclear
        exact .answered hphase (Option.isNone_iff_eq_none.mp hclear)
      · rename_i hset
        have hpending : (s.pendingRequests id).isSome := by
          simpa [Option.isSome_iff_ne_none] using hset
        split
        · rename_i hfree
          exact .promoted hphase hpending (by simpa using hfree)
        · rename_i hbusy
          exact .disturbed hphase hpending (by simpa using hbusy)
    · cases h
  | write | read | timeOut | deadline | cleanUp =>
    simp only [step] at h
    split at h
    · rename_i hphase
      cases h
      first
        | exact .wrote hphase
        | exact .read hphase
        | exact .timedOut hphase
        | exact .tested hphase
        | exact .cleaned hphase
    · cases h

/-- A PDU that is nothing but its identifier. -/
def plainPdu : PduType Id := ⟨fun _ => true, fun pdu => pdu⟩

/-- The server of all requests below. -/
def plainServer : Server ℕ := ⟨1, 1812⟩

/-- The calls with some identifiers are made and write their requests. The first is the reader. -/
def beginAll (ids : List Id) : List (Action Id ℕ) :=
  ids.map (.call · plainServer true) ++ ids.map (.write · true)

/-- The reader reads a response and delivers it. -/
def readAndDeliver (reader id : Id) : List (Action Id ℕ) :=
  [.read reader (some ⟨id, minPduLength, plainServer⟩), .dispatch reader true]

end Socket

end Dot1x.Radius
