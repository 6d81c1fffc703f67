import Dot1x.Base.Transition
import Dot1x.Eap.Handlers
import Dot1x.Link.Acceptance

/-!
# The listener of the Windows client

The DLL keeps its objects in global variables. `Login` builds them and starts a thread that
receives packets, hands them to the EAP layer, sends its answers and records how far the
authentication has come; `Logout` stops the thread wherever it is and deletes the objects.

A step is a call of `Login` or `Logout`, or what the thread does with what the driver hands over
until it waits for the driver again. An exception in the thread is caught by nobody and ends the
program, so there is no state after it.
-/

namespace Dot1x.Client

open Dot1x.Base Dot1x.Wire Dot1x.Eap Dot1x.Link

/-- `EAP_STATE`, as `GetCurConState` reports it. -/
inductive ConState
  | unconnected | connecting | reconnecting | connected
  deriving DecidableEq, Repr

/-- The events the listener reports. -/
inductive EapEvent
  | requestId | success | fail
  deriving DecidableEq, Repr

/-- What happens during a step. -/
inductive Output
  /-- `eap::process` returned. -/
  | processed (rc : Ret)
  /-- A frame was handed to the driver. -/
  | sent (data : Mem) (len : ℕ)
  /-- The event handler was called with the state as it was then. -/
  | event (id : EapEvent) (state : ConState)

/-- The global variables of the DLL. -/
structure Listener where
  io : Option Ll8023
  auth : Option (EapState Handler)
  thread : Bool
  state : ConState

/-- The arguments of `Login` and what it meets: the address of the adapter and its buffer if it
can be opened, memory, and whether the first frame can be sent and the thread be started. -/
structure LoginCall where
  adapter : Option (List UInt8 × Mem)
  user : Block
  password : Block
  heap : Heap
  sends : Bool
  starts : Bool

/-- What the driver hands over and what the thread meets when it deals with it. -/
structure Delivery where
  frame : Option Frame
  heap : Heap
  sends : Bool

/-- What can happen next. -/
inductive Action
  | login (c : LoginCall)
  | deliver (d : Delivery)
  | logout

/-- The variables as the DLL is loaded. -/
def Listener.init : Listener := ⟨none, none, false, .unconnected⟩

/-- Install the handlers in the order of `Login`. The flag tells whether memory sufficed; if not,
those installed before are there. -/
def installHandlers (c : LoginCall) : EapState Handler × Bool :=
  let e := EapState.init.addHandler .notification
  match (TypeIdentity.new c.heap c.user).result with
  | .error _ => (e, false)
  | .ok t =>
    let e := e.addHandler (.identity t)
    match (TypeMd5.new c.heap c.user c.password).result with
    | .error _ => (e, false)
    | .ok t => (e.addHandler (.md5 t), true)

/-- Write a frame of a type into the output buffer and send it. -/
def transmit (l : Ll8023) (type : ℕ) : Ll8023 := (l.makeEapol type).send

/-- The output of `transmit`. -/
def transmitted (l : Ll8023) : Output := .sent l.outData l.outLen

/-- The link when the thread calls `receive` again. -/
def waiting (l : Ll8023) : Ll8023 := { l with paeChanged := false }

namespace Listener

variable (V : Vtable Handler)

/-- `Login`. Its assertion that there are no objects yet is a condition on its caller. -/
def login (s : Listener) (c : LoginCall) : Option (Listener × List Output) :=
  if s.io.isSome ∨ s.auth.isSome ∨ s.thread then none
  else match c.adapter with
    | none => some (s, [])
    | some a =>
      let l := (Ll8023.new a.1 a.2).setupOutput
      let r := installHandlers c
      if r.2 then
        let l := transmit l EapolPacket.start
        some ({ s with io := some (waiting l), auth := some r.1, thread := c.sends ∧ c.starts },
          [transmitted l])
      else some ({ s with io := some l, auth := some r.1 }, [])

/-- `Logout` -/
def logout (s : Listener) : Listener × List Output :=
  (init, (s.io.map fun l => transmitted (transmit l EapolPacket.logoff)).toList)

/-- Record the result of `eap::process` and do what the listener does for it. -/
def settle (s : Listener) (l : Ll8023) (e : EapState Handler) (sends : Bool) :
    Ret → Option (Listener × List Output)
  | .cont =>
    let r : ConState × List Output :=
      if s.state = .connected ∨ s.state = .reconnecting then (.reconnecting, [])
      else (.connecting, [.event .requestId s.state])
    let l := transmit l EapolPacket.pckt
    if sends then
      some ({ s with io := some (waiting l), auth := some e, state := r.1 }, r.2 ++ [transmitted l])
    else none
  | .ok =>
    let s := { s with io := some (waiting l), auth := some e }
    if s.state = .connecting then some ({ s with state := .connected }, [.event .success s.state])
    else some (s, [])
  | .inv | .abort => some ({ s with io := some (waiting l), auth := some e }, [])
  | .fail => some (init, [.event .fail s.state])
  | .old =>
    if sends then some ({ s with io := some (waiting l), auth := some e }, [transmitted l]) else none

/-- One pass of the loop for a frame that `receive` returned. -/
def handle (s : Listener) (l : Ll8023) (e : EapState Handler) (d : Delivery) (f : Frame) :
    Option (Listener × List Output) :=
  if f.payload.type = EapolPacket.pckt then
    match (e.process V d.heap f.payload.body l.output.body).result with
    | .ok r => (settle s { l with outData := r.2.2.mem } r.2.1 d.sends r.1).map fun t =>
        (t.1, .processed r.1 :: t.2)
    | .error _ => none
  else some ({ s with io := some (waiting l) }, [])

/-- What the thread does with what the driver hands over. A packet of length zero is taken for a
timeout. -/
def deliver (s : Listener) (d : Delivery) : Option (Listener × List Output) :=
  match s.thread, s.io, s.auth with
  | true, some l, some e =>
    match l.turn true d.frame with
    | (l, none) => some ({ s with io := some l }, [])
    | (l, some (.returned 0)) => some ({ s with io := some (waiting l) }, [])
    | (l, some (.returned (_ + 1))) => (l.inData.bind fun f => handle V s l e d f)
    | (_, some .raised) => none
  | _, _, _ => none

/-- The step function. -/
def step (s : Listener) : Action → Option (Listener × List Output)
  | .login c => s.login c
  | .deliver d => s.deliver V d
  | .logout => some s.logout

/-- The state after a step. -/
def next (s : Listener) (a : Action) : Option Listener := (s.step V a).map Prod.fst

/-- In a step the EAP layer processes a packet with a result. -/
def Processes (s : Listener) (a : Action) (rc : Ret) : Prop :=
  ∃ t outs, s.step V a = some (t, outs) ∧ .processed rc ∈ outs

variable {V} {s s' : Listener} {d : Delivery} {outs : List Output}

/-- What a step of the thread is: the thread goes on waiting, or the EAP layer returned for a frame
and the listener settled the result. The output buffer is touched by the latter only. -/
inductive Delivers (V : Vtable Handler) (s : Listener) (d : Delivery) : Listener → List Output → Prop
  | waits {l : Ll8023} (hrunning : s.thread = true) :
      Delivers V s d { s with io := some l } []
  | settles {f : Frame} {l l' : Ll8023} {e : EapState Handler} {r : Ret × EapState Handler × EapPacket}
      {s' : Listener} {outs : List Output} (hrunning : s.thread = true) (hio : s.io = some l)
      (hauth : s.auth = some e) (hframe : d.frame = some f) (hout : l'.outData = l.outData)
      (hprocess : (e.process V d.heap f.payload.body l.output.body).result = .ok r)
      (hsettle : settle s { l' with outData := r.2.2.mem } r.2.1 d.sends r.1 = some (s', outs)) :
      Delivers V s d s' (.processed r.1 :: outs)

/-- The listener delivers what its function gives, a step of the relation. -/
theorem delivers_of_deliver (h : s.deliver V d = some (s', outs)) : Delivers V s d s' outs := by
  unfold deliver at h
  split at h
  case h_1 l e hthread hio hauth =>
    split at h
    · cases h
      exact .waits hthread
    · cases h
      exact .waits hthread
    · rename_i l' n hturn
      obtain ⟨f, hf, h⟩ := Option.bind_eq_some_iff.mp h
      have hframe : d.frame = some f ∧ l'.outData = l.outData := by
        cases hd : d.frame with
        | none =>
          rw [hd] at hturn
          cases hturn
        | some g =>
          rw [hd, Ll8023.turn_some, Prod.mk.injEq] at hturn
          rw [← hturn.1, Ll8023.observe_inData] at hf
          exact ⟨hf, by rw [← hturn.1, Ll8023.observe_outData]⟩
      have hout : l'.output.body = l.output.body := by
        simp only [Ll8023.output, hframe.2]
      unfold handle at h
      split at h
      · split at h
        · rename_i r hprocess
          rw [hout] at hprocess
          obtain ⟨⟨s₁, outs₁⟩, hsettle, heq⟩ := Option.map_eq_some_iff.mp h
          cases heq
          exact .settles hthread hio hauth hframe.1 hframe.2 hprocess hsettle
        · cases h
      · cases h
        exact .waits hthread
    · cases h
  case h_2 => cases h

/-- Settling a result does not call the EAP layer again. -/
theorem processed_notMem_settle {l : Ll8023} {e : EapState Handler} {sends : Bool} {rc rc' : Ret}
    (h : settle s l e sends rc = some (s', outs)) : .processed rc' ∉ outs := by
  cases rc with
  | cont =>
    simp only [settle] at h
    split at h
    · cases h
      split <;> simp [transmitted]
    · cases h
  | ok =>
    simp only [settle] at h
    split at h <;> cases h <;> simp
  | old =>
    simp only [settle] at h
    split at h
    · cases h
      simp [transmitted]
    · cases h
  | inv | abort | fail =>
    cases h
    simp

/-- The outputs of a step contain a result. -/
def reports (rc : Ret) (outs : List Output) : Bool :=
  outs.any fun
    | .processed rc' => rc' = rc
    | _ => false

/-- What is reported is a result of the packet machine that was processed. -/
theorem reports_iff {rc : Ret} : reports rc outs ↔ .processed rc ∈ outs := by
  rw [reports, List.any_eq_true]
  constructor
  · rintro ⟨o, ho, hrc⟩
    cases o with
    | processed rc' => exact of_decide_eq_true hrc ▸ ho
    | sent | event => cases hrc
  · exact fun h => ⟨_, h, decide_eq_true rfl⟩

/-- A table of methods with a hash and an engine that do nothing. -/
def plainVtable : Vtable Handler :=
  Handler.vtable (fun _ => Vector.replicate 16 0) ⟨fun _ => false, fun _ => none⟩

/-- A login with the password `s` that meets no obstacle. -/
def plainLogin (user : Block) : LoginCall :=
  ⟨some ([2, 0, 0, 0, 0, 1], fun _ => 0), user, .single 115, fun _ => some fun _ => 0, true, true⟩

/-- A frame from an authenticator that carries a short EAP packet. -/
def plainFrame (eap : List UInt8) : Frame :=
  ⟨write (fun _ => 0) 0 (paeGroupAddr ++ [2, 0, 0, 0, 0, 2, 0x88, 0x8e, 1, 0, 0,
    UInt8.ofNat eap.length] ++ eap), 60⟩

/-- The delivery of such a frame when there is memory and the driver sends. -/
def plainDelivery (eap : List UInt8) : Delivery :=
  ⟨some (plainFrame eap), fun _ => some fun _ => 0, true⟩

/-- An identity request. -/
def identityRequest : Delivery := plainDelivery [1, 5, 0, 5, 1]

/-- The end of an authentication. -/
def successPacket : Delivery := plainDelivery [3, 6, 0, 4]

end Listener

end Dot1x.Client
