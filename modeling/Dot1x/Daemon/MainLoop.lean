import Dot1x.Base.Transition
import Dot1x.Link.Acceptance

/-!
# The main loop of the daemon

The daemon waits for a packet, has the EAP layer process it and sends the answer. It counts an
authentication as begun when a request was answered and as done when a Success came, and goes back
to the beginning when the packet comes from another authenticator than the one before.

A child process, the molestor, sends EAPOL-Start frames until an authenticator has answered. Only
whether there is one matters here: the child works on its own copy of the link.

A step is what the loop does with what the driver hands over until it waits for the driver again.
An error ends the program, and so does `goto out`; what was done before is in the log.
-/

namespace Dot1x.Daemon

open Dot1x.Base Dot1x.Wire Dot1x.Eap Dot1x.Link

/-- How far the authentication has come. -/
inductive PaeState
  | init | doAuth | didAuth
  deriving DecidableEq, Repr

/-- The options of the command line that the loop reads. -/
structure Options where
  sendEapolStart : Bool
  singleShot : Bool
  doLogoff : Bool

/-- The variables of the program. -/
structure MainLoop (H : Type) where
  io : Ll8023
  auth : EapState H
  state : PaeState
  molestor : Bool

/-- What happens during a step. -/
inductive Event
  /-- The branch for a packet that is not from the same PAE was taken. -/
  | otherPae
  /-- `do_abort` was called. -/
  | doAbort
  /-- A packet was passed to `eap::process`. -/
  | passed (state : PaeState)
  /-- A frame was handed to the driver. -/
  | sent (data : Mem) (len : ℕ)

/-- Why there is no state after a step. -/
inductive Stop
  | out | error
  deriving DecidableEq, Repr

/-- What the driver hands over and what the loop meets when it deals with it: memory, and whether
frames can be sent and a process be forked. -/
structure Delivery where
  frame : Option Frame
  heap : Heap
  sends : Bool
  forks : Bool

namespace MainLoop

variable {H : Type} (V : Vtable H) (opts : Options)

/-- `make_eapol` and `send` -/
def transmit (s : MainLoop H) (d : Delivery) (type : ℕ) : Exec Event Stop (MainLoop H) := do
  let l := (s.io.makeEapol type).send
  Exec.tell (.sent l.outData l.outLen)
  if d.sends then pure { s with io := l } else Exec.fail .error

/-- `retransmit_last` -/
def retransmitLast (s : MainLoop H) (d : Delivery) : Exec Event Stop (MainLoop H) := do
  Exec.tell (.sent s.io.outData s.io.outLen)
  if d.sends then pure s else Exec.fail .error

/-- `start_molestor`: without a child a single frame is sent. -/
def startMolestor (s : MainLoop H) (d : Delivery) : Exec Event Stop (MainLoop H) :=
  if d.forks then pure { s with molestor := true } else transmit s d EapolPacket.start

/-- Start the molestor if that was asked for and there is none. -/
def restartMolestor (s : MainLoop H) (d : Delivery) : Exec Event Stop (MainLoop H) :=
  if opts.sendEapolStart ∧ ¬s.molestor then startMolestor s d else pure s

/-- `do_abort` -/
def doAbort (s : MainLoop H) (d : Delivery) : Exec Event Stop (MainLoop H) := do
  Exec.tell .doAbort
  restartMolestor opts { s with auth := s.auth.abort V } d

/-- Behind the label `out`: take leave of the authenticator. -/
def out (s : MainLoop H) (d : Delivery) : Exec Event Stop (MainLoop H) :=
  if s.state = .didAuth ∧ opts.doLogoff then do
    let _ ← transmit s d EapolPacket.logoff
    Exec.fail .out
  else Exec.fail .out

/-- The branch for a packet from another PAE. -/
def leavePae (s : MainLoop H) (d : Delivery) : Exec Event Stop (MainLoop H) := do
  Exec.tell .otherPae
  match s.state with
  | .init => pure s
  | .doAuth => do
    let s ← doAbort V opts s d
    pure { s with state := .init }
  | .didAuth => pure { s with state := .init }

/-- What the loop does for a result of `eap::process`. -/
def settle (s : MainLoop H) (d : Delivery) (rc : Ret) : Exec Event Stop (MainLoop H) :=
  match s.state with
  | .init =>
    match rc with
    | .cont => transmit { s with state := .doAuth } d EapolPacket.pckt
    | .ok => pure { s with molestor := false }
    | .fail => restartMolestor opts s d
    | .abort => pure { s with auth := s.auth.abort V }
    | _ => pure s
  | .doAuth =>
    let s := { s with molestor := false }
    match rc with
    | .ok =>
      let s := { s with state := .didAuth }
      if opts.singleShot then out opts s d else pure s
    | .fail =>
      if opts.singleShot then out opts s d else doAbort V opts { s with state := .init } d
    | .abort => doAbort V opts { s with state := .init } d
    | .inv => pure s
    | _ => transmit s d EapolPacket.pckt
  | .didAuth =>
    match rc with
    | .cont => transmit { s with state := .doAuth } d EapolPacket.pckt
    | .abort | .fail => doAbort V opts { s with state := .init } d
    | _ => pure s

/-- Pass a packet to `eap::process` and act on the result. -/
def pass (s : MainLoop H) (d : Delivery) (f : Frame) : Exec Event Stop (MainLoop H) := do
  Exec.tell (.passed s.state)
  match (s.auth.process V d.heap f.payload.body s.io.output.body).result with
  | .error _ => Exec.fail .error
  | .ok r =>
    let s := { s with auth := r.2.1, io := { s.io with outData := r.2.2.mem } }
    if r.1 = .old then retransmitLast s d else settle V opts s d r.1

/-- One pass of the loop for a frame that `receive` returned. Frames that start or end a session and
those of unknown types are skipped. -/
def handle (s : MainLoop H) (d : Delivery) (f : Frame) : Exec Event Stop (MainLoop H) :=
  if f.payload.type ≠ EapolPacket.pckt then pure s
  else if s.io.samePae then pass V opts s d f
  else do
    let s ← leavePae V opts s d
    pass V opts s d f

/-- The state when `receive` is called again. -/
def waiting (s : MainLoop H) : MainLoop H := { s with io := { s.io with paeChanged := false } }

/-- The step function: the loop deals with what the driver hands over. -/
def step (s : MainLoop H) (d : Delivery) : Exec Event Stop (MainLoop H) :=
  match s.io.turn false d.frame with
  | (l, none) => pure { s with io := l }
  | (_, some .raised) => Exec.fail .error
  | (l, some (.returned _)) =>
    match l.inData with
    | none => Exec.fail .error
    | some f => do
      let s ← handle V opts { s with io := l } d f
      pure s.waiting

/-- The state after a step. -/
def next (s : MainLoop H) (d : Delivery) : Option (MainLoop H) := (s.step V opts d).result.toOption

/-- The program up to its first call of `receive`. -/
def start (l : Ll8023) (e : EapState H) (d : Delivery) : Exec Event Stop (MainLoop H) := do
  let s : MainLoop H := ⟨l.setupOutput, e, .init, false⟩
  let s ← restartMolestor opts s d
  pure s.waiting

end MainLoop

end Dot1x.Daemon
