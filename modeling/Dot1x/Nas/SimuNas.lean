import Dot1x.Link.Ethernet
import Dot1x.Radius.Client

/-!
# The network access server

`SimuNas` answers the EAPOL frames of a supplicant. What it is to answer it asks a RADIUS server, and
it keeps two attributes from one request to the next: the last user name that it was given and the
last state that a server returned.

A turn is what the driver hands over and what the program meets until it waits for the driver again.
An exception, or an access that no object has, ends the program.
-/

namespace Dot1x.Nas

open Dot1x.Base Dot1x.Wire Dot1x.Eap Dot1x.Link Dot1x.Radius

/-- Memory and surroundings of a request. -/
structure RequestCall (S A H : Type) [DecidableEq A] where
  fresh : Mem
  env : Environment S A H

/-- What the driver hands over and what the program meets when it deals with it. -/
structure Turn (S A H : Type) [DecidableEq A] where
  frame : Option Frame
  /-- The driver takes the frame that is sent in return. -/
  sends : Bool
  /-- What lies where an array is put, and behind it. -/
  heap : Mem
  access : RequestCall S A H
  accounting : RequestCall S A H

/-- What happens during a turn. -/
inductive Event (S A H : Type) [DecidableEq A]
  /-- `receive` returned a frame. -/
  | received (f : Frame)
  /-- A request was made of the RADIUS client. -/
  | requested (env : Environment S A H) (pdu : RadiusPDU)
  /-- The RADIUS client returned, with a response or without one. -/
  | answered (response : Option RadiusPDU)
  /-- This many bytes were copied out of an array of the given size. -/
  | copied (n size : ℕ)
  /-- A frame was handed to the driver. -/
  | sent (data : Mem) (len : ℕ)

/-- The data members of the program. -/
structure SimuNas (H : Type) where
  io : Ll8023
  radclient : RadiusClient H
  tmpState : Mem
  tmpUserName : Mem
  supplicantMac : List UInt8

/-- The address that is configured for the server, as it is stored. -/
def nasAddress : UInt32 := 0x2c0a010a

/-- The callbacks of a plain `RadiusClient` let everything pass. -/
def plainCallbacks {S A H : Type} [DecidableEq A] (env : Environment S A H) :
    Environment S A H :=
  { env with onSendPdu := fun _ => some false, onReceivedPdu := fun _ => true }

/-- What the loop of `receive` does with what the driver hands over, and what `receive` returns if
this ends it: a frame, or nothing. -/
def receiveTurn (l : Ll8023) (d : Option Frame) : Ll8023 × Option (Option Frame) :=
  match d with
  | none => ({ l with inData := none }, some none)
  | some f =>
    let l := { l with inData := some f }
    if f.mem 12 ≠ 0x88 ∨ f.mem 13 ≠ 0x8e then (l, none)
    else if f.payload.type = EapolPacket.pckt ∧ ¬f.LengthsMatch then (l, none)
    else
      let r := l.recvHook f
      (r.1, if r.2 then some (some f) else none)

namespace SimuNas

variable {S A H : Type} [DecidableEq A]

/-- The program when it receives for the first time. -/
def new (own : List UInt8) (buf : Mem) (radclient : RadiusClient H) (supplicantMac : List UInt8)
    (stateMem userNameMem : Mem) : SimuNas H :=
  ⟨(Ll8023.new own buf).setupOutput, radclient, RadiusAttr.new stateMem,
    RadiusAttr.new userNameMem, supplicantMac⟩

/-- The program when the packet that was built in the output buffer is in an EAPOL packet that is
handed to the driver. -/
def framed (s : SimuNas H) (out : EapPacket) : SimuNas H :=
  { s with io := (Ll8023.makeEapol { s.io with outData := out.mem } EapolPacket.pckt).send }

/-- The frame that was handed to the driver last. -/
def lastSent (s : SimuNas H) : Event S A H := .sent s.io.outData s.io.outLen

/-- Send the packet that was built in the output buffer. -/
def sendEap (s : SimuNas H) (out : EapPacket) (sends : Bool) :
    Exec (Event S A H) Unit (SimuNas H) :=
  let s := s.framed out
  if sends then do
    Exec.tell s.lastSent
    pure s
  else Exec.fail ()

/-- The packet that asks for an identity. -/
def eapRequestId (s : SimuNas H) : EapPacket :=
  let out := s.io.output.body
  let out := EapPacket.setCode out Eap.request
  let out := EapPacket.setType out Eap.identity
  EapPacket.setLen out 5

/-- `SendEapRequestID` -/
def sendEapRequestId (s : SimuNas H) (sends : Bool) : Exec (Event S A H) Unit (SimuNas H) :=
  s.sendEap s.eapRequestId sends

/-- The array into which the value of an attribute is put. -/
def valueArray (response : RadiusPDU) (attr : ℕ) (heap : Mem) : Mem :=
  let buf := write heap 0 (List.replicate (RadiusAttr.getValueLength response.data attr) 0)
  RadiusAttr.getValue response.data attr buf

/-- The packet that is copied out of that array. -/
def eapRelayed (s : SimuNas H) (response : RadiusPDU) (attr : ℕ) (heap : Mem) : EapPacket :=
  s.io.output.body.store 0
    (slice (valueArray response attr heap) 0 (RadiusAttr.getLength response.data attr))

/-- The state of a challenge is kept. -/
def keepState (s : SimuNas H) (response : RadiusPDU) (attr : ℕ) : SimuNas H :=
  { s with tmpState := RadiusAttr.assign s.tmpState response.data attr }

/-- `SendEapRequestMD5`; what it does with a null pointer ends the program. -/
def sendEapRequestMd5 (s : SimuNas H) (response : RadiusPDU) (heap : Mem) (sends : Bool) :
    Exec (Event S A H) Unit (SimuNas H) :=
  match response.findAttr RadiusAttr.eapMessage, response.findAttr RadiusAttr.state with
  | some (some attrEap), some (some attrState) => do
    let s := s.keepState response attrState
    Exec.tell (.copied (RadiusAttr.getLength response.data attrEap)
      (RadiusAttr.getValueLength response.data attrEap))
    s.sendEap (s.eapRelayed response attrEap heap) sends
  | _, _ => Exec.fail ()

/-- The packet that ends an authentication. -/
def eapCode (s : SimuNas H) (code : ℕ) : EapPacket :=
  EapPacket.setLen (EapPacket.setCode s.io.output.body code) 4

def sendEapSuccess (s : SimuNas H) (sends : Bool) : Exec (Event S A H) Unit (SimuNas H) :=
  s.sendEap (s.eapCode Eap.success) sends

def sendEapFail (s : SimuNas H) (sends : Bool) : Exec (Event S A H) Unit (SimuNas H) :=
  s.sendEap (s.eapCode Eap.failure) sends

/-- The user name of a request is kept. -/
def keepUserName (s : SimuNas H) (request : RadiusPDU) (attr : ℕ) : SimuNas H :=
  { s with tmpUserName := RadiusAttr.assign s.tmpUserName request.data attr }

/-- Keeping a name changes the name only. -/
theorem keepUserName_eq (s : SimuNas H) (request : RadiusPDU) (attr : ℕ) : s.keepUserName request attr =
    { s with tmpUserName := RadiusAttr.assign s.tmpUserName request.data attr } := rfl

/-- What a request of the RADIUS client returns. -/
def response (s : SimuNas H) (md5 : Md5) (call : RequestCall S A H) (request : RadiusPDU) :
    Except Unit (Option RadiusPDU) :=
  (s.radclient.makeRequest (plainCallbacks call.env) md5 request none).result.map Prod.snd

/-- Keeping a name does not change what is answered to a request. -/
@[simp] theorem response_keepUserName (s : SimuNas H) (md5 : Md5) (call : RequestCall S A H)
    (request named : RadiusPDU) (attr : ℕ) :
    (s.keepUserName named attr).response md5 call request = s.response md5 call request := rfl

/-- A request of the RADIUS client, and the response if there is one. -/
def makeRequest (s : SimuNas H) (md5 : Md5) (call : RequestCall S A H) (request : RadiusPDU) :
    Exec (Event S A H) Unit (Option RadiusPDU) := do
  Exec.tell (.requested (plainCallbacks call.env) request)
  match s.response md5 call request with
  | .ok response => do
    Exec.tell (.answered response)
    pure response
  | .error _ => Exec.fail ()

/-- The request for an identity, with the user name as its only attribute. -/
def nameRequest (fresh : Mem) (pkt : EapPacket) : RadiusPDU :=
  ((RadiusPDU.new fresh RadiusPDU.accessRequest 0).appendAttrData RadiusAttr.userName
    (slice pkt.mem pkt.eapData (pkt.len - EapPacket.headerLen))).2

/-- The further attributes of the request for an identity. -/
def identityOps (s : SimuNas H) (pkt : EapPacket) : List AppendOp :=
  [.attrInt RadiusAttr.nasPort 5,
    .attrInt RadiusAttr.serviceType 2,
    .attrInt RadiusAttr.nasPortType 15,
    .attrInt RadiusAttr.framedProtocol 1,
    .attrData RadiusAttr.eapMessage pkt.contents,
    .attrAddress RadiusAttr.framedIpAddress nasAddress,
    .attrString RadiusAttr.callingStationId s.supplicantMac,
    .attrString RadiusAttr.nasIdentifier (asciiBytes "SimuNas"),
    .attrAddress RadiusAttr.nasIpAddress nasAddress]

/-- The request for an identity, and the program with the user name that is kept. The length of the
name is a signed number; a negative one cannot be copied. Nor is there a name to keep if it does not
fit. -/
def accessRequestId (s : SimuNas H) (fresh : Mem) (pkt : EapPacket) :
    Option (RadiusPDU × SimuNas H) :=
  if pkt.len < EapPacket.headerLen then none
  else
    let request := nameRequest fresh pkt
    match request.findAttr RadiusAttr.userName with
    | some (some attr) => some (request.build (s.identityOps pkt), s.keepUserName request attr)
    | _ => none

/-- The request for the answer to a challenge. -/
def accessRequestMd5 (s : SimuNas H) (fresh : Mem) (pkt : EapPacket) : RadiusPDU :=
  (RadiusPDU.new fresh RadiusPDU.accessRequest 0).build
    [.attr s.tmpState 0, .attr s.tmpUserName 0, .attrData RadiusAttr.eapMessage pkt.contents]

/-- The attributes of the server in a request for accounting. -/
def serverOps : List AppendOp :=
  [.attrInt RadiusAttr.nasPort 5,
    .attrInt RadiusAttr.serviceType 2,
    .attrInt RadiusAttr.nasPortType 15,
    .attrInt RadiusAttr.framedProtocol 1,
    .attrAddress RadiusAttr.framedIpAddress nasAddress,
    .attrString RadiusAttr.nasIdentifier (asciiBytes "SimuNas"),
    .attrAddress RadiusAttr.nasIpAddress nasAddress]

/-- A request for accounting: a status, its further attributes, and those of the server. -/
def accountingRequest (s : SimuNas H) (fresh : Mem) (status : UInt32) (ops : List AppendOp) :
    RadiusPDU :=
  (RadiusPDU.new fresh RadiusPDU.accountingRequest 0).build
    (.attr s.tmpUserName 0 :: .attrInt RadiusAttr.acctStatusType status ::
      .attrInt RadiusAttr.acctDelayTime 0 :: ops ++ serverOps)

/-- `AcctStatus_Start` -/
def acctStatusStart : UInt32 := 1

/-- `AcctStatus_Stop` -/
def acctStatusStop : UInt32 := 2

def accountStartRequest (s : SimuNas H) (fresh : Mem) : RadiusPDU :=
  s.accountingRequest fresh acctStatusStart []

def accountStopRequest (s : SimuNas H) (fresh : Mem) : RadiusPDU :=
  s.accountingRequest fresh acctStatusStop [.attrInt RadiusAttr.acctSessionTime 24]

/-- `SendAccessRequestID` -/
def sendAccessRequestId (s : SimuNas H) (md5 : Md5) (call : RequestCall S A H) (pkt : EapPacket) :
    Exec (Event S A H) Unit (Option RadiusPDU × SimuNas H) :=
  match s.accessRequestId call.fresh pkt with
  | none => Exec.fail ()
  | some (request, s) => do
    let response ← s.makeRequest md5 call request
    pure (response, s)

/-- `SendAccessRequestMD5` -/
def sendAccessRequestMd5 (s : SimuNas H) (md5 : Md5) (call : RequestCall S A H)
    (pkt : EapPacket) : Exec (Event S A H) Unit (Option RadiusPDU) :=
  s.makeRequest md5 call (s.accessRequestMd5 call.fresh pkt)

/-- `SendAccountStart` -/
def sendAccountStart (s : SimuNas H) (md5 : Md5) (call : RequestCall S A H) :
    Exec (Event S A H) Unit (Option RadiusPDU) :=
  s.makeRequest md5 call (s.accountStartRequest call.fresh)

/-- `SendAccountStop` -/
def sendAccountStop (s : SimuNas H) (md5 : Md5) (call : RequestCall S A H) :
    Exec (Event S A H) Unit (Option RadiusPDU) :=
  s.makeRequest md5 call (s.accountStopRequest call.fresh)

/-- The answer to the response of an identity. -/
def handleIdentity (s : SimuNas H) (md5 : Md5) (t : Turn S A H) (eap : EapPacket) :
    Exec (Event S A H) Unit (SimuNas H) := do
  let (response, s) ← s.sendAccessRequestId md5 t.access eap
  match response with
  | some pdu =>
    if pdu.getCode = RadiusPDU.accessChallenge then s.sendEapRequestMd5 pdu t.heap t.sends
    else s.sendEapFail t.sends
  | none => s.sendEapFail t.sends

/-- The answer to the response of a challenge. -/
def handleMd5 (s : SimuNas H) (md5 : Md5) (t : Turn S A H) (eap : EapPacket) :
    Exec (Event S A H) Unit (SimuNas H) := do
  let response ← s.sendAccessRequestMd5 md5 t.access eap
  match response with
  | some pdu =>
    if pdu.getCode = RadiusPDU.accessAccept then do
      let s ← s.sendEapSuccess t.sends
      let _ ← s.sendAccountStart md5 t.accounting
      pure s
    else s.sendEapFail t.sends
  | none => s.sendEapFail t.sends

/-- The body of the loop of `Main` for a frame that was received. -/
def handle (s : SimuNas H) (md5 : Md5) (t : Turn S A H) (f : Frame) :
    Exec (Event S A H) Unit (SimuNas H) :=
  if f.payload.type = EapolPacket.start then s.sendEapRequestId t.sends
  else if f.payload.type = EapolPacket.logoff then do
    let _ ← s.sendAccountStop md5 t.accounting
    pure s
  else if f.payload.type = EapolPacket.pckt then
    let eap := f.payload.body
    if Eap.response ≠ eap.code then pure s
    else if eap.type = Eap.identity then s.handleIdentity md5 t eap
    else if eap.type = Eap.md5 then s.handleMd5 md5 t eap
    else pure s
  else pure s

/-- The program when it receives again. -/
def waiting (s : SimuNas H) : SimuNas H := { s with io := { s.io with paeChanged := false } }

/-- A turn of the program. -/
def step (md5 : Md5) (s : SimuNas H) (t : Turn S A H) : Exec (Event S A H) Unit (SimuNas H) :=
  match receiveTurn s.io t.frame with
  | (l, none) => pure { s with io := l }
  | (l, some none) => pure (waiting { s with io := l })
  | (l, some (some f)) => do
    Exec.tell (.received f)
    let s ← handle { s with io := l } md5 t f
    pure s.waiting

/-- The turns of the program, one after the other, until it ends. -/
def run (md5 : Md5) (s : SimuNas H) (ts : List (Turn S A H)) :
    Exec (Event S A H) Unit (SimuNas H) :=
  ts.foldlM (step md5) s

end SimuNas

end Dot1x.Nas
