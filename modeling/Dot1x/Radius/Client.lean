import Dot1x.Base.Exec
import Dot1x.Radius.Dispatcher
import Dot1x.Radius.Reception
import Dot1x.Radius.Signing

/-!
# Requests of a RADIUS client

`MakeRequest` goes through the servers, some of them several times, until one has answered. Before
each transmission a copy of the request is made and authenticated; a new socket and identifier are
taken for the first one, when the secret differs from that of the server before, and when the
callback asks for it.

`SendRequest` sends one copy to the first server and does not wait for a response.

What the environment decides is indexed by the pass through the outer loop and by the one through
the inner loop. What a socket returns is what it returns in some run with other calls.
-/

namespace Dot1x.Radius

open Dot1x.Base

/-- A server as it is configured; a port or a secret may be missing. -/
structure RadiusServer (H : Type) where
  serverAddress : H
  authPort : ℕ
  acctPort : ℕ
  sharedSecret : List UInt8

/-- The data members of a client that a request reads. -/
structure RadiusClient (H : Type) where
  radiusServers : List (RadiusServer H)
  sharedSecret : List UInt8
  authPort : ℕ
  acctPort : ℕ
  numRetries : ℕ
  roundRobinServers : Bool

/-- A run of a socket, in which other calls may be made. -/
structure Exchange (A : Type) [DecidableEq A] where
  oldestId : Id
  actions : List (Action RadiusPDU A)
  socket : Socket RadiusPDU A
  run : Run (Socket.step pduType) (.new oldestId) actions socket

namespace Exchange

variable {A : Type} [DecidableEq A]

/-- The call with an identifier wrote its request. -/
def sends (e : Exchange A) (id : Id) : Bool :=
  e.actions.any fun
    | .write id' true => id' = id
    | _ => false

/-- What the call with an identifier was given, if it is a call for a server and returned true. -/
def response (e : Exchange A) (id : Id) (server : Server A) : Option RadiusPDU :=
  match e.socket.calls id with
  | some c => if c.phase.result = some true ∧ c.server = server then c.pdu else none
  | none => none

end Exchange

/-- What a request depends on. -/
structure Environment (S A H : Type) [DecidableEq A] where
  /-- A host has a valid address, or not. -/
  getHostAddress : ℕ → H → Option A
  /-- `OnSendPDU` lets the request go on, and may ask for a new identifier. The callbacks leave the
  packets as they are. -/
  onSendPdu : ℕ × ℕ → Option Bool
  getSocket : ℕ × ℕ → Option (S × Id)
  random : ℕ × ℕ → Fin 4 → UInt32
  memory : ℕ × ℕ → Mem
  exchange : ℕ × ℕ → Exchange A
  onReceivedPdu : ℕ × ℕ → Bool

/-- A socket and an identifier, and where they were taken. -/
structure Reservation (S : Type) where
  socket : S
  id : Id
  taken : ℕ × ℕ

/-- A copy of the request that was written to a socket. -/
structure Transmission (S A : Type) where
  visit : ℕ
  retry : ℕ
  reservation : Reservation S
  server : Server A
  secret : List UInt8
  /-- The copy with its password encrypted. -/
  encrypted : RadiusPDU
  pdu : RadiusPDU

/-- How a request ends early. -/
inductive Exit
  | returns (response : Option RadiusPDU)
  | fault

/-- A copy of a request with an identifier and an authenticator. -/
def prepared (md5 : Md5) (request : RadiusPDU) (secret : List UInt8) (id : Id)
    (random : Fin 4 → UInt32) (fresh : Mem) : RadiusPDU :=
  (((RadiusPDU.mk fresh).copyContents request).setId (UInt8.ofNat id)).setAuthenticator md5 secret
    random

/-- What is sent in place of a request: the copy with its password encrypted, and with its message
authenticator. -/
def copyFor (md5 : Md5) (request : RadiusPDU) (secret : List UInt8) (id : Id)
    (random : Fin 4 → UInt32) (fresh : Mem) : Except Exit (RadiusPDU × RadiusPDU) :=
  match (prepared md5 request secret id random fresh).encryptPasswords md5 secret with
  | none => .error .fault
  | some (false, _) => .error (.returns none)
  | some (true, p) =>
    if RadiusPDU.accountingRequest ≠ p.getCode then
      match p.setupMessageAuthenticator md5 secret with
      | none => .error .fault
      | some q => .ok (p, q)
    else .ok (p, p)

namespace RadiusClient

variable {S A H : Type} [DecidableEq A]

/-- `IsAcctPDU` -/
def isAcctPdu (pdu : RadiusPDU) : Bool :=
  let c := pdu.getCode
  c = RadiusPDU.accountingRequest || c = RadiusPDU.accountingResponse
    || c = RadiusPDU.accountingStatus || c = RadiusPDU.accountingMessage

/-- The port of a server for a request. -/
def serverPort (c : RadiusClient H) (server : RadiusServer H) (request : RadiusPDU) : ℕ :=
  let authPort := if server.authPort = 0 then c.authPort else server.authPort
  let acctPort := if server.acctPort = 0 then c.acctPort else server.acctPort
  if isAcctPdu request then acctPort else authPort

/-- The secret shared with a server. -/
def secretOf (c : RadiusClient H) (server : RadiusServer H) : List UInt8 :=
  if server.sharedSecret.isEmpty then c.sharedSecret else server.sharedSecret

/-- The passes through the outer loop; the product is that of two 32-bit numbers. -/
def visits (c : RadiusClient H) : ℕ :=
  if c.roundRobinServers then c.numRetries * c.radiusServers.length % 2 ^ 32
  else c.radiusServers.length

/-- The passes through the inner loop. -/
def retries (c : RadiusClient H) : ℕ := if c.roundRobinServers then 1 else c.numRetries

/-- The server of a pass. -/
def server (c : RadiusClient H) (visit : ℕ) : Option (RadiusServer H) :=
  c.radiusServers[visit % c.radiusServers.length]?

section Loops

variable (env : Environment S A H) (md5 : Md5) (request : RadiusPDU)

/-- `GetSocket` -/
def getSocket (env : Environment S A H) (key : ℕ × ℕ) :
    Exec (Transmission S A) Exit (Reservation S) :=
  match env.getSocket key with
  | none => Exec.fail (.returns none)
  | some (socket, id) => pure ⟨socket, id, key⟩

/-- Keep the socket and the identifier, or take new ones. Once there are any this is a
retransmission. -/
def reserve (env : Environment S A H) (key : ℕ × ℕ) (renew : Bool)
    (held : Option (Reservation S)) : Exec (Transmission S A) Exit (Reservation S) :=
  match held with
  | none => getSocket env key
  | some r => if renew then getSocket env key else pure r

/-- Send a copy of the request, and return its response if there is one that is accepted. -/
def transmit (visit retry : ℕ) (secret : List UInt8) (server : Server A) (r : Reservation S) :
    Exec (Transmission S A) Exit Unit :=
  match copyFor md5 request secret r.id (env.random (visit, retry)) (env.memory (visit, retry)) with
  | .error e => Exec.fail e
  | .ok (encrypted, pdu) =>
    -- The socket sends valid packets only, and the write may fail.
    if pdu.isValid && (env.exchange (visit, retry)).sends r.id then do
      Exec.tell ⟨visit, retry, r, server, secret, encrypted, pdu⟩
      match (env.exchange (visit, retry)).response r.id server with
      | none => pure ()
      | some response =>
        if !RadiusPDU.verifyResponseAuthenticator md5 pdu response secret then pure ()
        else if !env.onReceivedPdu (visit, retry) then pure ()
        else Exec.fail (.returns (some response))
    else pure ()

/-- The body of the inner loop. -/
def attempt (visit retry : ℕ) (secret : List UInt8) (server : Server A) (secretChanged : Bool)
    (held : Option (Reservation S)) : Exec (Transmission S A) Exit (Reservation S) :=
  match env.onSendPdu (visit, retry) with
  | none => Exec.fail (.returns none)
  | some requireNewId => do
    let r ← reserve env (visit, retry) (secretChanged || requireNewId) held
    transmit env md5 request visit retry secret server r
    pure r

/-- The inner loop. -/
def attemptLoop (visit : ℕ) (secret : List UInt8) (server : Server A) :
    ℕ → ℕ → Bool → Option (Reservation S) → Exec (Transmission S A) Exit (Option (Reservation S))
  | 0, _, _, held => pure held
  | n + 1, retry, secretChanged, held => do
    let r ← attempt env md5 request visit retry secret server secretChanged held
    attemptLoop visit secret server n (retry + 1) false (some r)

/-- The variables of the outer loop: the secret of the last pass, and what is held. -/
structure Progress (S : Type) where
  secret : Option (List UInt8)
  held : Option (Reservation S)

/-- The body of the outer loop. -/
def visit (c : RadiusClient H) (i : ℕ) (st : Progress S) :
    Exec (Transmission S A) Exit (Progress S) :=
  match c.server i with
  | none => Exec.fail .fault
  | some server => do
    let secret := c.secretOf server
    let secretChanged := st.secret.any fun oldSecret => secret ≠ oldSecret
    match env.getHostAddress i server.serverAddress with
    | none => pure ⟨some secret, st.held⟩
    | some serverAddress => do
      let held ← attemptLoop env md5 request i secret
        ⟨serverAddress, c.serverPort server request⟩ c.retries 0 secretChanged st.held
      pure ⟨some secret, held⟩

/-- The outer loop. -/
def visitLoop (c : RadiusClient H) : ℕ → ℕ → Progress S →
    Exec (Transmission S A) Exit (Progress S)
  | 0, _, st => pure st
  | n + 1, i, st => do
    let st ← visit env md5 request c i st
    visitLoop c n (i + 1) st

/-- `MakeRequest`: what it sends, what it returns and the variable for the response. -/
def makeRequest (c : RadiusClient H) (responsePdu : Option RadiusPDU) :
    Exec (Transmission S A) Unit (Bool × Option RadiusPDU) :=
  if !request.isValid then pure (false, responsePdu)
  else
    let loops := visitLoop env md5 request c c.visits 0 ⟨none, none⟩
    ⟨loops.log, match loops.result with
      | .ok _ => .ok (false, responsePdu)
      | .error (.returns none) => .ok (false, responsePdu)
      | .error (.returns (some response)) => .ok (true, some response)
      | .error .fault => .error ()⟩

/-- What `SendRequest` does for the first server; the write may fail. -/
def sendFirst (c : RadiusClient H) (written : Bool) (server : RadiusServer H) :
    Exec (Transmission S A) Exit Unit :=
  match env.getHostAddress 0 server.serverAddress, env.onSendPdu (0, 0) with
  | some serverAddress, some _ => do
    let secret := c.secretOf server
    let r ← getSocket env (0, 0)
    match (prepared md5 request secret r.id (env.random (0, 0))
        (env.memory (0, 0))).encryptPasswords md5 secret with
    | none => Exec.fail .fault
    | some (false, _) => Exec.fail (.returns none)
    | some (true, pdu) =>
      -- The copy is written as it is, without a message authenticator.
      if pdu.isValid && written then
        Exec.tell ⟨0, 0, r, ⟨serverAddress, c.serverPort server request⟩, secret, pdu, pdu⟩
      else Exec.fail (.returns none)
  | _, _ => Exec.fail (.returns none)

/-- `SendRequest`: what it sends and what it returns. -/
def sendRequest (c : RadiusClient H) (written : Bool) : Exec (Transmission S A) Unit Bool :=
  if !request.isValid then pure false
  else
    match c.radiusServers.head? with
    | none => pure false
    | some server =>
      let sent := sendFirst env md5 request c written server
      ⟨sent.log, match sent.result with
        | .ok _ => .ok true
        | .error (.returns _) => .ok false
        | .error .fault => .error ()⟩

end Loops

end RadiusClient

end Dot1x.Radius
