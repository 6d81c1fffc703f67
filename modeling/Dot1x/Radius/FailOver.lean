import Dot1x.Radius.Discard
import Dot1x.Radius.MessageAuthenticator

/-!
# The order of the servers

Where every transmission fails, a request goes on to the last server. With round robin it takes the
servers in turn, as often as there are retries; otherwise it makes all retries at one server before
it takes the next.

A transmission is a call of the socket, whether or not the socket writes the copy. The loops are
stated once more for any way to send a copy, so that they can be run with every call in the log; what
is written is what they log when the other calls are left out.
-/

namespace Dot1x.Radius

open Dot1x.Base

namespace RadiusClient

variable {S A H : Type} [DecidableEq A]

section Loops

variable (env : Environment S A H) (request : RadiusPDU)
  (send : ℕ → ℕ → List UInt8 → Server A → Reservation S → Exec (Transmission S A) Exit Unit)

/-- The body of the inner loop. -/
def attemptBy (visit retry : ℕ) (secret : List UInt8) (server : Server A) (secretChanged : Bool)
    (held : Option (Reservation S)) : Exec (Transmission S A) Exit (Reservation S) :=
  match env.onSendPdu (visit, retry) with
  | none => Exec.fail (.returns none)
  | some requireNewId => do
    let r ← reserve env (visit, retry) (secretChanged || requireNewId) held
    send visit retry secret server r
    pure r

/-- The inner loop. -/
def attemptLoopBy (visit : ℕ) (secret : List UInt8) (server : Server A) :
    ℕ → ℕ → Bool → Option (Reservation S) → Exec (Transmission S A) Exit (Option (Reservation S))
  | 0, _, _, held => pure held
  | n + 1, retry, secretChanged, held => do
    let r ← attemptBy env send visit retry secret server secretChanged held
    attemptLoopBy visit secret server n (retry + 1) false (some r)

/-- The body of the outer loop. -/
def visitBy (c : RadiusClient H) (i : ℕ) (st : Progress S) :
    Exec (Transmission S A) Exit (Progress S) :=
  match c.server i with
  | none => Exec.fail .fault
  | some server => do
    let secret := c.secretOf server
    let secretChanged := st.secret.any fun oldSecret => secret ≠ oldSecret
    match env.getHostAddress i server.serverAddress with
    | none => pure ⟨some secret, st.held⟩
    | some serverAddress => do
      let held ← attemptLoopBy env send i secret
        ⟨serverAddress, c.serverPort server request⟩ c.retries 0 secretChanged st.held
      pure ⟨some secret, held⟩

/-- The outer loop. -/
def visitLoopBy (c : RadiusClient H) : ℕ → ℕ → Progress S →
    Exec (Transmission S A) Exit (Progress S)
  | 0, _, st => pure st
  | n + 1, i, st => do
    let st ← visitBy env request send c i st
    visitLoopBy c n (i + 1) st

end Loops

variable {env : Environment S A H} {md5 : Md5} {request : RadiusPDU} {c : RadiusClient H}

/-- The socket writes the copy. -/
def written (env : Environment S A H) (t : Transmission S A) : Bool :=
  t.pdu.isValid && (env.exchange (t.visit, t.retry)).sends t.reservation.id

/-- Return the response of the socket if there is one that is accepted. -/
def answer (env : Environment S A H) (md5 : Md5) (t : Transmission S A) :
    Exec (Transmission S A) Exit Unit :=
  match (env.exchange (t.visit, t.retry)).response t.reservation.id t.server with
  | none => pure ()
  | some response =>
    if !RadiusPDU.verifyResponseAuthenticator md5 t.pdu response t.secret then pure ()
    else if !env.onReceivedPdu (t.visit, t.retry) then pure ()
    else Exec.fail (.returns (some response))

/-- Hand a copy of the request over to the socket. -/
def handOver (env : Environment S A H) (md5 : Md5) (request : RadiusPDU) (visit retry : ℕ)
    (secret : List UInt8) (server : Server A) (r : Reservation S) :
    Exec (Transmission S A) Exit Unit :=
  match copyFor md5 request secret r.id (env.random (visit, retry)) (env.memory (visit, retry)) with
  | .error e => Exec.fail e
  | .ok (encrypted, pdu) => do
    let t : Transmission S A := ⟨visit, retry, r, server, secret, encrypted, pdu⟩
    Exec.tell t
    if written env t then answer env md5 t else pure ()

/-- The calls of the socket that `MakeRequest` makes. -/
def calls (env : Environment S A H) (md5 : Md5) (request : RadiusPDU) (c : RadiusClient H) :
    List (Transmission S A) :=
  if request.isValid then
    (visitLoopBy env request (handOver env md5 request) c c.visits 0 ⟨none, none⟩).log
  else []

/-- The loops of the model are these, with the copies that are written in the log. -/
private theorem attemptLoop_eq_by {i j n : ℕ} {secret : List UInt8} {server : Server A}
    {secretChanged : Bool} {held : Option (Reservation S)} :
    attemptLoop env md5 request i secret server n j secretChanged held =
      attemptLoopBy env (transmit env md5 request) i secret server n j secretChanged held := by
  induction n generalizing j secretChanged held with
  | zero => rfl
  | succ n ih =>
    rw [attemptLoop, attemptLoopBy]
    exact congrArg _ (funext fun r => ih)

/-- The passes are those with `Transmit` for sending. -/
theorem visitLoop_eq_by {i n : ℕ} {st : Progress S} :
    visitLoop env md5 request c n i st =
      visitLoopBy env request (transmit env md5 request) c n i st := by
  induction n generalizing i st with
  | zero => rfl
  | succ n ih =>
    have hvisit : visit env md5 request c i st =
        visitBy env request (transmit env md5 request) c i st := by
      rw [visit, visitBy]
      cases c.server i with
      | none => rfl
      | some server =>
        cases haddress : env.getHostAddress i server.serverAddress with
        | none => simp only [haddress]
        | some serverAddress => simp only [haddress, attemptLoop_eq_by]
    rw [visitLoop, visitLoopBy, hvisit]
    exact congrArg _ (funext fun st => ih)

section Keep

variable {send send' : ℕ → ℕ → List UInt8 → Server A → Reservation S →
    Exec (Transmission S A) Exit Unit} {p : Transmission S A → Bool}

/-- Loops that send alike but for what is looked at do alike. -/
private theorem keep_attemptLoopBy (h : ∀ i j secret server r, (send i j secret server r).keep p =
      send' i j secret server r) {i j n : ℕ} {secret : List UInt8} {server : Server A}
    {secretChanged : Bool} {held : Option (Reservation S)} :
    (attemptLoopBy env send i secret server n j secretChanged held).keep p =
      attemptLoopBy env send' i secret server n j secretChanged held := by
  induction n generalizing j secretChanged held with
  | zero => rfl
  | succ n ih =>
    have hattempt : (attemptBy env send i j secret server secretChanged held).keep p =
        attemptBy env send' i j secret server secretChanged held := by
      unfold attemptBy
      split
      · rfl
      · rw [Exec.keep_bind, Exec.keep_of_silent log_reserve]
        refine congrArg _ (funext fun r => ?_)
        rw [Exec.keep_bind, h]
        rfl
    rw [attemptLoopBy, attemptLoopBy, Exec.keep_bind, hattempt]
    exact congrArg _ (funext fun r => ih)

/-- What is kept of the passes is what is kept of sending. -/
theorem keep_visitLoopBy (h : ∀ i j secret server r, (send i j secret server r).keep p =
      send' i j secret server r) {i n : ℕ} {st : Progress S} :
    (visitLoopBy env request send c n i st).keep p = visitLoopBy env request send' c n i st := by
  induction n generalizing i st with
  | zero => rfl
  | succ n ih =>
    have hvisit : (visitBy env request send c i st).keep p = visitBy env request send' c i st := by
      unfold visitBy
      split
      · rfl
      · simp only
        split
        · rfl
        · rw [Exec.keep_bind, keep_attemptLoopBy h]
          rfl
    rw [visitLoopBy, visitLoopBy, Exec.keep_bind, hvisit]
    exact congrArg _ (funext fun st => ih)

end Keep

/-- Looking at the answer sends nothing. -/
private theorem log_answer (t : Transmission S A) : (answer env md5 t).log = [] := by
  unfold answer
  split
  · rfl
  · split
    · rfl
    · split <;> rfl

/-- Handing over is transmitting, but for what is not written. -/
theorem keep_handOver (i j : ℕ) (secret : List UInt8) (server : Server A) (r : Reservation S) :
    (handOver env md5 request i j secret server r).keep (written env) =
      transmit env md5 request i j secret server r := by
  unfold handOver transmit
  cases copyFor md5 request secret r.id (env.random (i, j)) (env.memory (i, j)) with
  | error e => rfl
  | ok copies =>
    obtain ⟨encrypted, pdu⟩ := copies
    let t : Transmission S A := ⟨i, j, r, server, secret, encrypted, pdu⟩
    change (Exec.tell t >>= fun _ => if written env t then answer env md5 t else pure ()).keep
      (written env) = if written env t then Exec.tell t >>= fun _ => answer env md5 t else pure ()
    rw [Exec.keep_bind]
    cases hwritten : written env t with
    | false =>
      have hskip : (Exec.tell t : Exec (Transmission S A) Exit Unit).keep (written env) =
          pure () := by
        rw [Exec.keep, Exec.log_tell, List.filter_cons_of_neg (by simp [hwritten])]
        rfl
      rw [hskip, pure_bind]
      rfl
    | true =>
      have htell : (Exec.tell t : Exec (Transmission S A) Exit Unit).keep (written env) =
          Exec.tell t := by
        rw [Exec.keep, Exec.log_tell, List.filter_cons_of_pos hwritten]
        rfl
      rw [htell]
      simp only [if_true, Exec.keep_of_silent (log_answer t)]

/-- What `MakeRequest` transmits is what the socket writes of what it is called with. -/
theorem log_makeRequest_calls (responsePdu : Option RadiusPDU) :
    (makeRequest env md5 request c responsePdu).log =
      (calls env md5 request c).filter (written env) := by
  by_cases hvalid : request.isValid = true
  · rw [log_makeRequest hvalid, visitLoop_eq_by, ← keep_visitLoopBy keep_handOver, calls,
      if_pos hvalid]
    rfl
  · rw [makeRequest_of_invalid hvalid, calls, if_neg hvalid]
    rfl

/-- The order in which a client takes its servers. -/
def turns (c : RadiusClient H) : List (RadiusServer H) :=
  if c.roundRobinServers then (List.replicate c.numRetries c.radiusServers).flatten
  else c.radiusServers.flatMap (List.replicate c.numRetries)

/-- The servers of the passes through the outer loop. -/
def passes (c : RadiusClient H) : List (RadiusServer H) :=
  if c.roundRobinServers then (List.replicate c.numRetries c.radiusServers).flatten
  else c.radiusServers

/-- Where a server is reached, and under which secret. -/
def destination (c : RadiusClient H) (request : RadiusPDU) (resolve : H → Option A)
    (server : RadiusServer H) : Option (Server A × List UInt8) :=
  (resolve server.serverAddress).map fun serverAddress =>
    (⟨serverAddress, c.serverPort server request⟩, c.secretOf server)

/-- A call of the socket is handed a copy of the request that was made under its secret. -/
def IsCopy (env : Environment S A H) (md5 : Md5) (request : RadiusPDU) (t : Transmission S A) :
    Prop :=
  copyFor md5 request t.secret t.reservation.id (env.random (t.visit, t.retry))
    (env.memory (t.visit, t.retry)) = .ok (t.encrypted, t.pdu)

/-- A call of the socket returns no authentic response. -/
def Fails (env : Environment S A H) (md5 : Md5) (t : Transmission S A) : Prop :=
  written env t = true → yielded env md5 t = none

/-- Every call of a socket fails, but the callback lets the request go on and there is always a
socket. Whether a host has an address does not change. -/
structure AllFail (env : Environment S A H) (md5 : Md5) (request : RadiusPDU) (c : RadiusClient H)
    (resolve : H → Option A) : Prop where
  getHostAddress : env.getHostAddress = fun _ => resolve
  onSendPdu : ∀ key, (env.onSendPdu key).isSome
  getSocket : ∀ key, (env.getSocket key).isSome
  fails : ∀ t ∈ calls env md5 request c, Fails env md5 t

/-- A request goes through the servers that have addresses, in the order that is configured, and
returns false. -/
structure FailsOver (env : Environment S A H) (md5 : Md5) (request : RadiusPDU)
    (c : RadiusClient H) (resolve : H → Option A) (responsePdu : Option RadiusPDU) : Prop where
  order : (calls env md5 request c).map (fun t => (t.server, t.secret)) =
    c.turns.filterMap (c.destination request resolve)
  copies : ∀ t ∈ calls env md5 request c, IsCopy env md5 request t
  returns : (makeRequest env md5 request c responsePdu).result = .ok (false, responsePdu)

/-- A repeated list is as long as its repetitions. -/
theorem length_replicate_flatten {α : Type} (r : ℕ) (l : List α) :
    (List.replicate r l).flatten.length = r * l.length := by
  rw [List.length_flatten, List.map_replicate, List.sum_replicate_nat]

/-- A repeated list is looked up in its period. -/
private theorem getElem?_replicate_flatten {α : Type} (l : List α) {r k : ℕ}
    (hk : k < r * l.length) :
    (List.replicate r l).flatten[k]? = l[k % l.length]? := by
  induction r generalizing k with
  | zero => simp at hk
  | succ r ih =>
    rw [Nat.succ_mul] at hk
    rw [List.replicate_succ, List.flatten_cons]
    rcases Nat.lt_or_ge k l.length with hlt | hge
    · rw [List.getElem?_append_left hlt, Nat.mod_eq_of_lt hlt]
    · rw [List.getElem?_append_right hge, ih (by omega), ← Nat.mod_eq_sub_mod hge]

/-- The index of a pass, taken modulo the number of servers, goes through its servers. -/
theorem server_eq_passes {k : ℕ} (hk : k < c.passes.length) : c.server k = c.passes[k]? := by
  unfold passes at hk ⊢
  rw [server]
  split
  · rename_i hturns
    rw [if_pos hturns, length_replicate_flatten] at hk
    rw [getElem?_replicate_flatten _ hk]
  · rename_i hturns
    rw [if_neg hturns] at hk
    rw [Nat.mod_eq_of_lt hk]

/-- There are as many passes as servers for them, if the number fits into 32 bits. -/
theorem visits_eq_passes (hfits : c.numRetries * c.radiusServers.length < 2 ^ 32) :
    c.visits = c.passes.length := by
  unfold visits passes
  split
  · rw [length_replicate_flatten, Nat.mod_eq_of_lt hfits]
  · rfl

/-- The retries of each pass make the order of the servers. -/
theorem turns_eq_passes : c.turns = c.passes.flatMap (List.replicate c.retries) := by
  unfold turns passes retries
  cases c.roundRobinServers with
  | true =>
    have hone : (List.replicate 1 : RadiusServer H → List (RadiusServer H)) = fun s => [s] := rfl
    simp only [if_true, hone, List.flatMap_singleton']
  | false => rfl

section Loops

variable {resolve : H → Option A} {secret : List UInt8} {server : Server A} {i j n : ℕ}
  {secretChanged : Bool} {held : Option (Reservation S)}

/-- Nothing but a response that is accepted ends a request. -/
structure GoesOn (env : Environment S A H) (md5 : Md5) (request : RadiusPDU)
    (resolve : H → Option A) : Prop where
  copy : ∀ secret id key, ∃ encrypted pdu, copyFor md5 request secret id (env.random key)
    (env.memory key) = .ok (encrypted, pdu)
  getHostAddress : env.getHostAddress = fun _ => resolve
  onSendPdu : ∀ key, (env.onSendPdu key).isSome
  getSocket : ∀ key, (env.getSocket key).isSome

/-- Where sockets can be had there is always a reservation. -/
private theorem exists_reserve (h : ∀ key, (env.getSocket key).isSome) (key : ℕ × ℕ) (renew : Bool)
    (held : Option (Reservation S)) : ∃ r, reserve env key renew held = pure r := by
  obtain ⟨⟨socket, id⟩, hsocket⟩ := Option.isSome_iff_exists.mp (h key)
  have hnew : getSocket env key = pure ⟨socket, id, key⟩ := by
    rw [RadiusClient.getSocket, hsocket]
  unfold reserve
  split
  · exact ⟨_, hnew⟩
  · split
    · exact ⟨_, hnew⟩
    · exact ⟨_, rfl⟩

/-- After a call that fails, the request goes on. -/
theorem Fails.answer {t : Transmission S A} (h : Fails env md5 t) :
    (if written env t then answer env md5 t else pure ()) = pure () := by
  split
  · rename_i hwritten
    have hnone := h hwritten
    rw [yielded, Option.filter_eq_none_iff] at hnone
    unfold RadiusClient.answer
    split
    · rfl
    · rename_i response hresponse
      rw [if_pos]
      simpa using hnone response hresponse
  · rfl

/-- An attempt whose call fails. -/
private theorem attemptBy_of_fails (h : GoesOn env md5 request resolve)
    (hfails : ∀ t ∈ (attemptBy env (handOver env md5 request) i j secret server secretChanged
      held).log, Fails env md5 t) :
    ∃ t, (t.server, t.secret) = (server, secret) ∧ IsCopy env md5 request t ∧
      attemptBy env (handOver env md5 request) i j secret server secretChanged held =
        ⟨[t], .ok t.reservation⟩ := by
  obtain ⟨requireNewId, hallowed⟩ := Option.isSome_iff_exists.mp (h.onSendPdu (i, j))
  obtain ⟨r, hreserve⟩ := exists_reserve h.getSocket (i, j) (secretChanged || requireNewId) held
  obtain ⟨encrypted, pdu, hcopy⟩ := h.copy secret r.id (i, j)
  let t : Transmission S A := ⟨i, j, r, server, secret, encrypted, pdu⟩
  have hbody : attemptBy env (handOver env md5 request) i j secret server secretChanged held =
      Exec.tell t >>= fun _ => (if written env t then answer env md5 t else pure ()) >>= fun _ =>
        pure r := by
    simp only [attemptBy, hallowed, hreserve, pure_bind, handOver, hcopy, bind_assoc]
    rfl
  refine ⟨t, rfl, hcopy, ?_⟩
  have hlogged : t ∈ (attemptBy env (handOver env md5 request) i j secret server secretChanged
      held).log := by
    rw [hbody]
    exact Exec.mem_log_bind_left (List.mem_singleton_self t)
  rw [hbody, (hfails t hlogged).answer]
  rfl

/-- The retries at one server. -/
private theorem attemptLoopBy_of_fails (h : GoesOn env md5 request resolve)
    (hfails : ∀ t ∈ (attemptLoopBy env (handOver env md5 request) i secret server n j
      secretChanged held).log, Fails env md5 t) :
    ∃ ts held', ts.map (fun t => (t.server, t.secret)) = List.replicate n (server, secret) ∧
      (∀ t ∈ ts, IsCopy env md5 request t) ∧
      attemptLoopBy env (handOver env md5 request) i secret server n j secretChanged held =
        ⟨ts, .ok held'⟩ := by
  induction n generalizing j secretChanged held with
  | zero => exact ⟨[], held, rfl, nofun, rfl⟩
  | succ n ih =>
    rw [attemptLoopBy] at hfails ⊢
    obtain ⟨t, ht, htcopy, hattempt⟩ := attemptBy_of_fails h
      fun t ht => hfails t (Exec.mem_log_bind_left ht)
    rw [hattempt, Exec.mk_ok_bind] at hfails ⊢
    obtain ⟨ts, held', hts, htscopy, hrest⟩ := ih fun t ht => hfails t (List.mem_append_right _ ht)
    refine ⟨t :: ts, held', ?_, List.forall_mem_cons.mpr ⟨htcopy, htscopy⟩, ?_⟩
    · rw [List.map_cons, hts, ht, List.replicate_succ]
    · rw [hrest]
      rfl

/-- A pass through the outer loop. -/
private theorem visitBy_of_fails (h : GoesOn env md5 request resolve) {s : RadiusServer H}
    (hserver : c.server i = some s) {st : Progress S}
    (hfails : ∀ t ∈ (visitBy env request (handOver env md5 request) c i st).log,
      Fails env md5 t) :
    ∃ ts st', ts.map (fun t => (t.server, t.secret)) =
        (List.replicate c.retries s).filterMap (c.destination request resolve) ∧
      (∀ t ∈ ts, IsCopy env md5 request t) ∧
      visitBy env request (handOver env md5 request) c i st = ⟨ts, .ok st'⟩ := by
  rw [visitBy, hserver] at hfails ⊢
  simp only [h.getHostAddress] at hfails ⊢
  cases hresolve : resolve s.serverAddress with
  | none =>
    have hnone : c.destination request resolve s = none := by
      rw [destination, hresolve, Option.map_none]
    refine ⟨[], _, ?_, nofun, rfl⟩
    rw [List.filterMap_replicate_of_none hnone]
    rfl
  | some address =>
    have hsome : c.destination request resolve s =
        some (⟨address, c.serverPort s request⟩, c.secretOf s) := by
      rw [destination, hresolve, Option.map_some]
    rw [hresolve] at hfails
    simp only at hfails ⊢
    obtain ⟨ts, held, hts, htscopy, hloop⟩ := attemptLoopBy_of_fails h
      fun t ht => hfails t (Exec.mem_log_bind_left ht)
    refine ⟨ts, ⟨some (c.secretOf s), held⟩, ?_, htscopy, ?_⟩
    · rw [hts, List.filterMap_replicate_of_some hsome]
    · rw [hloop, Exec.mk_ok_bind, Exec.log_pure, List.append_nil]
      rfl

/-- The outer loop, for the servers of its passes. Only the calls that are made have to fail, so that is
assumed of the log. -/
private theorem visitLoopBy_of_fails (h : GoesOn env md5 request resolve)
    {servers : List (RadiusServer H)}
    (hservers : ∀ k < servers.length, c.server (i + k) = servers[k]?) {st : Progress S}
    (hfails : ∀ t ∈ (visitLoopBy env request (handOver env md5 request) c servers.length i st).log,
      Fails env md5 t) :
    ∃ ts st', ts.map (fun t => (t.server, t.secret)) =
        (servers.flatMap (List.replicate c.retries)).filterMap (c.destination request resolve) ∧
      (∀ t ∈ ts, IsCopy env md5 request t) ∧
      visitLoopBy env request (handOver env md5 request) c servers.length i st = ⟨ts, .ok st'⟩ := by
  induction servers generalizing i st with
  | nil => exact ⟨[], st, rfl, nofun, rfl⟩
  | cons s servers ih =>
    have hfirst : c.server i = some s := hservers 0 (Nat.succ_pos _)
    rw [List.length_cons, visitLoopBy] at hfails ⊢
    obtain ⟨ts, st', hts, htscopy, hvisit⟩ := visitBy_of_fails h hfirst
      fun t ht => hfails t (Exec.mem_log_bind_left ht)
    rw [hvisit, Exec.mk_ok_bind] at hfails ⊢
    have hlater (k : ℕ) (hk : k < servers.length) : c.server (i + 1 + k) = servers[k]? := by
      rw [Nat.add_right_comm, Nat.add_assoc]
      exact hservers (k + 1) (Nat.succ_lt_succ hk)
    obtain ⟨ts', st'', hts', htscopy', hrest⟩ := ih hlater
      fun t ht => hfails t (List.mem_append_right _ ht)
    refine ⟨ts ++ ts', st'', ?_, List.forall_mem_append.mpr ⟨htscopy, htscopy'⟩, ?_⟩
    · rw [List.map_append, hts, hts', List.flatMap_cons, List.filterMap_append]
    · rw [hrest]

end Loops

end RadiusClient

/-- There is room for the message authenticator of a copy, or the request has one already, or needs
none. -/
def RadiusPDU.SigningFits (request : RadiusPDU) : Prop :=
  request.getCode = RadiusPDU.accountingRequest ∨
    request.encryptedLength + 18 ≤ RadiusPDU.maxPduLength ∨
    ∃ attr, request.findAttr RadiusAttr.messageAuthenticator = some (some attr)

/-- Copies can be made of a request whose password and message authenticator fit. -/
theorem RadiusPDU.Carries.exists_copyFor {request : RadiusPDU} {as : List Tlv}
    (h : request.Carries as) (hpassword : request.PasswordFits) (hsigning : request.SigningFits)
    (md5 : Md5) (secret : List UInt8) (id : Id) (random : Fin 4 → UInt32) (fresh : Mem) :
    ∃ encrypted pdu, copyFor md5 request secret id random fresh = .ok (encrypted, pdu) := by
  obtain ⟨-, e, bs, -, hencrypted, hcopy⟩ :=
    (h.copyFor_cases md5 secret id random fresh).resolve_left fun hnot => hnot.1 hpassword
  rw [hcopy]
  by_cases hcode : accountingRequest = request.getCode
  · rw [if_neg (not_not.mpr hcode)]
    exact ⟨e, e, rfl⟩
  · rw [if_pos hcode]
    have hextended := hencrypted.carries.extended
    rcases hextended.setup rfl with ⟨hnone, -⟩ | ⟨l, a, r, -, -, -, hsome⟩
    · exfalso
      rcases hsigning with haccounting | hroom | ⟨attr, hattr⟩
      · exact hcode haccounting.symm
      · rw [← hencrypted.length] at hroom
        rw [if_pos hroom] at hnone
        exact hnone emptyAuthenticator (List.mem_append_right _ List.mem_cons_self) rfl
      · rcases h.findAttr_cases RadiusAttr.messageAuthenticator with
          ⟨hfind, -⟩ | ⟨l, a, r, rfl, ha, -⟩
        · cases hfind.symm.trans hattr
        · -- The attribute that the request has is still there.
          have hkept : a ∈ authenticators bs := by
            rw [hencrypted.replaced.authenticators]
            exact List.mem_filter.mpr ⟨by simp, decide_eq_true ha⟩
          refine hnone a ?_ ha
          split
          · exact List.mem_append_left _ (List.mem_of_mem_filter hkept)
          · exact List.mem_of_mem_filter hkept
    · rw [hsome]
      exact ⟨e, _, rfl⟩

namespace RadiusClient

variable {S A H : Type} [DecidableEq A] {env : Environment S A H} {md5 : Md5} {request : RadiusPDU}
  {c : RadiusClient H} {resolve : H → Option A}

/-- A valid request whose password and message authenticator fit goes through the servers in the
order that is configured, if every call fails. -/
theorem failsOver (hvalid : request.isValid = true) (hpassword : request.PasswordFits)
    (hsigning : request.SigningFits) (hcount : c.numRetries * c.radiusServers.length < 2 ^ 32)
    (h : AllFail env md5 request c resolve) (responsePdu : Option RadiusPDU) :
    FailsOver env md5 request c resolve responsePdu := by
  obtain ⟨as, has⟩ := RadiusPDU.isValid_iff.mp hvalid
  have hgoes : GoesOn env md5 request resolve := ⟨fun secret id key =>
    has.exists_copyFor hpassword hsigning md5 secret id _ _, h.getHostAddress, h.onSendPdu,
      h.getSocket⟩
  have hcalls : calls env md5 request c = (visitLoopBy env request (handOver env md5 request) c
      c.passes.length 0 ⟨none, none⟩).log := by
    rw [calls, if_pos hvalid, visits_eq_passes hcount]
  have hservers (k : ℕ) (hk : k < c.passes.length) : c.server (0 + k) = c.passes[k]? := by
    rw [Nat.zero_add]
    exact server_eq_passes hk
  obtain ⟨ts, st, hts, htscopy, hloop⟩ := visitLoopBy_of_fails hgoes hservers
    fun t ht => h.fails t (hcalls ▸ ht)
  rw [hloop] at hcalls
  refine ⟨?_, ?_, ?_⟩
  · rw [hcalls, turns_eq_passes]
    exact hts
  · rw [hcalls]
    exact htscopy
  · have hresult : (visitLoop env md5 request c c.visits 0 ⟨none, none⟩).result = .ok st := by
      rw [visits_eq_passes hcount, visitLoop_eq_by, ← keep_visitLoopBy keep_handOver, hloop]
      rfl
    rw [makeRequest, hvalid]
    simp only [Bool.not_true, Bool.false_eq_true, if_false, hresult]

/-- Nobody answers any call. -/
def nobody (resolve : H → Option ℕ) : Environment Unit ℕ H :=
  unanswered (fun _ => resolve) (fun _ => some false) (fun _ => ()) fun _ _ => 0

/-- The exchange without answers has no response. -/
private theorem response_unansweredExchange (id : Id) (server : Server ℕ) :
    (unansweredExchange (⟨default, 0⟩ : Server ℕ)).response id server = none := by
  have hcalls : ∀ id : Id, ((unansweredExchange (⟨default, 0⟩ : Server ℕ)).socket.calls id).all
      (fun c => c.phase.result != some true) = true := by decide +kernel
  have hnone := hcalls id
  unfold Exchange.response
  split
  · rename_i c hc
    rw [hc, Option.all_some, bne_iff_ne] at hnone
    exact if_neg fun h => hnone h.1
  · rfl

/-- Everything fails where nobody answers. -/
theorem allFail_nobody (md5 : Md5) (request : RadiusPDU) (c : RadiusClient H)
    (resolve : H → Option ℕ) : AllFail (nobody resolve) md5 request c resolve where
  getHostAddress := rfl
  onSendPdu _ := rfl
  getSocket _ := rfl
  fails t _ _ := by
    have hnone : ((nobody resolve).exchange (t.visit, t.retry)).response t.reservation.id t.server =
      none := response_unansweredExchange _ _
    rw [yielded, hnone]
    rfl

/-- Three servers in turn, twice. -/
def takingTurns : RadiusClient ℕ :=
  ⟨[⟨0, 0, 0, [1]⟩, ⟨1, 0, 0, [2]⟩, ⟨2, 1645, 0, []⟩], [3], 1812, 1813, 2, true⟩

/-- The second of three servers is left out, and the other two are taken in turn. -/
theorem failsOver_takingTurns :
    FailsOver (nobody fun host => if host = 1 then none else some host)
      (fun _ => Vector.replicate 16 0) bareRequest takingTurns
      (fun host => if host = 1 then none else some host) none ∧
    takingTurns.turns.filterMap (takingTurns.destination bareRequest
      fun host => if host = 1 then none else some host) =
        [(⟨0, 1812⟩, [1]), (⟨2, 1645⟩, [3]), (⟨0, 1812⟩, [1]), (⟨2, 1645⟩, [3])] := by
  have hcarries : bareRequest.Carries [] := RadiusPDU.carries_new (fun _ => 0) 0 (by decide)
  have hpassword : bareRequest.PasswordFits := fun pwdAttr hattr => by
    cases (hcarries.findAttr RadiusAttr.userPassword).symm.trans hattr
  have hsigning : bareRequest.SigningFits := Or.inr (Or.inl (by decide +kernel))
  exact ⟨failsOver hcarries.isValid hpassword hsigning (by decide) (allFail_nobody ..) none,
    by decide +kernel⟩

end RadiusClient

namespace RadiusPDU

/-- Attributes that leave room for one more of full length. -/
def manyAttributes : List Tlv := List.replicate 14 ⟨RadiusAttr.eapMessage, List.replicate 253 0⟩

/-- The password behind them. -/
def lastPassword : Tlv := ⟨RadiusAttr.userPassword, List.replicate 253 0⟩

/-- A request that has room for a password but not for the encrypted one next to it. -/
def fullRequest : RadiusPDU :=
  (new (fun _ => 0) accessRequest 0).build
    ((manyAttributes ++ [lastPassword]).map fun a => AppendOp.attrData a.type a.value)

/-- The packet of the counterexample carries its attributes. -/
theorem carries_fullRequest : fullRequest.Carries (manyAttributes ++ [lastPassword]) := by
  have hnew := carries_new (fun _ => 0) 0 (show accessRequest ≠ invalid by decide)
  have hall : ∀ a ∈ manyAttributes ++ [lastPassword],
      a.type ≠ RadiusAttr.vendorSpecific ∧ a.value.length ≤ 253 := by
    rw [List.forall_mem_append, List.forall_mem_singleton]
    refine ⟨fun a ha => ?_, by decide, by decide +kernel⟩
    rw [List.eq_of_mem_replicate ha]
    exact ⟨by decide, List.length_replicate.le⟩
  have hadmissible : ∀ op ∈ (manyAttributes ++ [lastPassword]).map fun a =>
      AppendOp.attrData a.type a.value, op.Admissible := by
    rw [List.forall_mem_map]
    exact fun a ha htype => absurd htype (hall a ha).1
  have happended : AppendOp.appended ((manyAttributes ++ [lastPassword]).map fun a =>
      AppendOp.attrData a.type a.value) = manyAttributes ++ [lastPassword] := by
    have hacceptable : ∀ op ∈ (manyAttributes ++ [lastPassword]).map fun a =>
        AppendOp.attrData a.type a.value, decide op.Acceptable = true := by
      rw [List.forall_mem_map]
      exact fun a ha => decide_eq_true ⟨id, Nat.add_le_add_right (hall a ha).2 2⟩
    rw [AppendOp.appended, List.filter_eq_self.mpr hacceptable, List.map_map]
    exact List.map_id _
  have hlength : (new (fun _ => 0) accessRequest 0).getLength = 20 := hnew.stored.end_eq
  have hroom : 20 + 255 * 15 ≤ 4096 := by decide
  have hbuilt := hnew.build hadmissible (hlength.symm ▸ hroom)
  rwa [happended] at hbuilt

/-- The encrypted password is put behind the last attribute, before the other one is deleted. -/
private theorem not_passwordFits_fullRequest : ¬fullRequest.PasswordFits := by
  intro h
  have hnot : ∀ a ∈ manyAttributes, a.type ≠ RadiusAttr.userPassword := fun a ha => by
    rw [List.eq_of_mem_replicate ha]
    decide
  have hfind := carries_fullRequest.findAttr_first rfl hnot
  have hroom := h _ hfind
  have hlong : (Tlv.bytesAll (manyAttributes ++ [lastPassword])).length = 3825 := by
    decide +kernel
  have hlength : fullRequest.getLength = 20 + 3825 := by
    rw [carries_fullRequest.stored.end_eq, hlong]
    rfl
  have hvalue : lastPassword.value.length = 253 := List.length_replicate
  rw [carries_fullRequest.getValueLength_eq rfl, hvalue, hlength] at hroom
  exact absurd hroom (by decide)

end RadiusPDU

namespace RadiusClient

/-- A request that has no room for its encrypted password is not handed over to any server. -/
theorem not_failsOver : ¬∀ (env : Environment Unit ℕ ℕ) (md5 : Md5) (request : RadiusPDU)
    (c : RadiusClient ℕ) (resolve : ℕ → Option ℕ) (responsePdu : Option RadiusPDU),
    request.isValid = true → c.numRetries * c.radiusServers.length < 2 ^ 32 →
      AllFail env md5 request c resolve → FailsOver env md5 request c resolve responsePdu := by
  intro h
  have hover := h (nobody some) (fun _ => Vector.replicate 16 0) RadiusPDU.fullRequest takingTurns
    some none RadiusPDU.carries_fullRequest.isValid (by decide) (allFail_nobody ..)
  obtain ⟨t, ht⟩ : ∃ t, t ∈ calls (nobody some) (fun _ => Vector.replicate 16 0)
      RadiusPDU.fullRequest takingTurns := by
    refine List.exists_mem_of_ne_nil _ fun hnil => ?_
    have horder := hover.order
    rw [hnil] at horder
    cases horder
  have hcopy := hover.copies t ht
  rcases RadiusPDU.carries_fullRequest.copyFor_cases (fun _ => Vector.replicate 16 0) t.secret
    t.reservation.id _ _ with ⟨-, herror⟩ | ⟨hfits, -⟩
  · cases herror.symm.trans hcopy
  · exact RadiusPDU.not_passwordFits_fullRequest hfits

end RadiusClient

end Dot1x.Radius
