import Dot1x.Radius.Client

/-!
# What a request transmits

The two loops of a request are treated by one rule: an invariant of each, and what every attempt
makes of them under the socket and the identifier that it uses. Every transmission is a copy of the
request for a server that has an address, written under an identifier that `GetSocket` returned.
-/

namespace Dot1x.Radius

open Dot1x.Base

namespace RadiusClient

variable {S A H : Type}

/-- The secret of a pass. -/
def secretAt (c : RadiusClient H) (i : ℕ) : Option (List UInt8) := (c.server i).map c.secretOf

/-- The port of a pass. -/
def portAt (c : RadiusClient H) (request : RadiusPDU) (i : ℕ) : Option ℕ :=
  (c.server i).map (c.serverPort · request)

variable [DecidableEq A] {env : Environment S A H} {md5 : Md5} {request : RadiusPDU}
  {c : RadiusClient H} {i j : ℕ} {secret : List UInt8} {server : Server A}

/-- The address of the server of a pass. -/
def addressAt (getHostAddress : ℕ → H → Option A) (c : RadiusClient H) (i : ℕ) : Option A :=
  (c.server i).bind fun server => getHostAddress i server.serverAddress

/-- The socket and the identifier that an attempt uses. -/
inductive Uses (env : Environment S A H) (key : ℕ × ℕ) (renew : Bool) :
    Option (Reservation S) → Reservation S → Prop
  | kept {r : Reservation S} (hrenew : renew = false) : Uses env key renew (some r) r
  | taken {held : Option (Reservation S)} {socket : S} {id : Id}
      (hsocket : env.getSocket key = some (socket, id)) (hwhen : held = none ∨ renew = true) :
      Uses env key renew held ⟨socket, id, key⟩

/-- Getting a socket sends nothing. -/
theorem log_getSocket {key : ℕ × ℕ} : (getSocket env key).log = [] := by
  unfold getSocket
  split <;> rfl

/-- Reserving sends nothing. -/
theorem log_reserve {key : ℕ × ℕ} {renew : Bool} {held : Option (Reservation S)} :
    (reserve env key renew held).log = [] := by
  unfold reserve
  split
  · exact log_getSocket
  · split
    · exact log_getSocket
    · rfl

/-- Reserving gives what an attempt uses. -/
theorem uses_of_reserve {key : ℕ × ℕ} {renew : Bool} {held : Option (Reservation S)}
    {r : Reservation S} (h : (reserve env key renew held).result = .ok r) :
    Uses env key renew held r := by
  have hsocket (hwhen : held = none ∨ renew = true) (h : (getSocket env key).result = .ok r) :
      Uses env key renew held r := by
    unfold getSocket at h
    split at h
    · cases h
    · rename_i hsocket
      cases h
      exact .taken hsocket hwhen
  unfold reserve at h
  split at h
  · exact hsocket (Or.inl rfl) h
  · split at h
    · rename_i hrenew
      exact hsocket (Or.inr hrenew) h
    · rename_i hrenew
      cases h
      exact .kept (Bool.not_eq_true _ ▸ hrenew)

/-- What is true of every transmission. -/
structure Made (env : Environment S A H) (md5 : Md5) (request : RadiusPDU) (c : RadiusClient H)
    (t : Transmission S A) : Prop where
  visit : t.visit < c.visits
  retry : t.retry < c.retries
  secret : c.secretAt t.visit = some t.secret
  address : addressAt env.getHostAddress c t.visit = some t.server.addr
  port : c.portAt request t.visit = some t.server.port
  allowed : (env.onSendPdu (t.visit, t.retry)).isSome
  reserved : env.getSocket t.reservation.taken = some (t.reservation.socket, t.reservation.id)
  copy : copyFor md5 request t.secret t.reservation.id (env.random (t.visit, t.retry))
    (env.memory (t.visit, t.retry)) = .ok (t.encrypted, t.pdu)
  valid : t.pdu.isValid = true
  sends : (env.exchange (t.visit, t.retry)).sends t.reservation.id = true

/-- Invariants of the outer loop and of the inner loop, under which the transmissions have a
property. -/
structure LoopInvariant (env : Environment S A H) (md5 : Md5) (request : RadiusPDU)
    (c : RadiusClient H) (outer : ℕ → Progress S → Prop)
    (inner : ℕ → ℕ → Bool → Option (Reservation S) → Prop) (P : Transmission S A → Prop) :
    Prop where
  init : outer 0 ⟨none, none⟩
  skip : ∀ i st secret, outer i st → c.secretAt i = some secret →
    addressAt env.getHostAddress c i = none → outer (i + 1) ⟨some secret, st.held⟩
  enter : ∀ i st secret, i < c.visits → outer i st → c.secretAt i = some secret →
    (addressAt env.getHostAddress c i).isSome → inner i 0 (st.secret.any (secret ≠ ·)) st.held
  attempt : ∀ i j secretChanged held requireNewId r, inner i j secretChanged held →
    j < c.retries → (addressAt env.getHostAddress c i).isSome →
    env.onSendPdu (i, j) = some requireNewId → Uses env (i, j) (secretChanged || requireNewId) held r →
    inner i (j + 1) false (some r) ∧ ∀ t, Made env md5 request c t → t.visit = i → t.retry = j →
      t.reservation = r → P t
  leave : ∀ i secretChanged held secret, inner i c.retries secretChanged held →
    c.secretAt i = some secret → (addressAt env.getHostAddress c i).isSome →
    outer (i + 1) ⟨some secret, held⟩

/-- A reservation was made by `GetSocket`. -/
def Reserved (env : Environment S A H) (r : Reservation S) : Prop :=
  env.getSocket r.taken = some (r.socket, r.id)

/-- What an attempt uses is reserved, if what was held was. -/
theorem Uses.reserved {key : ℕ × ℕ} {renew : Bool} {held : Option (Reservation S)}
    {r : Reservation S} (h : Uses env key renew held r) (hheld : ∀ r ∈ held, Reserved env r) :
    Reserved env r := by
  cases h with
  | kept => exact hheld r rfl
  | taken hsocket => exact hsocket

/-- A transmission that is sent has the property. -/
theorem sat_transmit {P : Transmission S A → Prop} {r : Reservation S}
    (h : ∀ encrypted pdu, copyFor md5 request secret r.id (env.random (i, j)) (env.memory (i, j)) =
      .ok (encrypted, pdu) → pdu.isValid = true → (env.exchange (i, j)).sends r.id = true →
        P ⟨i, j, r, server, secret, encrypted, pdu⟩) :
    Exec.Sat P (fun _ => True) (transmit env md5 request i j secret server r) := by
  unfold transmit
  split
  · exact .fail
  · rename_i encrypted pdu hcopy
    split
    · rename_i hgood
      rw [Bool.and_eq_true] at hgood
      refine .bind (Q := fun _ => True) (.tell (h encrypted pdu hcopy hgood.1 hgood.2) trivial)
        fun _ _ => ?_
      split
      · exact .pure trivial
      · split
        · exact .pure trivial
        · split
          · exact .pure trivial
          · exact .fail
    · exact .pure trivial

/-- The rule for an attempt. -/
theorem sat_attempt {P : Transmission S A → Prop} {Q : Reservation S → Prop}
    {secretChanged : Bool} {held : Option (Reservation S)}
    (h : ∀ requireNewId r, env.onSendPdu (i, j) = some requireNewId →
      Uses env (i, j) (secretChanged || requireNewId) held r → Q r ∧
        ∀ encrypted pdu, copyFor md5 request secret r.id (env.random (i, j))
          (env.memory (i, j)) = .ok (encrypted, pdu) → pdu.isValid = true →
            (env.exchange (i, j)).sends r.id = true →
              P ⟨i, j, r, server, secret, encrypted, pdu⟩) :
    Exec.Sat P Q (attempt env md5 request i j secret server secretChanged held) := by
  unfold attempt
  split
  · exact .fail
  · rename_i requireNewId hcallback
    refine .bind (.of_effects fun e he => ?_) fun r hr => ?_
    · rw [log_reserve] at he
      cases he
    · obtain ⟨hQ, hP⟩ := h requireNewId r hcallback (uses_of_reserve hr)
      exact .bind (sat_transmit hP) fun _ _ => .pure hQ

namespace LoopInvariant

variable {outer : ℕ → Progress S → Prop} {inner : ℕ → ℕ → Bool → Option (Reservation S) → Prop}
  {P : Transmission S A → Prop}

/-- The attempts at one server keep the inner invariant. -/
theorem sat_attemptLoop (h : LoopInvariant env md5 request c outer inner P)
    (hvisit : i < c.visits) (hsecret : c.secretAt i = some secret)
    (haddress : addressAt env.getHostAddress c i = some server.addr)
    (hport : c.portAt request i = some server.port) {n : ℕ} {secretChanged : Bool}
    {held : Option (Reservation S)} (hlast : j + n = c.retries)
    (hheld : ∀ r ∈ held, Reserved env r) (hinner : inner i j secretChanged held) :
    Exec.Sat P (fun held => (∀ r ∈ held, Reserved env r) ∧ ∃ sc, inner i c.retries sc held)
      (attemptLoop env md5 request i secret server n j secretChanged held) := by
  induction n generalizing j secretChanged held with
  | zero =>
    have hend : j = c.retries := hlast
    exact .pure ⟨hheld, secretChanged, hend ▸ hinner⟩
  | succ n ih =>
    have hlt : j < c.retries := by omega
    have hsome : (addressAt env.getHostAddress c i).isSome := by
      rw [haddress]
      rfl
    refine .bind (sat_attempt (Q := fun r => Reserved env r ∧ inner i (j + 1) false (some r))
      fun requireNewId r hcallback huses => ?_) fun r hr => ?_
    · obtain ⟨hnext, hP⟩ := h.attempt i j secretChanged held requireNewId r hinner hlt hsome
        hcallback huses
      have hreserved := huses.reserved hheld
      refine ⟨⟨hreserved, hnext⟩, fun encrypted pdu hcopy hvalid hsends => hP _ ?_ rfl rfl rfl⟩
      exact ⟨hvisit, hlt, hsecret, haddress, hport, by rw [hcallback]; rfl, hreserved, hcopy,
        hvalid, hsends⟩
    · refine ih (by omega) (fun r' hr' => ?_) hr.2
      cases hr'
      exact hr.1

/-- A pass keeps the outer invariant. -/
theorem sat_visit (h : LoopInvariant env md5 request c outer inner P) (hvisit : i < c.visits)
    {st : Progress S} (hheld : ∀ r ∈ st.held, Reserved env r) (houter : outer i st) :
    Exec.Sat P (fun st => (∀ r ∈ st.held, Reserved env r) ∧ outer (i + 1) st)
      (visit env md5 request c i st) := by
  unfold visit
  split
  · exact .fail
  · rename_i server hserver
    have hsecret : c.secretAt i = some (c.secretOf server) := by
      rw [secretAt, hserver, Option.map_some]
    have hport : c.portAt request i = some (c.serverPort server request) := by
      rw [portAt, hserver, Option.map_some]
    split
    · rename_i hnone
      have haddress : addressAt env.getHostAddress c i = none := by
        rw [addressAt, hserver, Option.bind_some, hnone]
      exact .pure ⟨hheld, h.skip i st _ houter hsecret haddress⟩
    · rename_i address hsome
      have haddress : addressAt env.getHostAddress c i = some address := by
        rw [addressAt, hserver, Option.bind_some, hsome]
      have hisSome : (addressAt env.getHostAddress c i).isSome := by
        rw [haddress]
        rfl
      refine .bind (h.sat_attemptLoop hvisit hsecret haddress hport (Nat.zero_add _) hheld
        (h.enter i st _ hvisit houter hsecret hisSome)) fun held hdone => .pure ⟨hdone.1, ?_⟩
      obtain ⟨sc, hinner⟩ := hdone.2
      exact h.leave i sc held _ hinner hsecret hisSome

/-- The passes keep the outer invariant. -/
theorem sat_visitLoop (h : LoopInvariant env md5 request c outer inner P) {n : ℕ}
    (hlast : i + n = c.visits) {st : Progress S} (hheld : ∀ r ∈ st.held, Reserved env r)
    (houter : outer i st) :
    Exec.Sat P (fun _ => True) (visitLoop env md5 request c n i st) := by
  induction n generalizing i st with
  | zero => exact .pure trivial
  | succ n ih =>
    exact .bind (h.sat_visit (by omega) hheld houter) fun st' hst => ih (by omega) hst.1 hst.2

end LoopInvariant

/-- What a valid request transmits, it transmits in the loops. -/
theorem log_makeRequest (hvalid : request.isValid = true) (responsePdu : Option RadiusPDU) :
    (makeRequest env md5 request c responsePdu).log =
      (visitLoop env md5 request c c.visits 0 ⟨none, none⟩).log := by
  rw [makeRequest, hvalid]
  rfl

/-- A request that is not valid is not transmitted. -/
theorem makeRequest_of_invalid (hinvalid : ¬request.isValid = true)
    (responsePdu : Option RadiusPDU) :
    makeRequest env md5 request c responsePdu = pure (false, responsePdu) := by
  rw [makeRequest, if_pos (by simpa using hinvalid)]

/-- Only valid requests are transmitted. -/
theorem valid_of_mem {responsePdu : Option RadiusPDU} {t : Transmission S A}
    (ht : t ∈ (makeRequest env md5 request c responsePdu).log) : request.isValid = true := by
  by_contra hinvalid
  rw [makeRequest_of_invalid hinvalid] at ht
  cases ht

/-- A request that returns true returns the response that ended its loops; one that returns false
leaves the variable for it alone. -/
theorem result_makeRequest {responsePdu result : Option RadiusPDU} {found : Bool}
    (h : (makeRequest env md5 request c responsePdu).result = .ok (found, result)) :
    (found = true ∧ request.isValid = true ∧ ∃ response, result = some response ∧
      (visitLoop env md5 request c c.visits 0 ⟨none, none⟩).result =
        .error (.returns (some response))) ∨
    (found = false ∧ result = responsePdu) := by
  by_cases hvalid : request.isValid = true
  · rw [makeRequest, hvalid] at h
    simp only [Bool.not_true, Bool.false_eq_true, if_false] at h
    cases hloops : (visitLoop env md5 request c c.visits 0 ⟨none, none⟩).result with
    | ok st =>
      rw [hloops] at h
      cases h
      exact Or.inr ⟨rfl, rfl⟩
    | error e =>
      rw [hloops] at h
      cases e with
      | fault => cases h
      | returns response =>
        cases response with
        | none =>
          cases h
          exact Or.inr ⟨rfl, rfl⟩
        | some response =>
          cases h
          exact Or.inl ⟨rfl, hvalid, response, rfl, rfl⟩
  · rw [makeRequest_of_invalid hvalid] at h
    cases h
    exact Or.inr ⟨rfl, rfl⟩

namespace LoopInvariant

variable {outer : ℕ → Progress S → Prop} {inner : ℕ → ℕ → Bool → Option (Reservation S) → Prop}
  {P : Transmission S A → Prop}

/-- Under an invariant all transmissions of a request have the property. -/
theorem forall_log (h : LoopInvariant env md5 request c outer inner P)
    (responsePdu : Option RadiusPDU) :
    ∀ t ∈ (makeRequest env md5 request c responsePdu).log, P t := by
  intro t ht
  rw [log_makeRequest (valid_of_mem ht)] at ht
  exact (h.sat_visitLoop (Nat.zero_add _) (by simp) h.init).effects t ht

end LoopInvariant

/-- Every transmission of a request. -/
theorem made_of_mem {responsePdu : Option RadiusPDU} {t : Transmission S A}
    (h : t ∈ (makeRequest env md5 request c responsePdu).log) : Made env md5 request c t := by
  have htrivial : LoopInvariant env md5 request c (fun _ _ => True) (fun _ _ _ _ => True)
      (Made env md5 request c) :=
    ⟨trivial, fun _ _ _ _ _ _ => trivial, fun _ _ _ _ _ _ _ => trivial,
      fun _ _ _ _ _ _ _ _ _ _ _ => ⟨trivial, fun _ ht _ _ _ => ht⟩,
      fun _ _ _ _ _ _ _ => trivial⟩
  exact htrivial.forall_log responsePdu t h

end RadiusClient

end Dot1x.Radius
