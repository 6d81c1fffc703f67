import Dot1x.Radius.Copies
import Dot1x.Radius.Transmissions

/-!
# Authentic responses

A request returns a response right after the transmission that it answers. The socket was given it
from the server of that transmission, whichever call had read it, and the response authenticator was
computed with the authenticator of the copy that was sent there and the secret of that server.
-/

namespace Dot1x.Radius

open Dot1x.Base

/-- What a call with an identifier was given was read from its server and is a valid packet with
its identifier. -/
theorem Exchange.answers_of_response {A : Type} [DecidableEq A] {e : Exchange A} {id : Id}
    {server : Server A} {response : RadiusPDU} (h : e.response id server = some response) :
    ∃ d ∈ reads e.actions, d.Answers pduType id server ∧ d.pdu = response := by
  unfold Exchange.response at h
  split at h
  · rename_i c hc
    split at h
    · rename_i hdone
      obtain ⟨hphase, rfl⟩ := hdone
      have hreturned : c.phase = .returned true := by
        cases hp : c.phase with
        | returned result =>
          rw [hp] at hphase
          cases hphase
          rfl
        | writing | reading | received | waiting | woken | testing | leaving =>
          rw [hp] at hphase
          cases hphase
      obtain ⟨d, hd, hanswers, hpdu⟩ := (Socket.dispatches e.run).answered id c hc hreturned
      exact ⟨d, hd, hanswers, Option.some.inj (hpdu.symm.trans h)⟩
    · cases h
  · cases h

namespace RadiusClient

variable {S A H : Type} [DecidableEq A] {env : Environment S A H} {md5 : Md5}
  {request : RadiusPDU} {c : RadiusClient H}

/-- A request returns a response. -/
def Exit.HasResponse (e : Exit) : Prop := ∃ response, e = .returns (some response)

/-- A request returns the response to a transmission, which was accepted. -/
def Accepted (env : Environment S A H) (md5 : Md5) (e : Exit) (t : Transmission S A) : Prop :=
  ∃ response, e = .returns (some response) ∧
    (env.exchange (t.visit, t.retry)).response t.reservation.id t.server = some response ∧
    RadiusPDU.verifyResponseAuthenticator md5 t.pdu response t.secret = true

variable {i j : ℕ} {secret : List UInt8} {server : Server A}

/-- A response is returned by a transmission only if it was accepted. -/
theorem causedBy_transmit {r : Reservation S} : Exec.CausedBy Exit.HasResponse (Accepted env md5)
    (transmit env md5 request i j secret server r) := by
  unfold transmit
  split
  · rename_i e hcopy
    refine .fail ?_
    rintro ⟨response, rfl⟩
    unfold copyFor at hcopy
    split at hcopy
    · cases hcopy
    · cases hcopy
    · split at hcopy
      · split at hcopy <;> cases hcopy
      · cases hcopy
  · rename_i encrypted pdu _
    split
    · intro e he _
      obtain ⟨_, -, he⟩ := (Exec.result_bind_eq_error.mp he).resolve_left (by simp)
      rw [Exec.log_bind_of_ok (Exec.result_tell _), Exec.log_tell]
      split at he
      · cases he
      · rename_i response hresponse
        split at he
        · cases he
        · rename_i hverified
          split at he
          · cases he
          · rename_i haccepted
            cases he
            refine ⟨⟨i, j, r, server, secret, encrypted, pdu⟩, ?_, response, rfl, hresponse,
              by simpa using hverified⟩
            simp only [hverified, haccepted, Bool.false_eq_true, if_false]
            rfl
    · exact .of_ok rfl

/-- By the attempts at one server only if one of them accepted it. -/
theorem causedBy_attemptLoop {n : ℕ} {secretChanged : Bool} {held : Option (Reservation S)} :
    Exec.CausedBy Exit.HasResponse (Accepted env md5)
      (attemptLoop env md5 request i secret server n j secretChanged held) := by
  have hother : ¬Exit.HasResponse (.returns none) := fun ⟨_, h⟩ => by cases h
  have hsocket {key : ℕ × ℕ} : Exec.CausedBy Exit.HasResponse (Accepted env md5)
      (getSocket env key) := by
    unfold getSocket
    split
    · exact .fail hother
    · exact .of_ok rfl
  have hreserve {key : ℕ × ℕ} {renew : Bool} {held : Option (Reservation S)} :
      Exec.CausedBy Exit.HasResponse (Accepted env md5) (reserve env key renew held) := by
    unfold reserve
    split
    · exact hsocket
    · split
      · exact hsocket
      · exact .of_ok rfl
  induction n generalizing j secretChanged held with
  | zero => exact .of_ok rfl
  | succ n ih =>
    refine .bind ?_ fun _ => ih
    unfold attempt
    split
    · exact .fail hother
    · exact .bind hreserve fun r => .bind causedBy_transmit fun _ => .of_ok rfl

/-- And by the passes over the servers only if one of them accepted it. -/
theorem causedBy_visitLoop {n : ℕ} {st : Progress S} : Exec.CausedBy Exit.HasResponse
    (Accepted env md5) (visitLoop env md5 request c n i st) := by
  induction n generalizing i st with
  | zero => exact .of_ok rfl
  | succ n ih =>
    refine .bind ?_ fun _ => ih
    unfold visit
    split
    · exact .fail fun ⟨_, h⟩ => by cases h
    · split
      · exact .of_ok rfl
      · exact .bind causedBy_attemptLoop fun _ => .of_ok rfl

/-- A response is the authentic one to the last transmission of a request. -/
structure Authentic (env : Environment S A H) (md5 : Md5) (request : RadiusPDU)
    (c : RadiusClient H) (log : List (Transmission S A)) (response : RadiusPDU)
    (t : Transmission S A) : Prop where
  last : log.getLast? = some t
  made : Made env md5 request c t
  isValid : response.isValid = true
  id : response.getId = t.pdu.getId
  arrived : ∃ d ∈ reads (env.exchange (t.visit, t.retry)).actions, d.pdu = response ∧
    d.source = t.server
  authenticator : ∃ as, response.attributes = some as ∧ response.getAuthenticator =
    (md5 (slice response.data 0 4 ++ t.pdu.getAuthenticator ++ Tlv.bytesAll as ++
      t.secret)).toList

/-- What the response authenticator of a valid response was computed over. -/
private theorem authenticator_of_verify {pdu response : RadiusPDU} {as : List Tlv}
    (h : response.Carries as)
    (hverified : RadiusPDU.verifyResponseAuthenticator md5 pdu response secret = true) :
    response.getAuthenticator = (md5 (slice response.data 0 4 ++ pdu.getAuthenticator ++
      Tlv.bytesAll as ++ secret)).toList := by
  have hattrs : (if RadiusPDU.fixedHeaderLength < response.getLength then
      slice response.data RadiusPDU.fixedHeaderLength
        (response.getLength - RadiusPDU.fixedHeaderLength) else []) = Tlv.bytesAll as := by
    rw [← h.stored.slice_eq]
    split
    · rfl
    · rename_i hshort
      have hnone : response.getLength - RadiusPDU.fixedHeaderLength = 0 := by omega
      rw [hnone]
      rfl
  simp only [RadiusPDU.verifyResponseAuthenticator, hattrs, decide_eq_true_eq] at hverified
  exact hverified.symm

/-- The identifier of a packet that is transmitted. -/
theorem Made.id_eq {t : Transmission S A} (h : Made env md5 request c t)
    (hvalid : request.isValid = true) : pduType.id t.pdu = t.reservation.id := by
  obtain ⟨as, has⟩ := RadiusPDU.isValid_iff.mp hvalid
  obtain ⟨bs, hcopied⟩ := has.copied h.copy
  have hid : t.pdu.getId.toNat = t.reservation.id := by
    rw [hcopied.sentId, UInt8.toNat_ofNat']
    exact Nat.mod_eq_of_lt t.reservation.id.isLt
  exact Fin.ext hid

/-- A request that returns true has an authentic response; one that returns false leaves the
variable for it alone. -/
theorem makeRequest_authentic {responsePdu result : Option RadiusPDU} {found : Bool}
    (h : (makeRequest env md5 request c responsePdu).result = .ok (found, result)) :
    if found then ∃ response t, result = some response ∧
      Authentic env md5 request c (makeRequest env md5 request c responsePdu).log response t
    else result = responsePdu := by
  rcases result_makeRequest h with ⟨rfl, hvalid, response, rfl, hloops⟩ | ⟨rfl, rfl⟩
  · rw [if_pos rfl]
    obtain ⟨t, hlast, response', heq, hresponse, hverified⟩ :=
      causedBy_visitLoop _ hloops ⟨response, rfl⟩
    cases heq
    rw [← log_makeRequest hvalid responsePdu] at hlast
    have ht := made_of_mem (List.mem_of_getLast? hlast)
    obtain ⟨d, hd, hanswers, rfl⟩ := Exchange.answers_of_response hresponse
    obtain ⟨rs, hrs⟩ := RadiusPDU.isValid_iff.mp hanswers.valid
    have hid : pduType.id d.pdu = pduType.id t.pdu := hanswers.id.trans (ht.id_eq hvalid).symm
    exact ⟨_, t, rfl, hlast, ht, hanswers.valid, UInt8.toNat_inj.mp (congrArg Fin.val hid),
      ⟨d, hd, rfl, hanswers.source⟩, rs, hrs.attributes, authenticator_of_verify hrs hverified⟩
  · rw [if_neg Bool.false_ne_true]

/-- The request of the call below, its response, and the steps of its socket. -/
def answeredSteps : List (Action RadiusPDU ℕ) :=
  [.call (.new (fun _ => 0) RadiusPDU.accessRequest 5) ⟨7, 1812⟩ true, .write 5 true,
    .read 5 (some ⟨.new (fun _ => 0) 2 5, 20, ⟨7, 1812⟩⟩), .dispatch 5 true]

/-- A call to which a server responds at once. -/
def answeredAtOnce : Environment Unit ℕ Unit where
  getHostAddress _ _ := some 7
  onSendPdu _ := some false
  getSocket _ := some ((), 5)
  random _ _ := 0
  memory _ _ := 0
  exchange _ := ⟨0, answeredSteps, (runLabels (Socket.step pduType) (.new 0) answeredSteps).get
    (by decide +kernel), run_of_runLabels (Option.some_get _).symm⟩
  onReceivedPdu _ := true

/-- A client with one server. -/
def oneServer : RadiusClient Unit := ⟨[⟨(), 0, 0, []⟩], [], 1812, 1813, 1, false⟩

/-- With a hash function that is constant the response is authentic. -/
theorem makeRequest_authentic_answered : ∃ response t, (makeRequest answeredAtOnce
    (fun _ => Vector.replicate 16 0) (.new (fun _ => 0) RadiusPDU.accessRequest 0) oneServer
      none).result = .ok (true, some response) ∧
    Authentic answeredAtOnce (fun _ => Vector.replicate 16 0)
      (.new (fun _ => 0) RadiusPDU.accessRequest 0) oneServer (makeRequest answeredAtOnce
        (fun _ => Vector.replicate 16 0) (.new (fun _ => 0) RadiusPDU.accessRequest 0) oneServer
          none).log response t := by
  have heval : (makeRequest answeredAtOnce (fun _ => Vector.replicate 16 0)
      (.new (fun _ => 0) RadiusPDU.accessRequest 0) oneServer none).result.toOption.map Prod.fst =
        some true := by
    decide +kernel
  obtain ⟨⟨found, result⟩, hresult, hfound⟩ := Option.map_eq_some_iff.mp heval
  cases hfound
  have hok := Exec.result_of_toOption hresult
  obtain ⟨response, t, rfl, ht⟩ := makeRequest_authentic hok
  exact ⟨response, t, hok, ht⟩

end RadiusClient

end Dot1x.Radius
