import Dot1x.System.Interoperation

/-!
# What a connection means

Before the port is taken for authenticated the server has sent a packet for success. If the station
hears only what was sent, that packet was granted or passed on; if the server hears only what was sent
as well, an answer was accepted that is computed from the password of a user who logged in and a
challenge of the server.
-/

namespace Dot1x.System

open Dot1x.Base Dot1x.Wire Dot1x.Eap Dot1x.Link Dot1x.Radius Dot1x.Nas
open Client.Listener (plainLogin)
open SimuNas (zeroMd5 challengedTurn acceptedTurn acceptance fresh)

variable {S A H : Type} [DecidableEq A] {digest : Digest} {E : Engine} {md5 : Md5}
  {n : Network S A H} {u : SimuNas H}

/-- A conversation with a challenge, after which the port is authenticated. -/
theorem exists_connected (digest : Digest) : ∃ f n,
    Steps (Network.step (Handler.vtable digest noEngine) zeroMd5) Undisturbed (.start fresh)
      (conversation (plainLogin (.single 97)) challengedTurn challengedTurn acceptedTurn f) n ∧
    n.listener.state = .connected ∧ ∃ data len, ToldBy n.history data len ∧
      Says data len (answerOf digest (plainLogin (.single 97)) ⟨1, 8, 4, [0]⟩) := by
  obtain ⟨i, request, hasks, hends⟩ := conversation_ends digest noEngine zeroMd5 (u := fresh)
    unobstructed_plainLogin (forGroup_setupOutput rfl) (by decide) answerable_md5Challenge rfl
    (rfl : challengedTurn.sends = true) (fun _ => 0) (fun _ => 0)
  obtain ⟨request', hasks', hends'⟩ := hends challengedTurn _ rfl rfl (responses_fresh _ _ hasks).1
    challengesWith_md5Challenge
  obtain ⟨f, n, run, hstate, hanswer⟩ := hends' acceptedTurn _ rfl rfl (responses_fresh _ _ hasks').2
  have haccepts : Accepts (some acceptance) := ⟨_, rfl, by decide +kernel⟩
  exact ⟨f, n, run, hstate.trans (if_pos haccepts), hanswer⟩

/-- Whatever both sides do and in whatever order, if the station hears only what was sent then the port
is taken for authenticated only after the server has sent a packet for success, which was granted or
passed on before. -/
theorem authenticated_authorized {ms : List (Move S A H)}
    (run : Steps (Network.step (Handler.vtable digest E) md5) Unforged (.start u) ms n)
    (hauth : n.listener.state.Authenticated) :
    ∃ before data len after, served n.history = before ++ .sent data len :: after ∧
      (sentPacket data).code = Eap.success ∧
      (Granted u.radclient md5 before ∨ PassedOn u.radclient md5 Eap.success before) := by
  have hlawful := lawful_of_run run
  obtain ⟨data, len, hsent, hcode⟩ := hlawful.authenticated hauth
  obtain ⟨first, last, hhistory, hauthorized, -⟩ := caused_of_mem hlawful.caused hsent
  refine ⟨served first, data, len, served last, ?_, hcode, hauthorized hcode⟩
  rw [hhistory, served_append]
  rfl

/-- An identity, a challenge and its answer lead to a connection. -/
theorem authenticated_authorized_conversation : ∃ n : Network Unit ℕ Unit,
    n.listener.state.Authenticated ∧
    ∃ before data len after, served n.history = before ++ .sent data len :: after ∧
      (sentPacket data).code = Eap.success ∧ (Granted fresh.radclient zeroMd5 before ∨
        PassedOn fresh.radclient zeroMd5 Eap.success before) := by
  obtain ⟨f, n, run, hstate, -⟩ := exists_connected zeroMd5
  have hauth : n.listener.state.Authenticated := Or.inl hstate
  exact ⟨n, hauth, authenticated_authorized (run.mono fun _ _ => Undisturbed.unforged) hauth⟩

/-- In every run of an undisturbed network, before the port is taken for authenticated the server has
sent a packet for success. Either it was passed on from a challenge, or a user who logged in at the
station has answered a challenge of the server, and the request that was made of this answer was
accepted. The answer is in the request exactly if the name has at most 231 bytes. -/
theorem authenticated_agreement {own : List UInt8} {buf : Mem} {radclient : RadiusClient H}
    {supplicantMac : List UInt8} {stateMem userNameMem : Mem} {ms : List (Move S A H)}
    (run : Steps (Network.step (Handler.vtable digest E) md5) Undisturbed
      (.start (.new own buf radclient supplicantMac stateMem userNameMem)) ms n)
    (hauth : n.listener.state.Authenticated) :
    ∃ before data len after, n.history = before ++ .server (.sent data len) :: after ∧
      (sentPacket data).code = Eap.success ∧
      (PassedOn radclient md5 Eap.success (served before) ∨
        ∃ login challenge, AnswerAccepted digest radclient md5 before login challenge) := by
  have hagreeing := agreeing_of_run run
  have henclosing := enclosing_of_run (SimuNas.keeps_new ..) run
  obtain ⟨data, len, hsent, hcode⟩ := hagreeing.lawful.authenticated hauth
  obtain ⟨before, after, hhistory, hauthorized, -⟩ := caused_of_mem hagreeing.lawful.caused hsent
  refine ⟨before, data, len, after, hhistory, hcode, ?_⟩
  rcases hauthorized hcode with hgranted | hpassed
  · refine Or.inr ?_
    obtain ⟨served', f, env, request, pdu, hserved, hresponse, hmade, hanswered⟩ := hgranted
    obtain ⟨first, last, hbefore, hfirst, hlast⟩ := split_of_served hserved
    have halong : Along (Prompted digest) [] (first ++ .server (.received f) :: last) := by
      rw [← hbefore]
      exact hagreeing.prompted.of_prefix ⟨_, hhistory.symm⟩
    obtain ⟨login, challenge, hexchanged, hcontents⟩ := exchanged_of_received halong hresponse
    -- The request was made when the answer was the last that had been received.
    have hrequested : served before = (served' ++ [.received f]) ++
        .requested env request :: [.answered (some pdu)] := by
      rw [hserved, List.append_assoc]
      rfl
    obtain ⟨first', last', hbefore', hfirst', -⟩ := split_of_served hrequested
    have hencloses : SimuNas.Enclosed (served first') (.requested env request) := by
      have hat := henclosing.enclosed first' (.server (.requested env request))
        (last' ++ .server (.sent data len) :: after)
        (by rw [hhistory, hbefore', List.append_assoc]; rfl)
      rwa [List.nil_append] at hat
    have hshort : CarriesEap request f.payload.body ↔ login.user.bytes.length ≤ 231 := by
      obtain ⟨-, -, -, -, -, -, -, -, -, -, htype, -⟩ := hexchanged
      have hlen : f.payload.body.len = 22 + login.user.bytes.length := by
        rw [← length_answerOf digest htype, ← hcontents, EapPacket.contents,
          Pointer.bytes_length]
      rw [hencloses served' f hfirst' hresponse, hlen]
      omega
    exact ⟨login, challenge, first, f, last, env, request, pdu, hbefore, hexchanged, hcontents, hmade,
      hshort, hlast, hanswered⟩
  · exact Or.inl hpassed

/-- The same conversation is one that was agreed upon. -/
theorem authenticated_agreement_conversation : ∃ n : Network Unit ℕ Unit,
    n.listener.state.Authenticated ∧
    ∃ before data len after, n.history = before ++ .server (.sent data len) :: after ∧
      (sentPacket data).code = Eap.success ∧
      (PassedOn fresh.radclient zeroMd5 Eap.success (served before) ∨ ∃ login challenge,
        AnswerAccepted zeroMd5 fresh.radclient zeroMd5 before login challenge) := by
  obtain ⟨f, n, run, hstate, -⟩ := exists_connected zeroMd5
  exact ⟨n, Or.inl hstate, authenticated_agreement run (Or.inl hstate)⟩

end Dot1x.System
