import Dot1x.Nas.Frames
import Dot1x.Nas.Requests

/-!
# Frames for success

The program sends a packet for success of its own right after an authentic acceptance of the request
that was made of the answer to a challenge. It passes on what a challenge holds, so a packet for
success is sent as well if the server put one into an authentic challenge.
-/

namespace Dot1x.Nas

open Dot1x.Base Dot1x.Wire Dot1x.Eap Dot1x.Link Dot1x.Radius

variable {S A H : Type} [DecidableEq A]

/-- A request was made, and answered by an authentic response with a code. -/
structure Answered (c : RadiusClient H) (md5 : Md5) (env : Environment S A H)
    (request pdu : RadiusPDU) (code : UInt8) : Prop where
  code : pdu.getCode = code
  authentic : ∃ t, RadiusClient.Authentic env md5 request c
    (c.makeRequest env md5 request none).log pdu t

/-- The answer to a challenge was received last, and its own request was accepted. -/
def Granted (c : RadiusClient H) (md5 : Md5) (past : List (Event S A H)) : Prop :=
  ∃ before f env request pdu,
    past = before ++ [.received f, .requested env request, .answered (some pdu)] ∧
    IsResponse Eap.md5 f ∧
    (∃ (s : SimuNas H) (fresh : Mem), request = s.accessRequestMd5 fresh f.payload.body) ∧
    Answered c md5 env request pdu RadiusPDU.accessAccept

/-- The response of an identity was received last, its own request was answered by a challenge, and
what the first attribute for EAP holds was copied. It begins with the code, unless it is empty. -/
def PassedOn (c : RadiusClient H) (md5 : Md5) (code : ℕ) (past : List (Event S A H)) : Prop :=
  ∃ before f env request pdu n size,
    past = before ++
      [.received f, .requested env request, .answered (some pdu), .copied n size] ∧
    IsResponse Eap.identity f ∧
    (∃ (s s' : SimuNas H) (fresh : Mem),
      s.accessRequestId fresh f.payload.body = some (request, s')) ∧
    Answered c md5 env request pdu RadiusPDU.accessChallenge ∧
    ∃ as a, pdu.attributes = some as ∧ as.find? (·.type = RadiusAttr.eapMessage) = some a ∧
      ∀ b ∈ a.value.head?, b.toNat = code

/-- Frames for success come of granted requests only. -/
def SuccessGranted (c : RadiusClient H) (md5 : Md5) (past : List (Event S A H)) :
    Event S A H → Prop
  | .sent data _ => (sentPacket data).code = Eap.success → Granted c md5 past
  | _ => True

/-- Or they were in a challenge. -/
def SuccessAuthorized (c : RadiusClient H) (md5 : Md5) (past : List (Event S A H)) :
    Event S A H → Prop
  | .sent data _ => (sentPacket data).code = Eap.success →
    Granted c md5 past ∨ PassedOn c md5 Eap.success past
  | _ => True

namespace SimuNas

variable {md5 : Md5} {s s' : SimuNas H} {t : Turn S A H} {f : Frame} {c : RadiusClient H}
  {past full : List (Event S A H)} {r : Option (SimuNas H)}

/-- A packet that is sent grants success only where its code was granted or passed on. -/
theorem successAuthorized_lastSent {out : EapPacket} (hout : out.data = 18)
    (h : out.code = Eap.success → Granted c md5 past ∨ PassedOn c md5 Eap.success past) :
    SuccessAuthorized c md5 past ((s.framed out).lastSent : Event S A H) :=
  fun hcode => h ((fields_framed s hout).1.symm.trans hcode)

/-- What is copied of a challenge is passed on. -/
private theorem passedOn_of_challenged (past : List (Event S A H)) {request pdu : RadiusPDU}
    {attrEap : ℕ} (hf : IsResponse Eap.identity f)
    (hrequest : s.accessRequestId t.access.fresh f.payload.body = some (request, s'))
    (hresponse : s.response md5 t.access request = .ok (some pdu))
    (hcode : pdu.getCode = RadiusPDU.accessChallenge)
    (hmessage : pdu.findAttr RadiusAttr.eapMessage = some (some attrEap)) (u : SimuNas H)
    (n size : ℕ) : PassedOn s.radclient md5 (u.eapRelayed pdu attrEap t.heap).code (past ++
      [.received f, .requested (plainCallbacks t.access.env) request, .answered (some pdu),
        .copied n size]) := by
  obtain ⟨as, has⟩ := carries_of_response hresponse
  obtain ⟨a, ha, -, -, hbytes⟩ := u.byte_eapRelayed has hmessage t.heap
  refine ⟨past, f, _, request, pdu, n, size, rfl, hf, ⟨s, s', _, hrequest⟩,
    ⟨hcode, authentic_of_response hresponse⟩, as, a, has.attributes, ha, fun b hb => ?_⟩
  rw [EapPacket.code_eq, hbytes]
  cases hvalue : a.value with
  | nil =>
    rw [hvalue] at hb
    cases hb
  | cons b' rest =>
    rw [hvalue] at hb
    cases hb
    rfl

/-- A turn sends frames for success only as it may. -/
theorem successAuthorized_handled (past : List (Event S A H)) (h : Handled md5 s t f full r) :
    Along (SuccessAuthorized s.radclient md5) (past ++ [.received f]) full ∧
      ∀ s', r = some s' → s'.radclient = s.radclient := by
  cases h with
  | ignored => exact ⟨.nil, by simp⟩
  | started =>
    refine ⟨.single (successAuthorized_lastSent (eapRequestId_data s) fun hcode => ?_), ?_⟩
    · rw [code_eapRequestId] at hcode
      cases hcode
    · rintro _ ⟨⟩
      rfl
  | loggedOff => exact ⟨by simp [asked, SuccessAuthorized], by simp⟩
  | unnamed => exact ⟨.nil, by simp⟩
  | lost => exact ⟨by simp [SuccessAuthorized], by simp⟩
  | unusable => exact ⟨by simp [asked, SuccessAuthorized], by simp⟩
  | @refused request s' code response hmade hresponse hcode =>
    have hfailure : SuccessAuthorized s.radclient md5
        (past ++ [.received f] ++ asked t.access request response)
        (s'.framed (s'.eapCode Eap.failure)).lastSent := by
      refine successAuthorized_lastSent (eapCode_data s' _) fun hsuccess => ?_
      rw [(fields_eapCode s' (by decide)).1] at hsuccess
      cases hsuccess
    refine ⟨Along.append_iff.mpr ⟨by simp [asked, SuccessAuthorized], by simpa using hfailure⟩, ?_⟩
    rintro _ ⟨⟩
    cases hmade with
    | identity hf hrequest =>
      rw [(carries_accessRequestId hrequest).2.2]
      rfl
    | md5 => rfl
  | @challenged request s' pdu attrEap attrState hf hrequest hresponse hcode hmessage hstate =>
    refine ⟨Along.append_iff.mpr ⟨by simp [asked, SuccessAuthorized], ?_⟩, ?_⟩
    · refine .cons trivial (.single ?_)
      refine successAuthorized_lastSent rfl fun hsuccess => Or.inr ?_
      have hpassed := passedOn_of_challenged past hf hrequest hresponse hcode hmessage s'
        (RadiusAttr.getLength pdu.data attrEap) (RadiusAttr.getValueLength pdu.data attrEap)
      rw [hsuccess] at hpassed
      simpa [asked] using hpassed
    · rintro _ ⟨⟩
      rw [(carries_accessRequestId hrequest).2.2]
      rfl
  | accepted hf hresponse hcode =>
    refine ⟨Along.append_iff.mpr ⟨by simp [asked, SuccessAuthorized], ?_⟩, ?_⟩
    · refine .cons ?_ (by simp [asked, SuccessAuthorized])
      refine successAuthorized_lastSent rfl fun _ => Or.inl ?_
      exact ⟨past, f, _, _, _, by simp [asked], hf, ⟨s, _, rfl⟩, hcode,
        authentic_of_response hresponse⟩
    · rintro _ ⟨⟩
      rfl

/-- Whatever frames and answers arrive, frames for success are sent only as they may. -/
theorem success_authorized (md5 : Md5) (s : SimuNas H) (ts : List (Turn S A H)) :
    Along (SuccessAuthorized s.radclient md5) [] (run md5 s ts).log := by
  have hrun : Exec.Extends (fun (_ : List (Event S A H)) u => u.radclient = s.radclient)
      (SuccessAuthorized s.radclient md5) [] (run md5 s ts) := by
    refine extends_run_of_forall (fun _ _ _ h _ => h) (fun _ _ => trivial) ?_ rfl
    intro past u t f full r hu hhandled
    obtain ⟨halong, hsame⟩ := successAuthorized_handled past hhandled
    rw [hu] at halong
    exact ⟨halong, fun s' hs' => (hsame s' hs').trans hu⟩
  exact hrun.along

/-- The steps of a socket in which a server responds at once with a packet. -/
def answerSteps (reply : RadiusPDU) : List (Action RadiusPDU ℕ) :=
  [.call (.new (fun _ => 0) RadiusPDU.accessRequest 5) ⟨7, 1812⟩ true, .write 5 true,
    .read 5 (some ⟨reply, reply.getLength, ⟨7, 1812⟩⟩), .dispatch 5 true]

/-- Surroundings in which it does. -/
def answering (reply : RadiusPDU)
    (h : (runLabels (Socket.step pduType) (.new 0) (answerSteps reply)).isSome) :
    RequestCall Unit ℕ Unit where
  fresh := fun _ => 0
  env := { RadiusClient.answeredAtOnce with
    exchange := fun _ => ⟨0, answerSteps reply, (runLabels (Socket.step pduType) (.new 0)
      (answerSteps reply)).get h, run_of_runLabels (Option.some_get _).symm⟩ }

/-- A frame of a supplicant for the group of stations. -/
def groupFrame (eapol : List UInt8) : Frame :=
  ⟨write (fun _ => 0) 0 (paeGroupAddr ++ [2, 0, 0, 0, 0, 1, 0x88, 0x8e] ++ eapol), 60⟩

/-- A frame with the response of the identity `a`. -/
def identityFrame : Frame := groupFrame [1, 0, 0, 6, 2, 7, 0, 6, 1, 97]

/-- A hash function that is constant. -/
def zeroMd5 : Md5 := fun _ => Vector.replicate 16 0

/-- A challenge that holds a packet for success. -/
def successChallenge : RadiusPDU :=
  (RadiusPDU.new (fun _ => 0) RadiusPDU.accessChallenge 5).build
    [.attrData RadiusAttr.state [1], .attrData RadiusAttr.eapMessage [3, 7, 0, 4]]

/-- The server answers with a Success in a challenge. -/
private theorem answers_successChallenge :
    (runLabels (Socket.step pduType) (.new 0) (answerSteps successChallenge)).isSome := by
  decide +kernel

/-- A supplicant is given the packet for success in answer to its identity. -/
def successTurn : Turn Unit ℕ Unit :=
  ⟨some identityFrame, true, fun _ => 0, answering successChallenge answers_successChallenge,
    answering successChallenge answers_successChallenge⟩

/-- What kind of event it is; the answer to a challenge is a kind of its own, and frames that are sent
are told apart by their codes. -/
def kind : Event Unit ℕ Unit → ℕ
  | .received f => if IsResponse Eap.md5 f then 9 else 0
  | .requested _ _ => 1
  | .answered _ => 2
  | .copied _ _ => 3
  | .sent data _ => 10 + (sentPacket data).code

/-- The kind of a request is that of requests only. -/
theorem requested_of_kind {e : Event Unit ℕ Unit} (h : kind e = 1) :
    ∃ env request, e = .requested env request := by
  cases e with
  | received f =>
    rw [kind] at h
    split at h <;> cases h
  | requested env request => exact ⟨env, request, rfl⟩
  | answered | copied => cases h
  | sent data len =>
    rw [kind] at h
    omega

/-- The kind of an answer is that of MD5 responses only. -/
theorem answer_of_kind {e : Event Unit ℕ Unit} (h : kind e = 9) :
    ∃ f, e = .received f ∧ IsResponse Eap.md5 f := by
  cases e with
  | received f =>
    rw [kind] at h
    split at h
    · exact ⟨f, rfl, ‹_›⟩
    · cases h
  | requested | answered | copied => cases h
  | sent data len =>
    rw [kind] at h
    omega

/-- The kind of a packet that is sent tells its code. -/
private theorem sent_of_kind {e : Event Unit ℕ Unit} (code : ℕ) (h : kind e = 10 + code) :
    ∃ data len, e = .sent data len ∧ (sentPacket data).code = code := by
  cases e with
  | received f =>
    rw [kind] at h
    split at h <;> omega
  | requested | answered | copied =>
    rw [kind] at h
    omega
  | sent data len => exact ⟨data, len, rfl, Nat.add_left_cancel h⟩

/-- The program before its first turn, with one server. -/
def fresh : SimuNas Unit := .new [2, 0, 0, 0, 0, 9] (fun _ => 0) RadiusClient.oneServer []
  (fun _ => 0) fun _ => 0

/-- It is sent although no request was accepted. -/
theorem success_not_granted : ¬Along (SuccessGranted fresh.radclient zeroMd5) []
    (run zeroMd5 fresh [successTurn]).log := by
  intro h
  have hkind : (run zeroMd5 fresh [successTurn]).log[4]?.map kind = some 13 := by decide +kernel
  have hlast : ((run zeroMd5 fresh [successTurn]).log.take 4).getLast?.map kind = some 3 := by
    decide +kernel
  obtain ⟨e, he, hsuccess⟩ := Option.map_eq_some_iff.mp hkind
  obtain ⟨data, len, rfl, hcode⟩ := sent_of_kind 3 hsuccess
  obtain ⟨history, f, env, request, pdu, hhistory, -⟩ := h.getElem? he hcode
  rw [List.nil_append] at hhistory
  rw [hhistory, List.getLast?_append] at hlast
  cases hlast

end SimuNas

end Dot1x.Nas
