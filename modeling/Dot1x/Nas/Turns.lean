import Dot1x.Base.History
import Dot1x.Nas.SimuNas
import Dot1x.Radius.Authenticity

/-!
# What a turn does

One statement says what the program does with a frame: the events, in their order, and the program
afterwards unless it ends. It may end anywhere on the way, when the driver does not take a frame for
instance; then only the first of the events have happened.
-/

namespace Dot1x.Nas

open Dot1x.Base Dot1x.Wire Dot1x.Eap Dot1x.Link Dot1x.Radius

/-- The frame carries an EAP response of a type. -/
structure IsResponse (type : ℕ) (f : Frame) : Prop where
  isPckt : f.payload.type = EapolPacket.pckt
  code : f.payload.body.code = Eap.response
  type : f.payload.body.type = type

instance (type : ℕ) (f : Frame) : Decidable (IsResponse type f) :=
  decidable_of_iff (f.payload.type = EapolPacket.pckt ∧ f.payload.body.code = Eap.response ∧
    f.payload.body.type = type) ⟨fun h => ⟨h.1, h.2.1, h.2.2⟩, fun h => ⟨h.1, h.2, h.3⟩⟩

namespace SimuNas

variable {S A H : Type} [DecidableEq A] {md5 : Md5} {s : SimuNas H} {t : Turn S A H} {f : Frame}

/-- The request that the server is to decide about, the program when it is made, and the code that a
favourable response has. -/
inductive Authenticates (s : SimuNas H) (fresh : Mem) (f : Frame) :
    RadiusPDU → SimuNas H → UInt8 → Prop
  | identity {request : RadiusPDU} {s' : SimuNas H} (h : IsResponse Eap.identity f)
      (hrequest : s.accessRequestId fresh f.payload.body = some (request, s')) :
      Authenticates s fresh f request s' RadiusPDU.accessChallenge
  | md5 (h : IsResponse Eap.md5 f) :
      Authenticates s fresh f (s.accessRequestMd5 fresh f.payload.body) s RadiusPDU.accessAccept

/-- The events of a request that was answered. -/
def asked (call : RequestCall S A H) (request : RadiusPDU) (response : Option RadiusPDU) :
    List (Event S A H) :=
  [.requested (plainCallbacks call.env) request, .answered response]

/-- The events that come of a frame that was received, and the program afterwards unless it ends. -/
inductive Handled (md5 : Md5) (s : SimuNas H) (t : Turn S A H) (f : Frame) :
    List (Event S A H) → Option (SimuNas H) → Prop
  | ignored (hstart : f.payload.type ≠ EapolPacket.start)
      (hlogoff : f.payload.type ≠ EapolPacket.logoff) (hid : ¬IsResponse Eap.identity f)
      (hmd5 : ¬IsResponse Eap.md5 f) : Handled md5 s t f [] (some s)
  | started (h : f.payload.type = EapolPacket.start) :
      Handled md5 s t f [(s.framed s.eapRequestId).lastSent] (some (s.framed s.eapRequestId))
  | loggedOff {response : Option RadiusPDU} (h : f.payload.type = EapolPacket.logoff) :
      Handled md5 s t f (asked t.accounting (s.accountStopRequest t.accounting.fresh) response)
        (some s)
  | unnamed (h : IsResponse Eap.identity f)
      (hnone : s.accessRequestId t.access.fresh f.payload.body = none) :
      Handled md5 s t f [] none
  | lost {request : RadiusPDU} {s' : SimuNas H} {code : UInt8}
      (h : s.Authenticates t.access.fresh f request s' code) :
      Handled md5 s t f [.requested (plainCallbacks t.access.env) request] none
  | refused {request : RadiusPDU} {s' : SimuNas H} {code : UInt8} {response : Option RadiusPDU}
      (h : s.Authenticates t.access.fresh f request s' code)
      (hresponse : s.response md5 t.access request = .ok response)
      (hcode : ∀ pdu ∈ response, pdu.getCode ≠ code) :
      Handled md5 s t f (asked t.access request response ++
        [(s'.framed (s'.eapCode Eap.failure)).lastSent])
        (some (s'.framed (s'.eapCode Eap.failure)))
  | unusable {request : RadiusPDU} {s' : SimuNas H} {pdu : RadiusPDU}
      (h : IsResponse Eap.identity f)
      (hrequest : s.accessRequestId t.access.fresh f.payload.body = some (request, s'))
      (hresponse : s.response md5 t.access request = .ok (some pdu))
      (hcode : pdu.getCode = RadiusPDU.accessChallenge) :
      Handled md5 s t f (asked t.access request (some pdu)) none
  | challenged {request : RadiusPDU} {s' : SimuNas H} {pdu : RadiusPDU} {attrEap attrState : ℕ}
      (h : IsResponse Eap.identity f)
      (hrequest : s.accessRequestId t.access.fresh f.payload.body = some (request, s'))
      (hresponse : s.response md5 t.access request = .ok (some pdu))
      (hcode : pdu.getCode = RadiusPDU.accessChallenge)
      (hmessage : pdu.findAttr RadiusAttr.eapMessage = some (some attrEap))
      (hstate : pdu.findAttr RadiusAttr.state = some (some attrState)) :
      Handled md5 s t f (asked t.access request (some pdu) ++
        [.copied (RadiusAttr.getLength pdu.data attrEap)
          (RadiusAttr.getValueLength pdu.data attrEap),
        ((s'.keepState pdu attrState).framed (s'.eapRelayed pdu attrEap t.heap)).lastSent])
        (some ((s'.keepState pdu attrState).framed (s'.eapRelayed pdu attrEap t.heap)))
  | accepted {pdu : RadiusPDU} {response : Option RadiusPDU} (h : IsResponse Eap.md5 f)
      (hresponse : s.response md5 t.access (s.accessRequestMd5 t.access.fresh f.payload.body) =
        .ok (some pdu)) (hcode : pdu.getCode = RadiusPDU.accessAccept) :
      Handled md5 s t f (asked t.access (s.accessRequestMd5 t.access.fresh f.payload.body)
          (some pdu) ++ (s.framed (s.eapCode Eap.success)).lastSent ::
        asked t.accounting (s.accountStartRequest t.accounting.fresh) response)
        (some (s.framed (s.eapCode Eap.success)))

/-- A request that is answered is logged, and its response returned. -/
theorem makeRequest_of_ok {call : RequestCall S A H} {request : RadiusPDU}
    {response : Option RadiusPDU} (h : s.response md5 call request = .ok response) :
    (s.makeRequest md5 call request).result = .ok response ∧
      (s.makeRequest md5 call request).log = asked call request response := by
  have hrest : (s.makeRequest md5 call request) = (do
      Exec.tell (.requested (plainCallbacks call.env) request)
      Exec.tell (.answered response)
      pure response) := by
    rw [makeRequest, h]
  rw [hrest]
  exact ⟨rfl, rfl⟩

/-- A request that fails is logged, and the turn ends. -/
theorem makeRequest_of_error {call : RequestCall S A H} {request : RadiusPDU} {e : Unit}
    (h : s.response md5 call request = .error e) :
    (s.makeRequest md5 call request).result = .error () ∧ (s.makeRequest md5 call request).log =
      [.requested (plainCallbacks call.env) request] := by
  have hrest : (s.makeRequest md5 call request) = (do
      Exec.tell (.requested (plainCallbacks call.env) request)
      Exec.fail ()) := by
    rw [makeRequest, h]
  rw [hrest]
  exact ⟨rfl, rfl⟩

/-- A response of the RADIUS client is authentic. -/
theorem authentic_of_response {call : RequestCall S A H} {request pdu : RadiusPDU}
    (h : s.response md5 call request = .ok (some pdu)) : ∃ t, RadiusClient.Authentic
      (plainCallbacks call.env) md5 request s.radclient
      (s.radclient.makeRequest (plainCallbacks call.env) md5 request none).log pdu t := by
  unfold response at h
  cases hresult : (s.radclient.makeRequest (plainCallbacks call.env) md5 request none).result with
  | error e =>
    rw [hresult] at h
    cases h
  | ok returned =>
    obtain ⟨found, result⟩ := returned
    rw [hresult] at h
    cases h
    have hauthentic := RadiusClient.makeRequest_authentic hresult
    cases found with
    | false => cases hauthentic
    | true =>
      obtain ⟨response, t, hsome, ht⟩ := hauthentic
      cases hsome
      exact ⟨t, ht⟩

/-- What a response carries. -/
theorem carries_of_response {call : RequestCall S A H} {request pdu : RadiusPDU}
    (h : s.response md5 call request = .ok (some pdu)) : ∃ as, pdu.Carries as := by
  obtain ⟨t, ht⟩ := authentic_of_response h
  exact RadiusPDU.isValid_iff.mp ht.isValid

/-- A packet is sent, unless the driver does not take it. -/
theorem within_sendEap (out : EapPacket) (sends : Bool) :
    (s.sendEap out sends : Exec (Event S A H) Unit (SimuNas H)).Within
      [(s.framed out).lastSent] (some (s.framed out)) := by
  unfold sendEap
  cases sends with
  | true => exact .tell .pure
  | false => exact .fail

/-- A request, and what depends on its response. -/
theorem within_makeRequest {call : RequestCall S A H} {request : RadiusPDU}
    {k : Option RadiusPDU → Exec (Event S A H) Unit (SimuNas H)} {full : List (Event S A H)}
    {r : Option (SimuNas H)} {response : Option RadiusPDU}
    (h : s.response md5 call request = .ok response) (hk : (k response).Within full r) :
    (s.makeRequest md5 call request >>= k).Within (asked call request response ++ full) r := by
  obtain ⟨hresult, hlog⟩ := makeRequest_of_ok h
  rw [← hlog]
  exact .bind hresult hk

/-- A request that ends the program. -/
theorem within_makeRequest_of_error {call : RequestCall S A H} {request : RadiusPDU} {e : Unit}
    {k : Option RadiusPDU → Exec (Event S A H) Unit (SimuNas H)} (full : List (Event S A H))
    (r : Option (SimuNas H)) (h : s.response md5 call request = .error e) :
    (s.makeRequest md5 call request >>= k).Within
      (.requested (plainCallbacks call.env) request :: full) r := by
  obtain ⟨hresult, hlog⟩ := makeRequest_of_error h
  have hwithin : (s.makeRequest md5 call request >>= k).Within
      ((s.makeRequest md5 call request).log ++ full) r := .bind_error hresult
  rwa [hlog] at hwithin

/-- A request for accounting, whose response does not matter. -/
theorem within_account (s : SimuNas H) (md5 : Md5) (call : RequestCall S A H) (request : RadiusPDU) :
    ∃ response, (s.makeRequest md5 call request >>= fun _ =>
      (pure s : Exec (Event S A H) Unit (SimuNas H))).Within (asked call request response)
        (some s) := by
  cases hresponse : s.response md5 call request with
  | ok response =>
    have hwithin := within_makeRequest (s := s) (k := fun _ => pure s) hresponse .pure
    rw [List.append_nil] at hwithin
    exact ⟨response, hwithin⟩
  | error e => exact ⟨none, within_makeRequest_of_error [.answered none] _ hresponse⟩

/-- What is made of an identity. -/
theorem accessRequestId_eq_some {fresh : Mem} {pkt : EapPacket} {request : RadiusPDU}
    {s' : SimuNas H} : s.accessRequestId fresh pkt = some (request, s') ↔
      EapPacket.headerLen ≤ pkt.len ∧ ∃ attr,
        (nameRequest fresh pkt).findAttr RadiusAttr.userName = some (some attr) ∧
        request = (nameRequest fresh pkt).build (s.identityOps pkt) ∧
        s' = s.keepUserName (nameRequest fresh pkt) attr := by
  unfold accessRequestId
  by_cases hshort : pkt.len < EapPacket.headerLen
  · rw [if_pos hshort]
    exact iff_of_false (by simp) fun ⟨hlong, _⟩ => absurd hlong (Nat.not_le.mpr hshort)
  · rw [if_neg hshort, and_iff_right (Nat.not_lt.mp hshort)]
    generalize nameRequest fresh pkt = named
    simp only
    cases named.findAttr RadiusAttr.userName with
    | none => simp
    | some found =>
      cases found with
      | none => simp
      | some attr => simp [eq_comm]

/-- An identity is handled in a full turn, or in a part of it. -/
theorem handled_identity (h : IsResponse Eap.identity f) : ∃ full r, Handled md5 s t f full r ∧
    (s.handleIdentity md5 t f.payload.body).Within full r := by
  unfold handleIdentity sendAccessRequestId
  cases hrequest : s.accessRequestId t.access.fresh f.payload.body with
  | none => exact ⟨_, _, .unnamed h hrequest, .fail⟩
  | some made =>
    obtain ⟨request, s'⟩ := made
    have hmade := Authenticates.identity h hrequest
    obtain ⟨-, attr, -, -, hkeep⟩ := accessRequestId_eq_some.mp hrequest
    have hsame : s'.response md5 t.access request = s.response md5 t.access request := by
      rw [hkeep, response_keepUserName]
    simp only [bind_assoc, pure_bind]
    cases hresponse : s.response md5 t.access request with
    | error e =>
      exact ⟨_, _, .lost hmade, within_makeRequest_of_error [] _ (hsame.trans hresponse)⟩
    | ok response =>
      have hrest := hsame.trans hresponse
      have hrefused (hcode : ∀ pdu ∈ response, pdu.getCode ≠ RadiusPDU.accessChallenge) :
          Handled md5 s t f _ _ :=
        .refused hmade hresponse hcode
      cases response with
      | none =>
        exact ⟨_, _, hrefused (by simp), within_makeRequest hrest (within_sendEap ..)⟩
      | some pdu =>
        by_cases hcode : pdu.getCode = RadiusPDU.accessChallenge
        · have hrelay : ∃ full r, Handled md5 s t f (asked t.access request (some pdu) ++ full) r ∧
              (s'.sendEapRequestMd5 pdu t.heap t.sends : Exec (Event S A H) _ _).Within full r := by
            unfold sendEapRequestMd5
            split
            · rename_i attrEap attrState hmessage hstate
              exact ⟨_, _, .challenged h hrequest hresponse hcode hmessage hstate,
                .tell (within_sendEap ..)⟩
            · refine ⟨[], none, ?_, .fail⟩
              rw [List.append_nil]
              exact .unusable h hrequest hresponse hcode
          obtain ⟨full, r, hfull, hwithin⟩ := hrelay
          refine ⟨_, _, hfull, within_makeRequest hrest ?_⟩
          simpa only [hcode, if_true] using hwithin
        · refine ⟨_, _, hrefused ?_, within_makeRequest hrest ?_⟩
          · rintro _ ⟨⟩
            exact hcode
          · simp only [hcode, if_false]
            exact within_sendEap ..

/-- An MD5 response is handled in a full turn, or in a part of it. -/
theorem handled_md5 (h : IsResponse Eap.md5 f) : ∃ full r, Handled md5 s t f full r ∧
    (s.handleMd5 md5 t f.payload.body).Within full r := by
  unfold handleMd5 sendAccessRequestMd5
  have hmade : s.Authenticates t.access.fresh f _ s _ := .md5 h
  cases hresponse : s.response md5 t.access
    (s.accessRequestMd5 t.access.fresh f.payload.body) with
  | error e => exact ⟨_, _, .lost hmade, within_makeRequest_of_error [] _ hresponse⟩
  | ok response =>
    have hrefused (hcode : ∀ pdu ∈ response, pdu.getCode ≠ RadiusPDU.accessAccept) :
        Handled md5 s t f _ _ :=
      .refused hmade hresponse hcode
    cases response with
    | none => exact ⟨_, _, hrefused (by simp), within_makeRequest hresponse (within_sendEap ..)⟩
    | some pdu =>
      by_cases hcode : pdu.getCode = RadiusPDU.accessAccept
      · obtain ⟨response, haccount⟩ := within_account (s.framed (s.eapCode Eap.success)) md5
          t.accounting (s.accountStartRequest t.accounting.fresh)
        have haccepted : Handled md5 s t f
            (asked t.access _ _ ++ _ :: asked t.accounting _ response) _ :=
          .accepted h hresponse hcode
        refine ⟨_, _, haccepted, within_makeRequest hresponse ?_⟩
        simp only [hcode, if_true]
        unfold sendEapSuccess sendEap
        cases t.sends with
        | true =>
          simp only [if_true, bind_assoc, pure_bind]
          exact .tell haccount
        | false => exact .fail
      · refine ⟨_, _, hrefused ?_, within_makeRequest hresponse ?_⟩
        · rintro _ ⟨⟩
          exact hcode
        · simp only [hcode, if_false]
          exact within_sendEap ..

/-- What the program does with a frame that was received. -/
theorem handled (md5 : Md5) (s : SimuNas H) (t : Turn S A H) (f : Frame) :
    ∃ full r, Handled md5 s t f full r ∧ (s.handle md5 t f).Within full r := by
  unfold handle
  split
  · rename_i hstart
    exact ⟨_, _, .started hstart, within_sendEap ..⟩
  · rename_i hstart
    split
    · rename_i hlogoff
      obtain ⟨response, hwithin⟩ := within_account s md5 t.accounting
        (s.accountStopRequest t.accounting.fresh)
      exact ⟨_, _, .loggedOff hlogoff, hwithin⟩
    · rename_i hlogoff
      have hignored (hno : ∀ type, IsResponse type f → type ≠ Eap.identity ∧ type ≠ Eap.md5) :
          ∃ full r, Handled md5 s t f full r ∧
            (pure s : Exec (Event S A H) Unit (SimuNas H)).Within full r :=
        ⟨_, _, .ignored hstart hlogoff (fun h => (hno _ h).1 rfl) (fun h => (hno _ h).2 rfl), .pure⟩
      split
      · rename_i hpckt
        by_cases hcode : f.payload.body.code = Eap.response
        · simp only [hcode, ne_eq, not_true_eq_false, if_false]
          by_cases hid : f.payload.body.type = Eap.identity
          · rw [if_pos hid]
            exact handled_identity ⟨hpckt, hcode, hid⟩
          · by_cases hmd5 : f.payload.body.type = Eap.md5
            · rw [if_neg hid, if_pos hmd5]
              exact handled_md5 ⟨hpckt, hcode, hmd5⟩
            · rw [if_neg hid, if_neg hmd5]
              refine hignored fun type h => ?_
              rw [← h.type]
              exact ⟨hid, hmd5⟩
        · simp only [if_pos (Ne.symm hcode)]
          exact hignored fun _ h => absurd h.code hcode
      · rename_i hpckt
        exact hignored fun _ h => absurd h.isPckt hpckt

/-- What `receive` returns was handed over by the driver and carries a packet whose length fields
agree. The output buffer is left alone. -/
theorem receiveTurn_some {l l' : Ll8023} {d r : Option Frame}
    (h : receiveTurn l d = (l', some r)) : l'.outData = l.outData ∧
      ∀ f ∈ r, d = some f ∧ (f.payload.type = EapolPacket.pckt → f.LengthsMatch) := by
  unfold receiveTurn at h
  cases d with
  | none =>
    cases h
    exact ⟨rfl, by simp⟩
  | some f =>
    simp only at h
    split at h
    · cases h
    · split at h
      · cases h
      · rename_i hlengths
        simp only [Prod.mk.injEq] at h
        obtain ⟨rfl, h⟩ := h
        split at h
        · cases h
          refine ⟨by unfold Ll8023.recvHook Ll8023.recordSource; split <;> rfl, ?_⟩
          rintro _ ⟨⟩
          exact ⟨rfl, fun htype => by simpa [htype] using hlengths⟩
        · cases h

/-- Nor is it touched while `receive` waits for another frame. -/
theorem receiveTurn_none {l l' : Ll8023} {d : Option Frame} (h : receiveTurn l d = (l', none)) :
    l'.outData = l.outData := by
  unfold receiveTurn at h
  cases d with
  | none => cases h
  | some f =>
    simp only at h
    split at h
    · cases h
      rfl
    · split at h
      · cases h
        rfl
      · simp only [Prod.mk.injEq] at h
        rw [← h.1]
        unfold Ll8023.recvHook Ll8023.recordSource
        split <;> rfl

/-- A condition on the frames that are received. -/
def OnReceived (ok : List (Event S A H) → SimuNas H → Turn S A H → Frame → Prop)
    (past : List (Event S A H)) (s : SimuNas H) (t : Turn S A H) : Prop :=
  ∀ l f, receiveTurn s.io t.frame = (l, some (some f)) → ok past { s with io := l } t f

variable {I : List (Event S A H) → SimuNas H → Prop}
  {P : List (Event S A H) → Event S A H → Prop}
  {ok : List (Event S A H) → SimuNas H → Turn S A H → Frame → Prop} {past : List (Event S A H)}

/-- A relation to what came before that concerns requests only, and of these the ones for the answer
that was received last, holds in a turn if it holds of the request that is made for the answer. -/
theorem Handled.along_of_answer {P : List (Event S A H) → Event S A H → Prop}
    {past full : List (Event S A H)} {r : Option (SimuNas H)}
    (hquiet : ∀ past e, (∀ env request, e ≠ .requested env request) → P past e)
    (hother : ∀ past env request, (∀ before f, past = before ++ [.received f] →
      ¬IsResponse Eap.md5 f) → P past (.requested env request))
    (hanswer : IsResponse Eap.md5 f → P (past ++ [.received f])
      (.requested (plainCallbacks t.access.env)
        (s.accessRequestMd5 t.access.fresh f.payload.body)))
    (h : Handled md5 s t f full r) : Along P (past ++ [.received f]) full := by
  have hnot (hf : ¬IsResponse Eap.md5 f) (env : Environment S A H) (request : RadiusPDU) :
      P (past ++ [.received f]) (.requested env request) := by
    refine hother _ env request fun before g hpast hg => ?_
    cases (List.append_inj' hpast rfl).2
    exact hf hg
  have hbehind (history : List (Event S A H)) {e : Event S A H} (he : ∀ f, e ≠ .received f)
      (env : Environment S A H) (request : RadiusPDU) :
      P (history ++ [e]) (.requested env request) := by
    refine hother _ env request fun before g hpast _ => ?_
    exact he g (List.cons.inj (List.append_inj' hpast rfl).2).1
  have hmade {request : RadiusPDU} {s' : SimuNas H} {code : UInt8}
      (hmade : s.Authenticates t.access.fresh f request s' code) :
      P (past ++ [.received f]) (.requested (plainCallbacks t.access.env) request) := by
    cases hmade with
    | identity hf => exact hnot (fun hg => by cases hg.type.symm.trans hf.type) _ _
    | md5 hf => exact hanswer hf
  have hsent (past : List (Event S A H)) (u : SimuNas H) : P past u.lastSent :=
    hquiet past _ fun _ _ he => by cases he
  have hanswered (past : List (Event S A H)) (response : Option RadiusPDU) :
      P past (.answered response) := hquiet past _ fun _ _ he => by cases he
  cases h with
  | ignored | unnamed => exact .nil
  | started => exact .single (hsent _ _)
  | loggedOff hlogoff =>
    refine .cons (hnot (fun hf => ?_) _ _) (.single (hanswered _ _))
    cases hlogoff.symm.trans hf.isPckt
  | lost h => exact .single (hmade h)
  | refused h => exact .cons (hmade h) (.cons (hanswered _ _) (.single (hsent _ _)))
  | unusable hf hrequest =>
    exact .cons (hmade (.identity hf hrequest)) (.single (hanswered _ _))
  | challenged hf hrequest =>
    refine .cons (hmade (.identity hf hrequest)) (.cons (hanswered _ _) (.cons ?_ ?_))
    · exact hquiet _ _ fun _ _ he => by cases he
    · exact .single (hsent _ _)
  | accepted hf =>
    refine .cons (hanswer hf) (.cons (hanswered _ _) (.cons (hsent _ _) (.cons ?_ ?_)))
    · exact hbehind _ (fun _ he => by cases he) _ _
    · exact .single (hanswered _ _)

/-- The rule for a turn. -/
theorem extends_step
    (hio : ∀ past s l, I past s → l.outData = s.io.outData → I past { s with io := l })
    (hreceived : ∀ past f, P past (.received f))
    (hhandled : ∀ past s t f full r, I past s → ok past s t f → Handled md5 s t f full r →
      Along P (past ++ [.received f]) full ∧
        ∀ s', r = some s' → I (past ++ [.received f] ++ full) s')
    (hI : I past s) (hok : OnReceived ok past s t) : Exec.Extends I P past (step md5 s t) := by
  have hquiet {s' : SimuNas H} (hs' : I past s') :
      Exec.Extends I P past (pure s' : Exec (Event S A H) Unit (SimuNas H)) := by
    refine Exec.Within.pure.extends_of .nil fun t ht => ?_
    cases ht
    rwa [List.append_nil]
  unfold step
  split
  · rename_i l hturn
    exact hquiet (hio _ _ _ hI (receiveTurn_none hturn))
  · rename_i l hturn
    exact hquiet (hio _ _ _ (hio _ _ _ hI (receiveTurn_some hturn).1) rfl)
  · rename_i l f hturn
    obtain ⟨full, r, hfull, hwithin⟩ := handled md5 { s with io := l } t f
    obtain ⟨halong, hI'⟩ := hhandled past _ t f full r (hio _ _ _ hI (receiveTurn_some hturn).1)
      (hok l f hturn) hfull
    refine (Exec.Within.tell hwithin.bind_pure).extends_of (.cons (hreceived past f) halong) ?_
    intro s' hs'
    obtain ⟨u, rfl, rfl⟩ := Option.map_eq_some_iff.mp hs'
    have hend := hio _ _ { u.io with paeChanged := false } (hI' u rfl) rfl
    rwa [List.append_assoc] at hend

/-- The rule for a run whose received frames meet a condition. -/
theorem extends_run
    (hio : ∀ past s l, I past s → l.outData = s.io.outData → I past { s with io := l })
    (hreceived : ∀ past f, P past (.received f))
    (hhandled : ∀ past s t f full r, I past s → ok past s t f → Handled md5 s t f full r →
      Along P (past ++ [.received f]) full ∧
        ∀ s', r = some s' → I (past ++ [.received f] ++ full) s')
    (hI : I [] s) {ts : List (Turn S A H)}
    (hok : Exec.Meets (step md5) (OnReceived ok) [] s ts) :
    Exec.Extends I P [] (run md5 s ts) :=
  .foldlM (fun _ _ _ => extends_step hio hreceived hhandled) hI hok

/-- The rule for a run. -/
theorem extends_run_of_forall
    (hio : ∀ past s l, I past s → l.outData = s.io.outData → I past { s with io := l })
    (hreceived : ∀ past f, P past (.received f))
    (hhandled : ∀ past s t f full r, I past s → Handled md5 s t f full r →
      Along P (past ++ [.received f]) full ∧
        ∀ s', r = some s' → I (past ++ [.received f] ++ full) s')
    (hI : I [] s) {ts : List (Turn S A H)} : Exec.Extends I P [] (run md5 s ts) := by
  have hok : Exec.Meets (step md5) (OnReceived fun _ _ _ _ => True) [] s ts :=
    fun _ _ _ _ _ _ _ _ _ => trivial
  exact extends_run hio hreceived
    (fun past s t f full r hI _ hturn => hhandled past s t f full r hI hturn) hI hok

end SimuNas

end Dot1x.Nas
