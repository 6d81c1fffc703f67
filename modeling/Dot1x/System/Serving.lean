import Dot1x.Nas.Relay
import Dot1x.System.Hearing

/-!
# The server responds

A start makes the server ask for an identity. The identity goes into a request, and what the response
challenges goes to the station. The answer to that goes into another request, and its response decides
which packet ends the authentication.
-/

namespace Dot1x.System

open Dot1x.Base Dot1x.Wire Dot1x.Eap Dot1x.Link Dot1x.Radius Dot1x.Nas
open Dot1x.Nas (SimuNas)

variable {S A H : Type} [DecidableEq A]

/-- What a RADIUS client returns for a request. -/
def responseOf (r : RadiusClient H) (md5 : Md5) (call : RequestCall S A H) (request : RadiusPDU) :
    Except Unit (Option RadiusPDU) :=
  (r.makeRequest (plainCallbacks call.env) md5 request none).result.map Prod.snd

/-- The attributes for EAP hold some bytes. -/
def HoldsEap (request : RadiusPDU) (bs : List UInt8) : Prop :=
  ∃ as, request.attributes = some as ∧ eapBytes as = bs

/-- The response challenges the station, and has a state for the server to keep. -/
def ChallengesWith (pdu : RadiusPDU) (challenge : Message) : Prop :=
  pdu.getCode = RadiusPDU.accessChallenge ∧ ∃ as, pdu.attributes = some as ∧
    (∃ a, as.find? (·.type = RadiusAttr.eapMessage) = some a ∧ a.value = challenge.encode) ∧
    ∃ a, as.find? (·.type = RadiusAttr.state) = some a

/-- The response accepts the station. -/
def Accepts (response : Option RadiusPDU) : Prop :=
  ∃ pdu ∈ response, pdu.getCode = RadiusPDU.accessAccept

instance (response : Option RadiusPDU) : Decidable (Accepts response) :=
  inferInstanceAs (Decidable (∃ pdu ∈ response, pdu.getCode = RadiusPDU.accessAccept))

/-- A request for access that can be authenticated and sent, and whose attributes for EAP hold a
message. -/
structure Asks (request : RadiusPDU) (m : Message) : Prop where
  code : request.getCode = RadiusPDU.accessRequest
  room : request.getLength + 18 ≤ RadiusPDU.maxPduLength
  carries : ∃ as, request.Carries as ∧ eapBytes as = m.encode ∧
    ∀ a ∈ as, a.type ≠ RadiusAttr.userPassword ∧ a.type ≠ RadiusAttr.messageAuthenticator

/-- What the server keeps for its next request are a state and a name. -/
def KeepsOwn (u : SimuNas H) : Prop :=
  (∀ a ∈ kept u.tmpState, a.type = RadiusAttr.state) ∧
    ∀ a ∈ kept u.tmpUserName, a.type = RadiusAttr.userName

variable {md5 : Md5} {u u' : SimuNas H} {t : Turn S A H} {f : Frame} {m : Message} {out : EapPacket}

/-- A request that asks for a message holds it. -/
theorem Asks.holdsEap {request : RadiusPDU} (h : Asks request m) : HoldsEap request m.encode := by
  obtain ⟨as, has, hbytes, -⟩ := h.carries
  exact ⟨as, has.attributes, hbytes⟩

/-- A request with few attributes can be authenticated. -/
theorem asks_of_carries {request : RadiusPDU} {as : List Tlv} (h : request.Carries as)
    (hcode : request.getCode = RadiusPDU.accessRequest) (hbytes : eapBytes as = m.encode)
    (hfew : as.length ≤ 15) (htypes : ∀ a ∈ as, a.type ≠ RadiusAttr.userPassword ∧
      a.type ≠ RadiusAttr.messageAuthenticator) : Asks request m := by
  refine ⟨hcode, ?_, as, h, hbytes, htypes⟩
  have hend : request.getLength = 20 + (Tlv.bytesAll as).length := h.stored.end_eq
  have hlength := h.stored.length_le
  change request.getLength + 18 ≤ 4096
  omega

/-- Sending keeps what is kept. -/
theorem keepsOwn_waiting (h : KeepsOwn u) (out : EapPacket) : KeepsOwn (u.framed out).waiting := h

/-- A state that is kept, and the name from before. -/
theorem keepsOwn_keepState {pdu : RadiusPDU} {attr : ℕ}
    (hname : ∀ a ∈ kept u.tmpUserName, a.type = RadiusAttr.userName)
    (hvalid : RadiusAttr.isValid pdu.data attr = true)
    (htype : (Tlv.read pdu.data attr).type = RadiusAttr.state) : KeepsOwn (u.keepState pdu attr) := by
  refine ⟨fun a ha => ?_, hname⟩
  change a ∈ kept (RadiusAttr.assign u.tmpState pdu.data attr) at ha
  rw [kept_assign hvalid] at ha
  rw [List.mem_singleton.mp ha, htype]

/-- What the requests for an identity are built of are neither passwords nor authenticators. -/
private theorem types_identityOps (u : SimuNas H) (pkt : EapPacket) : ∀ a ∈ ⟨RadiusAttr.userName,
    userNameOf pkt⟩ :: AppendOp.appended (u.identityOps pkt),
      a.type ≠ RadiusAttr.userPassword ∧ a.type ≠ RadiusAttr.messageAuthenticator := by
  intro a ha
  rcases List.mem_cons.mp ha with rfl | ha
  · exact ⟨by simp [RadiusAttr.userName, RadiusAttr.userPassword],
      by simp [RadiusAttr.userName, RadiusAttr.messageAuthenticator]⟩
  · obtain ⟨op, hop, rfl⟩ := List.mem_map.mp ha
    have hmem := List.mem_of_mem_filter hop
    simp only [SimuNas.identityOps, List.mem_cons, List.not_mem_nil, or_false] at hmem
    rcases hmem with rfl | rfl | rfl | rfl | rfl | rfl | rfl | rfl | rfl <;>
      simp [AppendOp.requested, RadiusAttr.nasPort, RadiusAttr.serviceType, RadiusAttr.nasPortType,
        RadiusAttr.framedProtocol, RadiusAttr.eapMessage, RadiusAttr.framedIpAddress,
        RadiusAttr.callingStationId, RadiusAttr.nasIdentifier, RadiusAttr.nasIpAddress,
        RadiusAttr.userPassword, RadiusAttr.messageAuthenticator]

/-- A packet for an identity is asked about. -/
theorem asks_accessRequestId {fresh : Mem} {pkt : EapPacket} {request : RadiusPDU}
    (h : u.accessRequestId fresh pkt = some (request, u')) (hbytes : CarriesEap request pkt)
    (hcontents : pkt.contents = m.encode) : Asks request m := by
  obtain ⟨⟨hcarries, hcode⟩, -⟩ := SimuNas.carries_accessRequestId h
  obtain ⟨as, has, hheld⟩ := hbytes
  cases hcarries.attributes.symm.trans has
  refine asks_of_carries hcarries hcode (hheld.trans hcontents) ?_ (types_identityOps u pkt)
  have hfew := List.length_filter_le (fun op : AppendOp => decide op.Acceptable) (u.identityOps pkt)
  rw [List.length_cons, AppendOp.appended, List.length_map]
  exact Nat.succ_le_succ (Nat.le_trans hfew (by simp [SimuNas.identityOps]))

/-- A short packet for a challenge is asked about. -/
theorem asks_accessRequestMd5 (h : KeepsOwn u) (fresh : Mem) {pkt : EapPacket} (hlen : pkt.len ≤ 253)
    (hcontents : pkt.contents = m.encode) : Asks (u.accessRequestMd5 fresh pkt) m := by
  obtain ⟨hcarries, hcode⟩ := SimuNas.carries_accessRequestMd5 u fresh pkt
  have hlength : pkt.contents.length = pkt.len := Pointer.bytes_length ..
  have hkept (mem : Mem) : (kept mem).length ≤ 1 := by
    rw [kept]
    split <;> simp
  have hfitting : fitting RadiusAttr.eapMessage pkt.contents = [⟨RadiusAttr.eapMessage, pkt.contents⟩] :=
    if_pos (by omega)
  have htypes : ∀ a ∈ kept u.tmpState ++ kept u.tmpUserName, a.type = RadiusAttr.state ∨
      a.type = RadiusAttr.userName := fun a ha =>
    (List.mem_append.mp ha).imp (h.1 a) (h.2 a)
  rw [hfitting] at hcarries
  refine asks_of_carries hcarries hcode ?_ ?_ fun a ha => ?_
  · have hnone : eapBytes (kept u.tmpState ++ kept u.tmpUserName) = [] := by
      refine eapBytes_eq_nil fun a ha => ?_
      rcases htypes a ha with htype | htype <;> rw [htype] <;> decide
    rw [eapBytes_append, hnone, List.nil_append, ← hcontents]
    simp [eapBytes]
  · have hstate := hkept u.tmpState
    have hname := hkept u.tmpUserName
    simp only [List.length_append, List.length_cons, List.length_nil]
    omega
  · rcases List.mem_append.mp ha with ha | ha
    · rcases htypes a ha with htype | htype <;> rw [htype] <;> exact ⟨by decide, by decide⟩
    · rw [List.mem_singleton.mp ha]
      exact ⟨by simp [RadiusAttr.eapMessage, RadiusAttr.userPassword],
        by simp [RadiusAttr.eapMessage, RadiusAttr.messageAuthenticator]⟩

/-- A frame for the group is received. -/
private theorem receiveTurn_of_group (l : Ll8023) (hgroup : ForGroup f.mem)
    (hlengths : f.payload.type = EapolPacket.pckt → f.LengthsMatch) :
    ∃ l', receiveTurn l (some f) = (l', some (some f)) ∧ l'.outData = l.outData := by
  have heapol : ¬(f.mem 12 ≠ 0x88 ∨ f.mem 13 ≠ 0x8e) := by
    rw [hgroup.high, hgroup.low]
    decide
  have hhook : (Ll8023.recvHook { l with inData := some f } f).2 = true :=
    decide_eq_true (Or.inl hgroup.dst)
  refine ⟨(Ll8023.recvHook { l with inData := some f } f).1, ?_, Ll8023.recordSource_outData _ f⟩
  simp only [receiveTurn, if_neg heapol, hhook, if_true]
  rw [if_neg (by simpa using hlengths)]

/-- A turn for a frame that is received is what is done with the frame. -/
theorem step_of_received (md5 : Md5) (u : SimuNas H) (hframe : t.frame = some f)
    (hgroup : ForGroup f.mem)
    (hlengths : f.payload.type = EapolPacket.pckt → f.LengthsMatch) :
    ∃ l', l'.outData = u.io.outData ∧ u.step md5 t = (do
      Exec.tell (.received f)
      let s ← SimuNas.handle { u with io := l' } md5 t f
      pure s.waiting) := by
  obtain ⟨l', hturn, hout⟩ := receiveTurn_of_group u.io hgroup hlengths
  refine ⟨l', hout, ?_⟩
  rw [SimuNas.step, hframe, hturn]

/-- A packet was built in the output buffer, behind the headers of the frame. -/
structure Built (u : SimuNas H) (out : EapPacket) : Prop where
  data : out.data = 18
  mem : ∀ i < 18, out.mem i = u.io.outData i

/-- What is left for the next turn: a buffer whose frames are for the group, and the RADIUS client. -/
structure Continues (u u' : SimuNas H) : Prop where
  group : ForGroup u'.io.outData
  radclient : u'.radclient = u.radclient

/-- A packet that was built in the output buffer is said. -/
theorem says_framed (hgroup : ForGroup u.io.outData) (hbuilt : Built u out) (hlong : 4 ≤ out.len) :
    Says (u.framed out).io.outData (u.framed out).io.outLen (Message.ofPacket out) ∧
      Continues u (u.framed out) := by
  obtain ⟨-, -, hlen⟩ := SimuNas.fields_framed u hbuilt.data
  obtain ⟨hbody, houtLen⟩ := SimuNas.sentBodyLen_framed u hbuilt.data
  have hfor : ForGroup (u.framed out).io.outData := hgroup.congr fun i hi =>
    (Ll8023.makeEapol_outData { u.io with outData := out.mem } _ (Or.inl (by omega))).trans
      (hbuilt.mem i (by omega))
  refine ⟨⟨by rw [Whole, houtLen, hbody], hfor, ?_, hlen.trans hbody.symm, by omega, ?_⟩, hfor, rfl⟩
  · exact makeEapol_type { u.io with outData := out.mem } (by decide)
  · exact ofPacket_of_bytes (SimuNas.sentPacket_framed u hbuilt.data)

/-- What is stored behind the headers leaves them alone. -/
theorem Built.store (h : Built u out) (i : ℕ) (bs : List UInt8) : Built u (out.store i bs) := by
  refine ⟨h.data, fun j hj => ?_⟩
  have hdata := h.data
  exact (write_of_outside (Or.inl (by omega))).trans (h.mem j hj)

/-- Nothing was built yet. -/
theorem built_output (u : SimuNas H) : Built u u.io.output.body := ⟨rfl, fun _ _ => rfl⟩

/-- The identity request is built in the output buffer. -/
theorem built_eapRequestId (u : SimuNas H) : Built u u.eapRequestId := by
  rw [SimuNas.eapRequestId, EapPacket.setLen_eq, EapPacket.setType_eq]
  exact (((built_output u).store _ _).store _ _).store _ _

/-- A packet with a code is built in the output buffer. -/
theorem built_eapCode (u : SimuNas H) (code : ℕ) : Built u (u.eapCode code) := by
  rw [SimuNas.eapCode, EapPacket.setLen_eq]
  exact ((built_output u).store _ _).store _ _

/-- A packet that is passed on is built in the output buffer. -/
theorem built_eapRelayed (u : SimuNas H) (pdu : RadiusPDU) (attr : ℕ) (heap : Mem) :
    Built u (u.eapRelayed pdu attr heap) :=
  (built_output u).store _ _

/-- The packet that asks for an identity. -/
theorem message_eapRequestId (u : SimuNas H) : u.eapRequestId.len = 5 ∧
    Message.ofPacket u.eapRequestId = ⟨1, u.io.output.body.byte 1, 1, []⟩ := by
  have hlen : u.eapRequestId.len = 5 := EapPacket.len_setLen ..
  have hcode : u.eapRequestId.byte 0 = 1 := UInt8.toNat_inj.mp (SimuNas.code_eapRequestId u)
  refine ⟨hlen, ?_⟩
  have hid : u.eapRequestId.byte 1 = u.io.output.body.byte 1 := by
    rw [SimuNas.eapRequestId, EapPacket.setLen_eq, Pointer.byte_store_of_outside (by simp),
      EapPacket.setType_eq, Pointer.byte_store_of_outside (by simp)]
    change write u.io.outData 18 [UInt8.ofNat Eap.request] 19 = u.io.outData 19
    exact write_of_outside (Or.inr (Nat.le_refl 19))
  have htype : u.eapRequestId.byte 4 = 1 := by
    rw [SimuNas.eapRequestId, EapPacket.setLen_eq, Pointer.byte_store_of_outside (by simp),
      EapPacket.setType_eq, Pointer.byte_store, if_pos (by simp)]
    rfl
  rw [Message.ofPacket, hlen, hcode, hid, htype]
  rfl

/-- The packet that ends an authentication. -/
theorem message_eapCode (u : SimuNas H) {code : ℕ} (hcode : code < 256) :
    (u.eapCode code).len = 4 ∧ Message.ofPacket (u.eapCode code) =
      ⟨UInt8.ofNat code, u.io.output.body.byte 1, 0, []⟩ := by
  obtain ⟨hread, hlen, hid⟩ := SimuNas.fields_eapCode u hcode
  refine ⟨hlen, ?_⟩
  have hfirst : (u.eapCode code).byte 0 = UInt8.ofNat code := by
    refine UInt8.toNat_inj.mp ?_
    rw [UInt8.toNat_ofNat', Nat.mod_eq_of_lt hcode, ← EapPacket.code_eq, hread]
  have hsecond : (u.eapCode code).byte 1 = u.io.output.body.byte 1 := UInt8.toNat_inj.mp hid
  rw [Message.ofPacket, hlen, hfirst, hsecond]
  rfl

/-- The packet that is relayed from a challenge. -/
theorem message_eapRelayed {pdu : RadiusPDU} {as : List Tlv} (h : pdu.Carries as) {attr : ℕ} {a : Tlv}
    (hfind : pdu.findAttr RadiusAttr.eapMessage = some (some attr))
    (ha : as.find? (·.type = RadiusAttr.eapMessage) = some a) (hvalue : a.value = m.encode)
    (hsmall : m.data.length < 2 ^ 15) (heap : Mem) (u : SimuNas H) :
    (u.eapRelayed pdu attr heap).len = 5 + m.data.length ∧
      Message.ofPacket (u.eapRelayed pdu attr heap) = m := by
  obtain ⟨a', ha', -, -, hbyte⟩ := u.byte_eapRelayed h hfind heap
  cases ha.symm.trans ha'
  refine ofPacket_of_encode hsmall fun i hi => ?_
  rw [hbyte, hvalue, if_pos hi]

section Turns

variable {challenge : Message} {i : UInt8} {user data : List UInt8}

/-- Asked to start, the server asks for an identity. -/
theorem server_asks (md5 : Md5) (hgroup : ForGroup u.io.outData) (hframe : t.frame = some f)
    (hfor : ForGroup f.mem) (htype : f.payload.type = EapolPacket.start) (hsends : t.sends = true) :
    ∃ u' data len i, (u.step md5 t).result = .ok u' ∧ .sent data len ∈ (u.step md5 t).log ∧
      Says data len ⟨1, i, 1, []⟩ ∧ Continues u u' := by
  have hother : f.payload.type = EapolPacket.pckt → f.LengthsMatch := by
    rw [htype]
    exact nofun
  obtain ⟨l, hout, hstep⟩ := step_of_received md5 u hframe hfor hother
  let v : SimuNas H := { u with io := l }
  have hhandle : SimuNas.handle v md5 t f = (do
      Exec.tell (v.framed v.eapRequestId).lastSent
      pure (v.framed v.eapRequestId)) := by
    rw [SimuNas.handle, if_pos htype, SimuNas.sendEapRequestId, SimuNas.sendEap, if_pos hsends]
  obtain ⟨hlen, hmessage⟩ := message_eapRequestId v
  obtain ⟨hsaid, hfor', hclient⟩ := says_framed (u := v) (hout ▸ hgroup) (built_eapRequestId v)
    (by omega)
  rw [hstep, hhandle]
  refine ⟨_, _, _, _, rfl, ?_, hmessage ▸ hsaid, hfor', hclient⟩
  exact List.mem_cons_of_mem _ List.mem_cons_self

/-- The response of an identity is handled as one. -/
private theorem handle_of_identity (h : Hears f ⟨2, i, 1, user⟩) (u : SimuNas H) :
    u.handle md5 t f = u.handleIdentity md5 t f.payload.body := by
  have hcode : f.payload.body.code = Eap.response := h.code
  have htype : f.payload.body.type = Eap.identity := h.packetType (by simp)
  rw [SimuNas.handle, if_neg (by rw [h.type]; decide), if_neg (by rw [h.type]; decide),
    if_pos h.type]
  simp only [hcode, htype, ne_eq, not_true_eq_false, if_false, if_true]

/-- A challenge is passed on after the name and the state are kept. -/
theorem handleIdentity_of_challenge {pkt : EapPacket} {request pdu : RadiusPDU} {attrEap attrState : ℕ}
    (hrequest : u.accessRequestId t.access.fresh pkt = some (request, u'))
    (hresponse : u'.response md5 t.access request = .ok (some pdu))
    (hcode : pdu.getCode = RadiusPDU.accessChallenge)
    (hmessage : pdu.findAttr RadiusAttr.eapMessage = some (some attrEap))
    (hstate : pdu.findAttr RadiusAttr.state = some (some attrState)) (hsends : t.sends = true) :
    (u.handleIdentity md5 t pkt).result = .ok ((u'.keepState pdu attrState).framed
        ((u'.keepState pdu attrState).eapRelayed pdu attrEap t.heap)) ∧
      ((u'.keepState pdu attrState).framed
        ((u'.keepState pdu attrState).eapRelayed pdu attrEap t.heap)).lastSent ∈
          (u.handleIdentity md5 t pkt).log := by
  obtain ⟨hresult, hlog⟩ := SimuNas.makeRequest_of_ok hresponse
  unfold SimuNas.handleIdentity SimuNas.sendAccessRequestId
  rw [hrequest]
  simp only [bind_assoc, pure_bind]
  refine ⟨?_, Exec.mem_log_bind_right hresult ?_⟩
  · rw [Exec.result_bind_of_ok hresult]
    simp only [hcode, if_true, hsends]
    rw [SimuNas.sendEapRequestMd5, hmessage, hstate]
    rfl
  · simp only [hcode, if_true, hsends]
    exact SimuNas.mem_sendEapRequestMd5 hmessage hstate t.heap

/-- What a RADIUS server is asked about an identity, and how its challenge is passed on. -/
theorem server_challenges (md5 : Md5) (challenge : Message)
    (hgroup : ForGroup u.io.outData) (h : Hears f ⟨2, i, 1, user⟩)
    (hshort : user.length ≤ 248) (fresh : Mem) : ∃ request,
      Asks request ⟨2, i, 1, user⟩ ∧
      ∀ (t : Turn S A H) pdu, t.frame = some f → t.sends = true → t.access.fresh = fresh →
        responseOf u.radclient md5 t.access request = .ok (some pdu) →
        ChallengesWith pdu challenge → challenge.data.length < 2 ^ 15 →
        ∃ u' data len, (u.step md5 t).result = .ok u' ∧ .sent data len ∈ (u.step md5 t).log ∧
          Says data len challenge ∧ Continues u u' ∧ KeepsOwn u' := by
  have hlen := h.packetLen (by simp)
  have hcontents := h.contents (by simp)
  simp only at hlen
  obtain ⟨request, v, hrequest, hbytes⟩ :=
    (SimuNas.carriesEap_accessRequestId u fresh f.payload.body).mpr ⟨by omega, by omega⟩
  obtain ⟨hheader, attr, hfind, hmade, -⟩ := SimuNas.accessRequestId_eq_some.mp hrequest
  refine ⟨request, asks_accessRequestId hrequest hbytes hcontents, ?_⟩
  intro t pdu hframe hsends hfresh hresponse hchallenges hsmall
  obtain ⟨hcode, bs, hattrs, ⟨a, ha, hvalue⟩, state, hstate⟩ := hchallenges
  obtain ⟨l, hout, hstep⟩ := step_of_received md5 u hframe h.group fun _ => h.lengths
  -- The request does not depend on the frame that came last.
  let w : SimuNas H := SimuNas.keepUserName { u with io := l }
    (SimuNas.nameRequest fresh f.payload.body) attr
  have hrequest' : SimuNas.accessRequestId { u with io := l } t.access.fresh f.payload.body =
      some (request, w) :=
    SimuNas.accessRequestId_eq_some.mpr ⟨hheader, attr, hfresh ▸ hfind, hfresh ▸ hmade, by rw [hfresh]⟩
  obtain ⟨-, hname, -⟩ := SimuNas.carries_accessRequestId hrequest'
  obtain ⟨cs, hcarries⟩ := SimuNas.carries_of_response (s := w) hresponse
  cases hcarries.attributes.symm.trans hattrs
  obtain ⟨attrEap, hmessage⟩ := hcarries.findAttr_of_find? ha
  obtain ⟨attrState, hfound⟩ := hcarries.findAttr_of_find? hstate
  obtain ⟨hresult, hsent⟩ := handleIdentity_of_challenge hrequest' hresponse hcode hmessage hfound
    hsends
  obtain ⟨hlong, hmessage'⟩ := message_eapRelayed hcarries hmessage ha hvalue hsmall t.heap
    (w.keepState pdu attrState)
  obtain ⟨hsaid, hfor, hclient⟩ := says_framed (u := w.keepState pdu attrState)
    (show ForGroup l.outData from hout ▸ hgroup) (built_eapRelayed _ pdu attrEap t.heap) (by omega)
  rw [hmessage'] at hsaid
  rw [hstep, handle_of_identity h]
  have hkeeps : KeepsOwn (w.keepState pdu attrState) := by
    obtain ⟨state', hfirst, hread, -, hvalid⟩ := hcarries.findAttr_eq_some hfound
    have htype : state'.type = RadiusAttr.state := by simpa using List.find?_some hfirst
    refine keepsOwn_keepState ?_ hvalid (hread ▸ htype)
    rw [hname]
    exact List.forall_mem_singleton.mpr rfl
  refine ⟨_, _, _, Exec.result_bind_of_ok hresult, ?_, hsaid, ⟨hfor, hclient⟩,
    keepsOwn_waiting hkeeps _⟩
  exact List.mem_cons_of_mem _ (Exec.mem_log_bind_left hsent)

/-- The response of a challenge is handled as one. -/
private theorem handle_of_md5 (h : Hears f ⟨2, i, 4, data⟩) (u : SimuNas H) :
    u.handle md5 t f = u.handleMd5 md5 t f.payload.body := by
  have hcode : f.payload.body.code = Eap.response := h.code
  have htype : f.payload.body.type = Eap.md5 := h.packetType (by simp)
  rw [SimuNas.handle, if_neg (by rw [h.type]; decide), if_neg (by rw [h.type]; decide),
    if_pos h.type]
  simp only [hcode, htype, ne_eq, not_true_eq_false, if_false, if_true]
  rfl

/-- The packet that ends the authentication says what the response said. -/
theorem handleMd5_of_response {pkt : EapPacket} {response : Option RadiusPDU}
    (hresponse : u.response md5 t.access (u.accessRequestMd5 t.access.fresh pkt) = .ok response)
    (hsends : t.sends = true) :
    (u.framed (u.eapCode (if Accepts response then Eap.success else Eap.failure))).lastSent ∈
      (u.handleMd5 md5 t pkt).log := by
  obtain ⟨hresult, hlog⟩ := SimuNas.makeRequest_of_ok hresponse
  refine Exec.mem_log_bind_right hresult ?_
  have hrefuses : (u.framed (u.eapCode Eap.failure)).lastSent ∈
      (u.sendEapFail t.sends : Exec (Event S A H) Unit (SimuNas H)).log := by
    rw [SimuNas.sendEapFail, SimuNas.sendEap, if_pos hsends]
    exact List.mem_cons_self
  cases response with
  | none =>
    rw [if_neg (by simp [Accepts])]
    exact hrefuses
  | some pdu =>
    by_cases hcode : pdu.getCode = RadiusPDU.accessAccept
    · have haccepts : Accepts (some pdu) := ⟨pdu, rfl, hcode⟩
      rw [if_pos haccepts]
      simp only [hcode, if_true]
      refine Exec.mem_log_bind_left ?_
      rw [SimuNas.sendEapSuccess, SimuNas.sendEap, if_pos hsends]
      exact List.mem_cons_self
    · have hrejects : ¬Accepts (some pdu) := by
        rintro ⟨_, ⟨⟩, h⟩
        exact hcode h
      rw [if_neg hrejects]
      simp only [hcode, if_false]
      exact hrefuses

/-- What a RADIUS server is asked about the answer to a challenge, and how its verdict is passed on. -/
theorem server_decides (md5 : Md5) (hgroup : ForGroup u.io.outData) (hkeeps : KeepsOwn u)
    (h : Hears f ⟨2, i, 4, data⟩) (hshort : data.length ≤ 248) (fresh : Mem) : ∃ request,
      Asks request ⟨2, i, 4, data⟩ ∧
      ∀ (t : Turn S A H) response, t.frame = some f → t.sends = true → t.access.fresh = fresh →
        responseOf u.radclient md5 t.access request = .ok response →
        ∃ buf len j, .sent buf len ∈ (u.step md5 t).log ∧
          Says buf len ⟨if Accepts response then 3 else 4, j, 0, []⟩ := by
  have hlen := h.packetLen (by simp)
  have hcontents := h.contents (by simp)
  simp only at hlen
  refine ⟨u.accessRequestMd5 fresh f.payload.body,
    asks_accessRequestMd5 hkeeps fresh (by omega) hcontents, ?_⟩
  · intro t response hframe hsends hfresh hresponse
    obtain ⟨l, hout, hstep⟩ := step_of_received md5 u hframe h.group fun _ => h.lengths
    let v : SimuNas H := { u with io := l }
    have hsame : v.accessRequestMd5 t.access.fresh f.payload.body =
        u.accessRequestMd5 fresh f.payload.body := by
      rw [hfresh]
      rfl
    have hmade : v.response md5 t.access (v.accessRequestMd5 t.access.fresh f.payload.body) =
        .ok response := by
      rw [hsame]
      exact hresponse
    have hsmall : (if Accepts response then Eap.success else Eap.failure) < 256 := by
      split <;> decide
    obtain ⟨hlong, hmessage⟩ := message_eapCode v hsmall
    obtain ⟨hsaid, -⟩ := says_framed (u := v) (hout ▸ hgroup) (built_eapCode v _)
      (Nat.le_of_eq hlong.symm)
    have hends : UInt8.ofNat (if Accepts response then Eap.success else Eap.failure) =
        if Accepts response then 3 else 4 := by
      split <;> rfl
    rw [hmessage, hends] at hsaid
    refine ⟨_, _, _, ?_, hsaid⟩
    rw [hstep, handle_of_md5 h]
    exact List.mem_cons_of_mem _ (Exec.mem_log_bind_left (handleMd5_of_response hmade hsends))

end Turns

end Dot1x.System
