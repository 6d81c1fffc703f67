import Dot1x.Nas.Sessions

/-!
# Passing EAP packets on

Towards the server a packet goes into one attribute, so it must be short; what does not fit is left out
without notice. Towards the supplicant the value of the first attribute is copied, and two bytes from
behind it, since the length that is used is that of the attribute.
-/

namespace Dot1x.Nas

open Dot1x.Base Dot1x.Wire Dot1x.Eap Dot1x.Link Dot1x.Radius

variable {S A H : Type} [DecidableEq A]

/-- The bytes that the attributes for EAP hold together. -/
def eapBytes (as : List Tlv) : List UInt8 :=
  (as.filter (·.type = RadiusAttr.eapMessage)).flatMap Tlv.value

/-- The attributes for EAP of a request hold a packet. -/
def CarriesEap (request : RadiusPDU) (pkt : EapPacket) : Prop :=
  ∃ as, request.attributes = some as ∧ eapBytes as = pkt.contents

/-- The bytes are one packet, whose length field is right. -/
def IsPacket (bs : List UInt8) : Prop :=
  ∃ code id high low rest, bs = code :: id :: high :: low :: rest ∧
    high.toNat * 256 + low.toNat = bs.length

/-- A frame holds these bytes as its packet. -/
def Holds (data : Mem) (len : ℕ) (bs : List UInt8) : Prop :=
  (sentPacket data).bytes 0 (sentBodyLen data) = bs ∧
    len = bs.length + (EapolPacket.baseHeaderLen + llHdrLen)

/-- A frame that holds these bytes is sent. -/
def Sends (log : List (Event S A H)) (bs : List UInt8) : Prop :=
  ∃ data len, .sent data len ∈ log ∧ Holds data len bs

/-- Nothing is copied from beyond an array. -/
def CopiesWithin (log : List (Event S A H)) : Prop :=
  ∀ n size, .copied n size ∈ log → n ≤ size

/-- The EAP bytes of a list of attributes are those of its parts. -/
@[simp] theorem eapBytes_append (as bs : List Tlv) :
    eapBytes (as ++ bs) = eapBytes as ++ eapBytes bs := by
  simp [eapBytes]

/-- Without an `EAP-Message` there are no EAP bytes. -/
theorem eapBytes_eq_nil {as : List Tlv} (h : ∀ a ∈ as, a.type ≠ RadiusAttr.eapMessage) :
    eapBytes as = [] := by
  rw [eapBytes, List.filter_eq_nil_iff.mpr (by simpa using h)]
  rfl

/-- A value that is appended if it fits is there if and only if it fits. -/
theorem eapBytes_fitting_iff (v : List UInt8) :
    eapBytes (fitting RadiusAttr.eapMessage v) = v ↔ v.length ≤ 253 := by
  unfold fitting
  split
  · rename_i hfits
    exact iff_of_true (by simp [eapBytes]) hfits
  · rename_i hlong
    refine iff_of_false (fun h => ?_) hlong
    rw [← h] at hlong
    exact hlong (Nat.zero_le 253)

/-- Attributes of other types do not matter. -/
theorem eapBytes_appended_cons {op : AppendOp} (h : op.requested.type ≠ RadiusAttr.eapMessage)
    (ops : List AppendOp) :
    eapBytes (AppendOp.appended (op :: ops)) = eapBytes (AppendOp.appended ops) := by
  by_cases hop : op.Acceptable
  · have hcons : AppendOp.appended (op :: ops) = [op.requested] ++ AppendOp.appended ops := by
      rw [AppendOp.appended, List.filter_cons_of_pos (by simpa using hop)]
      rfl
    rw [hcons, eapBytes_append, eapBytes_eq_nil (by simpa using h), List.nil_append]
  · rw [AppendOp.appended, List.filter_cons_of_neg (by simpa using hop)]
    rfl

/-- What the attributes hold begins with the value of the first one. -/
theorem eapBytes_of_find? {as : List Tlv} {a : Tlv}
    (h : as.find? (·.type = RadiusAttr.eapMessage) = some a) :
    ∃ rest, eapBytes as = a.value ++ rest := by
  obtain ⟨htype, l, r, rfl, hl⟩ := List.find?_eq_some_iff_append.mp h
  have hnone : eapBytes l = [] := eapBytes_eq_nil (by simpa using hl)
  refine ⟨eapBytes r, ?_⟩
  have hfirst : eapBytes [a] = a.value := by
    rw [eapBytes, List.filter_cons_of_pos (p := fun x : Tlv => x.type = RadiusAttr.eapMessage) htype]
    exact List.append_nil _
  rw [eapBytes_append, hnone, List.nil_append, ← List.singleton_append, eapBytes_append, hfirst]

namespace SimuNas

variable {md5 : Md5} {s : SimuNas H} {past : List (Event S A H)}

/-- The request for the answer to a challenge holds the packet if it is short. -/
theorem carriesEap_accessRequestMd5 (h : Keeps past s) (fresh : Mem) (pkt : EapPacket) :
    CarriesEap (s.accessRequestMd5 fresh pkt) pkt ↔ pkt.len ≤ 253 := by
  have hcarries := (carries_accessRequestMd5 s fresh pkt).1
  have hlength : pkt.contents.length = pkt.len := Pointer.bytes_length ..
  have hstate : eapBytes (kept s.tmpState) = [] := by
    refine eapBytes_eq_nil fun a ha => ?_
    rw [h.type a ha]
    decide
  have hname : eapBytes (kept s.tmpUserName) = [] := by
    refine eapBytes_eq_nil fun a ha => ?_
    rw [h.userName] at ha
    obtain ⟨f, -, rfl⟩ := Option.map_eq_some_iff.mp (Option.mem_toList.mp ha)
    change RadiusAttr.userName ≠ RadiusAttr.eapMessage
    decide
  rw [CarriesEap, hcarries.attributes]
  simp only [Option.some.injEq, exists_eq_left', eapBytes_append, hstate, hname, List.nil_append]
  rw [eapBytes_fitting_iff, hlength]

/-- A request that is made for the answer to a challenge holds the answer if that is short. -/
def Enclosed (past : List (Event S A H)) : Event S A H → Prop
  | .requested _ request => ∀ before f, past = before ++ [.received f] → IsResponse Eap.md5 f →
    (CarriesEap request f.payload.body ↔ f.payload.body.len ≤ 253)
  | _ => True

/-- A turn encloses the answer in its request. -/
theorem enclosed_handled {t : Turn S A H} {f : Frame} {full : List (Event S A H)}
    {r : Option (SimuNas H)} (h : Keeps past s) (hturn : Handled md5 s t f full r) :
    Along Enclosed (past ++ [.received f]) full := by
  refine hturn.along_of_answer (fun past e he => ?_) (fun past env request hnone => ?_) fun hf => ?_
  · cases e with
    | requested env request => exact absurd rfl (he env request)
    | received | answered | copied | sent => trivial
  · exact fun before g hpast hg => absurd hg (hnone before g hpast)
  · intro before g hpast _
    cases (List.append_inj' hpast rfl).2
    exact carriesEap_accessRequestMd5 h t.access.fresh f.payload.body

/-- What is kept, and what is enclosed, in one turn. -/
theorem enclosed_step (h : Keeps past s) (t : Turn S A H) :
    Exec.Extends Keeps Enclosed past (step md5 s t) := by
  have hok : OnReceived (fun _ _ _ _ => True) past s t := fun _ _ _ => trivial
  refine extends_step (fun past s l hs _ => ⟨hs.userName, hs.settled, hs.state, hs.type⟩)
    (fun _ _ => trivial) (fun past s t f full r hs _ hturn => ?_) h hok
  refine ⟨enclosed_handled hs hturn, fun s' hs' => ?_⟩
  rw [List.append_assoc]
  exact hs.handled hturn s' hs'

/-- The request for an identity holds the packet if it is short. -/
theorem carriesEap_accessRequestId (s : SimuNas H) (fresh : Mem) (pkt : EapPacket) :
    (∃ request s', s.accessRequestId fresh pkt = some (request, s') ∧ CarriesEap request pkt) ↔
      5 ≤ pkt.len ∧ pkt.len ≤ 253 := by
  have hlength : pkt.contents.length = pkt.len := Pointer.bytes_length ..
  have hname : (userNameOf pkt).length = pkt.len - 5 := slice_length ..
  have hcarries {request : RadiusPDU} {s' : SimuNas H}
      (h : s.accessRequestId fresh pkt = some (request, s')) :
      CarriesEap request pkt ↔ pkt.len ≤ 253 := by
    obtain ⟨⟨hattrs, -⟩, -⟩ := carries_accessRequestId h
    have hbytes : eapBytes (⟨RadiusAttr.userName, userNameOf pkt⟩ ::
        AppendOp.appended (s.identityOps pkt)) =
          eapBytes (fitting RadiusAttr.eapMessage pkt.contents) := by
      have hfirst : eapBytes [⟨RadiusAttr.userName, userNameOf pkt⟩] = [] :=
        eapBytes_eq_nil (by simp [RadiusAttr.userName, RadiusAttr.eapMessage])
      rw [← List.singleton_append, eapBytes_append, hfirst, List.nil_append, identityOps]
      iterate 4 rw [eapBytes_appended_cons (by simp [AppendOp.requested, RadiusAttr.nasPort,
        RadiusAttr.serviceType, RadiusAttr.nasPortType, RadiusAttr.framedProtocol,
        RadiusAttr.eapMessage])]
      rw [appended_attrData, eapBytes_append]
      iterate 4 rw [eapBytes_appended_cons (by simp [AppendOp.requested,
        RadiusAttr.framedIpAddress, RadiusAttr.callingStationId, RadiusAttr.nasIdentifier,
        RadiusAttr.nasIpAddress, RadiusAttr.eapMessage])]
      exact List.append_nil _
    rw [CarriesEap, hattrs.attributes]
    simp only [Option.some.injEq, exists_eq_left', hbytes]
    rw [eapBytes_fitting_iff, hlength]
  constructor
  · rintro ⟨request, s', hrequest, hholds⟩
    have hsome : (s.accessRequestId fresh pkt).isSome := by
      rw [hrequest]
      rfl
    exact ⟨(accessRequestId_isSome.mp hsome).1, (hcarries hrequest).mp hholds⟩
  · rintro ⟨hlong, hshort⟩
    have hsome : (s.accessRequestId fresh pkt).isSome :=
      accessRequestId_isSome.mpr ⟨hlong, by omega⟩
    obtain ⟨⟨request, s'⟩, hrequest⟩ := Option.isSome_iff_exists.mp hsome
    exact ⟨request, s', hrequest, (hcarries hrequest).mpr hshort⟩

/-- What happens when a challenge is passed on: the copy comes before the frame. -/
theorem sent_of_mem {pdu : RadiusPDU} {heap : Mem} {sends : Bool} {data : Mem} {len : ℕ}
    (h : .sent data len ∈ (s.sendEapRequestMd5 pdu heap sends : Exec (Event S A H) Unit _).log) :
    ∃ attrEap attrState, pdu.findAttr RadiusAttr.eapMessage = some (some attrEap) ∧
      pdu.findAttr RadiusAttr.state = some (some attrState) ∧
      .copied (RadiusAttr.getLength pdu.data attrEap) (RadiusAttr.getValueLength pdu.data attrEap) ∈
        (s.sendEapRequestMd5 pdu heap sends : Exec (Event S A H) Unit _).log ∧
      data = ((s.keepState pdu attrState).framed
        (s.eapRelayed pdu attrEap heap)).io.outData := by
  unfold sendEapRequestMd5 at h ⊢
  split at h
  · rename_i attrEap attrState hmessage hstate
    refine ⟨attrEap, attrState, hmessage, hstate, ?_, ?_⟩
    · exact Exec.mem_log_bind_left (List.mem_singleton_self _)
    · rw [Exec.log_bind_of_ok (Exec.result_tell _), Exec.log_tell, List.singleton_append,
        List.mem_cons] at h
      rcases h with h | h
      · cases h
      · unfold sendEap at h
        cases sends with
        | false => cases h
        | true =>
          cases List.mem_singleton.mp h
          rfl
  · cases h

/-- A challenge with both attributes is passed on. -/
theorem mem_sendEapRequestMd5 {pdu : RadiusPDU} {attrEap attrState : ℕ}
    (hmessage : pdu.findAttr RadiusAttr.eapMessage = some (some attrEap))
    (hstate : pdu.findAttr RadiusAttr.state = some (some attrState)) (heap : Mem) :
    ((s.keepState pdu attrState).framed (s.eapRelayed pdu attrEap heap)).lastSent ∈
      (s.sendEapRequestMd5 pdu heap true : Exec (Event S A H) Unit _).log := by
  unfold sendEapRequestMd5
  rw [hmessage, hstate]
  exact List.mem_cons_of_mem _ List.mem_cons_self

/-- No challenge is passed on without a copy from beyond the array. -/
theorem not_copiesWithin {pdu : RadiusPDU} {as : List Tlv} (has : pdu.Carries as) (heap : Mem)
    (sends : Bool) (bs : List UInt8) :
    ¬(Sends (s.sendEapRequestMd5 pdu heap sends : Exec (Event S A H) Unit _).log bs ∧
      CopiesWithin (s.sendEapRequestMd5 pdu heap sends : Exec (Event S A H) Unit _).log) := by
  rintro ⟨⟨data, len, hsent, -⟩, hwithin⟩
  obtain ⟨attrEap, attrState, hmessage, -, hcopied, -⟩ := sent_of_mem hsent
  obtain ⟨a, -, hvalueLength, hlength, -⟩ := s.byte_eapRelayed has hmessage heap
  have hle := hwithin _ _ hcopied
  omega

/-- The bytes on the wire, as many as the header states. -/
private theorem holds_framed_iff (u : SimuNas H) {out : EapPacket} (hout : out.data = 18)
    (bs : List UInt8) : Holds (u.framed out).io.outData (u.framed out).io.outLen bs ↔
      out.bytes 0 out.len = bs := by
  obtain ⟨hbody, hframe⟩ := sentBodyLen_framed u hout
  have hbytes : (sentPacket (u.framed out).io.outData).bytes 0 out.len = out.bytes 0 out.len := by
    refine List.map_congr_left fun i _ => ?_
    have hbyte := sentPacket_framed u hout i
    rwa [Pointer.byte, Pointer.byte] at hbyte
  rw [Holds, hbody, hbytes, hframe]
  constructor
  · exact fun h => h.1
  · rintro rfl
    exact ⟨rfl, by rw [Pointer.bytes_length]⟩

/-- If the frame holds what the attributes hold whatever lies behind the array, the challenge has a
state and the first of these attributes holds everything. -/
private theorem whole_of_sends {pdu : RadiusPDU} {as : List Tlv} (has : pdu.Carries as)
    (h : ∀ heap, Sends (s.sendEapRequestMd5 pdu heap true : Exec (Event S A H) Unit _).log
      (eapBytes as)) :
    (∃ a, as.find? (·.type = RadiusAttr.state) = some a) ∧
      ∃ a, as.find? (·.type = RadiusAttr.eapMessage) = some a ∧ a.value = eapBytes as := by
  obtain ⟨_, _, hsent, -⟩ := h 0
  obtain ⟨attrEap, attrState, hmessage, hstate, -, -⟩ := sent_of_mem hsent
  obtain ⟨state, hfirst, -⟩ := has.findAttr_eq_some hstate
  obtain ⟨a, ha, -, -, -⟩ := s.byte_eapRelayed has hmessage 0
  refine ⟨⟨state, hfirst⟩, a, ha, ?_⟩
  obtain ⟨rest, hrest⟩ := eapBytes_of_find? ha
  cases rest with
  | nil => rw [hrest, List.append_nil]
  | cons b rest =>
    -- The byte behind the array is not the one that the next attribute begins with.
    obtain ⟨data, len, hsent, hholds, -⟩ := h fun _ => b + 1
    obtain ⟨attrEap', attrState', hmessage', -, -, rfl⟩ := sent_of_mem hsent
    cases hmessage.symm.trans hmessage'
    obtain ⟨a', ha', -, -, hbytes⟩ := s.byte_eapRelayed has hmessage fun _ => b + 1
    cases ha.symm.trans ha'
    have hbyte := sentPacket_framed (s.keepState pdu attrState')
      (eapRelayed_data s pdu attrEap fun _ => b + 1) a.value.length
    rw [hbytes, if_neg (Nat.lt_irrefl _), if_pos (by omega)] at hbyte
    have hget := congrArg (·.getD a.value.length 0) hholds
    have hinside : a.value.length < sentBodyLen ((s.keepState pdu attrState').framed
        (s.eapRelayed pdu attrEap fun _ => b + 1)).io.outData := by
      have hlength := congrArg List.length hholds
      rw [Pointer.bytes_length, hrest] at hlength
      rw [hlength, List.length_append, List.length_cons]
      omega
    simp only [Pointer.bytes, slice_getD _ _ hinside, hrest] at hget
    rw [Pointer.byte] at hbyte
    rw [Nat.add_zero, hbyte, List.getD_append_right _ _ _ _ (Nat.le_refl _), Nat.sub_self] at hget
    exact absurd hget (by simp)

/-- A packet that the first attribute holds all of is passed on. -/
private theorem sends_of_whole {pdu : RadiusPDU} {as : List Tlv} (has : pdu.Carries as)
    (hpacket : IsPacket (eapBytes as)) {state a : Tlv}
    (hstate : as.find? (·.type = RadiusAttr.state) = some state)
    (ha : as.find? (·.type = RadiusAttr.eapMessage) = some a) (hall : a.value = eapBytes as)
    (heap : Mem) :
    Sends (s.sendEapRequestMd5 pdu heap true : Exec (Event S A H) Unit _).log (eapBytes as) := by
  obtain ⟨attrEap, hmessage⟩ := has.findAttr_of_find? ha
  obtain ⟨attrState, hfound⟩ := has.findAttr_of_find? hstate
  refine ⟨_, _, mem_sendEapRequestMd5 hmessage hfound heap, ?_⟩
  rw [holds_framed_iff _ (eapRelayed_data ..)]
  obtain ⟨a', ha', -, -, hbytes⟩ := s.byte_eapRelayed has hmessage heap
  cases ha.symm.trans ha'
  obtain ⟨code, id, high, low, rest, hsplit, hlength⟩ := hpacket
  generalize s.eapRelayed pdu attrEap heap = out at hbytes
  have hlong : a.value.length = rest.length + 4 := by
    rw [hall, hsplit]
    rfl
  have hlen : out.len = a.value.length := by
    rw [EapPacket.len_eq, hbytes, hbytes, if_pos (by omega), if_pos (by omega), hall, hsplit]
    rw [hsplit] at hlength
    exact hlength
  rw [hlen, ← hall]
  refine List.ext_getElem (Pointer.bytes_length ..) fun i _ hi => ?_
  have hbyte := hbytes i
  rw [if_pos hi, List.getD_eq_getElem _ _ hi] at hbyte
  rw [← hbyte]
  exact slice_getElem ..

/-- Whatever lies behind the array, the frame holds what the attributes for EAP hold, exactly when the
challenge has a state and the first of these attributes holds everything. -/
theorem sends_iff {pdu : RadiusPDU} {as : List Tlv} (has : pdu.Carries as)
    (hpacket : IsPacket (eapBytes as)) :
    (∀ heap, Sends (s.sendEapRequestMd5 pdu heap true : Exec (Event S A H) Unit _).log
      (eapBytes as)) ↔
    (∃ a, as.find? (·.type = RadiusAttr.state) = some a) ∧
      ∃ a, as.find? (·.type = RadiusAttr.eapMessage) = some a ∧ a.value = eapBytes as := by
  constructor
  · exact whole_of_sends has
  · rintro ⟨⟨state, hstate⟩, a, ha, hall⟩ heap
    exact sends_of_whole has hpacket hstate ha hall heap

/-- EAP packets are passed on to the server if they are short. What the server sends is never passed on
without a copy from beyond an array; what is on the wire is right exactly when one attribute holds it
all. -/
theorem relay_iff {own : List UInt8} {buf : Mem} {radclient : RadiusClient H}
    {supplicantMac : List UInt8} {stateMem userNameMem : Mem} {ts : List (Turn S A H)}
    (h : (run md5 (new own buf radclient supplicantMac stateMem userNameMem) ts).result = .ok s) :
    (∀ fresh pkt, CarriesEap (s.accessRequestMd5 fresh pkt) pkt ↔ pkt.len ≤ 253) ∧
    (∀ fresh pkt, (∃ request s', s.accessRequestId fresh pkt = some (request, s') ∧
      CarriesEap request pkt) ↔ 5 ≤ pkt.len ∧ pkt.len ≤ 253) ∧
    ∀ pdu as, pdu.Carries as → IsPacket (eapBytes as) →
      (∀ heap sends,
        ¬(Sends (s.sendEapRequestMd5 pdu heap sends : Exec (Event S A H) Unit _).log
            (eapBytes as) ∧
          CopiesWithin (s.sendEapRequestMd5 pdu heap sends : Exec (Event S A H) Unit _).log)) ∧
      ((∀ heap, Sends (s.sendEapRequestMd5 pdu heap true : Exec (Event S A H) Unit _).log
          (eapBytes as)) ↔
        (∃ a, as.find? (·.type = RadiusAttr.state) = some a) ∧
          ∃ a, as.find? (·.type = RadiusAttr.eapMessage) = some a ∧ a.value = eapBytes as) := by
  have hkeeps := (keeps_run md5 own buf radclient supplicantMac stateMem userNameMem
    ts).invariant s h
  exact ⟨carriesEap_accessRequestMd5 hkeeps, carriesEap_accessRequestId s,
    fun pdu as has hpacket => ⟨fun heap sends => not_copiesWithin has heap sends _,
      sends_iff has hpacket⟩⟩

/-- The answer to a challenge, with a length. -/
def answerOf (high low : UInt8) : EapPacket := ⟨write (fun _ => 0) 0 [2, 8, high, low, 4, 0], 0⟩

/-- The packet that the server challenges with carries a state and an MD5 request. -/
theorem carries_md5Challenge : md5Challenge.Carries
    [⟨RadiusAttr.state, [1]⟩, ⟨RadiusAttr.eapMessage, [1, 8, 0, 6, 4, 0]⟩] := by
  have hbuild := (carries_build_new (fun _ => 0) 5
    [.attrData RadiusAttr.state [1], .attrData RadiusAttr.eapMessage [1, 8, 0, 6, 4, 0]]
    (by decide : RadiusPDU.accessChallenge ≠ RadiusPDU.invalid)
    (by simp [AppendOp.Admissible, RadiusAttr.state, RadiusAttr.eapMessage,
      RadiusAttr.vendorSpecific]) (by decide)).1
  rw [appended_attrData, appended_attrData] at hbuild
  exact hbuild

/-- An answer of six bytes is passed on, and so is a challenge of six bytes, but for the copy. -/
theorem relay_iff_short : CarriesEap (fresh.accessRequestMd5 (fun _ => 0) (answerOf 0 6)) (answerOf 0 6) ∧
    ∀ heap, Sends (fresh.sendEapRequestMd5 md5Challenge heap true :
      Exec (Event Unit ℕ Unit) Unit (SimuNas Unit)).log [1, 8, 0, 6, 4, 0] := by
  have hreached : (run zeroMd5 fresh ([] : List (Turn Unit ℕ Unit))).result = .ok fresh := rfl
  obtain ⟨hanswer, -, hchallenge⟩ := relay_iff hreached
  refine ⟨(hanswer (fun _ => 0) _).mpr (by decide), ?_⟩
  exact (hchallenge _ _ carries_md5Challenge ⟨1, 8, 0, 6, [4, 0], rfl, rfl⟩).2.mpr
    ⟨⟨_, rfl⟩, _, rfl, rfl⟩

/-- An answer of 254 bytes is not passed on, and a challenge is copied from beyond the array. -/
theorem not_relayed :
    ¬CarriesEap (fresh.accessRequestMd5 (fun _ => 0) (answerOf 0 254)) (answerOf 0 254) ∧
    ¬(Sends (fresh.sendEapRequestMd5 md5Challenge (fun _ => 0) true :
        Exec (Event Unit ℕ Unit) Unit (SimuNas Unit)).log [1, 8, 0, 6, 4, 0] ∧
      CopiesWithin (fresh.sendEapRequestMd5 md5Challenge (fun _ => 0) true :
        Exec (Event Unit ℕ Unit) Unit (SimuNas Unit)).log) := by
  refine ⟨fun h => ?_, not_copiesWithin carries_md5Challenge (fun _ => 0) true _⟩
  have hkeeps := keeps_new (S := Unit) (A := ℕ) [2, 0, 0, 0, 0, 9] (fun _ => 0) RadiusClient.oneServer []
    (fun _ => 0) fun _ => 0
  exact absurd ((carriesEap_accessRequestMd5 hkeeps (fun _ => 0) _).mp h) (by decide)

end SimuNas

end Dot1x.Nas
