import Dot1x.Nas.SimuNas

/-!
# The frames that are sent

One output buffer is used for all packets. Its EAPOL header is written in front of the packet that was
built in it, so a field of that packet is on the wire as it was found there or written.
-/

namespace Dot1x.Nas

open Dot1x.Base Dot1x.Wire Dot1x.Eap Dot1x.Link Dot1x.Radius

/-- The EAP packet in a frame that was handed to the driver. -/
def sentPacket (data : Mem) : EapPacket := EapolPacket.body ⟨data, llHdrLen⟩

/-- The length of the body that the header of a frame states. -/
def sentBodyLen (data : Mem) : ℕ := EapolPacket.bodyLen ⟨data, llHdrLen⟩

/-- The frame ends an authentication. -/
def Ends (data : Mem) : Prop :=
  (sentPacket data).code = Eap.success ∨ (sentPacket data).code = Eap.failure

instance (data : Mem) : Decidable (Ends data) := inferInstanceAs (Decidable (_ ∨ _))

/-- Packets with the same bytes have the same fields. -/
theorem fields_congr {p q : EapPacket} (h : ∀ i, p.byte i = q.byte i) :
    p.code = q.code ∧ p.id = q.id ∧ p.len = q.len ∧ p.type = q.type := by
  refine ⟨?_, ?_, ?_, ?_⟩
  · rw [EapPacket.code_eq, EapPacket.code_eq, h]
  · rw [EapPacket.id_eq, EapPacket.id_eq, h]
  · rw [EapPacket.len_eq, EapPacket.len_eq, h, h]
  · rw [EapPacket.type_eq, EapPacket.type_eq, h]

namespace SimuNas

variable {H : Type} {s : SimuNas H} {out : EapPacket}

/-- The header of the frame is written, and nothing behind it. -/
private theorem framed_outData (s : SimuNas H) (out : EapPacket) {i : ℕ} (hi : 18 ≤ i) :
    (s.framed out).io.outData i = out.mem i :=
  Ll8023.makeEapol_outData { s.io with outData := out.mem } EapolPacket.pckt (Or.inr hi)

/-- The packet that was built is in the frame. -/
theorem sentPacket_framed (s : SimuNas H) (hout : out.data = 18) (i : ℕ) :
    (sentPacket (s.framed out).io.outData).byte i = out.byte i := by
  have hdata : (sentPacket (s.framed out).io.outData).data = 18 := rfl
  rw [Pointer.byte, Pointer.byte, hdata, hout]
  exact framed_outData s out (Nat.le_add_right ..)

/-- The fields of a packet on the wire. -/
theorem fields_framed (s : SimuNas H) (hout : out.data = 18) :
    (sentPacket (s.framed out).io.outData).code = out.code ∧
      (sentPacket (s.framed out).io.outData).id = out.id ∧
      (sentPacket (s.framed out).io.outData).len = out.len := by
  obtain ⟨hcode, hid, hlen, -⟩ := fields_congr (sentPacket_framed s hout)
  exact ⟨hcode, hid, hlen⟩

/-- The header states the length of the packet, and the frame is as long. -/
theorem sentBodyLen_framed (s : SimuNas H) (hout : out.data = 18) :
    sentBodyLen (s.framed out).io.outData = out.len ∧
      (s.framed out).io.outLen = out.len + (EapolPacket.baseHeaderLen + llHdrLen) := by
  have hbody : sentBodyLen (s.framed out).io.outData = out.len :=
    (Ll8023.makeEapol_bodyLen { s.io with outData := out.mem }).trans
      (by obtain ⟨m, d⟩ := out; cases hout; rfl)
  refine ⟨hbody, ?_⟩
  rw [← hbody, ← Nat.add_assoc]
  rfl

/-- The identity request is made in the output packet. -/
theorem eapRequestId_data (s : SimuNas H) : s.eapRequestId.data = 18 := rfl

/-- An EAP packet with a code is made in the output packet. -/
theorem eapCode_data (s : SimuNas H) (code : ℕ) : (s.eapCode code).data = 18 := rfl

/-- A packet that is passed on is made in the output packet. -/
theorem eapRelayed_data (s : SimuNas H) (response : RadiusPDU) (attr : ℕ) (heap : Mem) :
    (s.eapRelayed response attr heap).data = 18 := rfl

/-- A request for an identity is no end. -/
theorem code_eapRequestId (s : SimuNas H) : s.eapRequestId.code = Eap.request := by
  rw [EapPacket.code_eq, eapRequestId, EapPacket.setLen_eq, Pointer.byte_store_of_outside (by simp),
    EapPacket.setType_eq, Pointer.byte_store_of_outside (by simp)]
  change (write s.io.outData 18 [_] 18).toNat = _
  rw [write_singleton_self]
  rfl

/-- The packet that ends an authentication has the code and four bytes; its identifier is what was
there. -/
theorem fields_eapCode (s : SimuNas H) {code : ℕ} (hcode : code < 256) :
    (s.eapCode code).code = code ∧ (s.eapCode code).len = 4 ∧
      (s.eapCode code).id = s.io.output.body.id := by
  refine ⟨?_, ?_, ?_⟩
  · rw [EapPacket.code_eq, eapCode, EapPacket.setLen_eq, Pointer.byte_store_of_outside (by simp)]
    change (write s.io.outData 18 [UInt8.ofNat code] 18).toNat = _
    rw [write_singleton_self, UInt8.toNat_ofNat', Nat.mod_eq_of_lt hcode]
  · exact EapPacket.len_setLen ..
  · rw [EapPacket.id_eq, eapCode, EapPacket.setLen_eq, Pointer.byte_store_of_outside (by simp)]
    change (write s.io.outData 18 [UInt8.ofNat code] 19).toNat = _
    rw [write_of_outside (by simp)]
    rfl

/-- What a relayed packet consists of: the value of the attribute, two bytes from behind the array
that it was put into, and what was in the output buffer. -/
theorem byte_eapRelayed (s : SimuNas H) {pdu : RadiusPDU} {as : List Tlv} (h : pdu.Carries as)
    {attr : ℕ} (hfind : pdu.findAttr RadiusAttr.eapMessage = some (some attr)) (heap : Mem) :
    ∃ a, as.find? (·.type = RadiusAttr.eapMessage) = some a ∧
      RadiusAttr.getValueLength pdu.data attr = a.value.length ∧
      RadiusAttr.getLength pdu.data attr = a.value.length + 2 ∧
      ∀ i, (s.eapRelayed pdu attr heap).byte i = if i < a.value.length then a.value.getD i 0
        else if i < a.value.length + 2 then heap i else s.io.output.body.byte i := by
  obtain ⟨a, ha, hread, hlength, hvalid⟩ := h.findAttr_eq_some hfind
  have htype : RadiusAttr.getType pdu.data attr ≠ RadiusAttr.vendorSpecific := by
    have hfirst := List.find?_some ha
    have hmessage : a.type = RadiusAttr.eapMessage := by simpa using hfirst
    rw [hread] at hmessage
    change pdu.data attr = RadiusAttr.eapMessage at hmessage
    rw [RadiusAttr.getType, hmessage]
    decide
  obtain ⟨hvalueLength, hvalue⟩ := RadiusAttr.getValue_eq hvalid htype
    (write heap 0 (List.replicate (RadiusAttr.getValueLength pdu.data attr) 0))
  rw [← hread] at hvalueLength hvalue
  refine ⟨a, ha, hvalueLength, hlength, fun i => ?_⟩
  have harray (j : ℕ) : valueArray pdu attr heap j =
      if j < a.value.length then a.value.getD j 0 else heap j := by
    rw [valueArray, hvalue]
    by_cases hj : j < a.value.length
    · rw [if_pos hj, write_of_inside (Nat.zero_le j) (by omega), Nat.sub_zero]
    · rw [if_neg hj, write_of_outside (by omega), write_of_outside]
      rw [List.length_replicate, hvalueLength]
      omega
  have hlong : a.length = a.value.length + 2 := rfl
  rw [eapRelayed, Pointer.byte_store, slice_length, hlength, hlong]
  by_cases hi : i < a.value.length + 2
  · rw [if_pos (by omega), slice_getD _ _ (by omega), Nat.zero_add, Nat.sub_zero, harray,
      if_pos hi]
  · rw [if_neg (by omega), if_neg (by omega), if_neg hi]

end SimuNas

end Dot1x.Nas
