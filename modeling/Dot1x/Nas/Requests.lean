import Dot1x.Nas.Turns

/-!
# What the requests carry

The requests are built by calls that append an attribute each. None of them ever lacks room, so what a
request carries is what is acceptable by itself: an attribute that is kept if it is valid, a value if
it is not too long.
-/

namespace Dot1x.Nas

open Dot1x.Base Dot1x.Wire Dot1x.Eap Dot1x.Link Dot1x.Radius

/-- The attribute that a variable holds, if it is valid. -/
def kept (m : Mem) : List Tlv := if RadiusAttr.isValid m 0 then [Tlv.read m 0] else []

/-- The name in the response of an identity. -/
def userNameOf (pkt : EapPacket) : List UInt8 :=
  slice pkt.mem pkt.eapData (pkt.len - EapPacket.headerLen)

/-- An attribute with a value, if that is not too long. -/
def fitting (t : UInt8) (v : List UInt8) : List Tlv := if v.length ≤ 253 then [⟨t, v⟩] else []

/-- A new attribute keeps nothing. -/
@[simp] theorem kept_new (fresh : Mem) : kept (RadiusAttr.new fresh) = [] :=
  if_neg (by simp [RadiusAttr.isValid, RadiusAttr.getType, RadiusAttr.getLength, RadiusAttr.new,
    write, RadiusAttr.vendorSpecific, RadiusAttr.fixedHeaderLength])

/-- What is assigned is kept. -/
theorem kept_assign {m src : Mem} {attr : ℕ} (h : RadiusAttr.isValid src attr = true) :
    kept (RadiusAttr.assign m src attr) = [Tlv.read src attr] := by
  have hlong := RadiusAttr.fixedHeaderLength_le h
  have hlong : 2 ≤ RadiusAttr.getLength src attr := hlong
  have hbyte (i : ℕ) (hi : i < RadiusAttr.getLength src attr) :
      RadiusAttr.assign m src attr i = src (attr + i) := by
    rw [RadiusAttr.assign, write_of_inside (Nat.zero_le i) (by simpa using hi), Nat.sub_zero,
      slice_getD _ _ hi]
  have htype : RadiusAttr.assign m src attr 0 = src attr := hbyte 0 (by omega)
  have hlength : RadiusAttr.assign m src attr 1 = src (attr + 1) := hbyte 1 (by omega)
  have hvalid : RadiusAttr.isValid (RadiusAttr.assign m src attr) 0 = true := by
    rw [RadiusAttr.isValid, decide_eq_true_eq] at h ⊢
    rwa [RadiusAttr.getType, RadiusAttr.getLength, Nat.zero_add, htype, hlength]
  have hvalue : slice (RadiusAttr.assign m src attr) 2 ((src (attr + 1)).toNat - 2) =
      slice src (attr + 2) ((src (attr + 1)).toNat - 2) := by
    refine List.map_congr_left fun i hi => ?_
    have hi' := List.mem_range.mp hi
    have hlast : 2 + i < (src (attr + 1)).toNat := by omega
    rw [hbyte _ hlast, Nat.add_assoc]
  rw [kept, if_pos hvalid, Tlv.read, Tlv.read, Nat.zero_add, htype, hlength, hvalue]

/-- An attribute that is kept is appended if it is valid. -/
theorem appended_attr (m : Mem) (ops : List AppendOp) :
    AppendOp.appended (.attr m 0 :: ops) = kept m ++ AppendOp.appended ops := by
  have hbyte : (m 1).toNat < 256 := (m 1).toNat_lt
  have hfits : (Tlv.read m 0).length ≤ 255 := by
    rw [Tlv.length, Tlv.read, slice_length, Nat.zero_add]
    omega
  have hacceptable : (AppendOp.attr m 0).Acceptable ↔ RadiusAttr.isValid m 0 = true := by
    have hfits : (AppendOp.attr m 0).requested.length ≤ RadiusAttr.maxLength := hfits
    rw [AppendOp.Acceptable, and_iff_left hfits, AppendOp.PassesInvalid, Bool.not_eq_false]
  unfold kept
  split
  · rename_i hvalid
    rw [AppendOp.appended, List.filter_cons_of_pos (by simpa using hacceptable.mpr hvalid)]
    rfl
  · rename_i hinvalid
    rw [AppendOp.appended, List.filter_cons_of_neg (by simpa using mt hacceptable.mp hinvalid)]
    rfl

/-- A value is appended if it is not too long. -/
theorem appended_attrData (t : UInt8) (v : List UInt8) (ops : List AppendOp) :
    AppendOp.appended (.attrData t v :: ops) = fitting t v ++ AppendOp.appended ops := by
  have hacceptable : (AppendOp.attrData t v).Acceptable ↔ v.length ≤ 253 := by
    have hlength : (AppendOp.attrData t v).requested.length = v.length + 2 := rfl
    rw [AppendOp.Acceptable, hlength, RadiusAttr.maxLength]
    simp only [AppendOp.PassesInvalid, not_false_eq_true, true_and]
    omega
  unfold fitting
  split
  · rename_i hfits
    rw [AppendOp.appended, List.filter_cons_of_pos (by simpa using hacceptable.mpr hfits)]
    rfl
  · rename_i hlong
    rw [AppendOp.appended, List.filter_cons_of_neg (by simpa using mt hacceptable.mp hlong)]
    rfl

/-- An attribute with a number is always appended. -/
theorem appended_attrInt (t : UInt8) (v : UInt32) (ops : List AppendOp) :
    AppendOp.appended (.attrInt t v :: ops) = (AppendOp.attrInt t v).requested ::
      AppendOp.appended ops := by
  have hacceptable : (AppendOp.attrInt t v).Acceptable :=
    ⟨id, Nat.le_of_ble_eq_true rfl⟩
  rw [AppendOp.appended, List.filter_cons_of_pos (by simpa using hacceptable)]
  rfl

/-- What a new request is built of it carries. -/
theorem carries_build_new (fresh : Mem) (packetId : UInt8) {code : UInt8} (ops : List AppendOp)
    (hcode : code ≠ RadiusPDU.invalid) (hops : ∀ op ∈ ops, op.Admissible) (hfew : ops.length ≤ 15) :
    ((RadiusPDU.new fresh code packetId).build ops).Carries (AppendOp.appended ops) ∧
      ((RadiusPDU.new fresh code packetId).build ops).getCode = code := by
  have hnew := RadiusPDU.carries_new fresh packetId hcode
  have hlength : (RadiusPDU.new fresh code packetId).getLength = 20 :=
    RadiusPDU.getLength_setLength (by decide)
  have hbuild := hnew.build hops (by
    rw [hlength]
    change 20 + 255 * ops.length ≤ 4096
    omega)
  have hsame : (RadiusPDU.new fresh code packetId).getCode = code :=
    RadiusPDU.setLength_data (i := 0) (Or.inl (by decide))
  exact ⟨by rwa [List.nil_append] at hbuild, (hnew.getCode_build hops).trans hsame⟩

namespace SimuNas

variable {H : Type} {s s' : SimuNas H}

/-- The request for an identity is begun with a name, if it is not too long. -/
theorem carries_nameRequest (fresh : Mem) (pkt : EapPacket) :
    (nameRequest fresh pkt).Carries (fitting RadiusAttr.userName (userNameOf pkt)) := by
  have hbuild := (carries_build_new fresh 0 [.attrData RadiusAttr.userName (userNameOf pkt)]
    (by decide : RadiusPDU.accessRequest ≠ RadiusPDU.invalid) (by simp [AppendOp.Admissible,
      RadiusAttr.userName, RadiusAttr.vendorSpecific]) (Nat.le_of_ble_eq_true rfl)).1
  rw [appended_attrData] at hbuild
  exact List.append_nil (fitting RadiusAttr.userName (userNameOf pkt)) ▸ hbuild

/-- The response of an identity becomes a request if it has a header and its name is not too long;
the name is kept. -/
theorem accessRequestId_isSome {fresh : Mem} {pkt : EapPacket} :
    (s.accessRequestId fresh pkt).isSome ↔ 5 ≤ pkt.len ∧ (userNameOf pkt).length ≤ 253 := by
  unfold accessRequestId
  by_cases hshort : pkt.len < EapPacket.headerLen
  · rw [if_pos hshort]
    exact iff_of_false (by simp) fun h => absurd hshort (Nat.not_lt.mpr h.1)
  · have hlong : 5 ≤ pkt.len := Nat.not_lt.mp hshort
    rw [if_neg hshort, and_iff_right hlong]
    have hnamed := carries_nameRequest fresh pkt
    have hfind := hnamed.findAttr RadiusAttr.userName
    unfold fitting at hfind
    simp only
    rw [hfind]
    by_cases hfits : (userNameOf pkt).length ≤ 253
    · rw [if_pos hfits]
      exact iff_of_true rfl hfits
    · rw [if_neg hfits]
      exact iff_of_false (by simp) hfits

/-- What the request for an identity carries, and what is kept. -/
theorem carries_accessRequestId {fresh : Mem} {pkt : EapPacket} {request : RadiusPDU}
    (h : s.accessRequestId fresh pkt = some (request, s')) :
    (request.Carries (⟨RadiusAttr.userName, userNameOf pkt⟩ ::
      AppendOp.appended (s.identityOps pkt)) ∧ request.getCode = RadiusPDU.accessRequest) ∧
    kept s'.tmpUserName = [⟨RadiusAttr.userName, userNameOf pkt⟩] ∧
    s' = { s with tmpUserName := s'.tmpUserName } := by
  have hsome : (s.accessRequestId fresh pkt).isSome := by
    rw [h]
    rfl
  obtain ⟨-, hfits⟩ := accessRequestId_isSome.mp hsome
  obtain ⟨-, attr, hfind, hrequest, hkeep⟩ := accessRequestId_eq_some.mp h
  have hnamed := carries_nameRequest fresh pkt
  rw [fitting, if_pos hfits] at hnamed
  obtain ⟨a, ha, hread, -, hvalid⟩ := hnamed.findAttr_eq_some hfind
  have hname : a = ⟨RadiusAttr.userName, userNameOf pkt⟩ := by
    rw [List.find?_cons_of_pos (by rfl)] at ha
    exact (Option.some.inj ha).symm
  have hcarries : request.Carries (⟨RadiusAttr.userName, userNameOf pkt⟩ ::
      AppendOp.appended (s.identityOps pkt)) ∧ request.getCode = RadiusPDU.accessRequest := by
    have hbuild := carries_build_new fresh 0
      (.attrData RadiusAttr.userName (userNameOf pkt) :: s.identityOps pkt)
      (by decide : RadiusPDU.accessRequest ≠ RadiusPDU.invalid)
      (by simp [identityOps, AppendOp.Admissible, RadiusAttr.userName, RadiusAttr.vendorSpecific,
        RadiusAttr.eapMessage, RadiusAttr.callingStationId, RadiusAttr.nasIdentifier])
      (Nat.le_of_ble_eq_true rfl)
    rw [appended_attrData, fitting, if_pos hfits, RadiusPDU.build_cons] at hbuild
    rw [hrequest]
    exact hbuild
  refine ⟨hcarries, ?_⟩
  generalize nameRequest fresh pkt = named at hread hvalid hkeep
  rw [hkeep, keepUserName_eq]
  refine ⟨?_, rfl⟩
  rw [← hname, hread]
  exact kept_assign hvalid

/-- What the request for the answer to a challenge carries. -/
theorem carries_accessRequestMd5 (s : SimuNas H) (fresh : Mem) (pkt : EapPacket) :
    (s.accessRequestMd5 fresh pkt).Carries
      (kept s.tmpState ++ kept s.tmpUserName ++ fitting RadiusAttr.eapMessage pkt.contents) ∧
    (s.accessRequestMd5 fresh pkt).getCode = RadiusPDU.accessRequest := by
  have hbuild := carries_build_new fresh 0
    [.attr s.tmpState 0, .attr s.tmpUserName 0, .attrData RadiusAttr.eapMessage pkt.contents]
    (by decide : RadiusPDU.accessRequest ≠ RadiusPDU.invalid)
    (by simp [AppendOp.Admissible, RadiusAttr.eapMessage, RadiusAttr.vendorSpecific])
    (Nat.le_of_ble_eq_true rfl)
  rw [appended_attr, appended_attr, appended_attrData, AppendOp.appended, List.filter_nil,
    List.map_nil, List.append_nil, ← List.append_assoc] at hbuild
  exact hbuild

/-- What a request for accounting carries: the name that is kept, the status, and attributes of other
types. -/
theorem carries_accountingRequest (s : SimuNas H) (fresh : Mem) (status : UInt32)
    {ops : List AppendOp} (hops : ops = [] ∨ ops = [.attrInt RadiusAttr.acctSessionTime 24]) :
    (∃ rest, (s.accountingRequest fresh status ops).Carries (kept s.tmpUserName ++
      ⟨RadiusAttr.acctStatusType, AppendOp.bigEndian status⟩ :: rest) ∧
      ∀ a ∈ rest, a.type ≠ RadiusAttr.userName ∧ a.type ≠ RadiusAttr.acctStatusType) ∧
    (s.accountingRequest fresh status ops).getCode = RadiusPDU.accountingRequest := by
  have hbuild := carries_build_new fresh 0
    (.attr s.tmpUserName 0 :: .attrInt RadiusAttr.acctStatusType status ::
      .attrInt RadiusAttr.acctDelayTime 0 :: ops ++ serverOps)
    (by decide : RadiusPDU.accountingRequest ≠ RadiusPDU.invalid)
    (by rcases hops with rfl | rfl <;> simp [AppendOp.Admissible, serverOps,
      RadiusAttr.nasIdentifier, RadiusAttr.vendorSpecific])
    (by rcases hops with rfl | rfl <;> exact Nat.le_of_ble_eq_true rfl)
  refine ⟨⟨AppendOp.appended (.attrInt RadiusAttr.acctDelayTime 0 :: ops ++ serverOps), ?_, ?_⟩,
    hbuild.2⟩
  · rw [List.cons_append, appended_attr, List.cons_append, appended_attrInt] at hbuild
    exact hbuild.1
  · rcases hops with rfl | rfl <;> decide

end SimuNas

end Dot1x.Nas
