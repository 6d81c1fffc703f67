import Dot1x.Nas.Sessions

/-!
# Identifiers of the packets that end an authentication

The code and the length of such a packet are written, its identifier is that of the packet that was
in the output buffer before. So it answers the response with this identifier, whichever was received.
-/

namespace Dot1x.Nas

open Dot1x.Base Dot1x.Wire Dot1x.Eap Dot1x.Link Dot1x.Radius

variable {S A H : Type} [DecidableEq A]

/-- The frame that was received last, after another event. -/
def nextReceived (last : Option Frame) : Event S A H → Option Frame
  | .received f => some f
  | _ => last

/-- The frame that was received last. -/
def lastReceived (past : List (Event S A H)) : Option Frame := past.foldl nextReceived none

/-- A packet that ends an authentication has the identifier of the response that was received last,
and four bytes. -/
def Proper (past : List (Event S A H)) : Event S A H → Prop
  | .sent data _ => Ends data → ∃ f, lastReceived past = some f ∧
    (IsResponse Eap.identity f ∨ IsResponse Eap.md5 f) ∧
    (sentPacket data).id = f.payload.body.id ∧ (sentPacket data).len = 4 ∧ sentBodyLen data = 4
  | _ => True

/-- A value does not begin with a code for an end, or it begins with such a packet as it should be. -/
def Harmless (f : Frame) (value : List UInt8) : Prop :=
  (∃ code rest, value = code :: rest ∧ code.toNat ≠ Eap.success ∧ code.toNat ≠ Eap.failure) ∨
    ∃ code id rest, value = code :: id :: 0 :: 4 :: rest ∧ id.toNat = f.payload.body.id

/-- The identifier in the output buffer is that of the response wherever the program answers by a
packet of its own, and what it passes on is harmless. -/
def Identified (md5 : Md5) (_ : List (Event S A H)) (s : SimuNas H) (t : Turn S A H) (f : Frame) :
    Prop :=
  (IsResponse Eap.md5 f → s.io.output.body.id = f.payload.body.id) ∧
  (IsResponse Eap.identity f → ∀ request s',
    s.accessRequestId t.access.fresh f.payload.body = some (request, s') →
    ∀ response, s.response md5 t.access request = .ok response →
      ((∀ pdu ∈ response, pdu.getCode ≠ RadiusPDU.accessChallenge) →
        s.io.output.body.id = f.payload.body.id) ∧
      ∀ pdu ∈ response, pdu.getCode = RadiusPDU.accessChallenge →
        ∀ a, FirstAttr pdu RadiusAttr.eapMessage a → Harmless f a.value)

/-- The last frame that was received, of a longer history. -/
theorem lastReceived_append (past l : List (Event S A H)) :
    lastReceived (past ++ l) = l.foldl nextReceived (lastReceived past) :=
  List.foldl_append

namespace SimuNas

variable {md5 : Md5} {s s' : SimuNas H} {t : Turn S A H} {f : Frame} {past : List (Event S A H)}
  {full : List (Event S A H)} {r : Option (SimuNas H)}

/-- A packet of the program's own is proper if its identifier was there. -/
theorem proper_eapCode {code : ℕ} (hcode : code < 256) (hlast : lastReceived past = some f)
    (hf : IsResponse Eap.identity f ∨ IsResponse Eap.md5 f)
    (hid : s.io.output.body.id = f.payload.body.id) :
    Proper past ((s.framed (s.eapCode code)).lastSent : Event S A H) := by
  intro _
  obtain ⟨-, hidSent, hlenSent⟩ := fields_framed s (eapCode_data s code)
  obtain ⟨-, hlen, hkept⟩ := fields_eapCode s hcode
  exact ⟨f, hlast, hf, hidSent.trans (hkept.trans hid), hlenSent.trans hlen,
    (sentBodyLen_framed s (eapCode_data s code)).1.trans hlen⟩

/-- What is passed on of a harmless value is proper. -/
theorem proper_eapRelayed {pdu : RadiusPDU} {as : List Tlv} (has : pdu.Carries as) {attr : ℕ}
    (hfind : pdu.findAttr RadiusAttr.eapMessage = some (some attr)) (heap : Mem)
    (hlast : lastReceived past = some f) (hf : IsResponse Eap.identity f)
    (hharmless : ∀ a, FirstAttr pdu RadiusAttr.eapMessage a → Harmless f a.value)
    (u : SimuNas H) :
    Proper past ((u.framed (s.eapRelayed pdu attr heap)).lastSent : Event S A H) := by
  intro hends
  obtain ⟨a, ha, -, -, hbytes⟩ := s.byte_eapRelayed has hfind heap
  have hdata := eapRelayed_data s pdu attr heap
  generalize s.eapRelayed pdu attr heap = out at *
  obtain ⟨hcode, hid, hlen⟩ := fields_framed u hdata
  rcases hharmless a ⟨as, has.attributes, ha⟩ with
    ⟨code, rest, hvalue, hsuccess, hfailure⟩ | ⟨code, id, rest, hvalue, hsame⟩
  · have hfirst : out.code = code.toNat := by
      rw [EapPacket.code_eq, hbytes, hvalue, if_pos (by simp)]
      rfl
    change (sentPacket _).code = _ ∨ (sentPacket _).code = _ at hends
    rw [hcode, hfirst] at hends
    exact absurd hends (not_or.mpr ⟨hsuccess, hfailure⟩)
  · have hsecond : out.id = id.toNat := by
      rw [EapPacket.id_eq, hbytes, hvalue, if_pos (by simp)]
      rfl
    have hfour : out.len = 4 := by
      rw [EapPacket.len_eq, hbytes, hbytes, hvalue]
      simp
    exact ⟨f, hlast, Or.inl hf, hid.trans (hsecond.trans hsame), hlen.trans hfour,
      (sentBodyLen_framed u hdata).1.trans hfour⟩

/-- A turn sends proper packets if the identifiers are right. -/
theorem proper_handled (hok : Identified md5 past s t f) (h : Handled md5 s t f full r) :
    Along Proper (past ++ [.received f]) full := by
  have hlast (l : List (Event S A H)) (hl : l.foldl nextReceived (some f) = some f) :
      lastReceived (past ++ [.received f] ++ l) = some f := by
    rw [lastReceived_append, lastReceived_append]
    exact hl
  cases h with
  | ignored | unnamed => exact .nil
  | started =>
    refine .single fun hends => ?_
    have hcode := (fields_framed s (eapRequestId_data s)).1.trans (code_eapRequestId s)
    change (sentPacket _).code = _ ∨ (sentPacket _).code = _ at hends
    rw [hcode] at hends
    exact absurd hends (by decide)
  | loggedOff | unusable => exact .cons trivial (.single trivial)
  | lost => exact .single trivial
  | @refused request s' code response hmade hresponse hcode =>
    refine Along.append_iff.mpr ⟨.cons trivial (.single trivial), .single ?_⟩
    refine proper_eapCode (by decide) (hlast (asked t.access request response) rfl) ?_ ?_
    · cases hmade with
      | identity hf => exact Or.inl hf
      | md5 hf => exact Or.inr hf
    · cases hmade with
      | identity hf hrequest =>
        rw [(carries_accessRequestId hrequest).2.2]
        exact (hok.2 hf request s' hrequest response hresponse).1 hcode
      | md5 hf => exact hok.1 hf
  | @challenged request s' pdu attrEap attrState hf hrequest hresponse hcode hmessage =>
    obtain ⟨as, has⟩ := carries_of_response hresponse
    have hharmless := (hok.2 hf request s' hrequest _ hresponse).2 pdu rfl hcode
    refine Along.append_iff.mpr ⟨.cons trivial (.single trivial),
      .cons trivial (.single ?_)⟩
    rw [List.append_assoc]
    exact proper_eapRelayed has hmessage t.heap (hlast _ rfl) hf hharmless _
  | @accepted pdu _ hf =>
    refine Along.append_iff.mpr ⟨.cons trivial (.single trivial),
      .cons ?_ (.cons trivial (.single trivial))⟩
    exact proper_eapCode (by decide) (hlast _ rfl) (Or.inr hf) (hok.1 hf)

/-- In a run with the right identifiers every packet that ends an authentication is proper. -/
theorem endings_proper {ts : List (Turn S A H)}
    (h : Exec.Meets (step md5) (OnReceived (Identified md5)) [] s ts) :
    Along Proper [] (run md5 s ts).log :=
  (extends_run (I := fun _ _ => True) (fun _ _ _ _ _ => trivial) (fun _ _ => trivial)
    (fun _ _ _ _ _ _ _ hok hturn => ⟨proper_handled hok hturn, fun _ _ => trivial⟩) trivial h).along

/-- The response of the identity meets the condition: it is answered by a challenge that is no end. -/
private theorem identified_challengedTurn (past : List (Event Unit ℕ Unit)) :
    OnReceived (Identified zeroMd5) past fresh challengedTurn := by
  intro l f hturn
  cases ((receiveTurn_some hturn).2 f rfl).1
  have hanswer : (fresh.response zeroMd5 challengedTurn.access ((nameRequest (fun _ => 0)
      identityFrame.payload.body).build (fresh.identityOps identityFrame.payload.body))).toOption.map
        (·.map fun pdu => (pdu.getCode, pdu.attributes)) = some (some (RadiusPDU.accessChallenge,
          some [⟨RadiusAttr.state, [1]⟩, ⟨RadiusAttr.eapMessage, [1, 8, 0, 6, 4, 0]⟩])) := by
    decide +kernel
  refine ⟨fun hf => absurd hf (by decide +kernel), fun _ request s' hrequest response hresponse => ?_⟩
  obtain ⟨-, attr, -, hbuilt, -⟩ := accessRequestId_eq_some.mp hrequest
  subst hbuilt
  have hsame : fresh.response zeroMd5 challengedTurn.access ((nameRequest (fun _ => 0)
      identityFrame.payload.body).build (fresh.identityOps identityFrame.payload.body)) =
        .ok response := hresponse
  rw [hsame] at hanswer
  obtain ⟨pdu, rfl, hpdu⟩ := Option.map_eq_some_iff.mp (Option.some.inj hanswer)
  rw [Prod.mk.injEq] at hpdu
  refine ⟨fun hcode => absurd hpdu.1 (hcode pdu rfl), ?_⟩
  rintro _ ⟨⟩ - a ⟨as, has, ha⟩
  cases hpdu.2.symm.trans has
  cases ha
  exact Or.inl ⟨1, _, rfl, by decide, by decide⟩

/-- A challenge, its answer and a packet for success with the identifier of both. -/
theorem endings_proper_accepted : Along Proper []
    (run zeroMd5 fresh [challengedTurn, acceptedTurn]).log := by
  refine endings_proper (Exec.Meets.of_take fun i t hi s hs => ?_)
  rcases i with _ | _ | i
  · cases hi
    cases hs
    exact identified_challengedTurn _
  · cases hi
    have hid : (run zeroMd5 fresh [challengedTurn]).result.toOption.map (·.io.output.body.id) =
        some 8 := by
      decide +kernel
    have hrun : (run zeroMd5 fresh [challengedTurn]).result = .ok s := hs
    rw [hrun] at hid
    intro l f hturn
    obtain ⟨hbuffer, hframe⟩ := receiveTurn_some hturn
    cases (hframe f rfl).1
    refine ⟨fun _ => ?_, fun hf => absurd hf (by decide +kernel)⟩
    change AccessUi8.get l.outData 19 = _
    rw [hbuffer]
    exact Option.some.inj hid
  · cases hi

/-- The identifier of a frame that ends an authentication. -/
def endId : Event Unit ℕ Unit → Option ℕ
  | .sent data _ => if Ends data then some (sentPacket data).id else none
  | _ => none

/-- The response of an identity is answered by a failure whose identifier is that of the empty
buffer. -/
theorem not_proper : ¬Along Proper [] (run zeroMd5 fresh [unansweredTurn]).log := by
  intro h
  generalize hlog : (run zeroMd5 fresh [unansweredTurn]).log = log at h
  have hend : log[3]?.bind endId = some 0 := by
    rw [← hlog]
    decide +kernel
  have hreceived : (lastReceived (log.take 3)).map (·.payload.body.id) = some 9 := by
    rw [← hlog]
    decide +kernel
  obtain ⟨e, he, hid⟩ := Option.bind_eq_some_iff.mp hend
  have hproper := h.getElem? he
  cases e with
  | received | requested | answered | copied => cases hid
  | sent data len =>
    rw [endId] at hid
    split at hid
    · rename_i hends
      obtain ⟨f, hlast, -, hsame, -⟩ := hproper hends
      rw [List.nil_append] at hlast
      rw [hlast] at hreceived
      cases (Option.some.inj hid).symm.trans (hsame.trans (Option.some.inj hreceived))
    · cases hid

end SimuNas

end Dot1x.Nas
