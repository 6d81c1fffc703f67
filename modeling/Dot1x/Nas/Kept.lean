import Dot1x.Nas.Frames
import Dot1x.Nas.Requests

/-!
# What is kept from one turn to the next

The name that is kept is that of the last response of an identity, and the state is that of the last
challenge that was relayed. The history says which these are, and whether the two belong to one
exchange.
-/

namespace Dot1x.Nas

open Dot1x.Base Dot1x.Wire Dot1x.Eap Dot1x.Link Dot1x.Radius

variable {S A H : Type} [DecidableEq A]

/-- The frame of the last response of an identity, after another event. -/
def nextIdentity (last : Option Frame) : Event S A H → Option Frame
  | .received f => if IsResponse Eap.identity f then some f else last
  | _ => last

/-- The frame of the last response of an identity. -/
def lastIdentity (past : List (Event S A H)) : Option Frame := past.foldl nextIdentity none

/-- The user name of a response of an identity. -/
def nameAttr (f : Frame) : Tlv := ⟨RadiusAttr.userName, userNameOf f.payload.body⟩

/-- How far an authentication has come. -/
inductive Dialogue
  | idle
  /-- An identity was received. -/
  | identified (f : Frame)
  /-- It was answered by a challenge. -/
  | challenged (f : Frame) (challenge : RadiusPDU)

namespace Dialogue

/-- The last response of an identity replaces those before it, what answers it is a challenge or
not, and the packet for success or failure is the end. -/
def next (d : Dialogue) : Event S A H → Dialogue
  | .received f => if IsResponse Eap.identity f then identified f else d
  | .answered response =>
    match d, response with
    | identified f, some pdu =>
      if pdu.getCode = RadiusPDU.accessChallenge then challenged f pdu else idle
    | identified _, none => idle
    | _, _ => d
  | .sent data _ => if Ends data then idle else d
  | _ => d

end Dialogue

/-- How far the authentication has come after a history. -/
def dialogue (past : List (Event S A H)) : Dialogue := past.foldl Dialogue.next .idle

/-- The first attribute of a type. -/
def FirstAttr (pdu : RadiusPDU) (t : UInt8) (a : Tlv) : Prop :=
  ∃ as, pdu.attributes = some as ∧ as.find? (·.type = t) = some a

/-- The last identity of a longer history. -/
theorem lastIdentity_append (past l : List (Event S A H)) :
    lastIdentity (past ++ l) = l.foldl nextIdentity (lastIdentity past) :=
  List.foldl_append

/-- The dialogue of a longer history goes on from the dialogue so far. -/
theorem dialogue_append (past l : List (Event S A H)) :
    dialogue (past ++ l) = l.foldl Dialogue.next (dialogue past) :=
  List.foldl_append

namespace SimuNas

/-- What the history says of the two variables. -/
structure Keeps (past : List (Event S A H)) (s : SimuNas H) : Prop where
  userName : kept s.tmpUserName = ((lastIdentity past).map nameAttr).toList
  settled : ∀ f, dialogue past ≠ .identified f
  state : ∀ f pdu, dialogue past = .challenged f pdu → lastIdentity past = some f ∧
    ∃ a, FirstAttr pdu RadiusAttr.state a ∧ kept s.tmpState = [a]
  type : ∀ a ∈ kept s.tmpState, a.type = RadiusAttr.state

variable {md5 : Md5} {s s' : SimuNas H} {t : Turn S A H} {f : Frame}
  {past full : List (Event S A H)} {r : Option (SimuNas H)}

/-- A packet for success or failure ends the dialogue. -/
theorem next_lastSent_eapCode (d : Dialogue) (s : SimuNas H) {code : ℕ}
    (hcode : code = Eap.success ∨ code = Eap.failure) :
    d.next ((s.framed (s.eapCode code)).lastSent : Event S A H) = .idle := by
  have hsmall : code < 256 := by
    rcases hcode with rfl | rfl <;> decide
  have hsent := (fields_framed s (eapCode_data s code)).1.trans (fields_eapCode s hsmall).1
  refine if_pos ?_
  rwa [Ends, hsent]

/-- A request for an identity does not. -/
theorem next_lastSent_eapRequestId (d : Dialogue) (s : SimuNas H) :
    d.next ((s.framed s.eapRequestId).lastSent : Event S A H) = d := by
  have hsent := (fields_framed s (eapRequestId_data s)).1.trans (code_eapRequestId s)
  have hend : ¬Ends (s.framed s.eapRequestId).io.outData := by
    rw [Ends, hsent]
    decide
  change (if Ends (s.framed s.eapRequestId).io.outData then Dialogue.idle else d) = d
  rw [if_neg hend]

/-- An answer matters only where an identity was received. -/
theorem next_answered {d : Dialogue} (h : ∀ f, d ≠ .identified f) (response : Option RadiusPDU) :
    d.next (.answered response : Event S A H) = d := by
  cases d with
  | idle | challenged => rfl
  | identified f => exact absurd rfl (h f)

/-- What is kept after the response of an identity that is not answered by a challenge. -/
theorem Keeps.refused {request : RadiusPDU} {code : UInt8} {response : Option RadiusPDU}
    (h : Keeps past s) (hmade : s.Authenticates t.access.fresh f request s' code)
    (hcode : ∀ pdu ∈ response, pdu.getCode ≠ code) :
    Keeps (past ++ .received f :: (asked t.access request response ++
      [(s'.framed (s'.eapCode Eap.failure)).lastSent])) (s'.framed (s'.eapCode Eap.failure)) := by
  have hidle : dialogue (past ++ .received f :: (asked t.access request response ++
      [(s'.framed (s'.eapCode Eap.failure)).lastSent])) = .idle := by
    rw [dialogue_append, List.foldl_cons, List.foldl_append, List.foldl_cons, List.foldl_nil]
    exact next_lastSent_eapCode _ s' (Or.inr rfl)
  have hlast : lastIdentity (past ++ .received f :: (asked t.access request response ++
      [(s'.framed (s'.eapCode Eap.failure)).lastSent])) =
        if IsResponse Eap.identity f then some f else lastIdentity past := by
    rw [lastIdentity_append]
    rfl
  cases hmade with
  | identity hf hrequest =>
    obtain ⟨-, hname, hsame⟩ := carries_accessRequestId hrequest
    refine ⟨?_, by simp [hidle], by simp [hidle], ?_⟩
    · rw [hlast, if_pos hf]
      exact hname
    · rw [hsame]
      exact h.type
  | md5 hf =>
    refine ⟨?_, by simp [hidle], by simp [hidle], h.type⟩
    rw [hlast, if_neg fun hid => by cases hid.type.symm.trans hf.type]
    exact h.userName

/-- What is kept after a challenge that is relayed. -/
theorem keeps_challenged {request pdu : RadiusPDU} {attrEap attrState : ℕ}
    (hf : IsResponse Eap.identity f)
    (hrequest : s.accessRequestId t.access.fresh f.payload.body = some (request, s'))
    (hresponse : s.response md5 t.access request = .ok (some pdu))
    (hcode : pdu.getCode = RadiusPDU.accessChallenge)
    (hstate : pdu.findAttr RadiusAttr.state = some (some attrState)) (n size : ℕ) :
    Keeps (past ++ .received f :: (asked t.access request (some pdu) ++ [.copied n size,
      ((s'.keepState pdu attrState).framed (s'.eapRelayed pdu attrEap t.heap)).lastSent]))
      ((s'.keepState pdu attrState).framed (s'.eapRelayed pdu attrEap t.heap)) := by
  generalize hs'' : (s'.keepState pdu attrState).framed (s'.eapRelayed pdu attrEap t.heap) = s''
  have hnames : kept s''.tmpUserName = kept s'.tmpUserName := by
    rw [← hs'']
    rfl
  obtain ⟨as, has⟩ := carries_of_response hresponse
  obtain ⟨a, hfind, hread, -, hvalid⟩ := has.findAttr_eq_some hstate
  have hkept : kept s''.tmpState = [a] := by
    rw [hread, ← hs'']
    exact kept_assign hvalid
  have hdialogue : dialogue (past ++ .received f :: (asked t.access request (some pdu) ++
      [.copied n size, s''.lastSent])) =
        if Ends s''.io.outData then .idle else .challenged f pdu := by
    rw [dialogue_append, List.foldl_cons]
    change Dialogue.next _ (s''.lastSent : Event S A H) = _
    simp only [Dialogue.next, if_pos hf, if_pos hcode]
    rfl
  have hlast : lastIdentity (past ++ .received f :: (asked t.access request (some pdu) ++
      [.copied n size, s''.lastSent])) = some f := by
    rw [lastIdentity_append]
    exact if_pos hf
  refine ⟨?_, fun g hg => ?_, fun g challenge hg => ?_, ?_⟩
  · rw [hnames, hlast]
    exact (carries_accessRequestId hrequest).2.1
  · rw [hdialogue] at hg
    split at hg <;> cases hg
  · rw [hdialogue] at hg
    split at hg
    · cases hg
    · cases hg
      exact ⟨hlast, a, ⟨as, has.attributes, hfind⟩, hkept⟩
  · have htype := List.find?_some hfind
    rw [hkept]
    simpa using htype

/-- What a turn keeps. -/
theorem Keeps.handled (h : Keeps past s) (hturn : Handled md5 s t f full r) :
    ∀ s', r = some s' → Keeps (past ++ .received f :: full) s' := by
  have hother (htype : f.payload.type ≠ EapolPacket.pckt) : ¬IsResponse Eap.identity f :=
    fun hf => htype hf.isPckt
  have hsame (hf : ¬IsResponse Eap.identity f) {events : List (Event S A H)} {s' : SimuNas H}
      (hlast : events.foldl nextIdentity (lastIdentity past) = lastIdentity past)
      (hnames : s'.tmpUserName = s.tmpUserName) (hstate : s'.tmpState = s.tmpState)
      (hdialogue : events.foldl Dialogue.next (dialogue past) = dialogue past ∨
        events.foldl Dialogue.next (dialogue past) = .idle) :
      Keeps (past ++ .received f :: events) s' := by
    have hlast' : lastIdentity (past ++ .received f :: events) = lastIdentity past := by
      rw [lastIdentity_append, List.foldl_cons, nextIdentity, if_neg hf, hlast]
    have hdialogue' : dialogue (past ++ .received f :: events) =
        events.foldl Dialogue.next (dialogue past) := by
      rw [dialogue_append, List.foldl_cons, Dialogue.next, if_neg hf]
    refine ⟨by rw [hnames, hlast', h.userName], fun g hg => ?_, fun g pdu hg => ?_,
      by rw [hstate]; exact h.type⟩
    · rw [hdialogue'] at hg
      rcases hdialogue with hd | hd
      · exact h.settled g (hd.symm.trans hg)
      · cases hd.symm.trans hg
    · rw [hdialogue'] at hg
      rcases hdialogue with hd | hd
      · rw [hlast', hstate]
        exact h.state g pdu (hd.symm.trans hg)
      · cases hd.symm.trans hg
  cases hturn with
  | ignored _ _ hid =>
    rintro _ ⟨⟩
    exact hsame hid rfl rfl rfl (Or.inl rfl)
  | started hstart =>
    rintro _ ⟨⟩
    have hquiet := next_lastSent_eapRequestId (S := S) (A := A) (dialogue past) s
    exact hsame (hother (by rw [hstart]; decide)) rfl rfl rfl (Or.inl hquiet)
  | @loggedOff response hlogoff =>
    rintro _ ⟨⟩
    have hquiet := next_answered (S := S) (A := A) (H := H) h.settled response
    exact hsame (hother (by rw [hlogoff]; decide)) rfl rfl rfl (Or.inl hquiet)
  | unnamed | lost | unusable =>
    intro s' hs'
    cases hs'
  | refused hmade hresponse hcode =>
    rintro _ ⟨⟩
    exact h.refused hmade hcode
  | challenged hf hrequest hresponse hcode hmessage hstate =>
    rintro _ ⟨⟩
    exact keeps_challenged hf hrequest hresponse hcode hstate _ _
  | accepted hf hresponse hcode =>
    rintro _ ⟨⟩
    refine hsame (fun hid => by cases hid.type.symm.trans hf.type) rfl rfl rfl (Or.inr ?_)
    rw [List.foldl_append, List.foldl_cons, next_lastSent_eapCode _ s (Or.inl rfl)]
    rfl

/-- What is kept when the program begins. -/
theorem keeps_new (own : List UInt8) (buf : Mem) (radclient : RadiusClient H)
    (supplicantMac : List UInt8) (stateMem userNameMem : Mem) :
    Keeps ([] : List (Event S A H)) (new own buf radclient supplicantMac stateMem userNameMem) where
  userName := kept_new userNameMem
  settled f hf := by cases hf
  state f pdu hf := by cases hf
  type := by
    have hnone : kept (RadiusAttr.new stateMem) = [] := kept_new stateMem
    intro a ha
    change a ∈ kept (RadiusAttr.new stateMem) at ha
    rw [hnone] at ha
    cases ha

/-- What is kept after a run. -/
theorem keeps_run (md5 : Md5) (own : List UInt8) (buf : Mem) (radclient : RadiusClient H)
    (supplicantMac : List UInt8) (stateMem userNameMem : Mem) (ts : List (Turn S A H)) :
    Exec.Extends Keeps (fun _ _ => True) []
      (run md5 (new own buf radclient supplicantMac stateMem userNameMem) ts) := by
  refine extends_run_of_forall
    (fun past s l hs _ => ⟨hs.userName, hs.settled, hs.state, hs.type⟩) (fun _ _ => trivial)
    (fun past s t f full r hs hturn => ⟨fun _ _ _ _ => trivial, fun s' hs' => ?_⟩) (keeps_new ..)
  rw [List.append_assoc]
  exact hs.handled hturn s' hs'

end SimuNas

end Dot1x.Nas
