import Dot1x.Nas.Authorization
import Dot1x.Nas.Kept

/-!
# Names and states

A request for the answer to a challenge combines what is kept of two requests. The two belong to one
exchange if the answer arrives while the dialogue that the challenge belongs to is open; after another
identity, or after the end of the dialogue, they need not.
-/

namespace Dot1x.Nas

open Dot1x.Base Dot1x.Wire Dot1x.Eap Dot1x.Link Dot1x.Radius

variable {S A H : Type} [DecidableEq A]

/-- The last response of an identity was answered by a challenge, and the dialogue has not ended. -/
def Dialogue.IsChallenged (d : Dialogue) : Prop := ∃ f challenge, d = .challenged f challenge

instance (d : Dialogue) : Decidable d.IsChallenged :=
  match d with
  | .idle => isFalse (by simp [Dialogue.IsChallenged])
  | .identified f => isFalse (by simp [Dialogue.IsChallenged])
  | .challenged f challenge => isTrue ⟨f, challenge, rfl⟩

/-- A packet carries a state and a name, and no others. -/
def Bears (pdu : RadiusPDU) (state name : Tlv) : Prop :=
  ∃ as, pdu.attributes = some as ∧ as.filter (·.type = RadiusAttr.state) = [state] ∧
    as.filter (·.type = RadiusAttr.userName) = [name]

/-- A request for the answer to a challenge is made, and sent, with the state of the challenge of the
open dialogue and with the name of the identity that this challenge answered. -/
def Matched (c : RadiusClient H) (md5 : Md5) (past : List (Event S A H)) : Event S A H → Prop
  | .requested env request => ∀ before f, past = before ++ [.received f] → IsResponse Eap.md5 f →
    ∃ g challenge state, dialogue past = .challenged g challenge ∧
      FirstAttr challenge RadiusAttr.state state ∧ Bears request state (nameAttr g) ∧
      ∀ t ∈ (c.makeRequest env md5 request none).log, Bears t.pdu state (nameAttr g)
  | _ => True

/-- The answer to a challenge arrives while the dialogue is open. -/
def InDialogue (past : List (Event S A H)) (_ : SimuNas H) (_ : Turn S A H) (f : Frame) : Prop :=
  IsResponse Eap.md5 f → (dialogue past).IsChallenged

/-- What is sent has the attributes of the request. -/
private theorem filter_transmitted {env : Environment S A H} {md5 : Md5} {request : RadiusPDU}
    {c : RadiusClient H} {as : List Tlv} (has : request.Carries as)
    (hplain : ∀ a ∈ as, a.type ≠ RadiusAttr.messageAuthenticator) {t : Transmission S A}
    (ht : t ∈ (c.makeRequest env md5 request none).log) : ∃ bs, t.pdu.attributes = some bs ∧
      ∀ type, type ≠ RadiusAttr.userPassword → type ≠ RadiusAttr.messageAuthenticator →
        bs.filter (·.type = type) = as.filter (·.type = type) := by
  obtain ⟨es, hcopied⟩ := has.copied (RadiusClient.made_of_mem ht).copy
  obtain ⟨bs, hbs, -⟩ := hcopied.filter_eq hplain (t := RadiusAttr.state) (by decide) (by decide)
  refine ⟨bs, hbs.attributes, fun type htype htype' => ?_⟩
  obtain ⟨bs', hbs', hsame⟩ := hcopied.filter_eq hplain htype htype'
  rw [hbs.unique hbs', hsame]

namespace SimuNas

variable {md5 : Md5} {s s' : SimuNas H} {t : Turn S A H} {f g : Frame} {past : List (Event S A H)}
  {full : List (Event S A H)} {r : Option (SimuNas H)}

/-- The request for the answer to a challenge, where what is kept is known. -/
theorem bears_accessRequestMd5 (md5 : Md5) {state : Tlv} (hstate : kept s.tmpState = [state])
    (htype : state.type = RadiusAttr.state) (hname : kept s.tmpUserName = [nameAttr g])
    (fresh : Mem) (pkt : EapPacket) : Bears (s.accessRequestMd5 fresh pkt) state (nameAttr g) ∧
      ∀ (env : Environment S A H) (c : RadiusClient H),
        ∀ t ∈ (c.makeRequest env md5 (s.accessRequestMd5 fresh pkt) none).log,
          Bears t.pdu state (nameAttr g) := by
  have hcarries := (carries_accessRequestMd5 s fresh pkt).1
  rw [hstate, hname] at hcarries
  generalize s.accessRequestMd5 fresh pkt = request at hcarries ⊢
  have hmessage : ∀ a ∈ fitting RadiusAttr.eapMessage pkt.contents,
      a.type = RadiusAttr.eapMessage := by
    unfold fitting
    split <;> simp
  have hnone (type : UInt8) (h : type ≠ RadiusAttr.eapMessage) :
      (fitting RadiusAttr.eapMessage pkt.contents).filter (·.type = type) = [] := by
    rw [List.filter_eq_nil_iff]
    intro a ha
    rw [hmessage a ha]
    simpa using h.symm
  have hplain : ∀ a ∈ [state] ++ [nameAttr g] ++ fitting RadiusAttr.eapMessage pkt.contents,
      a.type ≠ RadiusAttr.messageAuthenticator := by
    intro a ha
    simp only [List.append_assoc, List.mem_append, List.mem_singleton] at ha
    rcases ha with rfl | rfl | ha
    · rw [htype]
      decide
    · change RadiusAttr.userName ≠ RadiusAttr.messageAuthenticator
      decide
    · rw [hmessage a ha]
      decide
  have hfilters : ([state] ++ [nameAttr g] ++ fitting RadiusAttr.eapMessage pkt.contents).filter
        (·.type = RadiusAttr.state) = [state] ∧
      ([state] ++ [nameAttr g] ++ fitting RadiusAttr.eapMessage pkt.contents).filter
        (·.type = RadiusAttr.userName) = [nameAttr g] := by
    constructor
    · rw [List.filter_append, List.filter_append, hnone _ (by decide)]
      simp [htype, nameAttr, RadiusAttr.state, RadiusAttr.userName]
    · rw [List.filter_append, List.filter_append, hnone _ (by decide)]
      simp [htype, nameAttr, RadiusAttr.state, RadiusAttr.userName]
  refine ⟨⟨_, hcarries.attributes, hfilters⟩, fun env c t ht => ?_⟩
  obtain ⟨bs, hbs, hsame⟩ := filter_transmitted hcarries hplain ht
  refine ⟨bs, hbs, ?_, ?_⟩
  · rw [hsame _ (by decide) (by decide), hfilters.1]
  · rw [hsame _ (by decide) (by decide), hfilters.2]

/-- A turn matches what it asks, if an answer to a challenge arrives in an open dialogue. -/
theorem matched_handled {c : RadiusClient H} (h : Keeps past s) (hok : InDialogue past s t f)
    (hturn : Handled md5 s t f full r) : Along (Matched c md5) (past ++ [.received f]) full := by
  refine hturn.along_of_answer (fun past e he => ?_) (fun past env request hnone => ?_) fun hf => ?_
  · cases e with
    | requested env request => exact absurd rfl (he env request)
    | received | answered | copied | sent => trivial
  · exact fun before g hpast hg => absurd hg (hnone before g hpast)
  · intro before g hpast hg
    obtain ⟨identity, challenge, hopen⟩ := hok hf
    obtain ⟨hlast, state, hfirst, hkept⟩ := h.state identity challenge hopen
    have htype : state.type = RadiusAttr.state := h.type state (by simp [hkept])
    have hname : kept s.tmpUserName = [nameAttr identity] := by
      rw [h.userName, hlast]
      rfl
    obtain ⟨hbears, hsent⟩ := bears_accessRequestMd5 (S := S) (A := A) md5 hkept htype
      hname t.access.fresh f.payload.body
    refine ⟨identity, challenge, state, ?_, hfirst, hbears, hsent _ c⟩
    rw [dialogue_append, hopen, List.foldl_cons, Dialogue.next,
      if_neg fun hid => by cases hid.type.symm.trans hf.type]
    rfl

/-- Where every answer to a challenge arrives in an open dialogue, names and states match. -/
theorem sessions_match {own : List UInt8} {buf : Mem} {radclient : RadiusClient H}
    {supplicantMac : List UInt8} {stateMem userNameMem : Mem} {ts : List (Turn S A H)}
    (h : Exec.Meets (step md5) (OnReceived InDialogue) []
      (new own buf radclient supplicantMac stateMem userNameMem) ts) :
    Along (Matched radclient md5) []
      (run md5 (new own buf radclient supplicantMac stateMem userNameMem) ts).log := by
  refine (extends_run (I := Keeps) (fun past s l hs _ => ⟨hs.userName, hs.settled, hs.state, hs.type⟩)
    (fun _ _ => trivial) (fun past s t f full r hs hok hturn => ⟨matched_handled hs hok hturn, ?_⟩)
    (keeps_new ..) h).along
  intro s' hs'
  rw [List.append_assoc]
  exact hs.handled hturn s' hs'

/-- A challenge. -/
def md5Challenge : RadiusPDU :=
  (RadiusPDU.new (fun _ => 0) RadiusPDU.accessChallenge 5).build
    [.attrData RadiusAttr.state [1], .attrData RadiusAttr.eapMessage [1, 8, 0, 6, 4, 0]]

/-- A packet that accepts. -/
def acceptance : RadiusPDU := .new (fun _ => 0) RadiusPDU.accessAccept 5

/-- The server answers with a challenge. -/
theorem answers_md5Challenge :
    (runLabels (Socket.step pduType) (.new 0) (answerSteps md5Challenge)).isSome := by
  decide +kernel

/-- The server answers with an acceptance. -/
theorem answers_acceptance :
    (runLabels (Socket.step pduType) (.new 0) (answerSteps acceptance)).isSome := by
  decide +kernel

/-- Surroundings in which no server has an address. -/
def silent : RequestCall Unit ℕ Unit :=
  ⟨fun _ => 0, { (answering acceptance answers_acceptance).env with getHostAddress := fun _ _ => none }⟩

/-- The response of an identity is answered by a challenge. -/
def challengedTurn : Turn Unit ℕ Unit :=
  ⟨some identityFrame, true, fun _ => 0, answering md5Challenge answers_md5Challenge, silent⟩

/-- The answer to a challenge, which is accepted. -/
def acceptedTurn : Turn Unit ℕ Unit :=
  ⟨some (groupFrame [1, 0, 0, 6, 2, 8, 0, 6, 4, 0]), true, fun _ => 0,
    answering acceptance answers_acceptance, silent⟩

/-- The response of the identity `b`, which is not answered. -/
def unansweredTurn : Turn Unit ℕ Unit :=
  ⟨some (groupFrame [1, 0, 0, 6, 2, 9, 0, 6, 1, 98]), true, fun _ => 0, silent, silent⟩

/-- A frame that is received after some turns meets the condition. -/
private theorem onReceived_inDialogue {past : List (Event Unit ℕ Unit)} {s : SimuNas Unit}
    {t : Turn Unit ℕ Unit} (h : (dialogue past).IsChallenged ∨
      ∀ f ∈ t.frame, ¬IsResponse Eap.md5 f) : OnReceived InDialogue past s t := by
  intro l f hturn hf
  have hframe := (receiveTurn_some hturn).2 f rfl
  exact h.resolve_right fun hnot => hnot f hframe.1 hf

/-- An identity, a challenge and its answer. -/
theorem sessions_match_accepted : Along (Matched fresh.radclient zeroMd5) []
    (run zeroMd5 fresh [challengedTurn, acceptedTurn]).log := by
  refine sessions_match (Exec.Meets.of_take fun i t hi s hs => onReceived_inDialogue ?_)
  rcases i with _ | _ | i
  · cases hi
    exact Or.inr (by decide +kernel)
  · exact Or.inl (by decide +kernel)
  · cases hi

/-- After the identity `b` the answer is sent with that name and with the state of the other
identity's challenge. -/
theorem not_matched : ¬Along (Matched fresh.radclient zeroMd5) []
    (run zeroMd5 fresh [challengedTurn, unansweredTurn, acceptedTurn]).log := by
  intro h
  generalize hlog : (run zeroMd5 fresh [challengedTurn, unansweredTurn, acceptedTurn]).log = log at h
  have hkind : log[10]?.map kind = some 1 := by
    rw [← hlog]
    decide +kernel
  have hlast : (log.take 10).getLast?.map kind = some 9 := by
    rw [← hlog]
    decide +kernel
  have hclosed : ¬(dialogue (log.take 10)).IsChallenged := by
    rw [← hlog]
    decide +kernel
  obtain ⟨e, he, hasks⟩ := Option.map_eq_some_iff.mp hkind
  obtain ⟨x, hx, hanswer⟩ := Option.map_eq_some_iff.mp hlast
  obtain ⟨before, hbefore⟩ := List.getLast?_eq_some_iff.mp hx
  obtain ⟨env, request, rfl⟩ := requested_of_kind hasks
  obtain ⟨f, rfl, hf⟩ := answer_of_kind hanswer
  obtain ⟨g, challenge, -, hopen, -⟩ := h.getElem? he before f hbefore hf
  exact hclosed ⟨g, challenge, hopen⟩

end SimuNas

end Dot1x.Nas
