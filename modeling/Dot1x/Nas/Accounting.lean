import Dot1x.Nas.Sessions

/-!
# Accounting

The program keeps no record of sessions. A session is accounted as started after a packet for success
and as stopped when a supplicant logs off, and what is sent names the last identity. So starts and
stops come in pairs if the supplicant behaves, and otherwise they need not.
-/

namespace Dot1x.Nas

open Dot1x.Base Dot1x.Wire Dot1x.Eap Dot1x.Link Dot1x.Radius

variable {S A H : Type} [DecidableEq A]

/-- The attributes of a type that a packet has. -/
def attrsOf (pdu : RadiusPDU) (t : UInt8) : List Tlv :=
  (pdu.attributes.getD []).filter (·.type = t)

/-- The user names in a packet. -/
def names (pdu : RadiusPDU) : List Tlv := attrsOf pdu RadiusAttr.userName

/-- A request for accounting has a status. -/
def HasStatus (pdu : RadiusPDU) (status : UInt32) : Prop :=
  pdu.getCode = RadiusPDU.accountingRequest ∧ attrsOf pdu RadiusAttr.acctStatusType =
    [⟨RadiusAttr.acctStatusType, AppendOp.bigEndian status⟩]

instance (pdu : RadiusPDU) (status : UInt32) : Decidable (HasStatus pdu status) :=
  inferInstanceAs (Decidable (_ ∧ _))

/-- The names of the session that is accounted, after another event. -/
def nextAccount (account : Option (List Tlv)) : Event S A H → Option (List Tlv)
  | .requested _ pdu =>
    if HasStatus pdu SimuNas.acctStatusStart then some (names pdu)
    else if HasStatus pdu SimuNas.acctStatusStop then none
    else account
  | _ => account

/-- The names of the session that was started and not stopped. -/
def account (past : List (Event S A H)) : Option (List Tlv) := past.foldl nextAccount none

/-- The names that the last identity stands for. -/
def lastNames (past : List (Event S A H)) : List Tlv :=
  ((lastIdentity past).map nameAttr).toList

/-- Starts and stops come in pairs with the same names. -/
def Paired (past : List (Event S A H)) : Event S A H → Prop
  | .requested _ pdu => pdu.getCode = RadiusPDU.accountingRequest →
    HasStatus pdu SimuNas.acctStatusStart ∧ account past = none ∨
    HasStatus pdu SimuNas.acctStatusStop ∧ account past = some (names pdu)
  | _ => True

/-- A frame for logging off was received last. -/
def LoggedOff (past : List (Event S A H)) : Prop :=
  ∃ before f, past = before ++ [.received f] ∧ f.payload.type = EapolPacket.logoff

/-- The answer to a challenge was accepted last, and the packet for success was sent. -/
def Admitted (past : List (Event S A H)) : Prop :=
  ∃ before f env request pdu data len, past = before ++ [.received f, .requested env request,
      .answered (some pdu), .sent data len] ∧
    IsResponse Eap.md5 f ∧ pdu.getCode = RadiusPDU.accessAccept ∧
    (sentPacket data).code = Eap.success

/-- A session is started or stopped right after what is its reason, and in the name of the last
identity. -/
def Accounted (past : List (Event S A H)) : Event S A H → Prop
  | .requested _ pdu => pdu.getCode = RadiusPDU.accountingRequest →
    (HasStatus pdu SimuNas.acctStatusStart ∧ Admitted past ∨
      HasStatus pdu SimuNas.acctStatusStop ∧ LoggedOff past) ∧ names pdu = lastNames past
  | _ => True

/-- A supplicant logs off from a session in the name of the last identity, and answers to challenges
are accepted while there is no session. -/
def Orderly (md5 : Md5) (past : List (Event S A H)) (s : SimuNas H) (t : Turn S A H) (f : Frame) :
    Prop :=
  (f.payload.type = EapolPacket.logoff → account past = some (lastNames past)) ∧
  (IsResponse Eap.md5 f → ∀ pdu, s.response md5 t.access
      (s.accessRequestMd5 t.access.fresh f.payload.body) = .ok (some pdu) →
    pdu.getCode = RadiusPDU.accessAccept → account past = none)

/-- The account of a longer history goes on from the account so far. -/
theorem account_append (past l : List (Event S A H)) :
    account (past ++ l) = l.foldl nextAccount (account past) :=
  List.foldl_append

namespace SimuNas

variable {md5 : Md5} {s s' : SimuNas H} {t : Turn S A H} {f : Frame} {past : List (Event S A H)}
  {full : List (Event S A H)} {r : Option (SimuNas H)}

/-- A request for accounting names whom the kept attribute names. -/
theorem names_accountingRequest {o : Option Frame}
    (hname : kept s.tmpUserName = (o.map nameAttr).toList) (fresh : Mem) (status : UInt32)
    {ops : List AppendOp} (hops : ops = [] ∨ ops = [.attrInt RadiusAttr.acctSessionTime 24]) :
    names (s.accountingRequest fresh status ops) = (o.map nameAttr).toList ∧
      HasStatus (s.accountingRequest fresh status ops) status := by
  obtain ⟨⟨rest, hcarries, hrest⟩, hcode⟩ := carries_accountingRequest s fresh status hops
  rw [hname] at hcarries
  have hnone (type : UInt8) (h : ∀ a ∈ rest, a.type ≠ type) :
      rest.filter (·.type = type) = [] :=
    List.filter_eq_nil_iff.mpr (by simpa using h)
  have hnames := hnone _ fun a ha => (hrest a ha).1
  have hstatus := hnone _ fun a ha => (hrest a ha).2
  have hkept : ∀ a ∈ (o.map nameAttr).toList, a.type = RadiusAttr.userName := by
    cases o with
    | none => simp
    | some g => simp [nameAttr]
  have hother : (o.map nameAttr).toList.filter (·.type = RadiusAttr.acctStatusType) = [] := by
    rw [List.filter_eq_nil_iff]
    intro a ha
    rw [hkept a ha]
    decide
  refine ⟨?_, hcode, ?_⟩
  · rw [names, attrsOf, hcarries.attributes, Option.getD_some, List.filter_append,
      List.filter_cons_of_neg (Bool.not_eq_true _ ▸ rfl), hnames, List.append_nil,
      List.filter_eq_self]
    simpa using hkept
  · rw [attrsOf, hcarries.attributes, Option.getD_some, List.filter_append, hother,
      List.filter_cons_of_pos rfl, hstatus]
    rfl

/-- A request of the server that decides is none for accounting. -/
theorem getCode_of_authenticates {fresh : Mem} {request : RadiusPDU} {code : UInt8}
    (h : s.Authenticates fresh f request s' code) : request.getCode = RadiusPDU.accessRequest := by
  cases h with
  | identity _ hrequest => exact (carries_accessRequestId hrequest).1.2
  | md5 => exact (carries_accessRequestMd5 ..).2

/-- Nor does it change what is accounted. -/
private theorem nextAccount_of_authenticates {env : Environment S A H} {fresh : Mem}
    {request : RadiusPDU} {code : UInt8} (h : s.Authenticates fresh f request s' code)
    (a : Option (List Tlv)) :
    nextAccount a (.requested env request : Event S A H) = a := by
  have hnot (status : UInt32) : ¬HasStatus request status := by
    rintro ⟨hcode, -⟩
    cases hcode.symm.trans (getCode_of_authenticates h)
  rw [nextAccount, if_neg (hnot _), if_neg (hnot _)]

/-- So it is no reason for complaint about the accounting. -/
private theorem accounted_of_authenticates {env : Environment S A H} {fresh : Mem}
    {request : RadiusPDU} {code : UInt8} (h : s.Authenticates fresh f request s' code)
    (history : List (Event S A H)) :
    Accounted history (.requested env request) ∧ Paired history (.requested env request) := by
  have hcode : request.getCode ≠ RadiusPDU.accountingRequest := by
    rw [getCode_of_authenticates h]
    decide
  exact ⟨fun hc => absurd hc hcode, fun hc => absurd hc hcode⟩

/-- At a logoff the stop is accounted for the session in progress. -/
private theorem stop_accounted {env : Environment S A H} (md5 : Md5) (t : Turn S A H)
    (h : Keeps past s) (hlogoff : f.payload.type = EapolPacket.logoff) (fresh : Mem) :
    Accounted (past ++ [.received f]) (.requested env (s.accountStopRequest fresh)) ∧
      (Orderly md5 past s t f →
        Paired (past ++ [.received f]) (.requested env (s.accountStopRequest fresh))) := by
  obtain ⟨hnames, hstatus⟩ := names_accountingRequest h.userName fresh acctStatusStop (Or.inr rfl)
  have hf : ¬IsResponse Eap.identity f := fun hf => by cases hlogoff.symm.trans hf.isPckt
  have hlast : lastNames (past ++ [.received f]) = lastNames past := by
    rw [lastNames, lastIdentity_append, List.foldl_cons, nextIdentity, if_neg hf]
    rfl
  constructor
  · intro _
    refine ⟨Or.inr ⟨hstatus, past, f, rfl, hlogoff⟩, ?_⟩
    rw [hlast]
    exact hnames
  · intro horderly _
    refine Or.inr ⟨hstatus, ?_⟩
    rw [account_append]
    exact (horderly.1 hlogoff).trans (congrArg some hnames.symm)

/-- When an answer was accepted and the success told, the start is accounted. -/
private theorem start_accounted {env : Environment S A H} (h : Keeps past s)
    (hmd5 : IsResponse Eap.md5 f) {pdu : RadiusPDU}
    (hresponse : s.response md5 t.access (s.accessRequestMd5 t.access.fresh f.payload.body) =
      .ok (some pdu)) (hcode : pdu.getCode = RadiusPDU.accessAccept) (fresh : Mem)
    {history : List (Event S A H)} (hhistory : history = past ++ [.received f] ++
      [.requested (plainCallbacks t.access.env)
        (s.accessRequestMd5 t.access.fresh f.payload.body)] ++ [.answered (some pdu)] ++
      [(s.framed (s.eapCode Eap.success)).lastSent]) :
    Accounted history (.requested env (s.accountStartRequest fresh)) ∧
      (Orderly md5 past s t f →
        Paired history (.requested env (s.accountStartRequest fresh))) := by
  have hmade : s.Authenticates t.access.fresh f _ s _ := .md5 hmd5
  obtain ⟨hnames, hstatus⟩ := names_accountingRequest h.userName fresh acctStatusStart (Or.inl rfl)
  have hid : ¬IsResponse Eap.identity f := fun hid => by cases hid.type.symm.trans hmd5.type
  have hsuccess : (sentPacket (s.framed (s.eapCode Eap.success)).io.outData).code = Eap.success :=
    (fields_framed s (eapCode_data s _)).1.trans (fields_eapCode s (by decide)).1
  have hadmitted : Admitted history := by
    refine ⟨past, f, plainCallbacks t.access.env, s.accessRequestMd5 t.access.fresh f.payload.body,
      pdu, _, (s.framed (s.eapCode Eap.success)).io.outLen, ?_, hmd5, hcode, hsuccess⟩
    rw [hhistory]
    simp only [List.append_assoc, List.cons_append, List.nil_append]
    rfl
  constructor
  · intro _
    refine ⟨Or.inl ⟨hstatus, hadmitted⟩, ?_⟩
    rw [hhistory, lastNames, lastIdentity_append, lastIdentity_append, lastIdentity_append,
      lastIdentity_append]
    simp only [List.foldl_cons, List.foldl_nil, nextIdentity, if_neg hid]
    exact hnames
  · intro horderly _
    refine Or.inl ⟨hstatus, ?_⟩
    rw [hhistory, account_append, account_append, account_append, account_append]
    simp only [List.foldl_cons, List.foldl_nil, nextAccount_of_authenticates hmade]
    exact horderly.2 hmd5 pdu hresponse hcode

/-- What a turn makes of the sessions that are accounted. -/
theorem accounted_handled (h : Keeps past s) (hturn : Handled md5 s t f full r) :
    Along Accounted (past ++ [.received f]) full ∧
      (Orderly md5 past s t f → Along Paired (past ++ [.received f]) full) := by
  cases hturn with
  | ignored | unnamed => exact ⟨.nil, fun _ => .nil⟩
  | started =>
    exact ⟨.single trivial, fun _ => .single trivial⟩
  | loggedOff hlogoff =>
    obtain ⟨hstop, hpaired⟩ := stop_accounted md5 t h hlogoff t.accounting.fresh
    exact ⟨.cons hstop (.single trivial),
      fun horderly => .cons (hpaired horderly) (.single trivial)⟩
  | lost hmade =>
    obtain ⟨haccess, hpaired⟩ := accounted_of_authenticates hmade (past ++ [.received f])
    exact ⟨.single haccess, fun _ => .single hpaired⟩
  | refused hmade =>
    obtain ⟨haccess, hpaired⟩ := accounted_of_authenticates hmade (past ++ [.received f])
    exact ⟨.cons haccess (.cons trivial (.single trivial)),
      fun _ => .cons hpaired (.cons trivial (.single trivial))⟩
  | unusable hf hrequest =>
    obtain ⟨haccess, hpaired⟩ :=
      accounted_of_authenticates (.identity hf hrequest) (past ++ [.received f])
    exact ⟨.cons haccess (.single trivial), fun _ => .cons hpaired (.single trivial)⟩
  | challenged hf hrequest =>
    obtain ⟨haccess, hpaired⟩ :=
      accounted_of_authenticates (.identity hf hrequest) (past ++ [.received f])
    exact ⟨.cons haccess (.cons trivial (.cons trivial (.single trivial))),
      fun _ => .cons hpaired (.cons trivial (.cons trivial (.single trivial)))⟩
  | accepted hf hresponse hcode =>
    obtain ⟨haccess, hquiet⟩ :=
      accounted_of_authenticates (Authenticates.md5 hf) (past ++ [.received f])
    obtain ⟨hstart, hpaired⟩ := start_accounted h hf hresponse hcode t.accounting.fresh rfl
    exact ⟨.cons haccess (.cons trivial (.cons trivial (.cons hstart (.single trivial)))),
      fun horderly =>
        .cons hquiet (.cons trivial (.cons trivial (.cons (hpaired horderly) (.single trivial))))⟩

/-- Sessions are accounted as started and stopped for these reasons only and in the name of the last
identity; where supplicants are orderly, they are in pairs. -/
theorem accounting_pairs (md5 : Md5) (own : List UInt8) (buf : Mem) (radclient : RadiusClient H)
    (supplicantMac : List UInt8) (stateMem userNameMem : Mem) (ts : List (Turn S A H)) :
    Along Accounted []
      (run md5 (new own buf radclient supplicantMac stateMem userNameMem) ts).log ∧
    (Exec.Meets (step md5) (OnReceived (Orderly md5)) []
        (new own buf radclient supplicantMac stateMem userNameMem) ts →
      Along Paired []
        (run md5 (new own buf radclient supplicantMac stateMem userNameMem) ts).log) := by
  have hio (past : List (Event S A H)) (s : SimuNas H) (l : Ll8023) (hs : Keeps past s) :
      Keeps past { s with io := l } :=
    ⟨hs.userName, hs.settled, hs.state, hs.type⟩
  have hkeep (past : List (Event S A H)) (s : SimuNas H) (t : Turn S A H) (f : Frame)
      (full : List (Event S A H)) (r : Option (SimuNas H)) (hs : Keeps past s)
      (hturn : Handled md5 s t f full r) :
      ∀ s', r = some s' → Keeps (past ++ [.received f] ++ full) s' := by
    intro s' hs'
    rw [List.append_assoc]
    exact hs.handled hturn s' hs'
  constructor
  · exact (extends_run_of_forall (fun past s l hs _ => hio past s l hs) (fun _ _ => trivial)
      (fun past s t f full r hs hturn => ⟨(accounted_handled hs hturn).1,
        hkeep past s t f full r hs hturn⟩) (keeps_new ..)).along
  · intro h
    exact (extends_run (fun past s l hs _ => hio past s l hs) (fun _ _ => trivial)
      (fun past s t f full r hs hok hturn => ⟨(accounted_handled hs hturn).2 hok,
        hkeep past s t f full r hs hturn⟩) (keeps_new ..) h).along

/-- A supplicant logs off. -/
def logoffTurn : Turn Unit ℕ Unit := ⟨some (groupFrame [1, 2, 0, 0]), true, fun _ => 0, silent, silent⟩

/-- A frame that is received after some turns meets the condition. -/
theorem onReceived_orderly {past : List (Event Unit ℕ Unit)} {s : SimuNas Unit}
    {t : Turn Unit ℕ Unit}
    (hlogoff : (∀ f ∈ t.frame, f.payload.type ≠ EapolPacket.logoff) ∨
      account past = some (lastNames past))
    (hmd5 : (∀ f ∈ t.frame, ¬IsResponse Eap.md5 f) ∨ account past = none) :
    OnReceived (Orderly zeroMd5) past s t := by
  intro l f hturn
  have hframe := ((receiveTurn_some hturn).2 f rfl).1
  refine ⟨fun hf => hlogoff.resolve_left fun hnot => hnot f hframe hf, fun hf _ _ _ => ?_⟩
  exact hmd5.resolve_left fun hnot => hnot f hframe hf

/-- A session from its challenge to its end. -/
theorem accounting_pairs_session : Along Paired []
    (run zeroMd5 fresh [challengedTurn, acceptedTurn, logoffTurn]).log := by
  refine (accounting_pairs zeroMd5 _ _ _ _ _ _ _).2 ?_
  refine Exec.Meets.of_take fun i t hi s hs => ?_
  rcases i with _ | _ | _ | i
  · cases hi
    exact onReceived_orderly (Or.inl (by decide +kernel)) (Or.inl (by decide +kernel))
  · cases hi
    exact onReceived_orderly (Or.inl (by decide +kernel)) (Or.inr (by decide +kernel))
  · cases hi
    exact onReceived_orderly (Or.inr (by decide +kernel)) (Or.inl (by decide +kernel))
  · cases hi

/-- A supplicant that was never admitted logs off, and a session is stopped. -/
theorem not_paired : ¬Along Paired [] (run zeroMd5 fresh [logoffTurn]).log := by
  intro h
  generalize hlog : (run zeroMd5 fresh [logoffTurn]).log = log at h
  have hstop : log[1]?.map (nextAccount (some [])) = some none := by
    rw [← hlog]
    decide +kernel
  have hnone : account (log.take 1) = none := by
    rw [← hlog]
    decide +kernel
  obtain ⟨e, he, hend⟩ := Option.map_eq_some_iff.mp hstop
  have hpaired := h.getElem? he
  cases e with
  | received | answered | copied | sent => cases hend
  | requested env pdu =>
    rw [nextAccount] at hend
    split at hend
    · cases hend
    · rename_i hstart
      split at hend
      · rename_i hstatus
        rcases hpaired hstatus.1 with ⟨hstarted, -⟩ | ⟨-, hopen⟩
        · exact hstart hstarted
        · cases hnone.symm.trans hopen
      · cases hend

end SimuNas

end Dot1x.Nas
