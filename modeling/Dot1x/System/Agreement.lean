import Dot1x.Nas.Relay
import Dot1x.System.Authorization
import Dot1x.System.Messages

/-!
# What both sides agree about

Now the network invents nothing in either direction. Then every packet that the station sends answers
a request that the server had sent before, in the way of the user whose login is in force, and the
server receives such packets only. So behind a connection there is an authentic acceptance of the
answer that is computed from the password of the user and a challenge of the server, unless the packet
for success was passed on from a challenge.
-/

namespace Dot1x.System

open Dot1x.Base Dot1x.Wire Dot1x.Eap Dot1x.Link Dot1x.Radius Dot1x.Nas
open Dot1x.Client (Listener LoginCall Output ConState Delivery transmit transmitted installHandlers)

variable {S A H : Type} [DecidableEq A]

/-- The answer of the user who logged in. -/
def answerOf (digest : Digest) (c : LoginCall) (m : Message) : Message :=
  m.answer digest c.user.bytes c.password.bytes

/-- The station hears no challenge for which there is no room, nor one without a size. -/
def RoomyChallenge (input : EapPacket) : Prop :=
  input.code = Eap.request → input.type = Eap.md5 →
    6 ≤ input.len ∧ input.len - 6 ≤ initialSize

/-- The network invents nothing, names are short and challenges fit. -/
def Undisturbed (n : Network S A H) : Move S A H → Prop
  | .station a => ProperAdapter a ∧ (∀ c, a = .login c → ShortName c) ∧
    ∀ d f, a = .deliver d → d.frame = some f →
      HeardByStation n.history f ∧ RoomyChallenge f.payload.body
  | .server t => ∀ f, t.frame = some f → HeardByServer n.history f

/-- A message is the answer of the user of a login to a request that the server has sent. -/
def AnswersRequest (digest : Digest) (past : List (Occurrence S A H)) (c : LoginCall)
    (m : Message) : Prop :=
  ∃ data len, SentBy past data len ∧ (sentPacket data).code = Eap.request ∧
    m = answerOf digest c (Message.ofPacket (sentPacket data))

/-- Why something is said: the station answers requests, and the server receives what the station
sent. -/
def Prompted (digest : Digest) (past : List (Occurrence S A H)) : Occurrence S A H → Prop
  | .station login (.sent data _) => sentType data = EapolPacket.pckt →
    ∃ c, login = some c ∧ AnswersRequest digest past c (Message.ofPacket (sentPacket data))
  | .server (.received f) => ∃ data len, ToldBy past data len ∧ SameAs f data ∧
    (f.payload.type = EapolPacket.pckt → f.LengthsMatch)
  | _ => True

/-- While the thread runs, the handlers are those of the login in force, and its name is short. -/
def Following (login : Option LoginCall) (s : Listener) : Prop :=
  s.thread = true → ∀ e, s.auth = some e → ∃ c, login = some c ∧ ShortName c ∧ Loyal c e

variable {digest : Digest} {E : Engine} {c : LoginCall} {s s' : Listener} {outs : List Output}
  {l : Ll8023} {e : EapState Handler} {p q : EapPacket} {f : Frame}
  {past : List (Occurrence S A H)} {login : Option LoginCall}

/-- The handlers of `Login` are those of its call. -/
theorem loyal_installHandlers (h : (installHandlers c).2 = true) : Loyal c (installHandlers c).1 := by
  unfold installHandlers at h ⊢
  split at h
  · cases h
  · rename_i t ht
    dsimp only at h ⊢
    split at h
    · cases h
    · rename_i t' ht'
      obtain ⟨_, -, heq⟩ := Exec.result_bind_eq_ok.mp ht
      cases heq
      obtain ⟨chap, hchap, hrest⟩ := Exec.result_bind_eq_ok.mp ht'
      obtain ⟨_, -, heq'⟩ := Exec.result_bind_eq_ok.mp hrest
      cases heq'
      obtain ⟨m, -, heq''⟩ := Exec.result_bind_eq_ok.mp hchap
      cases heq''
      refine ⟨_, rfl, rfl, rfl, Or.inr ⟨slice_write_eq rfl, ?_⟩⟩
      change initialSize + c.password.bytes.length + 1 = c.password.bytes.length + (initialSize + 1)
      omega

/-- The type of a frame is the one that `transmit` was called with. -/
theorem sentType_transmit (l : Ll8023) {type : ℕ} (htype : type < 256) :
    sentType (transmit l type).outData = type := makeEapol_type l htype

/-- What the station hears is what the server sent, or a response. -/
theorem heard_cases {r : RadiusClient H} {md5 : Md5} (hcaused : Along (Caused r md5) [] past)
    (hheard : HeardByStation past f) (hmatch : f.LengthsMatch) :
    (∃ data len, SentBy past data len ∧ SameAs f data) ∨ f.payload.body.code = Eap.response := by
  obtain ⟨data, len, hsent | ⟨login, htold⟩, harrives⟩ := hheard
  · obtain ⟨first, last, -, -, hwhole⟩ := caused_of_mem hcaused hsent
    exact Or.inl ⟨data, len, hsent, sameAs_of_arrives harrives hwhole⟩
  · obtain ⟨first, last, -, hwhole, hcode⟩ := caused_of_mem hcaused htold
    exact Or.inr (((sameAs_of_arrives harrives hwhole).code hmatch).trans hcode)

section Answering

variable {heap : Heap} {input output : EapPacket}

/-- Handlers that are loyal to a login serve its name. -/
theorem Loyal.serves (h : Loyal c e) : Client.Serves c.user.bytes.length e := by
  obtain ⟨t, hhandlers, hid, -⟩ := h
  rw [Client.Serves, hhandlers]
  simp [Handler.signature, Handler.wantedType, Handler.dataLen, Client.loginSignatures, hid]

/-- What the EAP layer of a login does with a packet. -/
theorem loyal_process (hloyal : Loyal c e) (hname : ShortName c)
    (hbenign : input.code = Eap.request → Benign input) (hcode : output.code = Eap.response)
    {r : Ret × EapState Handler × EapPacket}
    (h : (e.process (Handler.vtable digest E) heap input output).result = .ok r) :
    Loyal c r.2.1 ∧ (r.1 = .cont → input.code = Eap.request ∧
      Message.ofPacket r.2.2 = answerOf digest c (Message.ofPacket input) ∧ 5 ≤ r.2.2.len) := by
  obtain ⟨rc, e', o⟩ := r
  have hanswered (hrc : rc = .cont) : input.code = Eap.request ∧ Loyal c e' ∧
      Message.ofPacket o = answerOf digest c (Message.ofPacket input) ∧ 5 ≤ o.len := by
    subst hrc
    obtain ⟨hrequest, hans⟩ := EapState.process_cont.mp h
    exact ⟨hrequest, answered_of_loyal hloyal hname (hbenign hrequest) hcode hans⟩
  refine ⟨?_, fun hrc => ⟨(hanswered hrc).1, (hanswered hrc).2.2⟩⟩
  cases EapState.process_outcome h with
  | handled _ _ hrun => exact (hanswered (cont_of_runHandler hloyal.serves hrun)).2.1
  | nak => exact (hanswered rfl).2.1
  | unsupported | succeeded | passed => exact hloyal

end Answering

/-- What a step of the station says, it says in answer to the request that was delivered. -/
def SaysAnswers (digest : Digest) (login : Option LoginCall) (a : Client.Action)
    (outs : List Output) : Prop :=
  ∀ data len, .sent data len ∈ outs → sentType data = EapolPacket.pckt →
    ∃ d f c, a = .deliver d ∧ d.frame = some f ∧ f.LengthsMatch ∧ login = some c ∧
      f.payload.body.code = Eap.request ∧
      Message.ofPacket (sentPacket data) = answerOf digest c (Message.ofPacket f.payload.body)

/-- Where nothing is said, nothing needs a request. -/
theorem saysAnswers_nil (digest : Digest) (login : Option LoginCall) (a : Client.Action) :
    SaysAnswers digest login a [] := fun _ _ h => absurd h List.not_mem_nil

/-- A frame without an EAP packet says nothing. -/
theorem saysAnswers_transmitted {type : ℕ} {a : Client.Action} (hsmall : type < 256)
    (hother : type ≠ EapolPacket.pckt) :
    SaysAnswers digest login a [transmitted (transmit l type)] := by
  intro data len hsent htype
  cases List.mem_singleton.mp hsent
  exact absurd ((sentType_transmit l hsmall).symm.trans htype) hother

/-- A login installs its handlers, and says nothing. -/
theorem following_login (h : s.login c = some (s', outs)) (hname : ShortName c) :
    Following (some c) s' ∧ SaysAnswers digest (some c) (.login c) outs := by
  simp only [Listener.login] at h
  split at h
  · cases h
  · rename_i hfree
    have hthread : s.thread ≠ true := fun ht => hfree (Or.inr (Or.inr ht))
    split at h
    · cases h
      exact ⟨fun ht => absurd ht hthread, saysAnswers_nil _ _ _⟩
    · split at h <;> cases h
      · rename_i hall
        refine ⟨fun _ e he => ?_, saysAnswers_transmitted (by decide) (by decide)⟩
        cases he
        exact ⟨c, rfl, hname, loyal_installHandlers hall⟩
      · exact ⟨fun ht => absurd ht hthread, saysAnswers_nil _ _ _⟩

/-- A frame is handled by the handlers of the login, which answer the request in it. -/
theorem following_deliver {d : Delivery}
    (h : s.deliver (Handler.vtable digest E) d = some (s', outs)) (hsound : Sound s)
    (hfollowing : Following login s)
    (hheard : ∀ f, d.frame = some f → f.LengthsMatch → f.payload.body.code = Eap.request →
      Benign f.payload.body) :
    Following login s' ∧ SaysAnswers digest login (.deliver d) outs := by
  cases passes_of_deliver h with
  | waits => exact ⟨hfollowing, nofun⟩
  | @settles f l l' e r _ outs hrunning hio hauth hframe hlengths htype hprocess hsettle =>
    obtain ⟨c, hlogin, hname, hloyal⟩ := hfollowing hrunning e hauth
    obtain ⟨hdata, -⟩ := EapState.process_code (Handler.disciplined digest E) hprocess
    obtain ⟨-, -, hnew⟩ := code_of_processed hloyal.serves hprocess
    obtain ⟨hloyal', hsaid⟩ := loyal_process hloyal hname (hheard f hframe hlengths)
      (hsound.responding l hio) hprocess
    refine ⟨fun hthread e' he' => ?_, fun data len hsent _ => ?_⟩
    · rcases Listener.settle_auth hsettle with hsame | rfl
      · cases hsame.symm.trans he'
        exact ⟨c, hlogin, hname, hloyal'⟩
      · cases hthread
    · rcases sent_of_settle hsettle (by simpa using hsent) with ⟨hrc, rfl, rfl⟩ | hold
      · obtain ⟨hrequest, hmessage, -⟩ := hsaid hrc
        refine ⟨d, f, c, rfl, hframe, hlengths, hlogin, hrequest, Eq.trans ?_ hmessage⟩
        have hplace : r.2.2 = ⟨r.2.2.mem, llHdrLen + 4⟩ := congrArg (Pointer.mk r.2.2.mem) hdata
        rw [hplace]
        exact ofPacket_of_bytes (sentPacket_transmit _ _)
      · exact absurd hold hnew

/-- A step of the station. -/
theorem following_step {a : Client.Action}
    (h : s.step (Handler.vtable digest E) a = some (s', outs)) (hsound : Sound s)
    (hfollowing : Following login s) (hname : ∀ c, a = .login c → ShortName c)
    (hheard : ∀ d f, a = .deliver d → d.frame = some f → f.LengthsMatch →
      f.payload.body.code = Eap.request → Benign f.payload.body) :
    Following (loginAfter login a) s' ∧ SaysAnswers digest (loginAfter login a) a outs := by
  cases a with
  | login c => exact following_login h (hname c rfl)
  | deliver d => exact following_deliver h hsound hfollowing fun f => hheard d f rfl
  | logout =>
    cases h
    refine ⟨nofun, ?_⟩
    cases hio : s.io with
    | none => exact nofun
    | some l => exact saysAnswers_transmitted (by decide) (by decide)

section Turns

variable {md5 : Md5} {u : SimuNas H} {t : Turn S A H}

/-- Dealing with a frame receives no other. -/
private theorem received_notMem_handled {full : List (Event S A H)} {r : Option (SimuNas H)}
    {f' : Frame} (h : SimuNas.Handled md5 u t f full r) : .received f' ∉ full := by
  cases h <;> simp [SimuNas.asked, SimuNas.lastSent]

/-- What the server receives in a turn was handed over, and the lengths in it agree. -/
private theorem received_of_step (h : .received f ∈ (u.step md5 t).log) :
    t.frame = some f ∧ (f.payload.type = EapolPacket.pckt → f.LengthsMatch) := by
  unfold SimuNas.step at h
  split at h
  · cases h
  · cases h
  · rename_i l g hturn
    obtain ⟨full, r, hhandled, hwithin⟩ := SimuNas.handled md5 { u with io := l } t g
    have hmem : .received f ∈ (.received g :: full : List (Event S A H)) :=
      (Exec.Within.tell hwithin.bind_pure).isPrefix.subset h
    have hsame : f = g := by
      simpa [received_notMem_handled hhandled] using hmem
    subst hsame
    exact (SimuNas.receiveTurn_some hturn).2 f rfl

end Turns

/-- What holds between two moves of an undisturbed network. -/
structure Agreeing (digest : Digest) (r : RadiusClient H) (md5 : Md5) (n : Network S A H) : Prop where
  lawful : Lawful r md5 n
  following : Following n.login n.listener
  prompted : Along (Prompted digest) [] n.history

/-- An undisturbed move forges nothing. -/
theorem Undisturbed.unforged {n : Network S A H} {m : Move S A H} (h : Undisturbed n m) :
    Unforged n m := by
  cases m with
  | station a => exact ⟨h.1, fun d f ha hf => (h.2.2 d f ha hf).1⟩
  | server t => trivial

section Moves

variable {r : RadiusClient H} {md5 : Md5} {n n' : Network S A H}

/-- What the station says is prompted by a request. -/
theorem prompted_station {a : Client.Action}
    (h : n.stationStep (Handler.vtable digest E) a = some n') (hagreeing : Agreeing digest r md5 n)
    (hok : Undisturbed n (.station a)) :
    Following n'.login n'.listener ∧ Along (Prompted digest) [] n'.history := by
  obtain ⟨⟨s', outs⟩, hstep, rfl⟩ := Option.map_eq_some_iff.mp h
  obtain ⟨-, hname, hheard⟩ := hok
  have hcases (d : Delivery) (f : Frame) (ha : a = .deliver d) (hf : d.frame = some f)
      (hmatch : f.LengthsMatch) (hcode : f.payload.body.code = Eap.request) :
      ∃ data len, SentBy n.history data len ∧ SameAs f data := by
    rcases heard_cases hagreeing.lawful.caused (hheard d f ha hf).1 hmatch with hsent | hresponse
    · exact hsent
    · rw [hcode] at hresponse
      cases hresponse
  obtain ⟨hfollowing, hsaid⟩ := following_step hstep hagreeing.lawful.sound hagreeing.following hname
    fun d f ha hf hmatch hcode => by
      obtain ⟨data, len, -, hsame⟩ := hcases d f ha hf hmatch hcode
      exact ⟨hsame.typed hmatch, (hheard d f ha hf).2 hcode⟩
  refine ⟨hfollowing, Along.append_iff.mpr ⟨hagreeing.prompted, fun before o after hlog => ?_⟩⟩
  rw [List.nil_append]
  have hmem : o ∈ outs.map (.station (loginAfter n.login a)) :=
    hlog ▸ List.mem_append_right before List.mem_cons_self
  obtain ⟨out, hout, rfl⟩ := List.mem_map.mp hmem
  cases out with
  | event | processed => trivial
  | sent data len =>
    intro htype
    obtain ⟨d, f, c, ha, hf, hmatch, hlogin, hcode, hmessage⟩ := hsaid data len hout htype
    obtain ⟨data', len', hsent, hsame⟩ := hcases d f ha hf hmatch hcode
    obtain ⟨hfour, -, hcontents⟩ := hsame.packet hmatch
    refine ⟨c, hlogin, data', len', List.mem_append_left before hsent, ?_, ?_⟩
    · rw [← hsame.code hmatch, hcode]
    · rw [hmessage, Message.ofPacket_congr hcontents hfour]

/-- What the server hears is prompted by the station. -/
theorem prompted_server {t : Turn S A H} (h : n.serverStep md5 t = some n')
    (hagreeing : Agreeing digest r md5 n) (hok : Undisturbed n (.server t)) :
    Along (Prompted digest) [] n'.history := by
  obtain ⟨u, hu, rfl⟩ := Option.map_eq_some_iff.mp h
  refine Along.append_iff.mpr ⟨hagreeing.prompted, fun before o after hlog => ?_⟩
  have hmem : o ∈ (u.step md5 t).log.map .server :=
    hlog ▸ List.mem_append_right before List.mem_cons_self
  obtain ⟨e, he, rfl⟩ := List.mem_map.mp hmem
  cases e with
  | requested | answered | copied | sent => trivial
  | received f =>
    obtain ⟨hframe, hmatch⟩ := received_of_step he
    obtain ⟨data, len, htold, harrives⟩ := hok f hframe
    obtain ⟨login, hentry⟩ := htold
    obtain ⟨first, last, -, hwhole, -⟩ := caused_of_mem hagreeing.lawful.caused hentry
    exact ⟨data, len, ⟨login, List.mem_append_left before hentry⟩,
      sameAs_of_arrives harrives hwhole, hmatch⟩

/-- A move of either side. -/
theorem agreeing_step {m : Move S A H} (h : n.step (Handler.vtable digest E) md5 m = some n')
    (hagreeing : Agreeing digest r md5 n) (hok : Undisturbed n m) : Agreeing digest r md5 n' := by
  have hlawful := lawful_step h hagreeing.lawful hok.unforged
  cases m with
  | station a =>
    obtain ⟨hfollowing, hprompted⟩ := prompted_station h hagreeing hok
    exact ⟨hlawful, hfollowing, hprompted⟩
  | server t =>
    refine ⟨hlawful, ?_, prompted_server h hagreeing hok⟩
    obtain ⟨u, -, rfl⟩ := Option.map_eq_some_iff.mp h
    exact hagreeing.following

/-- Between two moves of an undisturbed network both ends agree. -/
theorem agreeing_of_run {u : SimuNas H} {ms : List (Move S A H)}
    (run : Steps (Network.step (Handler.vtable digest E) md5) Undisturbed (.start u) ms n) :
    Agreeing digest u.radclient md5 n :=
  run.invariant ⟨lawful_start md5 u, nofun, .nil⟩ fun _ _ _ h hok hstep => agreeing_step hstep h hok

/-- A challenge was sent by the server, and the user of a login answered it afterwards. -/
def Exchanged (digest : Digest) (past : List (Occurrence S A H)) (login : LoginCall)
    (challenge : Message) : Prop :=
  ∃ earlier later reply len data len',
    past = earlier ++ .station (some login) (.sent reply len) :: later ∧
    SentBy earlier data len' ∧ challenge = Message.ofPacket (sentPacket data) ∧
    challenge.code = 1 ∧ challenge.type = 4 ∧
    Message.ofPacket (sentPacket reply) = answerOf digest login challenge

/-- After the exchange the server has received the answer, made its request of just that answer, and the
request was accepted. The request holds the answer exactly if the name leaves room for that. -/
def AnswerAccepted (digest : Digest) (r : RadiusClient H) (md5 : Md5)
    (past : List (Occurrence S A H)) (login : LoginCall) (challenge : Message) : Prop :=
  ∃ first f last env request pdu, past = first ++ .server (.received f) :: last ∧
    Exchanged digest first login challenge ∧
    f.payload.body.contents = (answerOf digest login challenge).encode ∧
    (∃ (s : SimuNas H) (fresh : Mem), request = s.accessRequestMd5 fresh f.payload.body) ∧
    (CarriesEap request f.payload.body ↔ login.user.bytes.length ≤ 231) ∧
    served last = [.requested env request, .answered (some pdu)] ∧
    Answered r md5 env request pdu RadiusPDU.accessAccept

/-- The server keeps what its history says, and encloses the answers to challenges that are short. -/
structure Enclosing (n : Network S A H) : Prop where
  keeps : ∀ u, n.server = some u → u.Keeps (served n.history)
  enclosed : Along (AtServer SimuNas.Enclosed) [] n.history

/-- A move of either side. -/
theorem Enclosing.step {V : Vtable Handler} {md5 : Md5} {n n' : Network S A H} {m : Move S A H}
    (hn : Enclosing n) (h : n.step V md5 m = some n') : Enclosing n' := by
  cases m with
  | station a =>
    obtain ⟨⟨s', outs⟩, -, rfl⟩ := Option.map_eq_some_iff.mp h
    refine ⟨fun u hu => ?_, Along.append_iff.mpr ⟨hn.enclosed, along_atServer_station _ _ _⟩⟩
    rw [served_append, served_station, List.append_nil]
    exact hn.keeps u hu
  | server t =>
    obtain ⟨u, hu, rfl⟩ := Option.map_eq_some_iff.mp h
    have hextends : Exec.Extends SimuNas.Keeps SimuNas.Enclosed (served n.history) (u.step md5 t) :=
      SimuNas.enclosed_step (hn.keeps u hu) t
    obtain ⟨halong, hkeeps⟩ := hextends
    refine ⟨fun u' hu' => ?_, Along.append_iff.mpr ⟨hn.enclosed, along_atServer halong⟩⟩
    rw [served_append, served_server]
    refine hkeeps u' ?_
    cases hresult : (u.step md5 t).result with
    | error e =>
      rw [hresult] at hu'
      cases hu'
    | ok v =>
      rw [hresult] at hu'
      cases hu'
      rfl

/-- Whatever both sides do, the server encloses the answers that are short. -/
theorem enclosing_of_run {V : Vtable Handler} {md5 : Md5} {ok : Network S A H → Move S A H → Prop}
    {u : SimuNas H} {ms : List (Move S A H)} {n : Network S A H}
    (hu : u.Keeps ([] : List (Event S A H)))
    (run : Steps (Network.step V md5) ok (.start u) ms n) : Enclosing n := by
  refine run.invariant (I := Enclosing) ⟨?_, .nil⟩ fun _ _ _ hn _ hstep => hn.step hstep
  rintro _ ⟨⟩
  exact hu

/-- The length of an answer to a challenge. -/
theorem length_answerOf (digest : Digest) {m : Message} (htype : m.type = 4) :
    (answerOf digest c m).encode.length = 22 + c.user.bytes.length := by
  rw [answerOf, Message.answer_of_challenge _ _ _ htype, Message.encode]
  simp only [List.length_cons, List.length_append, List.length_reverse, leBytes_length,
    Vector.length_toList]
  omega

/-- An answer is of type 4 exactly where the message is. -/
theorem type_answerOf {m : Message} : (answerOf digest c m).type = 4 ↔ m.type = 4 := by
  unfold answerOf Message.answer
  split_ifs with hidentity hmd5 <;> simp_all

/-- What the server hears as the answer to a challenge is the answer of a user to one of its own. -/
theorem exchanged_of_received {first last : List (Occurrence S A H)}
    (halong : Along (Prompted digest) [] (first ++ .server (.received f) :: last))
    (hresponse : IsResponse Eap.md5 f) : ∃ login challenge, Exchanged digest first login challenge ∧
      f.payload.body.contents = (answerOf digest login challenge).encode := by
  obtain ⟨data, len, ⟨login, htold⟩, hsame, hmatch⟩ := halong first _ last rfl
  have hmatch := hmatch hresponse.isPckt
  have hfive : 5 ≤ f.payload.body.len := by
    refine (hsame.typed hmatch).resolve_right fun hpadding => ?_
    rw [hresponse.type] at hpadding
    cases hpadding
  obtain ⟨hfour, -, hcontents⟩ := hsame.packet hmatch
  have hheard : Message.ofPacket f.payload.body = Message.ofPacket (sentPacket data) :=
    Message.ofPacket_congr hcontents hfour
  rw [List.nil_append] at htold
  obtain ⟨earlier, later, hfirst⟩ := List.append_of_mem htold
  have hprompted : Prompted digest earlier (.station login (.sent data len)) := by
    have hat := halong earlier (.station login (.sent data len))
      (later ++ .server (.received f) :: last) (by rw [hfirst, List.append_assoc]; rfl)
    rwa [List.nil_append] at hat
  obtain ⟨c, rfl, data', len', hsent, hcode, hanswer⟩ :=
    hprompted (hsame.type.symm.trans hresponse.isPckt)
  have htype : (Message.ofPacket (sentPacket data')).type = 4 := by
    have hanswered : (Message.ofPacket f.payload.body).type = 4 := by
      rw [Message.ofPacket, if_pos hfive]
      exact UInt8.toNat_inj.mp hresponse.type
    rwa [hheard, hanswer, type_answerOf] at hanswered
  refine ⟨c, _, ⟨earlier, later, data, len, data', len', hfirst, hsent, rfl, ?_, htype, hanswer⟩, ?_⟩
  · exact UInt8.toNat_inj.mp hcode
  · rw [Message.contents_eq hfive, hheard, hanswer]

end Moves

end Dot1x.System
