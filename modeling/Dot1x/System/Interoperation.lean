import Dot1x.System.Responding
import Dot1x.System.Serving

/-!
# Both sides come to an end

On a network that hands over what was sent, a login leads to a verdict: every step of either side is
heard by the other and moves it on. What the port is at the end is what the RADIUS server said about
the answer that is computed from the password and the challenge.
-/

namespace Dot1x.System

open Dot1x.Base Dot1x.Wire Dot1x.Eap Dot1x.Link Dot1x.Radius Dot1x.Nas
open Dot1x.Client (Listener LoginCall Delivery ConState)

variable {S A H : Type} [DecidableEq A]

/-- The station is handed a frame. -/
def heardBy (c : LoginCall) (f : Frame) : Move S A H := .station (.deliver ⟨some f, c.heap, true⟩)

/-- The server is handed a frame in a turn. -/
def handedTo (t : Turn S A H) (f : Frame) : Move S A H := .server { t with frame := some f }

/-- A login, and then what the two sides hear of each other. -/
def conversation (c : LoginCall) (t₀ t₁ t₂ : Turn S A H) (f : ℕ → Frame) : List (Move S A H) :=
  [.station (.login c), handedTo t₀ (f 0), heardBy c (f 1), handedTo t₁ (f 2), heardBy c (f 3),
    handedTo t₂ (f 4), heardBy c (f 5)]

/-- Both sides are there for a login. -/
structure Meeting (c : LoginCall) (r : RadiusClient H) (n : Network S A H) (u : SimuNas H) :
    Prop where
  login : n.login = some c
  listening : Listening c n.listener
  server : n.server = some u
  group : ForGroup u.io.outData
  radclient : u.radclient = r

variable {digest : Digest} {E : Engine} {c : LoginCall} {r : RadiusClient H} {md5 : Md5}
  {n : Network S A H} {u u' : SimuNas H} {t : Turn S A H} {m challenge : Message} {data : Mem}
  {len : ℕ}

/-- The frame that is made of some bytes is their arrival. -/
theorem arrives_arriving (wire : List UInt8) : Arrives (arriving wire) wire :=
  ⟨rfl, slice_write_eq rfl⟩

/-- A login, and a server that nothing has happened to. -/
theorem meeting_login (digest : Digest) (E : Engine) (md5 : Md5) (hc : Unobstructed c)
    (hgroup : ForGroup u.io.outData) :
    ∃ (n : Network S A H) (data : Mem) (len : ℕ),
      Steps (Network.step (Handler.vtable digest E) md5) Undisturbed (.start u)
        [.station (.login c)] n ∧ Meeting c u.radclient n u ∧ n.listener.state = .unconnected ∧
      ToldBy n.history data len ∧ Whole data len ∧ ForGroup data ∧
      sentType data = EapolPacket.start := by
  obtain ⟨s, data, len, hlogin, hlistening, hstate, hwhole, hfor, htype⟩ := login_listening hc
  have hproper : ProperAdapter (.login c) := by
    obtain ⟨a, hadapter, hlen⟩ := hc.adapter
    intro b hb
    cases hadapter.symm.trans hb
    exact hlen
  have hok : Undisturbed (Network.start u : Network S A H) (.station (.login c)) :=
    ⟨hproper, fun _ h => by cases h; exact hc.name, nofun⟩
  have hstep : (Network.start u : Network S A H).step (Handler.vtable digest E) md5
      (.station (.login c)) = some ⟨s, some c, some u, [.station (some c) (.sent data len)]⟩ := by
    have hstation : Listener.step (Handler.vtable digest E) .init (.login c) =
        some (s, [.sent data len]) := hlogin
    simp only [Network.step, Network.stationStep, Network.start, hstation]
    rfl
  exact ⟨_, data, len, .single hok hstep, ⟨rfl, hlistening, rfl, hgroup, rfl⟩, hstate,
    ⟨_, List.mem_cons_self⟩, hwhole, hfor, htype⟩

/-- The server hears what the station told, and says something, which may be the last that it does. -/
theorem server_hears (digest : Digest) (E : Engine) (hserver : n.server = some u)
    (htold : ToldBy n.history data len)
    {data' : Mem} {len' : ℕ}
    (hsent : .sent data' len' ∈ (u.step md5 { t with frame := some (arriving (tx data len)) }).log) :
    ∃ n', Steps (Network.step (Handler.vtable digest E) md5) Undisturbed n
        [handedTo t (arriving (tx data len))] n' ∧ n'.listener = n.listener ∧ n'.login = n.login ∧
      n'.server = (u.step md5 { t with frame := some (arriving (tx data len)) }).result.toOption ∧
      SentBy n'.history data' len' ∧ n.history <+: n'.history := by
  have hok : Undisturbed n (handedTo t (arriving (tx data len))) := by
    rintro f ⟨⟩
    exact ⟨data, len, htold, arrives_arriving _⟩
  have hstep : n.step (Handler.vtable digest E) md5 (handedTo t (arriving (tx data len))) =
      some { n with
        server := (u.step md5 { t with frame := some (arriving (tx data len)) }).result.toOption
        history := n.history ++
          (u.step md5 { t with frame := some (arriving (tx data len)) }).log.map .server } := by
    simp only [handedTo, Network.step, Network.serverStep, hserver, Option.map_some]
  refine ⟨_, .single hok hstep, rfl, rfl, rfl, ?_, List.prefix_append _ _⟩
  exact List.mem_append_right _ (List.mem_map.mpr ⟨_, hsent, rfl⟩)

/-- The server goes on. -/
theorem meeting_server (digest : Digest) (E : Engine) (h : Meeting c r n u)
    (htold : ToldBy n.history data len)
    (hresult : (u.step md5 { t with frame := some (arriving (tx data len)) }).result = .ok u')
    (hcontinues : Continues u u') {data' : Mem} {len' : ℕ}
    (hsent : .sent data' len' ∈ (u.step md5 { t with frame := some (arriving (tx data len)) }).log) :
    ∃ n', Steps (Network.step (Handler.vtable digest E) md5) Undisturbed n
        [handedTo t (arriving (tx data len))] n' ∧ Meeting c r n' u' ∧
      n'.listener.state = n.listener.state ∧ SentBy n'.history data' len' := by
  obtain ⟨n', run, hlistener, hlogin, hserver, hsent', -⟩ :=
    server_hears digest E h.server htold hsent
  rw [hresult] at hserver
  exact ⟨n', run, ⟨hlogin.trans h.login, hlistener ▸ h.listening, hserver, hcontinues.group,
    hcontinues.radclient.trans h.radclient⟩, congrArg _ hlistener, hsent'⟩

/-- What the station hears does not disturb. -/
theorem undisturbed_heardBy (hsent : SentBy n.history data len) (hsaid : Says data len m)
    (hm : m.code = 1 → Answerable m) : Undisturbed n (heardBy c (arriving (tx data len))) := by
  refine ⟨trivial, nofun, ?_⟩
  rintro d f ⟨⟩ ⟨⟩
  refine ⟨⟨data, len, Or.inl hsent, arrives_arriving _⟩, fun hcode hmd5 => ?_⟩
  have hhears := hears_of_says hsaid (arrives_arriving _)
  rw [hhears.code] at hcode
  have hanswerable := hm (UInt8.toNat_inj.mp hcode)
  have hlen := hhears.packetLen hanswerable.typed
  rw [hhears.packetType hanswerable.typed] at hmd5
  obtain ⟨hsize, hroom⟩ := hanswerable.challenge (UInt8.toNat_inj.mp hmd5)
  omega

/-- The station hears a frame. -/
theorem step_heardBy {f : Frame} {s : Listener} {outs : List Client.Output}
    (h : n.listener.deliver (Handler.vtable digest E) ⟨some f, c.heap, true⟩ = some (s, outs)) :
    n.step (Handler.vtable digest E) md5 (heardBy c f) =
      some { n with listener := s, history := n.history ++ outs.map (.station n.login) } := by
  have hstation : n.listener.step (Handler.vtable digest E) (.deliver ⟨some f, c.heap, true⟩) =
      some (s, outs) := h
  simp only [heardBy, Network.step, Network.stationStep, hstation]
  rfl

/-- The station hears what the server says, and answers it. -/
theorem meeting_station (digest : Digest) (E : Engine) (md5 : Md5) (h : Meeting c r n u)
    (hheap : Ample c.heap) (hm : Answerable m)
    (hsent : SentBy n.history data len) (hsaid : Says data len m) :
    ∃ (n' : Network S A H) (data' : Mem) (len' : ℕ),
      Steps (Network.step (Handler.vtable digest E) md5) Undisturbed n
        [heardBy c (arriving (tx data len))] n' ∧ Meeting c r n' u ∧
      n'.listener.state = n.listener.state.after .cont ∧ ToldBy n'.history data' len' ∧
      Says data' len' (answerOf digest c m) := by
  have hhears := hears_of_says hsaid (arrives_arriving _)
  obtain ⟨s', outs, data', len', hdeliver, htold, hsaid', hlistening, hstate⟩ :=
    station_answers digest E h.listening hhears hm hheap
  refine ⟨_, data', len', .single (undisturbed_heardBy hsent hsaid fun _ => hm) (step_heardBy hdeliver),
    ⟨h.login, hlistening, h.server, h.group, h.radclient⟩, hstate, ⟨n.login, ?_⟩, hsaid'⟩
  exact List.mem_append_right _ (List.mem_map.mpr ⟨_, htold, rfl⟩)

/-- The station hears how it ends. -/
private theorem meeting_ends (digest : Digest) (E : Engine) (md5 : Md5) (h : Listening c n.listener)
    (hconnecting : n.listener.state = .connecting)
    (hcode : m.code = 3 ∨ m.code = 4) (hsent : SentBy n.history data len)
    (hsaid : Says data len m) : ∃ n' : Network S A H,
      Steps (Network.step (Handler.vtable digest E) md5) Undisturbed n
        [heardBy c (arriving (tx data len))] n' ∧
      (n'.listener.state = if m.code = 3 then .connected else .unconnected) ∧
      n.history <+: n'.history := by
  have hhears := hears_of_says hsaid (arrives_arriving _)
  obtain ⟨s', outs, hdeliver, hstate⟩ :=
    station_ends digest E c.heap h hhears hcode hconnecting
  have hquiet (hrequest : m.code = 1) : Answerable m := by
    rw [hrequest] at hcode
    exact absurd hcode (by decide)
  exact ⟨_, .single (undisturbed_heardBy hsent hsaid hquiet)
    (step_heardBy hdeliver), hstate, List.prefix_append _ _⟩

/-- Whoever logs in is asked for the identity and gives it. -/
private theorem meeting_identified (digest : Digest) (E : Engine) (md5 : Md5) (hc : Unobstructed c)
    (hgroup : ForGroup u.io.outData) {t₀ : Turn S A H} (h₀ : t₀.sends = true) :
    ∃ (f₀ f₁ : Frame) (n : Network S A H) (u' : SimuNas H) (i : UInt8) (data : Mem) (len : ℕ),
      Steps (Network.step (Handler.vtable digest E) md5) Undisturbed (.start u)
        [.station (.login c), handedTo t₀ f₀, heardBy c f₁] n ∧
      Meeting c u.radclient n u' ∧ n.listener.state = .connecting ∧ ToldBy n.history data len ∧
      Says data len ⟨2, i, 1, c.user.bytes⟩ := by
  obtain ⟨n₁, d₁, l₁, run₁, hmeeting₁, hstate₁, htold₁, hwhole, hfor, hstart⟩ :=
    meeting_login (S := S) (A := A) digest E md5 hc hgroup
  have harrives₁ := arrives_arriving (tx d₁ l₁)
  obtain ⟨u₂, d₂, l₂, i, hresult₂, hsent₂, hsaid₂, hcontinues₂⟩ := server_asks md5
    (t := { t₀ with frame := some (arriving (tx d₁ l₁)) }) hmeeting₁.group rfl
    (forGroup_of_arrives harrives₁ hwhole hfor) ((sameAs_of_arrives harrives₁ hwhole).type.trans hstart)
    h₀
  obtain ⟨n₂, run₂, hmeeting₂, hstate₂, hsent₂⟩ := meeting_server digest E
    hmeeting₁ htold₁ hresult₂ hcontinues₂ hsent₂
  obtain ⟨n₃, d₃, l₃, run₃, hmeeting₃, hstate₃, htold₃, hsaid₃⟩ := meeting_station digest E md5
    hmeeting₂ hc.heap ⟨rfl, by simp, by simp⟩ hsent₂ hsaid₂
  refine ⟨_, _, n₃, u₂, i, d₃, l₃, (run₁.trans run₂).trans run₃, hmeeting₃, ?_, htold₃, hsaid₃⟩
  rw [hstate₃, hstate₂, hstate₁]
  rfl

/-- The server decides, and the station hears of it. -/
private theorem meeting_decided (digest : Digest) (E : Engine) (h : Meeting c r n u)
    (hconnecting : n.listener.state = .connecting) (htold : ToldBy n.history data len)
    {data' : Mem} {len' : ℕ}
    (hsent : .sent data' len' ∈ (u.step md5 { t with frame := some (arriving (tx data len)) }).log)
    (hsaid : Says data' len' m) (hcode : m.code = 3 ∨ m.code = 4) : ∃ n' : Network S A H,
      Steps (Network.step (Handler.vtable digest E) md5) Undisturbed n
        [handedTo t (arriving (tx data len)), heardBy c (arriving (tx data' len'))] n' ∧
      (n'.listener.state = if m.code = 3 then .connected else .unconnected) ∧
      n.history <+: n'.history := by
  obtain ⟨n₁, run₁, hlistener, -, -, hsent', hgrows₁⟩ := server_hears digest E h.server htold hsent
  obtain ⟨n₂, run₂, hstate, hgrows₂⟩ := meeting_ends digest E md5 (hlistener ▸ h.listening)
    ((congrArg Listener.state hlistener).trans hconnecting) hcode hsent' hsaid
  exact ⟨n₂, run₁.trans run₂, hstate, hgrows₁.trans hgrows₂⟩

/-- The RADIUS client is asked about the identity, whatever it returns then. -/
theorem conversation_ends (digest : Digest) (E : Engine) (md5 : Md5) (hc : Unobstructed c)
    (hgroup : ForGroup u.io.outData)
    (hshort : c.user.bytes.length ≤ 231) (hm : Answerable challenge) (htype : challenge.type = 4)
    {t₀ : Turn S A H} (h₀ : t₀.sends = true) (fresh fresh' : Mem) : ∃ i request,
      Asks request ⟨2, i, 1, c.user.bytes⟩ ∧
      ∀ (t₁ : Turn S A H) pdu, t₁.sends = true → t₁.access.fresh = fresh →
        responseOf u.radclient md5 t₁.access request = .ok (some pdu) →
        ChallengesWith pdu challenge → ∃ request',
          Asks request' (answerOf digest c challenge) ∧
          ∀ (t₂ : Turn S A H) response, t₂.sends = true → t₂.access.fresh = fresh' →
            responseOf u.radclient md5 t₂.access request' = .ok response → ∃ f n,
              Steps (Network.step (Handler.vtable digest E) md5) Undisturbed (.start u)
                (conversation c t₀ t₁ t₂ f) n ∧
              (n.listener.state = if Accepts response then .connected else .unconnected) ∧
              ∃ data len, ToldBy n.history data len ∧ Says data len (answerOf digest c challenge) := by
  obtain ⟨f₀, f₁, n₃, u₃, i, d₃, l₃, run₃, hmeeting₃, hstate₃, htold₃, hsaid₃⟩ :=
    meeting_identified (S := S) (A := A) digest E md5 hc hgroup h₀
  have hhears₃ := hears_of_says hsaid₃ (arrives_arriving _)
  obtain ⟨request, hholds, hchallenges⟩ := server_challenges (S := S) (A := A) md5
    challenge hmeeting₃.group hhears₃ (by omega) fresh
  refine ⟨i, request, hholds, fun t₁ pdu h₁ hfresh₁ hresponse₁ hpdu => ?_⟩
  have hroom : challenge.data.length ≤ 1 + 128 := (hm.challenge htype).2
  obtain ⟨u₄, d₄, l₄, hresult₄, hsent₄, hsaid₄, hcontinues₄, hkeeps⟩ := hchallenges
    { t₁ with frame := some (arriving (tx d₃ l₃)) } pdu rfl h₁ hfresh₁
    (hmeeting₃.radclient ▸ hresponse₁) hpdu (by omega)
  obtain ⟨n₄, run₄, hmeeting₄, hstate₄, hsent₄⟩ := meeting_server digest E
    hmeeting₃ htold₃ hresult₄ hcontinues₄ hsent₄
  obtain ⟨n₅, d₅, l₅, run₅, hmeeting₅, hstate₅, htold₅, hsaid₅⟩ := meeting_station digest E md5
    hmeeting₄ hc.heap hm hsent₄ hsaid₄
  have hanswer := challenge.answer_of_challenge digest c.user.bytes c.password.bytes htype
  have hsize := challenge.answer_data_length digest c.user.bytes c.password.bytes
  have hhears₅ := hears_of_says hsaid₅ (arrives_arriving _)
  rw [answerOf, hanswer] at hhears₅
  rw [hanswer] at hsize
  obtain ⟨request', hholds', hdecides⟩ := server_decides (S := S) (A := A) md5
    hmeeting₅.group hkeeps hhears₅ (Nat.le_trans hsize (by omega)) fresh'
  refine ⟨request', by rwa [answerOf, hanswer], fun t₂ response h₂ hfresh₂ hresponse₂ => ?_⟩
  obtain ⟨d₆, l₆, j, hsent₆, hsaid₆⟩ := hdecides { t₂ with frame := some (arriving (tx d₅ l₅)) }
    response rfl h₂ hfresh₂ (hmeeting₅.radclient ▸ hresponse₂)
  have hconnecting : n₅.listener.state = .connecting := by
    rw [hstate₅, hstate₄, hstate₃]
    rfl
  obtain ⟨n₇, run₇, hstate₇, hgrows⟩ := meeting_decided digest E hmeeting₅ hconnecting htold₅ hsent₆
    hsaid₆ (by split <;> simp)
  refine ⟨fun k => [f₀, f₁, arriving (tx d₃ l₃), arriving (tx d₄ l₄), arriving (tx d₅ l₅)].getD k
    (arriving (tx d₆ l₆)), n₇, ((run₃.trans run₄).trans run₅).trans run₇, ?_,
    d₅, l₅, htold₅.imp fun _ h => hgrows.subset h, hsaid₅⟩
  rw [hstate₇]
  by_cases haccepts : Accepts response
  · simp [haccepts]
  · simp [haccepts]

/-- The response accepts exactly the answer of a user with a secret. -/
def Verifies (digest : Digest) (user secret : List UInt8) (challenge : Message) (request : RadiusPDU)
    (response : Option RadiusPDU) : Prop :=
  Accepts response ↔ HoldsEap request (challenge.answer digest user secret).encode

/-- What the attributes hold is one message at most. -/
theorem HoldsEap.unique {request : RadiusPDU} {m m' : Message} (h : HoldsEap request m.encode)
    (h' : HoldsEap request m'.encode) : m = m' := by
  obtain ⟨as, has, hbytes⟩ := h
  obtain ⟨as', has', hbytes'⟩ := h'
  cases has.symm.trans has'
  exact Message.encode_injective (hbytes.symm.trans hbytes')

/-- Whatever state the server is in, if its RADIUS client is answered by a server that challenges every
user once and accepts those who know a secret, then whoever logs in is authenticated at the end if and
only if the password cannot be told from the secret by its digest. -/
theorem interoperates (digest : Digest) (E : Engine) (md5 : Md5) (hc : Unobstructed c)
    (hgroup : ForGroup u.io.outData)
    (hshort : c.user.bytes.length ≤ 231) (hm : Answerable challenge) (htype : challenge.type = 4)
    {t₀ : Turn S A H} (h₀ : t₀.sends = true) (fresh fresh' : Mem) (secret : List UInt8) :
    ∃ i request, Asks request ⟨2, i, 1, c.user.bytes⟩ ∧
      ∀ (t₁ : Turn S A H) pdu, t₁.sends = true → t₁.access.fresh = fresh →
        responseOf u.radclient md5 t₁.access request = .ok (some pdu) →
        ChallengesWith pdu challenge → ∃ request', Asks request' (answerOf digest c challenge) ∧
        ∀ (t₂ : Turn S A H) response, t₂.sends = true → t₂.access.fresh = fresh' →
          responseOf u.radclient md5 t₂.access request' = .ok response →
          Verifies digest c.user.bytes secret challenge request' response → ∃ f n,
            Steps (Network.step (Handler.vtable digest E) md5) Undisturbed (.start u)
              (conversation c t₀ t₁ t₂ f) n ∧
            (n.listener.state.Authenticated ↔
              digest (challenge.id :: (c.password.bytes ++ challenge.data.tail)) =
                digest (challenge.id :: (secret ++ challenge.data.tail))) := by
  obtain ⟨i, request, hholds, hends⟩ := conversation_ends digest E md5
    hc hgroup hshort hm htype h₀ fresh fresh'
  refine ⟨i, request, hholds, fun t₁ pdu h₁ hfresh₁ hresponse₁ hpdu => ?_⟩
  obtain ⟨request', hholds', hends'⟩ := hends t₁ pdu h₁ hfresh₁ hresponse₁ hpdu
  refine ⟨request', hholds', fun t₂ response h₂ hfresh₂ hresponse₂ hverifies => ?_⟩
  obtain ⟨f, n, run, hstate, -⟩ := hends' t₂ response h₂ hfresh₂ hresponse₂
  refine ⟨f, n, run, ?_⟩
  have haccepts : Accepts response ↔ answerOf digest c challenge =
      challenge.answer digest c.user.bytes secret := by
    refine hverifies.trans ⟨fun h => hholds'.holdsEap.unique h, fun h => ?_⟩
    rw [← h]
    exact hholds'.holdsEap
  rw [← Message.answer_eq_iff htype, hstate]
  refine Iff.trans ?_ haccepts
  by_cases h : Accepts response
  · rw [if_pos h]
    exact iff_of_true (Or.inl rfl) h
  · rw [if_neg h]
    exact iff_of_false (by simp [ConState.Authenticated]) h

section Answering

open SimuNas (answerSteps answering zeroMd5 md5Challenge answers_md5Challenge acceptance
  answers_acceptance challengedTurn acceptedTurn fresh)
open RadiusClient (oneServer isAcctPdu serverPort transmit attempt visit visitLoop)
open Client.Listener (plainLogin)

/-- A server that responds at once to whatever it is asked. -/
private theorem responseOf_answering {request reply : RadiusPDU} (hasks : Asks request m)
    {h : (runLabels (Socket.step pduType) (.new 0) (answerSteps reply)).isSome}
    (hsends : ((answering reply h).env.exchange (0, 0)).sends 5 = true)
    (hresponse : ((answering reply h).env.exchange (0, 0)).response 5 ⟨7, 1812⟩ = some reply)
    (hverify : ∀ p, RadiusPDU.verifyResponseAuthenticator zeroMd5 p reply [] = true) :
    responseOf oneServer zeroMd5 (answering reply h) request = .ok (some reply) := by
  obtain ⟨as, hcarries, -, hplain⟩ := hasks.carries
  obtain ⟨e, q, hcopy, hvalid⟩ := hcarries.sendable_of_plain (fun a ha => (hplain a ha).1)
    (fun a ha => (hplain a ha).2) hasks.room zeroMd5 [] 5 (fun _ => 0) (fun _ => 0)
  have hport : oneServer.serverPort ⟨(), 0, 0, []⟩ request = 1812 := by
    have hauth : isAcctPdu request = false := by
      rw [isAcctPdu, hasks.code]
      rfl
    rw [serverPort, hauth]
    rfl
  have hsent : (transmit (plainCallbacks (answering reply h).env) zeroMd5 request 0 0 []
      (⟨7, 1812⟩ : Server ℕ) ⟨(), 5, (0, 0)⟩).result = .error (.returns (some reply)) := by
    have hcopy' : copyFor zeroMd5 request [] 5 ((plainCallbacks (answering reply h).env).random (0, 0))
        ((plainCallbacks (answering reply h).env).memory (0, 0)) = .ok (e, q) := hcopy
    have hsends' : ((plainCallbacks (answering reply h).env).exchange (0, 0)).sends 5 = true := hsends
    have hresponse' : ((plainCallbacks (answering reply h).env).exchange (0, 0)).response 5 ⟨7, 1812⟩ =
        some reply := hresponse
    have hpasses : (plainCallbacks (answering reply h).env).onReceivedPdu (0, 0) = true := rfl
    rw [transmit, hcopy']
    simp only [hvalid, hsends', Bool.and_self, if_true]
    rw [Exec.result_bind_of_ok (Exec.result_tell _)]
    simp only [hresponse', hverify, hpasses, Bool.not_true, Bool.false_eq_true, if_false]
    rfl
  -- The first pass through both loops is the last one.
  have hattempt : (attempt (plainCallbacks (answering reply h).env) zeroMd5 request 0 0 []
      (⟨7, 1812⟩ : Server ℕ) false none).result = .error (.returns (some reply)) :=
    Exec.result_bind_eq_error.mpr (Or.inr ⟨⟨(), 5, (0, 0)⟩, rfl,
      Exec.result_bind_eq_error.mpr (Or.inl hsent)⟩)
  have hvisit : (visit (plainCallbacks (answering reply h).env) zeroMd5 request oneServer 0
      ⟨none, none⟩).result = .error (.returns (some reply)) := by
    refine Exec.result_bind_eq_error.mpr (Or.inl (Exec.result_bind_eq_error.mpr (Or.inl ?_)))
    exact hport.symm ▸ hattempt
  have hloop : (visitLoop (plainCallbacks (answering reply h).env) zeroMd5 request oneServer 1 0
      ⟨none, none⟩).result = .error (.returns (some reply)) :=
    Exec.result_bind_eq_error.mpr (Or.inl hvisit)
  have hvisits : oneServer.visits = 1 := rfl
  rw [responseOf, RadiusClient.makeRequest, hcarries.isValid, hvisits]
  simp only [Bool.not_true, Bool.false_eq_true, if_false, hloop]
  rfl

/-- A login installs no handler for TLS, so none is called. -/
def noEngine : Engine := ⟨fun _ => false, fun _ => none⟩

/-- Nothing is in the way of the plain login. -/
theorem unobstructed_plainLogin : Unobstructed (plainLogin (.single 97)) where
  adapter := ⟨_, rfl, rfl⟩
  heap _ := ⟨_, rfl⟩
  sends := rfl
  starts := rfl
  name := Nat.le_of_ble_eq_true rfl

/-- The RADIUS server challenges, and then it accepts. -/
theorem responses_fresh : ∀ request m, Asks request m →
    responseOf fresh.radclient zeroMd5 challengedTurn.access request = .ok (some md5Challenge) ∧
      responseOf fresh.radclient zeroMd5 acceptedTurn.access request = .ok (some acceptance) :=
  fun _ _ h => ⟨responseOf_answering h (by decide +kernel) rfl fun _ => rfl,
    responseOf_answering h (by decide +kernel) rfl fun _ => rfl⟩

/-- The RADIUS server challenges with an MD5 request. -/
theorem challengesWith_md5Challenge : ChallengesWith md5Challenge ⟨1, 8, 4, [0]⟩ :=
  ⟨by decide +kernel, _, SimuNas.carries_md5Challenge.attributes, ⟨_, rfl, rfl⟩, _, rfl⟩

/-- The request can be answered. -/
theorem answerable_md5Challenge : Answerable ⟨1, 8, 4, [0]⟩ :=
  ⟨rfl, by decide, by decide⟩

/-- The password is the secret. -/
theorem interoperates_plainLogin : ∃ f n,
    Steps (Network.step (Handler.vtable zeroMd5 noEngine) zeroMd5) Undisturbed (.start fresh)
      (conversation (plainLogin (.single 97)) challengedTurn challengedTurn acceptedTurn f) n ∧
    n.listener.state.Authenticated := by
  obtain ⟨i, request, hasks, hends⟩ := interoperates zeroMd5 noEngine zeroMd5 (u := fresh)
    unobstructed_plainLogin (forGroup_setupOutput rfl) (by decide) answerable_md5Challenge rfl
    (rfl : challengedTurn.sends = true) (fun _ => 0) (fun _ => 0) [115]
  obtain ⟨request', hasks', hends'⟩ := hends challengedTurn md5Challenge rfl rfl
    (responses_fresh _ _ hasks).1 challengesWith_md5Challenge
  have haccepts : Accepts (some acceptance) := ⟨_, rfl, by decide +kernel⟩
  obtain ⟨f, n, run, hstate⟩ := hends' acceptedTurn (some acceptance) rfl rfl
    (responses_fresh _ _ hasks').2 (iff_of_true haccepts hasks'.holdsEap)
  exact ⟨f, n, run, hstate.mpr rfl⟩

end Answering

end Dot1x.System
