import Dot1x.Radius.Arrivals
import Dot1x.Radius.Authenticity
import Mathlib.Algebra.GroupWithZero.Nat

/-!
# Responses that are not authentic

The socket returns the first valid packet with the identifier of the request that comes from the
address and the port of its server, and clears the entry. Only then is the response authenticator
verified, one level up. So a response that is not authentic is not discarded: the authentic one that
follows it is not for any request. The other datagrams are.

Nor is a response returned that arrives in time but that nobody reads. The calls that wait do not
read, and the role of the reader may be lost before they are over.
-/

namespace Dot1x.Radius

open Dot1x.Base

section

variable {S A H : Type} [DecidableEq A]

/-- A packet is sent to a server in a run of a socket, and datagrams arrive before the call times
out. Those of them that are read by then are the first ones. -/
def Exchange.Hears (e : Exchange A) (pdu : RadiusPDU) (server : Server A)
    (arrivals read : List (Datagram RadiusPDU A)) : Prop :=
  ∃ before during after u s, e.actions = before ++ .call pdu server true :: (during ++ after) ∧
    Run (Socket.step pduType) (.new e.oldestId) before u ∧
    Socket.Hears pduType u pdu server during s arrivals read ∧
    Socket.Concludes pduType (pduType.id pdu) s after e.socket

/-- The socket returns the first datagram that is read and answers the request. -/
theorem Exchange.Hears.response {e : Exchange A} {pdu : RadiusPDU} {server : Server A}
    {arrivals read : List (Datagram RadiusPDU A)} (h : e.Hears pdu server arrivals read)
    (hvalid : pdu.isValid = true) :
    e.response (pduType.id pdu) server =
      (Socket.firstAnswer pduType (pduType.id pdu) server read).map Datagram.pdu := by
  obtain ⟨before, during, after, u, s, -, run, hears, concludes⟩ := h
  obtain ⟨hs, hserver, hreturned⟩ := hears.returned run hvalid
  cases hfound : Socket.firstAnswer pduType (pduType.id pdu) server read with
  | none =>
    rw [hfound] at hreturned
    have hrole : s.role (pduType.id pdu) ≠ none := fun hover => by
      cases (hs.pending _ hover).symm.trans hreturned.pending
    have hresult := concludes.result_ne hrole
    rw [Exchange.response]
    cases hc : e.socket.calls (pduType.id pdu) with
    | none => rfl
    | some c =>
      rw [Socket.result, Socket.phase, hc] at hresult
      exact if_neg fun hboth => hresult hboth.1
  | some f =>
    rw [hfound] at hreturned
    obtain ⟨hresult, hresponse⟩ := hreturned
    have hover : s.role (pduType.id pdu) = none := by
      rw [Socket.role, Socket.phase_of_result hresult]
      rfl
    obtain ⟨c, hc, hpdu⟩ := Option.bind_eq_some_iff.mp hresponse
    rw [Socket.result, Socket.phase, hc] at hresult
    rw [Socket.server, hc] at hserver
    rw [Exchange.response, concludes.calls_of_over hs hover, hc, Option.map_some, ← hpdu]
    exact if_pos ⟨hresult, Option.some.inj hserver⟩

/-- A datagram is an authentic response to a transmission. -/
structure Transmission.AuthenticAnswer (md5 : Md5) (t : Transmission S A)
    (d : Datagram RadiusPDU A) : Prop extends d.Answers pduType t.reservation.id t.server where
  verified : RadiusPDU.verifyResponseAuthenticator md5 t.pdu d.pdu t.secret = true

namespace RadiusClient

variable {env : Environment S A H} {md5 : Md5} {request : RadiusPDU} {c : RadiusClient H}

/-- What a transmission yields: the response that the socket returned, unless it fails to be
verified. -/
def yielded (env : Environment S A H) (md5 : Md5) (t : Transmission S A) : Option RadiusPDU :=
  ((env.exchange (t.visit, t.retry)).response t.reservation.id t.server).filter fun response =>
    RadiusPDU.verifyResponseAuthenticator md5 t.pdu response t.secret

/-- A transmission makes the request return what it yields, if the callback accepts it. -/
def Decides (env : Environment S A H) (md5 : Md5) (t : Transmission S A) (e : Exit) : Prop :=
  ∃ response, yielded env md5 t = some response ∧ env.onReceivedPdu (t.visit, t.retry) = true ∧
    e = .returns (some response)

/-- A transmission decides whether a response is returned. -/
private theorem decidedBy_transmit {i j : ℕ} {secret : List UInt8} {server : Server A}
    {r : Reservation S} :
    Exec.DecidedBy (Decides env md5) (transmit env md5 request i j secret server r) := by
  unfold transmit
  split
  · exact .of_silent rfl
  · rename_i encrypted pdu _
    split
    · rintro t ht e ⟨response, hyield, haccept, rfl⟩
      rw [Exec.log_bind_of_ok (Exec.result_tell _), List.mem_append, Exec.log_tell,
        List.mem_singleton] at ht
      have hbody : t = ⟨i, j, r, server, secret, encrypted, pdu⟩ := by
        refine ht.elim id fun hbody => ?_
        split at hbody
        · cases hbody
        · split at hbody
          · cases hbody
          · split at hbody <;> cases hbody
      subst hbody
      obtain ⟨hresponse, hverified⟩ := Option.filter_eq_some_iff.mp hyield
      rw [Exec.result_bind_of_ok (Exec.result_tell _), hresponse]
      simp only [hverified, haccept, Bool.not_true, Bool.false_eq_true, if_false]
      rfl
    · exact .of_silent rfl

/-- So do the attempts at one server. -/
private theorem decidedBy_attemptLoop {n i j : ℕ} {secret : List UInt8} {server : Server A}
    {secretChanged : Bool} {held : Option (Reservation S)} :
    Exec.DecidedBy (Decides env md5)
      (attemptLoop env md5 request i secret server n j secretChanged held) := by
  induction n generalizing j secretChanged held with
  | zero => exact .of_silent rfl
  | succ n ih =>
    refine .bind ?_ fun _ => ih
    unfold attempt
    split
    · exact .of_silent rfl
    · exact .bind (.of_silent log_reserve) fun r =>
        .bind decidedBy_transmit fun _ => .of_silent rfl

/-- And the passes over the servers. -/
private theorem decidedBy_visitLoop {n i : ℕ} {st : Progress S} :
    Exec.DecidedBy (Decides env md5) (visitLoop env md5 request c n i st) := by
  induction n generalizing i st with
  | zero => exact .of_silent rfl
  | succ n ih =>
    refine .bind ?_ fun _ => ih
    unfold visit
    split
    · exact .of_silent rfl
    · split
      · exact .of_silent rfl
      · exact .bind decidedBy_attemptLoop fun _ => .of_silent rfl

/-- A request returns what one of its transmissions yields, if the callback accepts it. -/
theorem makeRequest_of_yielded {responsePdu : Option RadiusPDU} {t : Transmission S A}
    (ht : t ∈ (makeRequest env md5 request c responsePdu).log) {response : RadiusPDU}
    (hyield : yielded env md5 t = some response)
    (haccept : env.onReceivedPdu (t.visit, t.retry) = true) :
    (makeRequest env md5 request c responsePdu).result = .ok (true, some response) := by
  have hvalid := valid_of_mem ht
  rw [log_makeRequest hvalid] at ht
  have hresult := decidedBy_visitLoop t ht _ ⟨response, hyield, haccept, rfl⟩
  rw [makeRequest, hvalid]
  simp [hresult]

/-- What is read of the datagrams that arrive ends before one of them, or it is read as well. -/
private theorem prefix_or_read {D : Type} {read before after : List D} {d : D}
    (h : read <+: before ++ d :: after) : read <+: before ∨ before ++ [d] <+: read := by
  have hboth : before ++ [d] <+: before ++ d :: after :=
    ⟨after, by rw [List.append_assoc, List.singleton_append]⟩
  rcases List.prefix_or_prefix_of_prefix h hboth with hshort | hlong
  · rcases List.prefix_concat_iff.mp hshort with heq | hbefore
    · exact Or.inr (heq ▸ List.prefix_rfl)
    · exact Or.inl hbefore
  · exact Or.inr hlong

/-- A transmission yields the first authentic response that arrives exactly when it is read and no
datagram before it is a valid packet with the identifier of the request from the address and the
port of the server. -/
theorem yielded_iff {responsePdu : Option RadiusPDU} {t : Transmission S A}
    (ht : t ∈ (makeRequest env md5 request c responsePdu).log)
    {before after read : List (Datagram RadiusPDU A)} {d : Datagram RadiusPDU A}
    (hears : (env.exchange (t.visit, t.retry)).Hears t.pdu t.server (before ++ d :: after) read)
    (hd : t.AuthenticAnswer md5 d) (hfirst : ∀ f ∈ before, ¬t.AuthenticAnswer md5 f) :
    yielded env md5 t = some d.pdu ↔
      before ++ [d] <+: read ∧ ∀ f ∈ before, ¬f.Answers pduType t.reservation.id t.server := by
  have made := made_of_mem ht
  have hid := made.id_eq (valid_of_mem ht)
  have hresponse := hears.response made.valid
  rw [hid] at hresponse
  have hinOrder : read <+: before ++ d :: after := by
    obtain ⟨_, _, _, _, _, -, -, hears, -⟩ := hears
    exact hears.inOrder
  rw [yielded, hresponse]
  constructor
  · intro hyield
    obtain ⟨hsome, hverified⟩ := Option.filter_eq_some_iff.mp hyield
    obtain ⟨f, hf, hpdu⟩ := Option.map_eq_some_iff.mp hsome
    obtain ⟨hmem, hanswers⟩ := Socket.mem_of_firstAnswer hf
    -- What is yielded is authentic, so it did not come before.
    have hnot : f ∉ before := fun hin => hfirst f hin ⟨hanswers, hpdu ▸ hverified⟩
    have hread : before ++ [d] <+: read :=
      (prefix_or_read hinOrder).resolve_left fun hshort => hnot (hshort.subset hmem)
    refine ⟨hread, fun g hg hganswers => ?_⟩
    obtain ⟨rest, rfl⟩ := hread
    rw [List.append_assoc, Socket.firstAnswer_append] at hf
    cases hbefore : Socket.firstAnswer pduType t.reservation.id t.server before with
    | none => exact Socket.firstAnswer_eq_none.mp hbefore g hg hganswers
    | some f' =>
      rw [hbefore, Option.some_or, Option.some.injEq] at hf
      exact hnot (hf ▸ (Socket.mem_of_firstAnswer hbefore).1)
  · rintro ⟨⟨rest, rfl⟩, hnone⟩
    rw [List.append_assoc, Socket.firstAnswer_append, Socket.firstAnswer_eq_none.mpr hnone,
      Option.none_or, List.singleton_append, Socket.firstAnswer_cons hd.toAnswers,
      Option.map_some, Option.filter_some]
    exact if_pos hd.verified

end RadiusClient

end

/-- A hash function that is constant. -/
def constantMd5 : Md5 := fun _ => Vector.replicate 16 0

/-- The request below, and the packet that is sent in place of it. -/
def heardRequest : RadiusPDU := .new (fun _ => 0) RadiusPDU.accessRequest 0

def heardCopy : RadiusPDU :=
  match copyFor constantMd5 heardRequest [] 5 (fun _ => 0) (fun _ => 0) with
  | .ok (_, pdu) => pdu
  | .error _ => heardRequest

/-- A packet without attributes and with an authenticator of equal bytes arrives. -/
def arriving (id : UInt8) (source : Server ℕ) (authenticator : UInt8) : Datagram RadiusPDU ℕ :=
  ⟨.new (fun _ => authenticator) 2 id, 20, source⟩

/-- The request is sent, after some steps and before others. -/
def hearing (earlier steps : List (Action RadiusPDU ℕ)) : List (Action RadiusPDU ℕ) :=
  earlier ++ .call heardCopy ⟨7, 1812⟩ true :: .write 5 true :: steps

instance {P A : Type} (T : PduType P) (id : Id) :
    (a : Action P A) → Decidable (Socket.Timely T id a)
  | .call request _ _ => inferInstanceAs (Decidable (T.id request ≠ id))
  | .write k written => inferInstanceAs (Decidable (k = id → written = true))
  | .read k datagram => inferInstanceAs (Decidable (k = id → datagram.isSome))
  | .dispatch _ locked => inferInstanceAs (Decidable (locked = true))
  | .timeOut k => inferInstanceAs (Decidable (k ≠ id))
  | .deadline k passed => inferInstanceAs (Decidable (k = id → passed = false))
  | .wake _ | .check _ | .cleanUp _ | .refresh _ => inferInstanceAs (Decidable True)

namespace RadiusClient

/-- Every transmission uses one exchange. -/
def heardIn (e : Exchange ℕ) : Environment Unit ℕ Unit :=
  { answeredAtOnce with exchange := fun _ => e }

/-- What is transmitted in the example is its copy, with the identifier and for the server of the
example. -/
theorem transmission_heardIn {e : Exchange ℕ} {t : Transmission Unit ℕ}
    (h : Made (heardIn e) constantMd5 heardRequest oneServer t) :
    t.pdu = heardCopy ∧ t.reservation.id = 5 ∧ t.server = ⟨7, 1812⟩ ∧ t.secret = [] := by
  have hvisit : t.visit = 0 := Nat.lt_one_iff.mp h.visit
  have hid : t.reservation.id = 5 := (Prod.mk.inj (Option.some.inj h.reserved)).2.symm
  have hsecret := h.secret
  have haddress := h.address
  have hport := h.port
  rw [hvisit] at hsecret haddress hport
  have hsecret : t.secret = [] := (Option.some.inj hsecret).symm
  have haddress : t.server.addr = 7 := (Option.some.inj haddress).symm
  have hport : t.server.port = 1812 := (Option.some.inj hport).symm
  have hcopy : copyFor constantMd5 heardRequest [] 5 (fun _ => 0) (fun _ => 0) =
      .ok (t.encrypted, t.pdu) := by
    have hcopy := h.copy
    rwa [hsecret, hid] at hcopy
  refine ⟨by rw [heardCopy, hcopy], hid, ?_, hsecret⟩
  cases hserver : t.server
  rw [hserver] at haddress hport
  cases haddress
  cases hport
  rfl

/-- The steps above are those of an exchange in which datagrams arrive, if they can be made. -/
theorem hears_of_eval {e : Exchange ℕ} (earlier steps later : List (Action RadiusPDU ℕ))
    (hactions : e.actions = hearing earlier (steps ++ later))
    (hlater : ∀ a ∈ later.head?, Socket.TimesOut 5 a)
    (heval : ((runLabels (Socket.step pduType) (.new e.oldestId) earlier).bind fun u =>
      (u.step pduType (.call heardCopy ⟨7, 1812⟩ true)).bind fun v =>
        (runLabels (guarded (Socket.step pduType) fun _ a => Socket.Timely pduType 5 a) v
          (.write 5 true :: steps)).bind fun s =>
            (runLabels (guarded (Socket.step pduType) fun _ a => ¬Socket.Calls pduType 5 a) s
              later).map fun _ => v.inHand.isNone && s.inHand.isNone &&
                (s.step pduType (.write 5 true)).isNone && (s.step pduType (.wake 5)).isNone &&
                (s.step pduType (.check 5)).isNone &&
                (s.step pduType (.deadline 5 false)).isNone) = some true)
    {rest : List (Datagram RadiusPDU ℕ)} :
    e.Hears heardCopy ⟨7, 1812⟩ (reads steps ++ rest) (reads steps) := by
  obtain ⟨u, hu, heval⟩ := Option.bind_eq_some_iff.mp heval
  obtain ⟨v, hv, heval⟩ := Option.bind_eq_some_iff.mp heval
  obtain ⟨s, hs, heval⟩ := Option.bind_eq_some_iff.mp heval
  obtain ⟨w, hw, heval⟩ := Option.map_eq_some_iff.mp heval
  simp only [Bool.and_eq_true, Option.isNone_iff_eq_none] at heval
  obtain ⟨⟨⟨⟨⟨hfirst, hlast⟩, hwrite⟩, hwake⟩, hcheck⟩, hdeadline⟩ := heval
  have before := run_of_runLabels hu
  have timely := Steps.of_guarded (run_of_runLabels hs)
  have after := Steps.of_guarded (run_of_runLabels hw)
  have hsocket : w = e.socket := by
    have run : Run (Socket.step pduType) (.new e.oldestId) _ w :=
      before.trans ((Steps.single trivial hv).trans
        ((timely.mono fun _ _ _ => trivial).trans (after.mono fun _ _ _ => trivial)))
    exact run.deterministic (hactions ▸ e.run)
  have hid : pduType.id heardCopy = 5 := by decide +kernel
  refine ⟨earlier, .write 5 true :: steps, later, u, s, hactions, before,
    ⟨⟨v, hv, ?_, ?_⟩, List.prefix_append _ _, ?_⟩, ?_⟩
  · rw [hid]
    exact timely
  · rw [hfirst]
    rfl
  · rw [hid]
    exact ⟨fun _ => hlast, hwrite, hwake, hcheck, hdeadline⟩
  · rw [hid, ← hsocket]
    exact ⟨after, fun a ha => Or.inr (hlater a ha)⟩

/-- A packet from the server whose authenticator is wrong is read. -/
def forgedSteps : List (Action RadiusPDU ℕ) :=
  [.read 5 (some (arriving 5 ⟨7, 1812⟩ 1)), .dispatch 5 true]

/-- The same packet from elsewhere is read, and then the authentic one. -/
def straySteps : List (Action RadiusPDU ℕ) :=
  [.read 5 (some (arriving 5 ⟨8, 1812⟩ 1)), .dispatch 5 true, .deadline 5 false,
    .read 5 (some (arriving 5 ⟨7, 1812⟩ 0)), .dispatch 5 true]

/-- Two other requests are sent before. -/
def earlierSteps : List (Action RadiusPDU ℕ) :=
  [.call (.new (fun _ => 0) 1 3) ⟨7, 1812⟩ true, .write 3 true,
    .call (.new (fun _ => 0) 1 4) ⟨7, 1812⟩ true, .write 4 true]

/-- The reader delivers the response for the second request and then reads its own. It signals the
second call, which has its response and hands nothing on. -/
def orphanedSteps : List (Action RadiusPDU ℕ) :=
  [.read 3 (some (arriving 4 ⟨7, 1812⟩ 0)), .dispatch 3 true, .deadline 3 false,
    .read 3 (some (arriving 3 ⟨7, 1812⟩ 0)), .dispatch 3 true, .wake 4, .check 4]

/-- An exchange by its steps, if they can be made. -/
def exchangeOf (actions : List (Action RadiusPDU ℕ))
    (h : (runLabels (Socket.step pduType) (.new 0) actions).isSome) : Exchange ℕ :=
  ⟨0, actions, (runLabels (Socket.step pduType) (.new 0) actions).get h,
    run_of_runLabels (Option.some_get h).symm⟩

def forgedExchange : Exchange ℕ := exchangeOf (hearing [] forgedSteps) (by decide +kernel)

def strayExchange : Exchange ℕ := exchangeOf (hearing [] straySteps) (by decide +kernel)

/-- The third call waits until it times out. -/
def orphanedExchange : Exchange ℕ :=
  exchangeOf (hearing earlierSteps (orphanedSteps ++ [.timeOut 5, .cleanUp 5])) (by decide +kernel)

/-- The packet with the right authenticator is the authentic answer. -/
theorem authentic_arriving {t : Transmission Unit ℕ} (hpdu : t.pdu = heardCopy)
    (hid : t.reservation.id = 5) (hserver : t.server = ⟨7, 1812⟩) (hsecret : t.secret = []) :
    t.AuthenticAnswer constantMd5 (arriving 5 ⟨7, 1812⟩ 0) := by
  refine ⟨⟨⟨by decide, by decide +kernel⟩, ?_, hserver.symm⟩, ?_⟩
  · rw [hid]
    decide +kernel
  · rw [hpdu, hsecret]
    decide +kernel

/-- A datagram from elsewhere does not keep a transmission from its authentic response. But it is
not yielded if nobody reads it, although only responses to others came before. -/
theorem yielded_iff_stray :
    (∃ t ∈ (makeRequest (heardIn strayExchange) constantMd5 heardRequest oneServer none).log,
      yielded (heardIn strayExchange) constantMd5 t = some (arriving 5 ⟨7, 1812⟩ 0).pdu) ∧
    ∃ t ∈ (makeRequest (heardIn orphanedExchange) constantMd5 heardRequest oneServer none).log,
      yielded (heardIn orphanedExchange) constantMd5 t ≠ some (arriving 5 ⟨7, 1812⟩ 0).pdu := by
  have hlog (e : Exchange ℕ) (h : (makeRequest (heardIn e) constantMd5 heardRequest oneServer
      none).log.isEmpty = false) : ∃ t, t ∈ (makeRequest (heardIn e) constantMd5 heardRequest
        oneServer none).log :=
    List.exists_mem_of_ne_nil _ (List.isEmpty_eq_false_iff.mp h)
  constructor
  · obtain ⟨t, ht⟩ := hlog strayExchange (by decide +kernel)
    obtain ⟨hpdu, hid, hserver, hsecret⟩ := transmission_heardIn (made_of_mem ht)
    have hears : strayExchange.Hears t.pdu t.server
        ([arriving 5 ⟨8, 1812⟩ 1] ++ arriving 5 ⟨7, 1812⟩ 0 :: [])
        ([arriving 5 ⟨8, 1812⟩ 1] ++ [arriving 5 ⟨7, 1812⟩ 0]) := by
      have hread : strayExchange.Hears heardCopy ⟨7, 1812⟩ (reads straySteps ++ [])
          (reads straySteps) :=
        hears_of_eval [] straySteps [] rfl (by simp) (by decide +kernel)
      rw [hpdu, hserver]
      exact hread
    have hstray : ¬(arriving 5 ⟨8, 1812⟩ 1).Answers pduType t.reservation.id t.server := by
      intro hanswers
      have hsource := hanswers.source
      rw [hserver] at hsource
      cases hsource
    refine ⟨t, ht, (yielded_iff ht hears (authentic_arriving hpdu hid hserver hsecret) ?_).mpr
      ⟨List.prefix_rfl, ?_⟩⟩
    · intro f hf
      rw [List.mem_singleton.mp hf]
      exact fun hauthentic => hstray hauthentic.toAnswers
    · intro f hf
      rw [List.mem_singleton.mp hf]
      exact hstray
  · obtain ⟨t, ht⟩ := hlog orphanedExchange (by decide +kernel)
    obtain ⟨hpdu, hid, hserver, hsecret⟩ := transmission_heardIn (made_of_mem ht)
    have hears : orphanedExchange.Hears t.pdu t.server
        ([arriving 4 ⟨7, 1812⟩ 0, arriving 3 ⟨7, 1812⟩ 0] ++ arriving 5 ⟨7, 1812⟩ 0 :: [])
        [arriving 4 ⟨7, 1812⟩ 0, arriving 3 ⟨7, 1812⟩ 0] := by
      have hread : orphanedExchange.Hears heardCopy ⟨7, 1812⟩
          (reads orphanedSteps ++ [arriving 5 ⟨7, 1812⟩ 0]) (reads orphanedSteps) :=
        hears_of_eval earlierSteps orphanedSteps [.timeOut 5, .cleanUp 5] rfl
          (fun a ha => by cases ha; rfl) (by decide +kernel)
      rw [hpdu, hserver]
      exact hread
    have hother {k : UInt8} (hk : pduType.id (arriving k ⟨7, 1812⟩ 0).pdu ≠ 5) :
        ¬t.AuthenticAnswer constantMd5 (arriving k ⟨7, 1812⟩ 0) :=
      fun hauthentic => hk (hauthentic.id.trans hid)
    refine ⟨t, ht, fun hyield => ?_⟩
    have hread := ((yielded_iff ht hears (authentic_arriving hpdu hid hserver hsecret) ?_).mp
      hyield).1
    · exact absurd hread.length_le (by decide)
    · intro f hf
      rcases List.mem_pair.mp hf with rfl | rfl
      · exact hother (by decide +kernel)
      · exact hother (by decide +kernel)

/-- After a packet from the server whose authenticator is wrong nothing is yielded, although the
authentic response arrives. -/
theorem not_yielded_forged : ¬∀ md5 (env : Environment Unit ℕ Unit) request c responsePdu,
    ∀ t ∈ (makeRequest env md5 request c responsePdu).log, ∀ arrivals read,
      (env.exchange (t.visit, t.retry)).Hears t.pdu t.server arrivals read →
      (∃ d ∈ arrivals, t.AuthenticAnswer md5 d) →
      ∃ d ∈ arrivals, t.AuthenticAnswer md5 d ∧ yielded env md5 t = some d.pdu := by
  intro h
  have hlog : (makeRequest (heardIn forgedExchange) constantMd5 heardRequest oneServer
      none).log ≠ [] := by
    rw [← List.isEmpty_eq_false_iff]
    decide +kernel
  obtain ⟨t, ht⟩ := List.exists_mem_of_ne_nil _ hlog
  obtain ⟨hpdu, hid, hserver, hsecret⟩ := transmission_heardIn (made_of_mem ht)
  have hears : forgedExchange.Hears t.pdu t.server
      (reads forgedSteps ++ [arriving 5 ⟨7, 1812⟩ 0]) (reads forgedSteps) := by
    rw [hpdu, hserver]
    exact hears_of_eval [] forgedSteps [] rfl (by simp) (by decide +kernel)
  obtain ⟨d, -, -, hyield⟩ := h constantMd5 (heardIn forgedExchange) heardRequest oneServer none t
    ht _ _ hears ⟨_, List.mem_append_right _ (List.mem_singleton_self _),
      authentic_arriving hpdu hid hserver hsecret⟩
  have hnone : (forgedExchange.response 5 ⟨7, 1812⟩).filter (fun response =>
      RadiusPDU.verifyResponseAuthenticator constantMd5 heardCopy response []) |>.isNone := by
    decide +kernel
  rw [Option.isNone_iff_eq_none] at hnone
  rw [yielded, hid, hserver, hpdu, hsecret] at hyield
  cases hnone.symm.trans hyield

end RadiusClient

end Dot1x.Radius
