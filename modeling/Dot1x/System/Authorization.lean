import Dot1x.Nas.Authorization
import Dot1x.System.Station

/-!
# A connection is one that the server has granted

The network may lose frames, hold them back, repeat them and change their order, and the server may
hear anything at all. As long as the station only hears frames that were sent, the port is taken for
authenticated only after the server has sent a packet for success, and that packet was granted by an
authentic response or passed on from one.
-/

namespace Dot1x.System

open Dot1x.Base Dot1x.Wire Dot1x.Eap Dot1x.Link Dot1x.Radius Dot1x.Nas
open Dot1x.Client (Listener LoginCall Output ConState)

variable {S A H : Type} [DecidableEq A]

/-- Frames of the server are as long as their headers tell. -/
def EventWhole : Event S A H → Prop
  | .sent data len => Whole data len
  | _ => True

/-- What the network does not do: it hands nothing to the station that was not sent. What the server
hears does not matter. -/
def Unforged (n : Network S A H) : Move S A H → Prop
  | .station a => ProperAdapter a ∧
    ∀ d f, a = .deliver d → d.frame = some f → HeardByStation n.history f
  | .server _ => True

/-- The server has sent a packet with a code. -/
def CodeSent (history : List (Occurrence S A H)) (code : ℕ) : Prop :=
  ∃ data len, SentBy history data len ∧ (sentPacket data).code = code

/-- Why something happens: frames for success are authorized, the station's frames hold responses, and
what ends an authentication was sent by the server. -/
def Caused (c : RadiusClient H) (md5 : Md5) (past : List (Occurrence S A H)) :
    Occurrence S A H → Prop
  | .server e => SuccessAuthorized c md5 (served past) e ∧ EventWhole e
  | .station _ (.sent data len) => Whole data len ∧ (sentPacket data).code = Eap.response
  | .station _ (.processed .ok) => CodeSent past Eap.success
  | .station _ (.processed .fail) => CodeSent past Eap.failure
  | .station _ _ => True

/-- What holds between two moves. -/
structure Lawful (c : RadiusClient H) (md5 : Md5) (n : Network S A H) : Prop where
  sound : Sound n.listener
  radclient : ∀ u, n.server = some u → u.radclient = c
  caused : Along (Caused c md5) [] n.history
  authenticated : n.listener.state.Authenticated → CodeSent n.history Eap.success

variable {c : RadiusClient H} {md5 : Md5} {n n' : Network S A H} {u : SimuNas H} {t : Turn S A H}
  {f : Frame} {past full : List (Occurrence S A H)}

/-- What the server sends is whole. -/
theorem eventWhole_lastSent {out : EapPacket} (hout : out.data = 18) :
    EventWhole ((u.framed out).lastSent : Event S A H) := by
  obtain ⟨hbody, hlen⟩ := SimuNas.sentBodyLen_framed u hout
  change (u.framed out).io.outLen = _
  rw [hlen, ← hbody]

/-- A turn sends whole frames. -/
theorem eventWhole_handled {full : List (Event S A H)} {r : Option (SimuNas H)}
    (h : SimuNas.Handled md5 u t f full r) : ∀ e ∈ full, EventWhole e := by
  have hasked (call : RequestCall S A H) (request : RadiusPDU) (response : Option RadiusPDU) :
      ∀ e ∈ (SimuNas.asked call request response), EventWhole e := by
    simp [SimuNas.asked, EventWhole]
  cases h with
  | ignored | unnamed => simp
  | started => exact List.forall_mem_singleton.mpr (eventWhole_lastSent rfl)
  | loggedOff | unusable => exact hasked _ _ _
  | lost => simp [EventWhole]
  | refused =>
    rw [List.forall_mem_append]
    exact ⟨hasked _ _ _, List.forall_mem_singleton.mpr (eventWhole_lastSent rfl)⟩
  | challenged =>
    rw [List.forall_mem_append, List.forall_mem_cons, List.forall_mem_singleton]
    exact ⟨hasked _ _ _, trivial, eventWhole_lastSent rfl⟩
  | accepted =>
    rw [List.forall_mem_append, List.forall_mem_cons]
    exact ⟨hasked _ _ _, eventWhole_lastSent rfl, hasked _ _ _⟩

/-- What a turn adds to the history of the server. -/
theorem extends_turn (md5 : Md5) (t : Turn S A H) (hclient : u.radclient = c)
    (past : List (Event S A H)) :
    Exec.Extends (fun _ u' => u'.radclient = c)
      (fun past e => SuccessAuthorized c md5 past e ∧ EventWhole e) past (u.step md5 t) := by
  have hany : SimuNas.OnReceived (fun _ _ _ _ => True) past u t := fun _ _ _ => trivial
  refine SimuNas.extends_step (fun _ _ _ h _ => h) (fun _ _ => ⟨trivial, trivial⟩) ?_ hclient hany
  intro past s t f full r hs _ hhandled
  obtain ⟨halong, hsame⟩ := SimuNas.successAuthorized_handled past hhandled
  rw [hs] at halong
  exact ⟨halong.and (.of_forall (eventWhole_handled hhandled)),
    fun s' hs' => (hsame s' hs').trans hs⟩

/-- What is in a history is in a longer one. -/
theorem CodeSent.append {code : ℕ} (h : CodeSent past code) (rest : List (Occurrence S A H)) :
    CodeSent (past ++ rest) code := by
  obtain ⟨data, len, hsent, hcode⟩ := h
  exact ⟨data, len, List.mem_append_left rest hsent, hcode⟩

/-- Every entry of a lawful history is caused. -/
theorem caused_of_mem {o : Occurrence S A H} (h : Along (Caused c md5) [] past) (ho : o ∈ past) :
    ∃ first last, past = first ++ o :: last ∧ Caused c md5 first o := by
  obtain ⟨first, last, hpast⟩ := List.append_of_mem ho
  refine ⟨first, last, hpast, ?_⟩
  have hcaused := h first o last hpast
  rwa [List.nil_append] at hcaused

/-- What the station hears has the code of a packet that the server sent, or is a response. -/
private theorem code_of_heard (hcaused : Along (Caused c md5) [] past)
    (hheard : HeardByStation past f) (hmatch : f.LengthsMatch) :
    CodeSent past f.payload.body.code ∨ f.payload.body.code = Eap.response := by
  obtain ⟨data, len, hsent | ⟨login, htold⟩, harrives⟩ := hheard
  · obtain ⟨first, last, -, -, hwhole⟩ := caused_of_mem hcaused hsent
    exact Or.inl ⟨data, len, hsent, ((sameAs_of_arrives harrives hwhole).code hmatch).symm⟩
  · obtain ⟨first, last, -, hwhole, hcode⟩ := caused_of_mem hcaused htold
    exact Or.inr (((sameAs_of_arrives harrives hwhole).code hmatch).trans hcode)

section Steps

variable {digest : Digest} {E : Engine}

/-- The server keeps the law: what it grants was granted to it. -/
theorem lawful_server (h : n.serverStep md5 t = some n') (hlawful : Lawful c md5 n) :
    Lawful c md5 n' := by
  obtain ⟨u, hu, rfl⟩ := Option.map_eq_some_iff.mp h
  obtain ⟨halong, hinvariant⟩ := extends_turn md5 t (hlawful.radclient u hu)
    (served n.history)
  refine ⟨hlawful.sound, fun u' hu' => ?_, Along.append_iff.mpr ⟨hlawful.caused, ?_⟩,
    fun hauth => (hlawful.authenticated hauth).append _⟩
  · refine hinvariant u' ?_
    cases hresult : (u.step md5 t).result with
    | error e =>
      rw [hresult] at hu'
      cases hu'
    | ok v =>
      rw [hresult] at hu'
      cases hu'
      rfl
  · intro before o after hlog
    have hcaused := along_atServer halong before o after hlog
    have hserver : o ∈ (u.step md5 t).log.map .server :=
      hlog ▸ List.mem_append_right before List.mem_cons_self
    obtain ⟨e, -, rfl⟩ := List.mem_map.mp hserver
    exact hcaused

/-- The station keeps the law, as it hears nothing that was not sent. -/
theorem lawful_station {a : Client.Action}
    (h : n.stationStep (Handler.vtable digest E) a = some n') (hlawful : Lawful c md5 n)
    (hok : Unforged n (.station a)) : Lawful c md5 n' := by
  obtain ⟨⟨s', outs⟩, hstep, rfl⟩ := Option.map_eq_some_iff.mp h
  obtain ⟨hsound, hsends⟩ := sound_step hstep hlawful.sound hok.1
  -- A result that ends an authentication is one for a packet of the server.
  have hended (rc : Ret) (code : ℕ) (hrc : .processed rc ∈ outs) (hcode : code ≠ Eap.response)
      (hread : ∀ f : Frame, (rc = .ok → f.payload.body.code = Eap.success) →
        (rc = .fail → f.payload.body.code = Eap.failure) → f.payload.body.code = code) :
      CodeSent n.history code := by
    obtain ⟨d, f, rfl, hframe, hmatch, -, hsuccess, hfailure⟩ :=
      code_of_step hstep hlawful.sound hrc
    have hread := hread f hsuccess hfailure
    rcases code_of_heard hlawful.caused (hok.2 d f rfl hframe) hmatch with hsent | hresponse
    · rwa [hread] at hsent
    · exact absurd (hread.symm.trans hresponse) hcode
  have hsuccess (h : .processed .ok ∈ outs) : CodeSent n.history Eap.success :=
    hended .ok _ h (by decide) fun _ hs _ => hs rfl
  have hfailure (h : .processed .fail ∈ outs) : CodeSent n.history Eap.failure :=
    hended .fail _ h (by decide) fun _ _ hf => hf rfl
  refine ⟨hsound, hlawful.radclient, Along.append_iff.mpr ⟨hlawful.caused, ?_⟩, fun hauth => ?_⟩
  · intro before o after hlog
    rw [List.nil_append]
    have hmem : o ∈ outs.map (.station (loginAfter n.login a)) :=
      hlog ▸ List.mem_append_right before List.mem_cons_self
    obtain ⟨out, hout, rfl⟩ := List.mem_map.mp hmem
    cases out with
    | sent data len => exact hsends data len hout
    | event => trivial
    | processed rc =>
      cases rc with
      | ok => exact (hsuccess hout).append before
      | fail => exact (hfailure hout).append before
      | cont | inv | abort | old => trivial
  · refine CodeSent.append ?_ _
    rcases Listener.step_state hstep with ⟨-, hstate⟩ | ⟨-, -, hstate⟩ | ⟨-, rc, hrc, hstate⟩
    · simp [hstate, ConState.Authenticated] at hauth
    · rw [hstate] at hauth
      exact hlawful.authenticated hauth
    · by_cases hsame : n.listener.state.Authenticated
      · exact hlawful.authenticated hsame
      · have hok : rc = .ok := by
          rw [hstate] at hauth
          cases rc <;> cases hs : n.listener.state <;>
            simp_all [ConState.after, ConState.Authenticated]
        exact hsuccess ((hrc .ok).mpr hok.symm)

/-- A move of either side. -/
theorem lawful_step {m : Move S A H} (h : n.step (Handler.vtable digest E) md5 m = some n')
    (hlawful : Lawful c md5 n) (hok : Unforged n m) : Lawful c md5 n' := by
  cases m with
  | station a => exact lawful_station h hlawful hok
  | server t => exact lawful_server h hlawful

/-- The law holds at the start. -/
theorem lawful_start (md5 : Md5) (u : SimuNas H) :
    Lawful u.radclient md5 (Network.start u : Network S A H) where
  sound := sound_init
  radclient := by
    rintro _ ⟨⟩
    rfl
  caused := .nil
  authenticated := by
    rintro (h | h) <;> cases h

/-- The law holds between any two moves. -/
theorem lawful_of_run {u : SimuNas H} {ms : List (Move S A H)}
    (run : Steps (Network.step (Handler.vtable digest E) md5) Unforged (.start u) ms n) :
    Lawful u.radclient md5 n :=
  run.invariant (lawful_start md5 u) fun _ _ _ h hok hstep => lawful_step hstep h hok

end Steps

end Dot1x.System
