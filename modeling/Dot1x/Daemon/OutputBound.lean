import Dot1x.Daemon.AuthenticatorChange
import Dot1x.Eap.OutputRoom

/-!
# The bounds of the output buffer

The output buffer is as large as the option `-mtu` says. Nothing compares that with what is written:
the headers, the name of the user and the fragments of the TLS engine's output. So everything stays in
the buffer as long as each answer fits into it. What lies behind the buffer belongs to somebody else;
it is arbitrary here, and stays as it was exactly if nothing is written there.
-/

namespace Dot1x.Daemon

open Dot1x.Base Dot1x.Wire Dot1x.Eap Dot1x.Link

/-- Where the EAP packet begins in a frame. -/
def eapOffset : ℕ := llHdrLen + EapolPacket.baseHeaderLen

/-- Nothing was written behind the buffer, and the frame in it does not reach behind it. -/
structure Inside (mtu : ℕ) (buf : Mem) (l : Ll8023) : Prop where
  outLen : l.outLen ≤ mtu
  behind : ∀ a, mtu ≤ a → l.outData a = buf a

/-- A frame that is handed to the driver is in the buffer. -/
def SentInside (mtu : ℕ) (buf : Mem) : Event → Prop
  | .sent data len => len ≤ mtu ∧ ∀ a, mtu ≤ a → data a = buf a
  | _ => True

namespace MainLoop

variable {V : Vtable Handler} {opts : Options} {digest : Digest} {E : Engine}
  {s s' s₀ s₁ : MainLoop Handler} {d d₀ : Delivery} {ds : List Delivery} {f : Frame} {mtu : ℕ}
  {buf : Mem} {own : List UInt8} {e : EapState Handler}

/-- The EAP layer that a packet is passed to: an authentication that was begun with another
authenticator is aborted first. -/
def layer (V : Vtable Handler) (s : MainLoop Handler) (f : Frame) : EapState Handler :=
  if (s.io.observe f).samePae then s.auth
  else match s.state with
    | .doAuth => s.auth.abort V
    | _ => s.auth

/-- The response to a packet fits into the buffer. -/
def Fits (V : Vtable Handler) (E : Engine) (mtu : ℕ) (s : MainLoop Handler) (d : Delivery) : Prop :=
  ∀ f, d.frame = some f → f.Accepted s.io.etherSrc → f.payload.type = EapolPacket.pckt →
    (s.layer V f).Fits V E (mtu - eapOffset) s.io.output.body.len d.heap f.payload.body

/-- A frame is made in the buffer and sent. -/
theorem transmit_inside (hmtu : eapOffset ≤ mtu) (hbehind : ∀ a, mtu ≤ a → s.io.outData a = buf a)
    {type : ℕ} (hlen : type = EapolPacket.pckt → s.io.output.body.len + eapOffset ≤ mtu) :
    (transmit s d type).Sat (SentInside mtu buf) fun s' => Inside mtu buf s'.io ∧
      s'.auth = s.auth ∧ s'.state = s.state ∧ s'.io.output.body.len = s.io.output.body.len := by
  have hsent : Inside mtu buf (s.io.makeEapol type).send := by
    constructor
    · by_cases htype : type = EapolPacket.pckt
      · subst htype
        have hout : (s.io.makeEapol EapolPacket.pckt).send.outLen =
            (s.io.makeEapol EapolPacket.pckt).output.bodyLen + eapOffset := rfl
        rw [hout, Ll8023.makeEapol_bodyLen]
        exact hlen rfl
      · have hout : (s.io.makeEapol type).send.outLen =
            (s.io.makeEapol type).output.bodyLen + eapOffset := rfl
        have hempty : (s.io.makeEapol type).output.bodyLen = 0 := by
          change (EapolPacket.setBodyLen (s.io.output.setType type) _).bodyLen = 0
          rw [EapolPacket.bodyLen_setBodyLen, if_neg htype, Nat.zero_mod]
        rwa [hout, hempty, Nat.zero_add]
    · intro a ha
      refine (Ll8023.makeEapol_outData s.io type (Or.inr ?_)).trans (hbehind a ha)
      exact Nat.le_trans (show 18 ≤ mtu from hmtu) ha
  refine .bind (.tell (Q := fun _ => True) ⟨hsent.outLen, hsent.behind⟩ trivial) fun _ _ => ?_
  split
  · exact .pure ⟨hsent, rfl, rfl, Ll8023.makeEapol_body_len s.io type⟩
  · exact .fail

/-- Starting a session with another authenticator. -/
theorem restartMolestor_inside (hmtu : eapOffset ≤ mtu) (h : Inside mtu buf s.io) :
    (restartMolestor opts s d).Sat (SentInside mtu buf) fun s' => Inside mtu buf s'.io ∧
      s'.auth = s.auth ∧ s'.state = s.state ∧ s'.io.output.body.len = s.io.output.body.len := by
  unfold restartMolestor startMolestor
  split
  · split
    · exact .pure ⟨h, rfl, rfl, rfl⟩
    · exact transmit_inside hmtu h.behind fun htype => absurd htype (by decide)
  · exact .pure ⟨h, rfl, rfl, rfl⟩

/-- Aborting stays within the output packet and leaves its length alone. -/
theorem doAbort_inside (hmtu : eapOffset ≤ mtu) (h : Inside mtu buf s.io) :
    (doAbort V opts s d).Sat (SentInside mtu buf) fun s' => Inside mtu buf s'.io ∧
      s'.auth = s.auth.abort V ∧ s'.io.output.body.len = s.io.output.body.len := by
  refine .bind (.tell (Q := fun _ => True) trivial trivial) fun _ _ => ?_
  refine (restartMolestor_inside (s := { s with auth := s.auth.abort V }) hmtu h).mono
    (fun _ => id) ?_
  rintro s' ⟨hinside, hauth, -, hlen⟩
  exact ⟨hinside, hauth, hlen⟩

/-- Leaving the loop stays within the output packet. -/
private theorem out_inside (hmtu : eapOffset ≤ mtu) (h : Inside mtu buf s.io) :
    (out opts s d).Sat (SentInside mtu buf) fun s' => Inside mtu buf s'.io := by
  unfold out
  split
  · refine .bind (transmit_inside hmtu h.behind fun htype => absurd htype (by decide)) fun _ _ => ?_
    exact .fail
  · exact .fail

/-- Acting on a result sends a response that was made, or frames without one. -/
theorem settle_inside {rc : Ret} (hmtu : eapOffset ≤ mtu) (h : Inside mtu buf s.io) (hrc : rc ≠ .old)
    (hlen : rc = .cont → s.io.output.body.len + eapOffset ≤ mtu) :
    (settle V opts s d rc).Sat (SentInside mtu buf) fun s' => Inside mtu buf s'.io := by
  apply settle_rule
  · intro s₁ hio
    rwa [hio]
  · intro hsends s₁ hio
    have hcont : rc = .cont := hsends.resolve_right hrc
    refine (transmit_inside (s := s₁) hmtu (hio ▸ h.behind) fun _ => ?_).mono (fun _ => id)
      fun _ hs => hs.1
    rw [hio]
    exact hlen hcont
  · exact (restartMolestor_inside hmtu h).mono (fun _ => id) fun _ hs => hs.1
  · intro s₁ hio
    exact (doAbort_inside (s := s₁) hmtu (hio ▸ h)).mono (fun _ => id) fun _ hs => hs.1
  · intro s₁ hio
    exact out_inside hmtu (hio ▸ h)

/-- A packet is passed to the EAP layer and answered. -/
theorem pass_inside (hmtu : eapOffset < mtu) (h : Inside mtu buf s.io)
    (hfits : s.auth.Fits (Handler.vtable digest E) E (mtu - eapOffset) s.io.output.body.len d.heap
      f.payload.body) :
    (pass (Handler.vtable digest E) opts s d f).Sat (SentInside mtu buf)
      fun s' => Inside mtu buf s'.io := by
  refine .bind (.tell (Q := fun _ => True) trivial trivial) fun _ _ => ?_
  split
  · exact .fail
  · rename_i r hres
    obtain ⟨rc, e', o⟩ := r
    obtain ⟨hdata, hbehind, hlen⟩ := EapState.process_inside hfits hres
    have hplace : s.io.output.body.data = eapOffset := rfl
    have hroom : eapOffset + (mtu - eapOffset) = mtu := by omega
    have hinside : Inside mtu buf { s.io with outData := o.mem } := by
      refine ⟨h.outLen, fun a ha => ?_⟩
      have hkept := hbehind a (by rw [hplace, hroom]; exact ha)
      exact hkept.trans (h.behind a ha)
    dsimp only
    split
    · refine .bind (.tell (Q := fun _ => True) ⟨h.outLen, hinside.behind⟩ trivial) fun _ _ => ?_
      split
      · exact .pure hinside
      · exact .fail
    · rename_i hold
      refine settle_inside (s := { s with auth := e', io := { s.io with outData := o.mem } })
        (Nat.le_of_lt hmtu) hinside hold fun hcont => ?_
      have hbody : (Ll8023.output { s.io with outData := o.mem }).body = o := by
        obtain ⟨m, p⟩ := o
        cases hdata
        rfl
      have hshort := hlen hcont
      rw [hbody]
      omega

/-- Leaving an authenticator makes the layer ready for the next one. -/
theorem leavePae_inside (hmtu : eapOffset ≤ mtu) (h : Inside mtu buf s.io) :
    (leavePae V opts s d).Sat (SentInside mtu buf) fun s' => Inside mtu buf s'.io ∧
      s'.auth = (match s.state with | .doAuth => s.auth.abort V | _ => s.auth) ∧
      s'.io.output.body.len = s.io.output.body.len := by
  refine .bind (.tell (Q := fun _ => True) trivial trivial) fun _ _ => ?_
  cases s.state with
  | init => exact .pure ⟨h, rfl, rfl⟩
  | didAuth => exact .pure ⟨h, rfl, rfl⟩
  | doAuth => exact (doAbort_inside hmtu h).bind fun _ hs => .pure hs

/-- A frame is dealt with inside the buffer where the response fits. -/
theorem step_inside (hmtu : eapOffset < mtu) (h : Inside mtu buf s.io)
    (hfits : s.Fits (Handler.vtable digest E) E mtu d) :
    (step (Handler.vtable digest E) opts s d).Sat (SentInside mtu buf)
      fun s' => Inside mtu buf s'.io := by
  have hobserve (f : Frame) : Inside mtu buf (s.io.observe f) ∧
      (s.io.observe f).output.body.len = s.io.output.body.len := by
    refine ⟨⟨?_, fun a ha => ?_⟩, ?_⟩
    · rw [Ll8023.observe_outLen]
      exact h.outLen
    · rw [Ll8023.observe_outData]
      exact h.behind a ha
    · simp only [Ll8023.output, Ll8023.observe_outData]
  cases hf : d.frame with
  | none =>
    rw [step, hf]
    exact .fail
  | some f =>
    obtain ⟨hinside, hlen⟩ := hobserve f
    by_cases hacc : f.Accepted s.io.etherSrc
    · rw [step_accepted hf hacc]
      refine .bind (Q := fun s' => Inside mtu buf s'.io) ?_ fun s' hs => .pure ⟨hs.outLen, hs.behind⟩
      unfold handle
      split
      · exact .pure hinside
      · rename_i htype
        have hfits := hfits f hf hacc (not_not.mp htype)
        unfold layer at hfits
        split
        · rename_i hsame
          rw [if_pos hsame] at hfits
          refine pass_inside hmtu hinside ?_
          rw [hlen]
          exact hfits
        · rename_i hother
          rw [if_neg hother] at hfits
          refine .bind (leavePae_inside (s := { s with io := s.io.observe f }) (Nat.le_of_lt hmtu)
            hinside) fun s₁ hs => ?_
          obtain ⟨hinside₁, hauth, hlen₁⟩ := hs
          refine pass_inside hmtu hinside₁ ?_
          rw [hauth, hlen₁, hlen]
          exact hfits
    · rw [step_rejected hf hacc]
      exact .pure hinside

/-- The program is inside the buffer when it starts. -/
private theorem start_inside (hmtu : eapOffset < mtu) (hown : own.length = etherAddrLen) :
    (start opts (Ll8023.new own buf) e d₀).Sat (SentInside mtu buf)
      fun s' => Inside mtu buf s'.io := by
  have hsetup : Inside mtu buf (Ll8023.new own buf).setupOutput := by
    refine ⟨Nat.zero_le _, fun a ha => Ll8023.setupOutput_outData hown rfl ?_⟩
    exact Nat.le_trans (show 19 ≤ mtu from hmtu) ha
  refine .bind (restartMolestor_inside (Nat.le_of_lt hmtu) hsetup) fun s' hs => .pure ?_
  exact ⟨hs.1.outLen, hs.1.behind⟩

/-- In every run all of whose answers fit, nothing is written behind the output buffer and no frame is
longer than the buffer. In the next step, too, what is sent is in the buffer, and no copy runs away. -/
theorem output_bounded (hmtu : eapOffset < mtu) (hown : own.length = etherAddrLen)
    (hstart : (start opts (Ll8023.new own buf) e d₀).result = .ok s₀)
    (run : Steps (next (Handler.vtable digest E) opts) (Fits (Handler.vtable digest E) E mtu) s₀ ds
      s) :
    Inside mtu buf s.io ∧ ∀ d, s.Fits (Handler.vtable digest E) E mtu d →
      (∀ ev ∈ (step (Handler.vtable digest E) opts s d).log, SentInside mtu buf ev) ∧
      ∀ f t, d.frame = some f → f.Accepted s.io.etherSrc → f.payload.type = EapolPacket.pckt →
        f.payload.body.code = request →
        (s.layer (Handler.vtable digest E) f).ReachesTls (Handler.vtable digest E) f.payload.body t →
        ¬t.RunsAway E d.heap f.payload.body := by
  have hinside : Inside mtu buf s.io := by
    refine run.invariant (I := fun s => Inside mtu buf s.io) ?_ fun s d s' hs hfits hnext => ?_
    · exact (start_inside hmtu hown).value s₀ hstart
    · exact (step_inside hmtu hs hfits).value s' (Exec.result_of_toOption hnext)
  refine ⟨hinside, fun d hfits => ⟨(step_inside hmtu hinside hfits).effects, ?_⟩⟩
  intro f t hf hacc htype hreq ⟨i, w, hsearch, hget⟩
  have hroom := hfits f hf hacc htype hreq
  rw [hsearch] at hroom
  exact TypeTls.Fits.not_runsAway (hroom _ hget)

/-- The handlers of a user without a method. -/
def userLayer (id : List UInt8) : EapState Handler :=
  (EapState.init.addHandler .notification).addHandler (.identity ⟨id⟩)

/-- The daemon of a user. -/
def userDaemon (id : List UInt8) : Exec Event Stop (MainLoop Handler) :=
  start plainOptions (Ll8023.new [2, 0, 0, 0, 0, 1] fun _ => 0) (userLayer id) (delivery (askIdentity 2))

/-- The identity of a user with a short name is sent in the buffer. -/
theorem output_bounded_short : ∃ s₀ s, (userDaemon [97]).result = .ok s₀ ∧
    next plainVtable plainOptions s₀ (delivery (askIdentity 2)) = some s ∧
    s.io.outLen = 24 ∧ Inside 1500 (fun _ => 0) s.io := by
  have heval : ∃ s₀, (userDaemon [97]).result = .ok s₀ ∧
      s₀.auth = userLayer [97] ∧ s₀.state = .init ∧
      (next plainVtable plainOptions s₀ (delivery (askIdentity 2))).map (·.io.outLen) = some 24 :=
    ⟨_, rfl, rfl, rfl, by decide +kernel⟩
  obtain ⟨s₀, hstart, hauth, hstate, hlen⟩ := heval
  obtain ⟨s, hnext, hlen⟩ := Option.map_eq_some_iff.mp hlen
  refine ⟨s₀, s, hstart, hnext, hlen, ?_⟩
  refine (output_bounded (by decide) rfl hstart (.single ?_ hnext)).1
  intro f hf _ _
  cases hf
  have hlayer : s₀.layer plainVtable (askIdentity 2) = userLayer [97] := by
    unfold layer
    rw [hstate, hauth]
    split <;> rfl
  have hsearch : EapState.search plainVtable (askIdentity 2).payload.body (userLayer [97]).handlers =
      some (0, .iWillAuth) := by
    decide +kernel
  have hfits : (userLayer [97]).Fits plainVtable ⟨fun _ => false, fun _ => none⟩ (1500 - eapOffset)
      s₀.io.output.body.len (delivery (askIdentity 2)).heap (askIdentity 2).payload.body := by
    intro _
    rw [hsearch]
    intro hd hget
    cases hget
    exact show 6 ≤ 1500 - eapOffset by decide
  rw [← hlayer] at hfits
  exact hfits

/-- A user name that is longer than the buffer. -/
def longName : List UInt8 := List.replicate 1500 97

/-- A long name is written behind the buffer and makes a frame that is longer. -/
theorem not_output_bounded_long : ∃ s₀ s, (userDaemon longName).result = .ok s₀ ∧
    next plainVtable plainOptions s₀ (delivery (askIdentity 2)) = some s ∧
    s.io.outData 1500 = 97 ∧ s.io.outLen = 1523 ∧ ¬Inside 1500 (fun _ => 0) s.io := by
  have heval : ∃ s₀, (userDaemon longName).result = .ok s₀ ∧
      (next plainVtable plainOptions s₀ (delivery (askIdentity 2))).map
        (fun s => (s.io.outData 1500, s.io.outLen)) = some (97, 1523) :=
    ⟨_, rfl, by decide +kernel⟩
  obtain ⟨s₀, hstart, hlong⟩ := heval
  obtain ⟨s, hnext, hlong⟩ := Option.map_eq_some_iff.mp hlong
  obtain ⟨hbyte, hlen⟩ := Prod.mk.inj hlong
  refine ⟨s₀, s, hstart, hnext, hbyte, hlen, fun hinside => ?_⟩
  have hzero := hinside.behind 1500 (Nat.le_refl _)
  rw [hbyte] at hzero
  exact absurd hzero (by decide)

end MainLoop

end Dot1x.Daemon
