import Dot1x.Daemon.Frames
import Dot1x.Eap.CleanHandlers
import Dot1x.Eap.TlsPeer

/-!
# EAP-TLS between the daemon and an authenticator

Two TLS engines talk to each other: one behind the daemon's EAP-TLS handler, one behind the
authenticator. In between are fragments and acknowledgements, EAP requests and responses, and frames.
None of this should be noticed by the engines: each is called with the messages of the other, whole,
each once and in their order.

Other frames may come in between, also notifications and requests that nobody answers. What must not
come are requests for an identity or another method, which begin something new, and the end of the
authentication.
-/

namespace Dot1x.Eap

open Dot1x.Base Dot1x.Wire

namespace TypeTls

variable {o o' : TlsPacket} {ρ : Reaction}

/-- What a packet says is in its bytes. -/
theorem Reads.congr (h : Reads o ρ) (hdata : o'.data = o.data)
    (hmem : ∀ a, o.data ≤ a → o'.mem a = o.mem a) : Reads o' ρ := by
  obtain ⟨hlength, htls⟩ := tlsData_congr hdata fun a ha => hmem a (by omega)
  have hbyte (i : ℕ) : o'.byte i = o.byte i := by
    rw [Pointer.byte, Pointer.byte, hdata]
    exact hmem _ (by omega)
  have hlen : o'.len = o.len := by rw [EapPacket.len_eq, EapPacket.len_eq, hbyte, hbyte]
  have hflags : TlsPacket.tlsFlags o' = TlsPacket.tlsFlags o := congrArg UInt8.toNat (hbyte 5)
  have hslice (a n : ℕ) (ha : o.data ≤ a) : slice o'.mem a n = slice o.mem a n :=
    slice_congr fun i hi _ => hmem i (by omega)
  have heapData : EapPacket.eapData o' = EapPacket.eapData o := by
    rw [EapPacket.eapData, EapPacket.eapData, hdata]
  have hplace : o.data ≤ EapPacket.eapData o := Nat.le_add_right _ _
  cases ρ with
  | nothing => exact h
  | ack =>
    have hpdu : pduLen o' = pduLen o := by simp only [pduLen, hlen, hlength]
    change classifyPacket o' (pduLen o') = .tlsAck
    rw [← show classifyPacket o (pduLen o) = .tlsAck from h, hpdu]
    simp only [classifyPacket, hflags]
  | part declared more payload =>
    have hread : IsFragment o more declared payload := h
    refine ⟨hflags.trans hread.flags, fun n hn => ?_, hlen.trans hread.len, ?_, hread.nonempty⟩
    · rw [← hread.tlsLen n hn]
      simp only [TlsPacket.tlsLen, AccessUi32.get, heapData]
      rw [hslice _ _ (by omega)]
    · rw [heapData, hslice _ _ (by omega)]
      exact hread.data

end TypeTls

namespace EapState

variable {digest : Digest} {E : Engine} {e e' : EapState Handler} {heap : Heap}
  {input output : EapPacket} {t t' : TypeTls} {i : ℕ} {ρ : TypeTls.Reaction}

/-- The flags of a response are those that were written. -/
private theorem tlsFlags_straightReturn (e : EapState Handler) (input o : EapPacket) :
    TlsPacket.tlsFlags (e.straightReturn input (EapPacket.setType o input.type)).2 =
      TlsPacket.tlsFlags o := by
  obtain ⟨hdata, hmem⟩ := straightReturn_mem e input o input.type
  rw [TlsPacket.tlsFlags, TlsPacket.tlsFlags, AccessUi8.get, AccessUi8.get, EapPacket.eapData,
    EapPacket.eapData, hdata]
  exact congrArg UInt8.toNat (hmem _ (Nat.le_refl _))

/-- An acknowledgement is read as one. -/
private theorem classify_response_ack (e : EapState Handler) (input output : EapPacket)
    {o : EapPacket} (ho : o = (e.straightReturn input
      (EapPacket.setType (TypeTls.Reaction.ack.apply output) input.type)).2) :
    TypeTls.classifyPacket o (TypeTls.pduLen o) = .tlsAck := by
  obtain ⟨hdata, hmem⟩ := straightReturn_mem e input (TypeTls.Reaction.ack.apply output) input.type
  have hexact := (lengthExact_iff e input output .ack (Nat.zero_lt_succ _)).mpr trivial
  have hflags := tlsFlags_straightReturn e input (TypeTls.Reaction.ack.apply output)
  have hlength := (TypeTls.tlsData_congr hdata hmem).1
  rw [← ho] at hexact hflags hlength
  have hnone : TlsPacket.hasLength o = false := by
    rw [hlength, TypeTls.Reaction.apply_ack, TypeTls.makeAck_hasLength]
  have hzero : TlsPacket.tlsFlags o = 0 := by
    rw [hflags, TypeTls.Reaction.apply_ack]
    exact (TypeTls.makeAck_ack output).1
  have hlen : o.len = 6 := by
    rw [TypeTls.LengthExact, hnone] at hexact
    exact hexact
  have hpdu : TypeTls.pduLen o = 0 := by
    have hone : wrapSub 6 EapPacket.headerLen = 1 := wrapSub_of_le (by decide)
    rw [TypeTls.pduLen, hlen, hnone, if_neg Bool.false_ne_true, hone]
    exact wrapSub_of_le (Nat.le_refl 1)
  rw [TypeTls.classifyPacket, if_pos hzero, if_pos hpdu]

/-- A legible response says what was written. -/
theorem reads_response (e : EapState Handler) (input output : EapPacket)
    (hρ : ρ.Legible output) (hshort : ρ.payload.length < 65535) :
    TypeTls.Reads (e.straightReturn input (EapPacket.setType (ρ.apply output) input.type)).2 ρ := by
  cases ρ with
  | nothing => exact hρ
  | ack => exact classify_response_ack e input output rfl
  | part declared more payload =>
    obtain ⟨hdata, hmem⟩ :=
      straightReturn_mem e input (TypeTls.framed output declared more payload) input.type
    have hlength := (TypeTls.tlsData_congr hdata hmem).1
    have hexact := lengthExact_iff e input output (.part declared more payload) hshort
    have hcopied := ((TypeTls.Reaction.part declared more payload).copied output).congr hdata hmem
    have hflags := tlsFlags_straightReturn e input (TypeTls.framed output declared more payload)
    change TypeTls.Reads (e.straightReturn input (EapPacket.setType
      (TypeTls.framed output declared more payload) input.type)).2 _
    rw [TypeTls.Reaction.apply_part] at hexact
    set o := (e.straightReturn input (EapPacket.setType
      (TypeTls.framed output declared more payload) input.type)).2
    obtain ⟨hne, hdeclared, hfits⟩ := hρ
    have hsome : TlsPacket.hasLength o = declared.isSome := by
      rw [hlength, TypeTls.framed_hasLength]
    refine ⟨?_, fun n hn => ?_, ?_, ?_, hne⟩
    · have hbyte : TlsPacket.tlsFlags (TypeTls.framed output declared more payload) =
          (UInt8.ofNat (TypeTls.partFlags declared more)).toNat :=
        congrArg UInt8.toNat TypeTls.framed_flags
      rw [hflags, hbyte, TypeTls.partFlags]
      cases more <;> cases declared.isSome <;> rfl
    · have hn' : declared = some n := hn
      subst hn'
      have hbytes : TlsPacket.tlsLen o =
          TlsPacket.tlsLen (TypeTls.framed output (some n) more payload) := by
        have hslice : slice o.mem ((TypeTls.framed output (some n) more payload).data + 5 + 1) 4 =
            slice (TypeTls.framed output (some n) more payload).mem
              ((TypeTls.framed output (some n) more payload).data + 5 + 1) 4 :=
          slice_congr fun a ha _ => hmem a (Nat.le_of_succ_le ha)
        simp only [TlsPacket.tlsLen, AccessUi32.get, EapPacket.eapData, hdata, EapPacket.headerLen,
          hslice]
      rw [hbytes, TypeTls.framed_tlsLen, Nat.mod_eq_of_lt (hdeclared n rfl)]
    · have hexact := hexact.mpr hfits
      rw [TypeTls.LengthExact, hsome] at hexact
      rw [hexact]
      simp only [TypeTls.Reaction.payload]
      split <;> omega
    · have hplace := hcopied.inPlace
      rw [TlsPacket.tlsData, hsome] at hplace
      exact hplace

/-- A packet leaves the layer in order. -/
theorem Orderly.process (h : e.Orderly) {r : Ret × EapState Handler × EapPacket}
    (hres : (e.process (Handler.vtable digest E) heap input output).result = .ok r) :
    r.2.1.Orderly := by
  have hinvoke : e.invoke (Handler.vtable digest E) (.process heap input output .notification) =
      some r.2.1 := by
    rw [EapState.invoke, hres]
  exact h.invoke hinvoke

/-- A request for EAP-TLS is for the handler in the list. -/
theorem reachesTls (digest : Digest) (E : Engine) (h : e.Orderly) (hget : e.handlers[i]? = some (.tls t))
    (htype : input.type = TlsPacket.eapType) :
    search (Handler.vtable digest E) input e.handlers = some (i, .iWillAuth) ∧
      (e.claim (Handler.vtable digest E) i .iWillAuth input.type).handlers[i]? = some (.tls t) := by
  have hwants : input.type ∈ ({Handler.wantedType (.tls t)} : Set ℕ) := htype
  refine ⟨?_, ?_⟩
  · rw [search_of_wants (Handler.disciplined digest E) h.exclusive_wantedType hget hwants]
    exact congrArg (fun w => some (i, w)) (if_pos htype)
  · unfold claim
    dsimp only
    split
    · rename_i hother
      rw [getElem?_abort, hget, Option.map_some]
      -- The authenticator that is aborted wants another type.
      rw [if_neg fun hauth => ?_]
      obtain ⟨hd, hget', hwanted⟩ := (h.books.taker hauth i).mpr rfl
      cases hget.symm.trans hget'
      exact hother.2 (htype.trans (Set.mem_singleton_iff.mp hwanted).symm)
    · exact hget

/-- A request for EAP-TLS that the handler answers. -/
theorem process_of_answer (digest : Digest) (output : EapPacket) (h : e.Orderly) (hget : e.handlers[i]? = some (.tls t))
    (hreq : input.code = request) (htype : input.type = TlsPacket.eapType)
    (hanswer : t.answer E heap input = some (.cont, t', ρ)) :
    ∃ e', (e.process (Handler.vtable digest E) heap input output).result = .ok (.cont, e',
        (e.straightReturn input (EapPacket.setType (ρ.apply output) input.type)).2) ∧
      e'.handlers[i]? = some (.tls t') := by
  obtain ⟨hsearch, hfound⟩ := reachesTls digest E h hget htype
  have hrun : ((Handler.vtable digest E).process (.tls t) heap input output).result =
      .ok (.cont, .tls t', ρ.apply output) := by
    have hprocess : (t.process E heap input output).result = .ok (.cont, t', ρ.apply output) :=
      TypeTls.process_eq_answer.mpr ⟨_, hanswer, rfl⟩
    change (t.process E heap input output >>= fun r =>
      pure (r.1, Handler.tls r.2.1, r.2.2)).result = _
    rw [Exec.result_bind_of_ok hprocess]
    rfl
  refine ⟨_, process_cont.mpr ⟨hreq, .handler hsearch hfound hrun rfl⟩, ?_⟩
  exact List.getElem?_set_self (List.getElem?_eq_some_iff.mp hfound).1

/-- A request for EAP-TLS was answered by the handler. -/
theorem answer_of_process (h : e.Orderly) (hget : e.handlers[i]? = some (.tls t))
    (htype : input.type = TlsPacket.eapType) {o : EapPacket}
    (hres : (e.process (Handler.vtable digest E) heap input output).result = .ok (.cont, e', o)) :
    ∃ t' ρ, t.answer E heap input = some (.cont, t', ρ) := by
  obtain ⟨hsearch, hfound⟩ := reachesTls digest E h hget htype
  obtain ⟨t', ρ, hanswer, -⟩ := ReachesTls.response ⟨i, .iWillAuth, hsearch, hfound⟩ hres
  exact ⟨t', ρ, hanswer⟩

/-- A packet that neither begins nor ends anything: no Success, no Failure, and no request for an
identity or an authentication. -/
def Unrelated (input : EapPacket) : Prop :=
  input.code ≠ success ∧ input.code ≠ failure ∧
    (input.code = request → input.type ∉ [Eap.identity, Eap.md5, TlsPacket.eapType])

/-- Such a packet neither aborts a handler nor concerns the one for EAP-TLS. -/
theorem process_unrelated (hget : e.handlers[i]? = some (.tls t)) (hother : Unrelated input)
    {r : Ret × EapState Handler × EapPacket}
    (hres : (e.process (Handler.vtable digest E) heap input output).result = .ok r) :
    (r.1 = .cont ∨ r.1 = .inv) ∧ r.2.1.handlers[i]? = some (.tls t) := by
  obtain ⟨hsuccess, hfailure, hrequest⟩ := hother
  cases hout : process_outcome hres with
  | @handled j w r hreq hsearch hrun =>
    obtain ⟨hd, hgetj, hwant, hne⟩ := search_eq_some hsearch
    have hkind := hrequest hreq
    simp only [List.mem_cons, List.not_mem_nil, or_false, not_or] at hkind
    obtain ⟨hidentity, hmd5, htls⟩ := hkind
    have htype : input.type = hd.wantedType := by
      by_contra hnot
      exact hne (hwant ▸ Handler.wantThis_eq_notMe.mpr hnot)
    -- Only the handler for notifications is left.
    have hplain : w = .iWill ∧ ∀ r', ((Handler.vtable digest E).process hd heap input output).result =
        .ok r' → r'.1 = .cont := by
      cases hd with
      | notification =>
        refine ⟨hwant.symm.trans (if_pos htype), fun r' hr' => ?_⟩
        obtain ⟨⟨rc, o⟩, ha, hr⟩ := Exec.result_bind_eq_ok.mp hr'
        obtain ⟨rfl, -⟩ := TypeNotification.process_result_eq_ok ha
        cases hr
        rfl
      | identity => exact absurd htype hidentity
      | md5 => exact absurd htype hmd5
      | tls => exact absurd htype htls
    obtain ⟨rfl, hcont⟩ := hplain
    have hne : j ≠ i := by
      rintro rfl
      cases hget.symm.trans hgetj
      exact htls htype
    simp only [runHandler, claim, hgetj] at hrun
    obtain ⟨⟨rc, hd', o⟩, hproc, hrest⟩ := Exec.result_bind_eq_ok.mp hrun
    have hrc : rc = .cont := hcont _ hproc
    subst hrc
    cases hrest
    exact ⟨Or.inl rfl, (List.getElem?_set_ne hne).trans hget⟩
  | nak => exact ⟨Or.inl rfl, hget⟩
  | unsupported => exact ⟨Or.inr rfl, hget⟩
  | succeeded hcode => exact absurd hcode hsuccess
  | passed hreq =>
    unfold process at hres
    rw [if_neg hreq, if_neg hsuccess, if_neg hfailure] at hres
    cases hres
    exact ⟨Or.inr rfl, hget⟩

end EapState

end Dot1x.Eap

namespace Dot1x.Daemon

open Dot1x.Base Dot1x.Wire Dot1x.Eap Dot1x.Link
open Dot1x.Eap.TypeTls (Peer Agrees Linked Lacks GivesUp Speaks)

namespace MainLoop

/-- The frames that were handed to the driver. -/
def sentFrames (log : List Event) : List Frame :=
  log.filterMap fun
    | .sent data len => some ⟨data, len⟩
    | _ => none

/-- The response to a request, if that is what was sent. -/
def responseTo (input : EapPacket) : List Frame → Option EapPacket
  | [f] =>
    if f.payload.type = EapolPacket.pckt ∧ f.payload.body.code = Eap.response ∧
        f.payload.body.id = input.id ∧ f.payload.body.type = input.type then
      some f.payload.body
    else none
  | _ => none

/-- What comes to the daemon. -/
inductive Traffic
  /-- A packet of the other end, and how that waits for the answer. -/
  | exchange (d : Delivery) (asking : Peer)
  /-- Anything else. -/
  | other (d : Delivery)

/-- The daemon and the other end after that. -/
def channel (V : Vtable Handler) (opts : Options) (c : MainLoop Handler × Peer) :
    Traffic → Option (MainLoop Handler × Peer)
  | .exchange d asking => do
    let f ← d.frame
    let s ← next V opts c.1 d
    let o ← responseTo f.payload.body (sentFrames (step V opts c.1 d).log)
    let p ← asking.hears o
    pure (s, p)
  | .other d => (next V opts c.1 d).map (·, c.2)

/-- A request for EAP-TLS from the same PAE. -/
structure TlsRequest (s : MainLoop Handler) (d : Delivery) (f : Frame) : Prop where
  frame : d.frame = some f
  accepted : f.Accepted s.io.etherSrc
  eapol : f.payload.type = EapolPacket.pckt
  same : (s.io.observe f).samePae
  code : f.payload.body.code = request
  type : f.payload.body.type = TlsPacket.eapType

/-- What the other end may send, and what else may come. -/
def Permitted (c : MainLoop Handler × Peer) : Traffic → Prop
  | .exchange d asking => ∃ f, TlsRequest c.1 d f ∧ c.2.Asks f.payload.body asking
  | .other d => ∀ f, d.frame = some f → f.Accepted c.1.io.etherSrc →
      f.payload.type = EapolPacket.pckt →
        (c.1.io.observe f).samePae ∧ EapState.Unrelated f.payload.body

section Steps

variable {H : Type} {V : Vtable H} {opts : Options} {s s' : MainLoop H} {d : Delivery} {f : Frame}
  {e' : EapState H} {o : EapPacket} {rc : Ret} {P : EapState H → Prop}

/-- Transmitting leaves the packet machine alone. -/
theorem transmit_auth (type : ℕ) (h : P s.auth) :
    (transmit s d type).Sat (fun _ => True) fun s' => P s'.auth := by
  refine .bind (.tell (Q := fun _ => True) trivial trivial) fun _ _ => ?_
  split
  · exact .pure h
  · exact .fail

/-- Restarting the molestor leaves the packet machine alone. -/
theorem restartMolestor_auth (h : P s.auth) :
    (restartMolestor opts s d).Sat (fun _ => True) fun s' => P s'.auth := by
  unfold restartMolestor startMolestor
  split
  · split
    · exact .pure h
    · exact transmit_auth _ h
  · exact .pure h

/-- Aborting aborts the packet machine and does nothing else to it. -/
theorem doAbort_auth (h : P (s.auth.abort V)) :
    (doAbort V opts s d).Sat (fun _ => True) fun s' => P s'.auth :=
  .bind (.tell (Q := fun _ => True) trivial trivial) fun _ _ =>
    restartMolestor_auth (s := { s with auth := s.auth.abort V }) h

/-- Settling a result leaves the EAP layer alone or aborts. -/
theorem settle_auth (h : P s.auth) (habort : P (s.auth.abort V)) :
    (settle V opts s d rc).Sat (fun _ => True) fun s' => P s'.auth := by
  have hout (s₁ : MainLoop H) : (out opts s₁ d).Sat (fun _ => True) fun s' => P s'.auth :=
    ⟨fun _ _ => trivial, fun s' hs' => (out_ends hs').elim⟩
  unfold settle
  cases s.state with
  | init =>
    cases rc with
    | cont => exact transmit_auth (s := { s with state := .doAuth }) _ h
    | ok | inv | old => exact .pure h
    | fail => exact restartMolestor_auth h
    | abort => exact .pure habort
  | doAuth =>
    cases rc with
    | cont | old => exact transmit_auth (s := { s with molestor := false, state := _ }) _ h
    | ok =>
      dsimp only
      split
      · exact hout _
      · exact .pure h
    | fail =>
      dsimp only
      split
      · exact hout _
      · exact doAbort_auth (s := { s with molestor := false, state := .init }) habort
    | abort => exact doAbort_auth (s := { s with molestor := false, state := .init }) habort
    | inv => exact .pure h
  | didAuth =>
    cases rc with
    | cont => exact transmit_auth (s := { s with state := .doAuth }) _ h
    | ok | inv | old => exact .pure h
    | fail | abort => exact doAbort_auth (s := { s with state := .init }) habort

/-- Leaving an authenticator leaves the EAP layer alone or aborts. -/
private theorem approach_auth (h : P s.auth) (habort : P (s.auth.abort V)) :
    (approach V opts s d).Sat (fun _ => True) fun s' => P s'.auth := by
  unfold approach
  split
  · exact .pure h
  · refine .bind (.tell (Q := fun _ => True) trivial trivial) fun _ _ => ?_
    cases s.state with
    | init => exact .pure h
    | didAuth => exact .pure h
    | doAuth => exact (doAbort_auth (P := P) habort).bind fun _ hs => .pure hs

/-- What `eap::abort` and `eap::process` keep holds of the EAP layer after a step. -/
theorem step_auth (habort : ∀ e, P e → P (e.abort V))
    (hprocess : ∀ e heap input output r, P e → (e.process V heap input output).result = .ok r →
      P r.2.1) (h : P s.auth) :
    (step V opts s d).Sat (fun _ => True) fun s' => P s'.auth := by
  cases hf : d.frame with
  | none =>
    rw [step, hf]
    exact .fail
  | some f =>
    by_cases hacc : f.Accepted s.io.etherSrc
    · rw [step_accepted hf hacc, handle_eq]
      refine .bind (Q := fun s' => P s'.auth) ?_ fun s' hs' => .pure hs'
      split
      · exact .pure h
      · refine .bind (Q := fun s' => P s'.auth) ?_ fun s₁ hs₁ => ?_
        · exact approach_auth (s := { s with io := s.io.observe f }) h (habort _ h)
        · refine .bind (.tell (Q := fun _ => True) trivial trivial) fun _ _ => ?_
          split
          · exact .fail
          · rename_i r hr
            have hr' := hprocess _ _ _ _ _ hs₁ hr
            dsimp only
            split
            · refine .bind (.tell (Q := fun _ => True) trivial trivial) fun _ _ => ?_
              split
              · exact .pure hr'
              · exact .fail
            · exact settle_auth (s := { s₁ with auth := r.2.1, io := _ }) hr' (habort _ hr')
    · rw [step_rejected hf hacc]
      exact .pure h

/-- A packet from the same PAE is passed on. -/
theorem handle_same (htype : f.payload.type = EapolPacket.pckt) (hsame : s.io.samePae) :
    handle V opts s d f = pass V opts s d f := by
  rw [handle, if_neg (not_not.mpr htype), if_pos hsame]

/-- A request that was answered is answered with a frame. -/
private theorem settle_cont (V : Vtable H) (opts : Options) (s : MainLoop H) (d : Delivery) :
    ∃ s₁ : MainLoop H, s₁.io = s.io ∧ s₁.auth = s.auth ∧
      settle V opts s d .cont = transmit s₁ d EapolPacket.pckt := by
  unfold settle
  cases s.state with
  | init => exact ⟨{ s with state := .doAuth }, rfl, rfl, rfl⟩
  | doAuth => exact ⟨{ s with molestor := false, state := .doAuth }, rfl, rfl, rfl⟩
  | didAuth => exact ⟨{ s with state := .doAuth }, rfl, rfl, rfl⟩

/-- A step in which a request from the same PAE is answered. -/
theorem step_cont (opts : Options) (hf : d.frame = some f) (hacc : f.Accepted s.io.etherSrc)
    (htype : f.payload.type = EapolPacket.pckt) (hsame : (s.io.observe f).samePae)
    (hr : (s.auth.process V d.heap f.payload.body (s.io.observe f).output.body).result =
      .ok (.cont, e', o)) :
    ∃ s', s'.auth = e' ∧ (step V opts s d).result = (if d.sends then .ok s' else .error .error) ∧
      sentFrames (step V opts s d).log =
        [sentFrame { s.io.observe f with outData := o.mem } EapolPacket.pckt] := by
  obtain ⟨s₁, hio, hauth, hsettle⟩ := settle_cont V opts
    { s with auth := e', io := { s.io.observe f with outData := o.mem } } d
  have hpass : pass V opts { s with io := s.io.observe f } d f = (do
      Exec.tell (.passed s.state)
      transmit s₁ d EapolPacket.pckt) := by
    rw [pass]
    dsimp only
    rw [hr]
    dsimp only
    rw [if_neg (by decide), hsettle]
  rw [step_accepted hf hacc, handle_same htype hsame, hpass]
  refine ⟨({ s₁ with io := (s₁.io.makeEapol EapolPacket.pckt).send } : MainLoop H).waiting, hauth,
    ?_, ?_⟩
  · cases hsends : d.sends <;> simp [transmit, hsends] <;> rfl
  · have hio : s₁.io = { s.io.observe f with outData := o.mem } := hio
    rw [← hio]
    cases hsends : d.sends <;> simp [transmit, hsends, sentFrames, sentFrame] <;> rfl

/-- A step in which a packet from the same PAE was answered or ignored. -/
theorem step_kept {r : Ret × EapState H × EapPacket} (hf : d.frame = some f)
    (hacc : f.Accepted s.io.etherSrc) (htype : f.payload.type = EapolPacket.pckt)
    (hsame : (s.io.observe f).samePae)
    (hr : (s.auth.process V d.heap f.payload.body (s.io.observe f).output.body).result = .ok r)
    (hrc : r.1 = .cont ∨ r.1 = .inv) (hnext : next V opts s d = some s') : s'.auth = r.2.1 := by
  obtain ⟨rc, e', o⟩ := r
  dsimp only at hrc
  rcases hrc with rfl | rfl
  · obtain ⟨s'', hauth, hres, -⟩ := step_cont opts hf hacc htype hsame hr
    have hnext := Exec.result_of_toOption hnext
    rw [hres] at hnext
    split at hnext
    · cases hnext
      exact hauth
    · cases hnext
  · have hnext := Exec.result_of_toOption hnext
    rw [step_accepted hf hacc, handle_same htype hsame] at hnext
    obtain ⟨s₁, hpass, hnext⟩ := Exec.result_bind_eq_ok.mp hnext
    cases hnext
    rw [pass, Exec.result_bind_of_ok (Exec.result_tell _), hr] at hpass
    dsimp only at hpass
    rw [if_neg (by decide)] at hpass
    unfold settle at hpass
    dsimp only at hpass
    cases hst : s.state <;> rw [hst] at hpass <;> cases hpass <;> rfl

end Steps

/-- The daemon and the other end between two exchanges: the handler at a position of the list and the
other end stand in one of their pairs of states. -/
structure Joined (E : Engine) (own : List UInt8) (i fragmentSize : ℕ)
    (c : MainLoop Handler × Peer) : Prop where
  headed : Headed own c.1.io.outData
  orderly : c.1.auth.Orderly
  linked : ∃ t, c.1.auth.handlers[i]? = some (.tls t) ∧ t.fragmentSize = fragmentSize ∧
    Linked E t c.2

section Channel

variable {digest : Digest} {E : Engine} {opts : Options} {own : List UInt8} {buf : Mem}
  {i fragmentSize : ℕ} {s s' s₀ s₁ : MainLoop Handler} {e : EapState Handler} {d₀ : Delivery}
  {ds : List Delivery} {ts : List Traffic} {c c' : MainLoop Handler × Peer} {p q : Peer} {d : Delivery} {f : Frame} {t t' : TypeTls} {o : EapPacket}
  {ρ : TypeTls.Reaction}

/-- A packet from the same PAE is passed to the layer as it is. -/
theorem TlsRequest.process_of_results {V : Vtable Handler} (h : TlsRequest s d f) {rc : Ret}
    (hresult : Results V opts s d rc) :
    ∃ r, (s.auth.process V d.heap f.payload.body (s.io.observe f).output.body).result = .ok r ∧
      r.1 = rc := by
  obtain ⟨f', s₁, r, hf, -, -, happroach, hr, hrc⟩ := hresult
  cases h.frame.symm.trans hf
  rw [approach, if_pos h.same] at happroach
  cases happroach
  exact ⟨r, hr, hrc⟩

/-- A response to a request for EAP-TLS is the answer of the handler. -/
theorem TlsRequest.answer_of_response (h : TlsRequest s d f) (hheaded : Headed own s.io.outData)
    (horderly : s.auth.Orderly) (hget : s.auth.handlers[i]? = some (.tls t))
    (hresponse : responseTo f.payload.body
      (sentFrames (step (Handler.vtable digest E) opts s d).log) = some o) :
    ∃ t' ρ, t.answer E d.heap f.payload.body = some (.cont, t', ρ) := by
  generalize hframes : sentFrames (step (Handler.vtable digest E) opts s d).log = frames at hresponse
  unfold responseTo at hresponse
  split at hresponse
  · rename_i g
    split at hresponse
    · rename_i hg
      have hsent : g ∈ sentFrames (step (Handler.vtable digest E) opts s d).log := by
        rw [hframes]
        exact List.mem_singleton_self g
      obtain ⟨ev, hmem, hev⟩ := List.mem_filterMap.mp hsent
      cases ev with
      | sent data len =>
        cases hev
        obtain ⟨-, hmeant⟩ := (step_frames hheaded).effects _ hmem
        have htype := hg.1
        cases hmeant with
        | response _ hresult =>
          obtain ⟨⟨rc, e', o'⟩, hr, hrc⟩ := h.process_of_results hresult
          cases hrc
          exact EapState.answer_of_process horderly hget h.type hr
        | start hstart => rw [hstart] at htype; exact absurd htype (by decide)
        | logoff hlogoff => rw [hlogoff] at htype; exact absurd htype (by decide)
      | otherPae | doAbort | passed => cases hev
    · cases hresponse
  · cases hresponse

/-- A request that the handler answers is answered with a packet that says so. -/
theorem TlsRequest.response (digest : Digest) (opts : Options) (h : TlsRequest s d f) (hheaded : Headed own s.io.outData)
    (horderly : s.auth.Orderly) (hget : s.auth.handlers[i]? = some (.tls t))
    (hanswer : t.answer E d.heap f.payload.body = some (.cont, t', ρ))
    (hlegible : ∀ output, ρ.Legible output) (hsize : t.fragmentSize < 65535) :
    ∃ s' o, next (Handler.vtable digest E) opts s d = (if d.sends then some s' else none) ∧
      responseTo f.payload.body (sentFrames (step (Handler.vtable digest E) opts s d).log) = some o ∧
      TypeTls.Reads o ρ ∧ s'.auth.Orderly ∧ s'.auth.handlers[i]? = some (.tls t') := by
  obtain ⟨e', hr, hget'⟩ := EapState.process_of_answer digest
    (s.io.observe f).output.body horderly hget h.code h.type hanswer
  have horderly' : e'.Orderly := horderly.process hr
  obtain ⟨s', hauth, hres, hframes⟩ := step_cont opts h.frame h.accepted h.eapol h.same hr
  have hreads := EapState.reads_response s.auth f.payload.body (s.io.observe f).output.body
    (hlegible _) (Nat.lt_of_le_of_lt (TypeTls.payload_le hanswer) hsize)
  obtain ⟨hhead, hbody⟩ := headed_of_process
    (show Headed own (s.io.observe f).outData by rwa [Ll8023.observe_outData]) hr
  have hkind := EapState.answer_type s.auth f.payload.body
    (show f.payload.body.type < 256 from (f.payload.body.mem _).toNat_lt)
    (ρ.apply (s.io.observe f).output.body)
  set o := (s.auth.straightReturn f.payload.body
    (EapPacket.setType (ρ.apply (s.io.observe f).output.body) f.payload.body.type)).2
  set l : Ll8023 := { s.io.observe f with outData := o.mem }
  obtain ⟨-, hcode, hid, -⟩ := sentFrame_response (l := l) hbody hhead hr rfl
  have hbytes (j : ℕ) : (sentFrame l EapolPacket.pckt).payload.body.byte j = o.byte j :=
    (sentFrame_byte l EapolPacket.pckt j).trans (congrArg (Pointer.byte · j) hbody)
  have hplace : o.data = 18 := (congrArg Pointer.data hbody).symm
  have htype : (sentFrame l EapolPacket.pckt).payload.body.type = f.payload.body.type := by
    rw [EapPacket.type_eq, hbytes, ← EapPacket.type_eq]
    exact hkind
  refine ⟨s', (sentFrame l EapolPacket.pckt).payload.body, ?_, ?_, ?_, hauth ▸ horderly',
    hauth ▸ hget'⟩
  · rw [next, hres]
    split <;> rfl
  · rw [hframes]
    exact if_pos ⟨sentFrame_type (by decide), hcode, hid, htype⟩
  · refine hreads.congr hplace.symm fun a ha => ?_
    have hbyte := hbytes (a - 18)
    rw [Pointer.byte, Pointer.byte, hplace] at hbyte
    rw [hplace] at ha
    rwa [show (sentFrame l EapolPacket.pckt).payload.body.data + (a - 18) = a by
      change 18 + (a - 18) = a; omega, Nat.add_sub_cancel' ha] at hbyte

/-- A step keeps the EAP layer in order. -/
theorem next_orderly (h : s.auth.Orderly)
    (hnext : next (Handler.vtable digest E) opts s d = some s') : s'.auth.Orderly := by
  refine (step_auth (P := EapState.Orderly) (fun e he => ?_) (fun e heap input output r he hr => ?_)
    h).value s' (Exec.result_of_toOption hnext)
  · exact he.abort
  · exact he.process hr

/-- A step keeps the header of the buffer. -/
theorem next_headed (h : Headed own s.io.outData)
    (hnext : next (Handler.vtable digest E) opts s d = some s') : Headed own s'.io.outData :=
  (step_frames h).value s' (Exec.result_of_toOption hnext)

/-- An exchange takes the two from one pair of states to another, unless something is lacking or the
engine gives up. -/
theorem Joined.exchange (digest : Digest) (opts : Options) (h : Joined E own i fragmentSize (s, p)) (hpos : 0 < fragmentSize)
    (hsize : fragmentSize < 65535) (hspeaks : Speaks E fragmentSize) (hrequest : TlsRequest s d f)
    (hasks : p.Asks f.payload.body q) :
    (∃ c', channel (Handler.vtable digest E) opts (s, p) (.exchange d q) =
        (if d.sends then some c' else none) ∧ (d.sends → Joined E own i fragmentSize c')) ∨
      channel (Handler.vtable digest E) opts (s, p) (.exchange d q) = none ∧
        ∃ t, s.auth.handlers[i]? = some (.tls t) ∧ (Lacks E t d.heap ∨
          ∃ x, (t.intake E d.heap f.payload.body).result = .ok x ∧ GivesUp E x) := by
  obtain ⟨hheaded, horderly, t, hget, rfl, hlinked⟩ := h
  have hsilent (hnone : ∀ t' ρ, t.answer E d.heap f.payload.body ≠ some (.cont, t', ρ)) :
      channel (Handler.vtable digest E) opts (s, p) (.exchange d q) = none := by
    rw [channel, hrequest.frame, Option.bind_eq_bind, Option.bind_some]
    cases hresponse : responseTo f.payload.body
        (sentFrames (step (Handler.vtable digest E) opts s d).log) with
    | none => cases next (Handler.vtable digest E) opts s d <;> rfl
    | some o =>
      obtain ⟨t', ρ, hanswer⟩ := hrequest.answer_of_response hheaded horderly hget hresponse
      exact absurd hanswer (hnone t' ρ)
  rcases hlinked.intake hasks d.heap with ⟨x, hx, hdue⟩ | ⟨⟨err, herr⟩, hlacks⟩
  · rcases hdue.understood hpos hspeaks with
      ⟨t', ρ, houtcome, hkept, hlegible, p', hhears, hlinked'⟩ | ⟨hgives, hnone⟩
    · have hanswer : t.answer E d.heap f.payload.body = some (.cont, t', ρ) := by
        rw [TypeTls.answer, hx]
        exact houtcome
      obtain ⟨s', o, hnext, hresponse, hreads, horderly', hget'⟩ :=
        hrequest.response digest opts hheaded horderly hget hanswer hlegible hsize
      refine Or.inl ⟨(s', p'), ?_, fun hsends => ⟨?_, horderly', t', hget', hkept, hlinked'⟩⟩
      · rw [channel, hrequest.frame, Option.bind_eq_bind, Option.bind_some, hnext, hresponse]
        cases d.sends
        · rfl
        · simp [hhears o hreads]
      · rw [if_pos hsends] at hnext
        exact next_headed hheaded hnext
    · refine Or.inr ⟨hsilent fun t' ρ hanswer => ?_, t, hget, Or.inr ⟨x, hx, hgives⟩⟩
      rw [TypeTls.answer, hx] at hanswer
      exact hnone _ hanswer rfl
  · refine Or.inr ⟨hsilent fun t' ρ hanswer => ?_, t, hget, Or.inl hlacks⟩
    rw [TypeTls.answer, herr] at hanswer
    cases hanswer

/-- Anything else that may come leaves the handler as it is. -/
theorem Joined.other (h : Joined E own i fragmentSize (s, p)) (hother : Permitted (s, p) (.other d))
    (hnext : next (Handler.vtable digest E) opts s d = some s') :
    Joined E own i fragmentSize (s', p) := by
  obtain ⟨hheaded, horderly, t, hget, hsize, hlinked⟩ := h
  refine ⟨next_headed hheaded hnext, next_orderly horderly hnext, t, ?_, hsize, hlinked⟩
  obtain ⟨f, hf⟩ := frame_of_next hnext
  have hres := Exec.result_of_toOption hnext
  by_cases hacc : f.Accepted s.io.etherSrc
  · by_cases htype : f.payload.type = EapolPacket.pckt
    · obtain ⟨hsame, hunrelated⟩ := hother f hf hacc htype
      cases hr : (s.auth.process (Handler.vtable digest E) d.heap f.payload.body
          (s.io.observe f).output.body).result with
      | ok r =>
        obtain ⟨hrc, hkept⟩ := EapState.process_unrelated hget hunrelated hr
        rw [step_kept hf hacc htype hsame hr hrc hnext]
        exact hkept
      | error err =>
        rw [step_accepted hf hacc, handle_same htype hsame] at hres
        obtain ⟨s₁, hpass, -⟩ := Exec.result_bind_eq_ok.mp hres
        rw [pass, Exec.result_bind_of_ok (Exec.result_tell _), hr] at hpass
        cases hpass
    · rw [step_accepted hf hacc, handle_eq, if_pos htype] at hres
      cases hres
      exact hget
  · rw [step_rejected hf hacc] at hres
    cases hres
    exact hget

/-- The two stay together in every run. -/
theorem Joined.run (h : Joined E own i fragmentSize c) (hpos : 0 < fragmentSize)
    (hsize : fragmentSize < 65535) (hspeaks : Speaks E fragmentSize)
    (run : Steps (channel (Handler.vtable digest E) opts) Permitted c ts c') :
    Joined E own i fragmentSize c' := by
  refine run.invariant h fun c t c' hc hok hstep => ?_
  obtain ⟨s, p⟩ := c
  cases t with
  | exchange d q =>
    obtain ⟨f, hrequest, hasks⟩ := hok
    rcases hc.exchange digest opts hpos hsize hspeaks hrequest hasks with
      ⟨c'', heq, hjoined⟩ | ⟨hnone, -⟩
    · rw [heq] at hstep
      split at hstep
      · rename_i hsends
        cases hstep
        exact hjoined hsends
      · cases hstep
    · rw [hnone] at hstep
      cases hstep
  | other d =>
    obtain ⟨s', hnext, rfl⟩ := Option.map_eq_some_iff.mp hstep
    exact hc.other hok hnext

end Channel

end MainLoop

end Dot1x.Daemon
