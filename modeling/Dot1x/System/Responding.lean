import Dot1x.System.Agreement
import Dot1x.System.Hearing

/-!
# The station responds

What the station hears moves it on: it answers every request that the user can answer, and it takes a
packet for success or failure for what it is. Nothing but memory and a driver that sends is needed.
-/

namespace Dot1x.System

open Dot1x.Base Dot1x.Wire Dot1x.Eap Dot1x.Link Dot1x.Nas
open Dot1x.Client (Listener LoginCall Delivery Output ConState transmit transmitted waiting
  installHandlers)

/-- There is always memory. -/
def Ample (heap : Heap) : Prop := ∀ n, ∃ m, heap n = some m

/-- The thread runs for a login. -/
structure Listening (c : LoginCall) (s : Listener) : Prop where
  running : s.thread = true
  name : ShortName c
  io : ∃ l, s.io = some l ∧ l.output.body.code = Eap.response ∧ ForGroup l.outData
  auth : ∃ e, s.auth = some e ∧ Loyal c e

/-- A request that the user can answer: a challenge has a size and fits. -/
structure Answerable (m : Message) : Prop where
  code : m.code = 1
  typed : m.type ≠ 0
  challenge : m.type = 4 → 1 ≤ m.data.length ∧ m.data.length ≤ 1 + initialSize

/-- A login that meets no obstacle. -/
structure Unobstructed (c : LoginCall) : Prop where
  adapter : ∃ a, c.adapter = some a ∧ a.1.length = etherAddrLen
  heap : Ample c.heap
  sends : c.sends = true
  starts : c.starts = true
  name : ShortName c

variable {digest : Digest} {E : Engine} {c : LoginCall} {e e' : EapState Handler} {heap : Heap}
  {input output o : EapPacket} {s : Listener} {f : Frame} {m : Message}

/-- A growable buffer grows as long as there is memory. -/
private theorem need_of_ample (hheap : Ample heap) (g : Growable) (what : ℕ) :
    ∃ g', (g.need heap what).result = .ok g' := by
  obtain ⟨block, hblock⟩ := hheap (toSize what)
  by_cases hsmall : g.size < toSize what
  · exact ⟨_, Growable.need_result_eq_ok.mpr (by rw [if_pos hsmall]; exact ⟨block, hblock, rfl⟩)⟩
  · exact ⟨_, Growable.need_result_eq_ok.mpr (by rw [if_neg hsmall])⟩

/-- The handler for MD5 answers every challenge of six bytes or more. -/
private theorem md5_answers (hheap : Ample heap) (t : TypeMd5) (hlong : 6 ≤ input.len)
    (output : EapPacket) :
    ∃ t' o, (t.process digest heap input output).result = .ok (.cont, t', o) := by
  obtain ⟨g, hg⟩ := need_of_ample hheap t.chapBuf.buf (TypeMd5.vsize input + t.chapBuf.slen + 1)
  refine ⟨_, _, TypeMd5.process_result_eq_ok.mpr ⟨g, hg, ?_, rfl, rfl, rfl⟩⟩
  have hroom := Growable.le_size_of_need hg
  have hslen := t.chapBuf.slen_lt
  have hlen := input.len_lt
  rw [TypeMd5.vsize_eq hlong] at hroom ⊢
  rw [toSize_of_lt (by omega)] at hroom
  omega

/-- The handler for notifications answers every one of five bytes or more. -/
private theorem notification_answers (hheap : Ample heap) (hlong : 5 ≤ input.len)
    (output : EapPacket) :
    ∃ o, (TypeNotification.process heap input output).result = .ok (.cont, o) := by
  have hlen := input.len_lt
  have hsub : (subSize input.len EapPacket.headerLen).result = .ok (input.len - 5) := by
    have hdiff : wrapSub input.len EapPacket.headerLen = input.len - 5 := wrapSub_of_le hlong
    rw [subSize_result, hdiff]
  rw [TypeNotification.process, Exec.result_bind_of_ok hsub]
  split
  · obtain ⟨block, hblock⟩ := hheap (toSize (input.len - 5 + 1))
    have hcopy : (memcpyIn block (toSize (input.len - 5 + 1)) 0 input.mem input.eapData
        (input.len - 5)).result = .ok (write block 0 (slice input.mem input.eapData
          (input.len - 5))) := by
      refine memcpyIn_result_eq_ok.mpr ⟨?_, rfl⟩
      rw [toSize_of_lt (by omega)]
      omega
    rw [Exec.result_bind_of_ok (alloc_result_eq_ok.mpr hblock), Exec.result_bind_of_ok hcopy,
      Exec.result_bind_of_ok (Exec.result_tell _)]
    exact ⟨_, rfl⟩
  · exact ⟨_, rfl⟩

/-- A request is answered, by the handler that wants it or by a Nak. -/
theorem processes_request (hloyal : Loyal c e) (hheap : Ample heap) (hcode : input.code = Eap.request)
    (hlong : 5 ≤ input.len) (hchallenge : input.type = Eap.md5 → 6 ≤ input.len) :
    ∃ e' o, (e.process (Handler.vtable digest E) heap input output).result = .ok (.cont, e', o) := by
  obtain ⟨t, hhandlers, -⟩ := hloyal
  have hfixed : ∀ hd ∈ e.handlers, (Handler.vtable digest E).abort hd = hd := by
    rw [hhandlers]
    simp [Handler.vtable, Handler.abort]
  -- Whoever wins the search answers.
  have hwinner (i : ℕ) (w : Want) (hd : Handler) (hget : e.handlers[i]? = some hd)
      (hsearch : EapState.search (Handler.vtable digest E) input e.handlers = some (i, w))
      (hanswers : ∃ hd' o, (hd.process digest E heap input output).result = .ok (.cont, hd', o)) :
      ∃ e' o, (e.process (Handler.vtable digest E) heap input output).result =
        .ok (.cont, e', o) := by
    obtain ⟨hd', o, hprocess⟩ := hanswers
    refine ⟨_, _, EapState.process_cont.mpr ⟨hcode, .handler hsearch ?_ hprocess rfl⟩⟩
    rw [claim_handlers_of_fixed hfixed]
    exact hget
  by_cases hmd5 : input.type = Eap.md5
  · obtain ⟨t', o, hprocess⟩ : ∃ t' o, (t.process digest heap input output).result =
        .ok (.cont, t', o) := md5_answers hheap t (hchallenge hmd5) output
    refine hwinner 0 .iWillAuth (.md5 t) (by rw [hhandlers]; rfl) ?_
      ⟨.md5 t', o, Exec.result_bind_of_ok hprocess⟩
    simp [hhandlers, EapState.search, Handler.vtable, Handler.wantThis, TypeMd5.wantThis, hmd5]
  · by_cases hid : input.type = identity
    · refine hwinner 1 .iWillAuth (.identity ⟨c.user.bytes⟩) (by rw [hhandlers]; rfl) ?_
        ⟨_, _, rfl⟩
      simp [hhandlers, EapState.search, Handler.vtable, Handler.wantThis, TypeMd5.wantThis,
        TypeIdentity.wantThis, hid, Eap.md5, identity]
    · by_cases hnote : input.type = notification
      · obtain ⟨o, hprocess⟩ := notification_answers hheap hlong output
        refine hwinner 2 .iWill .notification (by rw [hhandlers]; rfl) ?_
          ⟨.notification, o, Exec.result_bind_of_ok hprocess⟩
        simp [hhandlers, EapState.search, Handler.vtable, Handler.wantThis, TypeMd5.wantThis,
          TypeIdentity.wantThis, TypeNotification.wantThis, hnote, Eap.md5, identity, notification]
      · have hnobody : EapState.search (Handler.vtable digest E) input e.handlers = none := by
          simp [hhandlers, EapState.search, Handler.vtable, Handler.wantThis, TypeMd5.wantThis,
            TypeIdentity.wantThis, TypeNotification.wantThis, hmd5, hid, hnote]
        have hoffer : e.handlers.findSome? ((Handler.vtable digest E).nakIt · output) =
            some (TypeMd5.nakIt output) := by
          rw [hhandlers]
          rfl
        exact ⟨_, _, EapState.process_cont.mpr ⟨hcode, .nak hnobody hoffer rfl⟩⟩

/-- What the thread does with a packet for which the EAP layer returns. -/
theorem deliver_eq {l : Ll8023} {r : Ret × EapState Handler × EapPacket} (hrunning : s.thread = true)
    (hio : s.io = some l) (hauth : s.auth = some e) (hhears : Hears f m)
    (hprocess : (e.process (Handler.vtable digest E) heap f.payload.body l.output.body).result =
      .ok r) :
    s.deliver (Handler.vtable digest E) ⟨some f, heap, true⟩ =
      (Listener.settle s { l.observe f with outData := r.2.2.mem } r.2.1 true r.1).map fun t =>
        (t.1, .processed r.1 :: t.2) := by
  obtain ⟨n, hn⟩ : ∃ n, f.payload.bodyLen = n + 1 := by
    have hlong := hhears.long
    rw [← hhears.lengths] at hlong
    exact ⟨f.payload.bodyLen - 1, by omega⟩
  have hout : (l.observe f).output = l.output := by
    simp only [Ll8023.output, Ll8023.observe_outData]
  unfold Listener.deliver
  rw [hrunning, hio, hauth]
  simp only [Ll8023.turn_some, if_pos (hhears.accepted l.etherSrc), hn, Ll8023.observe_inData,
    Option.bind_some]
  rw [Listener.handle, if_pos hhears.type, hout, hprocess]
  simp only [Ll8023.observe_inData]

/-- What settling an answer leaves. -/
private theorem settle_answers (s : Listener) (l : Ll8023) (e : EapState Handler) : ∃ s' outs,
    Listener.settle s l e true .cont = some (s', outs) ∧
      .sent (transmit l EapolPacket.pckt).outData (transmit l EapolPacket.pckt).outLen ∈ outs ∧
      s'.io = some (waiting (transmit l EapolPacket.pckt)) ∧ s'.auth = some e ∧
      s'.thread = s.thread := by
  refine ⟨_, _, rfl, ?_, rfl, rfl, rfl⟩
  exact List.mem_append_right _ (List.mem_singleton_self _)

/-- A listening station answers what the user can answer. -/
theorem station_answers (digest : Digest) (E : Engine) (hlistening : Listening c s)
    (hhears : Hears f m) (hm : Answerable m)
    (hheap : Ample heap) : ∃ s' outs data len,
      s.deliver (Handler.vtable digest E) ⟨some f, heap, true⟩ = some (s', outs) ∧
        .sent data len ∈ outs ∧ Says data len (answerOf digest c m) ∧ Listening c s' ∧
        s'.state = s.state.after .cont := by
  obtain ⟨l, hio, hresponse, hgroup⟩ := hlistening.io
  obtain ⟨e, hauth, hloyal⟩ := hlistening.auth
  have hcode : f.payload.body.code = Eap.request := by
    rw [hhears.code, hm.code]
    rfl
  have hlen := hhears.packetLen hm.typed
  have hchallenge (hmd5 : f.payload.body.type = Eap.md5) :
      6 ≤ f.payload.body.len ∧ f.payload.body.len - 6 ≤ initialSize := by
    rw [hhears.packetType hm.typed] at hmd5
    obtain ⟨hsize, hroom⟩ := hm.challenge (UInt8.toNat_inj.mp hmd5)
    omega
  have hbenign : Benign f.payload.body := ⟨Or.inl (hhears.typed hm.typed), hchallenge⟩
  obtain ⟨e', o, hprocess⟩ : ∃ e' o, (e.process (Handler.vtable digest E) heap f.payload.body
      l.output.body).result = .ok (.cont, e', o) :=
    processes_request hloyal hheap hcode (hhears.typed hm.typed) fun h => (hchallenge h).1
  obtain ⟨hloyal', hsaid⟩ := loyal_process hloyal hlistening.name (fun _ => hbenign) hresponse hprocess
  obtain ⟨-, (hmessage : Message.ofPacket o = _), (hlong : 5 ≤ o.len)⟩ := hsaid rfl
  obtain ⟨hdata, hsame⟩ := EapState.process_code (Handler.disciplined digest E) hprocess
  have hplace : o = ⟨o.mem, llHdrLen + 4⟩ := congrArg (Pointer.mk o.mem) hdata
  let l' : Ll8023 := { l.observe f with outData := o.mem }
  have hbody : l'.output.body = o := hplace.symm
  have hmem : ForGroup l'.outData := hgroup.congr fun i hi =>
    EapState.process_mem (Handler.disciplined digest E) hprocess (show i ≤ 18 by omega)
  obtain ⟨s', outs, hsettle, hsent, hio', hauth', hthread'⟩ := settle_answers s l' e'
  have hpacket : Message.ofPacket (sentPacket (transmit l' EapolPacket.pckt).outData) =
      Message.ofPacket o := by
    rw [← hbody]
    exact ofPacket_of_bytes (sentPacket_transmit l' EapolPacket.pckt)
  have hfields : (sentPacket (transmit l' EapolPacket.pckt).outData).len = o.len := by
    rw [← hbody]
    exact l'.makeEapol_body_len EapolPacket.pckt
  refine ⟨s', .processed .cont :: outs, _, _, ?_, List.mem_cons_of_mem _ hsent,
    ⟨whole_transmit .., forGroup_transmit _ hmem, sentType_transmit l' (by decide), ?_,
      by rw [hfields]; omega, ?_⟩,
    ⟨hthread'.trans hlistening.running, hlistening.name,
      ⟨_, hio', ?_, forGroup_transmit _ hmem⟩, e', hauth', hloyal'⟩,
    Listener.settle_state hsettle⟩
  · rw [deliver_eq hlistening.running hio hauth hhears hprocess, hsettle]
    rfl
  · rw [hfields]
    exact (congrArg EapPacket.len hbody).symm.trans l'.makeEapol_bodyLen.symm
  · rw [hpacket, hmessage, hhears.message]
  · exact (code_transmit l' _).trans ((congrArg EapPacket.code hbody).trans (hsame.trans hresponse))

/-- After a Success a station that was asked for something is connected, and after a Failure it is not
listening any more. -/
theorem station_ends (digest : Digest) (E : Engine) (heap : Heap) (hlistening : Listening c s)
    (hhears : Hears f m)
    (hcode : m.code = 3 ∨ m.code = 4) (hconnecting : s.state = .connecting) : ∃ s' outs,
      s.deliver (Handler.vtable digest E) ⟨some f, heap, true⟩ = some (s', outs) ∧
        s'.state = if m.code = 3 then .connected else .unconnected := by
  obtain ⟨l, hio, hresponse, hgroup⟩ := hlistening.io
  obtain ⟨e, hauth, hloyal⟩ := hlistening.auth
  rcases hcode with hcode | hcode
  · have hread : f.payload.body.code = Eap.success := by
      rw [hhears.code, hcode]
      rfl
    have hprocess : (e.process (Handler.vtable digest E) heap f.payload.body l.output.body).result =
        .ok (.ok, { e with authType := 0, authHandler := none, lastRequest := -1 },
          l.output.body) := by
      rw [EapState.process, if_neg (by rw [hread]; decide), if_pos hread]
      rfl
    rw [deliver_eq hlistening.running hio hauth hhears hprocess, Listener.settle, if_pos hconnecting]
    exact ⟨_, _, rfl, by rw [if_pos hcode]⟩
  · have hread : f.payload.body.code = Eap.failure := by
      rw [hhears.code, hcode]
      rfl
    have hprocess : (e.process (Handler.vtable digest E) heap f.payload.body l.output.body).result =
        .ok (.fail, e, l.output.body) := by
      rw [EapState.process, if_neg (by rw [hread]; decide), if_neg (by rw [hread]; decide),
        if_pos hread]
      rfl
    rw [deliver_eq hlistening.running hio hauth hhears hprocess]
    exact ⟨_, _, rfl, by rw [if_neg (by rw [hcode]; decide)]; rfl⟩

/-- `Login` starts the thread and sends the first frame. -/
theorem login_listening (h : Unobstructed c) : ∃ s' data len,
    Listener.init.login c = some (s', [.sent data len]) ∧ Listening c s' ∧
      s'.state = .unconnected ∧ Whole data len ∧ ForGroup data ∧
      sentType data = EapolPacket.start := by
  obtain ⟨a, hadapter, hown⟩ := h.adapter
  have hinstalled : (installHandlers c).2 = true := by
    obtain ⟨m₁, h₁⟩ := h.heap (c.user.bytes.length + 1)
    obtain ⟨m₂, h₂⟩ := h.heap (initialSize + c.password.bytes.length + 1)
    obtain ⟨m₃, h₃⟩ := h.heap c.user.bytes.length
    have hidentity : (TypeIdentity.new c.heap c.user).result = .ok ⟨c.user.bytes⟩ :=
      Exec.result_bind_of_ok (alloc_result_eq_ok.mpr h₁)
    have hchap : (ChapBuffer.new c.heap c.password).result = .ok _ :=
      Exec.result_bind_of_ok (alloc_result_eq_ok.mpr h₂)
    have hmd5 : (TypeMd5.new c.heap c.user c.password).result = .ok _ :=
      (Exec.result_bind_of_ok hchap).trans (Exec.result_bind_of_ok (alloc_result_eq_ok.mpr h₃))
    simp only [installHandlers, hidentity, hmd5]
  let l := (Ll8023.new a.1 a.2).setupOutput
  have hgroup : ForGroup l.outData := forGroup_setupOutput hown
  have hcode : l.output.body.code = Eap.response := code_of_login hown
  have hlogin : Listener.init.login c = some
      (⟨some (waiting (transmit l EapolPacket.start)), some (installHandlers c).1,
        c.sends ∧ c.starts, .unconnected⟩, [transmitted (transmit l EapolPacket.start)]) := by
    simp only [Listener.login, Listener.init, hadapter, hinstalled]
    rfl
  refine ⟨_, _, _, hlogin, ⟨?_, h.name, ⟨_, rfl, ?_, forGroup_transmit EapolPacket.start hgroup⟩, _,
    rfl, loyal_installHandlers hinstalled⟩, rfl, whole_transmit l _, forGroup_transmit _ hgroup,
    sentType_transmit l (by decide)⟩
  · simp [h.sends, h.starts]
  · exact (code_transmit l _).trans hcode

end Dot1x.System
