import Dot1x.Daemon.Session
import Dot1x.Eap.TlsResponse
import Dot1x.Nas.WireFormat

/-!
# What the daemon sends

One buffer serves for all frames. `setup_output` writes the header into it once; after that the EAP
layer answers in its body, and `make_eapol` turns what is there into a start, a logoff or a packet.
Nothing else is written in front of the EAP packet, so that the header of every frame is the one of the
beginning, and the code of the packet stays the one of a response.

So a frame tells what the program means with it: it looks for an authenticator, it answers the
request it was just given, or it takes leave.
-/

namespace Dot1x.Eap

open Dot1x.Base Dot1x.Wire

/-- The EAP-TLS handler answers, rejects a packet or gives up. -/
private theorem TypeTls.code_of_answer {E : Engine} {t : TypeTls} {heap : Heap}
    {input : EapPacket} {a : Answer}
    (h : t.answer E heap input = some a) : a.1 ∈ [Ret.cont, .inv, .abort] := by
  have hreplying {t : TypeTls} {out : List UInt8} (h : t.replying out = some a) : a.1 = .cont := by
    unfold replying at h
    split at h
    · cases h
      rfl
    · split at h
      · cases h
      · cases h
        rfl
  obtain ⟨x, -, houtcome⟩ := Option.bind_eq_some_iff.mp h
  cases x with
  | reject | ack =>
    cases houtcome
    simp
  | resume msg cur =>
    simp only [outcome] at houtcome
    split at houtcome
    · cases houtcome
    · cases houtcome
      simp
  | ask t₁ =>
    simp only [outcome] at houtcome
    split at houtcome
    · cases houtcome
    · cases houtcome
      simp
    · split at houtcome
      · cases houtcome
        simp
      · simp [hreplying houtcome]
    · simp [hreplying houtcome]

variable {digest : Digest} {E : Engine} {heap : Heap} {input output : EapPacket}

/-- No handler asks for the last frame to be sent again. -/
theorem Handler.process_ne_old {h : Handler} {r : Ret × Handler × EapPacket}
    (hres : (h.process digest E heap input output).result = .ok r) : r.1 ≠ .old := by
  cases h with
  | notification =>
    obtain ⟨⟨rc, o⟩, ha, hr⟩ := Exec.result_bind_eq_ok.mp hres
    obtain ⟨rfl, -⟩ := TypeNotification.process_result_eq_ok ha
    cases hr
    simp
  | identity t =>
    cases hres
    simp
  | md5 t =>
    obtain ⟨⟨rc, t', o⟩, ha, hr⟩ := Exec.result_bind_eq_ok.mp hres
    obtain ⟨g, -, -, rfl, -⟩ := TypeMd5.process_result_eq_ok.mp ha
    cases hr
    simp
  | tls t =>
    obtain ⟨r', ha, hr⟩ := Exec.result_bind_eq_ok.mp hres
    obtain ⟨a, hanswer, rfl⟩ := TypeTls.process_eq_answer.mp ha
    have hcode := TypeTls.code_of_answer hanswer
    cases hr
    intro hold
    rw [hold] at hcode
    simp at hcode

namespace EapState

variable {e : EapState Handler} {r : Ret × EapState Handler × EapPacket}

/-- `ret_old` is never returned. -/
theorem process_ne_old (h : (e.process (Handler.vtable digest E) heap input output).result = .ok r) :
    r.1 ≠ .old := by
  cases hout : process_outcome h with
  | @handled i w r hreq hsearch hrun =>
    unfold runHandler at hrun
    split at hrun
    · cases hrun
    · obtain ⟨⟨rc, hd', o⟩, hproc, hrest⟩ := Exec.result_bind_eq_ok.mp hrun
      have hrc : rc ≠ .old := Handler.process_ne_old hproc
      cases rc with
      | cont | ok | fail | abort =>
        cases hrest
        simp
      | inv =>
        dsimp only at hrest
        split at hrest <;> cases hrest <;> simp
      | old => exact absurd rfl hrc
  | nak | unsupported | succeeded => simp
  | passed hreq hsuccess =>
    unfold process at h
    rw [if_neg hreq, if_neg hsuccess] at h
    split at h <;> cases h <;> simp

/-- A request that is answered is answered by a handler for its type, or by a Nak. -/
theorem process_answer {H : Type} {V : Vtable H} {e e' : EapState H} {o : EapPacket}
    (h : (e.process V heap input output).result = .ok (.cont, e', o)) :
    input.code = request ∧ o.id = input.id ∧ (o.type = input.type ∨ o.type = nak) := by
  obtain ⟨hreq, hanswer⟩ := process_cont.mp h
  refine ⟨hreq, ?_⟩
  have htype : input.type < 256 := (input.mem _).toNat_lt
  cases hanswer with
  | handler _ _ _ hdone =>
    have ho := congrArg Prod.snd hdone
    dsimp only at ho
    rw [ho]
    exact ⟨answer_id .., Or.inl (answer_type _ _ htype _)⟩
  | nak _ _ hdone =>
    have ho := congrArg Prod.snd hdone
    dsimp only at ho
    rw [ho]
    exact ⟨answer_id .., Or.inr (answer_type _ _ (by decide) _)⟩

end EapState

end Dot1x.Eap

namespace Dot1x.Daemon

open Dot1x.Base Dot1x.Wire Dot1x.Eap Dot1x.Link

/-- A frame of a station: from its address to the group, an EAPOL packet of the first version, and as
long as its header says. -/
structure Proper (own : List UInt8) (f : Frame) : Prop where
  dst : f.dst = paeGroupAddr
  src : f.src = own
  eapol : f.IsEapol
  version : f.payload.version = 1
  length : f.caplen = llHdrLen + EapolPacket.baseHeaderLen + f.payload.bodyLen

/-- The part of the output buffer that is the same in all frames. -/
structure Headed (own : List UInt8) (m : Mem) : Prop where
  dst : slice m 0 etherAddrLen = paeGroupAddr
  src : slice m etherAddrLen etherAddrLen = own
  eapol : slice m (2 * etherAddrLen) 2 = [0x88, 0x8e]
  version : m llHdrLen = 1
  code : m (llHdrLen + EapolPacket.baseHeaderLen) = 2

/-- The frame that `make_eapol` and `send` make of the output buffer. -/
def sentFrame (l : Ll8023) (type : ℕ) : Frame :=
  ⟨(l.makeEapol type).outData, (l.makeEapol type).send.outLen⟩

namespace Headed

variable {own : List UInt8} {m m' : Mem} {l : Ll8023} {type : ℕ}

/-- The header lies in the first 15 bytes and byte 18, so the rest may change. -/
theorem congr (h : Headed own m) (hsame : ∀ i, i < 15 ∨ i = 18 → m' i = m i) : Headed own m' where
  dst := (slice_congr fun i _ hi => hsame i (Or.inl (Nat.lt_trans hi (by decide)))).trans h.dst
  src := (slice_congr fun i _ hi => hsame i (Or.inl (Nat.lt_trans hi (by decide)))).trans h.src
  eapol := (slice_congr fun i _ hi => hsame i (Or.inl (Nat.lt_trans hi (by decide)))).trans h.eapol
  version := (hsame 14 (Or.inl (by decide))).trans h.version
  code := (hsame 18 (Or.inr rfl)).trans h.code

/-- What `setup_output` prepares. -/
theorem setupOutput {buf : Mem} (hown : own.length = etherAddrLen) :
    Headed own (Ll8023.new own buf).setupOutput.outData := by
  have hsrc : (Ll8023.new own buf).etherSrc.length = etherAddrLen := hown
  obtain ⟨hdst, hhigh, hlow⟩ := Nas.setupOutput_header hsrc rfl
  refine ⟨hdst, ?_, ?_, ?_, ?_⟩
  · change slice (write (write _ etherAddrLen own) 0 paeGroupAddr) etherAddrLen etherAddrLen = own
    rw [slice_write_disjoint (Or.inr (by decide)), slice_write_eq hown]
  · change [(Ll8023.new own buf).setupOutput.outData 12,
      (Ll8023.new own buf).setupOutput.outData 13] = _
    rw [hhigh, hlow]
  · change write (write (AccessUi16.set (write (write buf 14 [1]) 18 [2]) 12 etherType)
      etherAddrLen own) 0 paeGroupAddr 14 = 1
    rw [write_of_outside (by decide), write_of_outside (by rw [hown]; decide), AccessUi16.set_eq,
      write_of_outside (by simp), write_of_outside (by simp)]
    exact write_singleton_self buf 14 1
  · have hcode := Ll8023.setupOutput_code (l := Ll8023.new own buf) hsrc rfl
    rw [EapPacket.code_eq] at hcode
    exact UInt8.toNat_inj.mp hcode

/-- Making a packet keeps the header. -/
theorem makeEapol (h : Headed own l.outData) (type : ℕ) : Headed own (l.makeEapol type).outData :=
  h.congr fun _ hi => Ll8023.makeEapol_outData l type (by omega)

/-- What is made of such a buffer is a proper frame. -/
theorem proper (h : Headed own l.outData) (type : ℕ) : Proper own (sentFrame l type) := by
  obtain ⟨hdst, hsrc, heapol, hversion, -⟩ := h.makeEapol type
  refine ⟨hdst, hsrc, heapol, ?_, ?_⟩
  · change ((l.makeEapol type).outData llHdrLen).toNat = 1
    rw [hversion]
    rfl
  · change (l.makeEapol type).output.bodyLen + EapolPacket.baseHeaderLen + llHdrLen =
      llHdrLen + EapolPacket.baseHeaderLen + (l.makeEapol type).output.bodyLen
    omega

end Headed

section SentFrame

variable {l : Ll8023} {type : ℕ}

/-- A frame that is sent has the type it was made with. -/
theorem sentFrame_type (htype : type < 256) : (sentFrame l type).payload.type = type :=
  Nas.makeEapol_type l htype

/-- A frame without an EAP packet has an empty body. -/
theorem sentFrame_bodyLen (htype : type ≠ EapolPacket.pckt) :
    (sentFrame l type).payload.bodyLen = 0 := by
  change (EapolPacket.setBodyLen (l.output.setType type) _).bodyLen = 0
  rw [EapolPacket.bodyLen_setBodyLen, if_neg htype, Nat.zero_mod]

/-- The EAP packet of a frame is the one in the buffer. -/
theorem sentFrame_byte (l : Ll8023) (type i : ℕ) :
    (sentFrame l type).payload.body.byte i = l.output.body.byte i :=
  Ll8023.makeEapol_outData l type (Or.inr (Nat.le_add_right 18 i))

/-- A packet that is sent claims the lengths it has. -/
theorem sentFrame_lengthsMatch : (sentFrame l EapolPacket.pckt).LengthsMatch :=
  (Ll8023.makeEapol_bodyLen l).trans (Ll8023.makeEapol_body_len l EapolPacket.pckt).symm

end SentFrame

namespace MainLoop

variable {H : Type} {V : Vtable H} {opts : Options} {s s' s₀ s₁ : MainLoop H} {d d₀ : Delivery}
  {ds : List Delivery} {f : Frame} {rc : Ret} {own : List UInt8} {buf : Mem} {e : EapState H}

/-- What a frame is sent for in a step. -/
inductive Meant (V : Vtable H) (opts : Options) (s : MainLoop H) (d : Delivery) (f : Frame) : Prop
  /-- It looks for an authenticator in place of a child. -/
  | start (htype : f.payload.type = EapolPacket.start) (hempty : f.payload.bodyLen = 0)
      (hasked : opts.sendEapolStart) (hforks : ¬d.forks)
  /-- It answers the request that was delivered. -/
  | response {g : Frame} (hframe : d.frame = some g) (hresult : Results V opts s d .cont)
      (htype : f.payload.type = EapolPacket.pckt) (hlengths : f.LengthsMatch)
      (hrequest : g.payload.body.code = request) (hcode : f.payload.body.code = Eap.response)
      (hid : f.payload.body.id = g.payload.body.id)
      (hkind : f.payload.body.type = g.payload.body.type ∨ f.payload.body.type = nak)
  /-- It takes leave after the only authentication. -/
  | logoff (htype : f.payload.type = EapolPacket.logoff) (hempty : f.payload.bodyLen = 0)
      (hasked : opts.doLogoff) (hsingle : opts.singleShot) (hstate : s.state = .doAuth)
      (hsame : SamePae s d) (hresult : Results V opts s d .ok) (hends : next V opts s d = none)

/-- The frames that are sent have a property. -/
def Frames (P : Frame → Prop) : Event → Prop
  | .sent data len => P ⟨data, len⟩
  | _ => True

/-- What may be sent when the result of a packet is settled in a state. -/
inductive Settling (opts : Options) (s : MainLoop H) (d : Delivery) (rc : Ret) (f : Frame) : Prop
  | start (hf : f = sentFrame s.io EapolPacket.start) (hasked : opts.sendEapolStart)
      (hforks : ¬d.forks)
  | response (hf : f = sentFrame s.io EapolPacket.pckt) (hrc : rc = .cont)
  | logoff (hf : f = sentFrame s.io EapolPacket.logoff) (hasked : opts.doLogoff)
      (hsingle : opts.singleShot) (hstate : s.state = .doAuth) (hrc : rc = .ok)

/-- Transmitting sends the frame that was made, and keeps the header. -/
theorem transmit_frames {P : Frame → Prop} {type : ℕ} (h : Headed own s.io.outData)
    (hP : P (sentFrame s.io type)) :
    (transmit s d type).Sat (Frames P) fun s' => Headed own s'.io.outData := by
  refine .bind (.tell (Q := fun _ => True) hP trivial) fun _ _ => ?_
  split
  · exact .pure (h.makeEapol type)
  · exact .fail

/-- Restarting the molestor sends an `EAPOL-Start` at most. -/
theorem restartMolestor_frames {P : Frame → Prop} (h : Headed own s.io.outData)
    (hP : opts.sendEapolStart → ¬d.forks → P (sentFrame s.io EapolPacket.start)) :
    (restartMolestor opts s d).Sat (Frames P) fun s' => Headed own s'.io.outData := by
  unfold restartMolestor startMolestor
  split
  · rename_i hasked
    split
    · exact .pure h
    · rename_i hforks
      exact transmit_frames h (hP hasked.1 hforks)
  · exact .pure h

/-- Aborting sends what the restarted molestor does. -/
theorem doAbort_frames {P : Frame → Prop} (h : Headed own s.io.outData)
    (hP : opts.sendEapolStart → ¬d.forks → P (sentFrame s.io EapolPacket.start)) :
    (doAbort V opts s d).Sat (Frames P) fun s' => Headed own s'.io.outData := by
  refine .bind (.tell (Q := fun _ => True) trivial trivial) fun _ _ => ?_
  exact restartMolestor_frames (s := { s with auth := s.auth.abort V }) h hP

/-- Leaving the loop sends an `EAPOL-Logoff` at most. -/
theorem out_frames {P : Frame → Prop} (h : Headed own s.io.outData)
    (hP : opts.doLogoff → P (sentFrame s.io EapolPacket.logoff)) :
    (out opts s d).Sat (Frames P) fun s' => Headed own s'.io.outData := by
  unfold out
  split
  · rename_i hauth
    exact .bind (transmit_frames h (hP hauth.2)) fun _ _ => .fail
  · exact .fail

/-- Settling a result sends at most what is due for it. -/
theorem settle_frames (h : Headed own s.io.outData) (hold : rc ≠ .old) :
    (settle V opts s d rc).Sat (Frames (Settling opts s d rc)) fun s' => Headed own s'.io.outData := by
  have hstart : opts.sendEapolStart → ¬d.forks →
      Settling opts s d rc (sentFrame s.io EapolPacket.start) := .start rfl
  have habort (s₁ : MainLoop H) (hio : s₁.io = s.io) :
      (doAbort V opts s₁ d).Sat (Frames (Settling opts s d rc))
        fun s' => Headed own s'.io.outData := by
    refine doAbort_frames (hio ▸ h) ?_
    rw [hio]
    exact hstart
  unfold settle
  cases hst : s.state with
  | init =>
    cases rc with
    | cont => exact transmit_frames (s := { s with state := .doAuth }) h (Settling.response rfl rfl)
    | fail => exact restartMolestor_frames h hstart
    | ok | inv | abort => exact .pure h
    | old => exact absurd rfl hold
  | doAuth =>
    cases rc with
    | cont =>
      exact transmit_frames (s := { s with molestor := false, state := .doAuth })
        (P := Settling opts s d .cont) h (.response rfl rfl)
    | ok =>
      dsimp only
      split
      · rename_i hsingle
        exact out_frames (s := { s with molestor := false, state := .didAuth }) h
          fun hasked => .logoff rfl hasked hsingle hst rfl
      · exact .pure h
    | fail =>
      dsimp only
      split
      · rw [out, if_neg (by simp)]
        exact .fail
      · exact habort _ rfl
    | abort => exact habort _ rfl
    | inv => exact .pure h
    | old => exact absurd rfl hold
  | didAuth =>
    cases rc with
    | cont => exact transmit_frames (s := { s with state := .doAuth }) h (Settling.response rfl rfl)
    | fail | abort => exact habort _ rfl
    | ok | inv => exact .pure h
    | old => exact absurd rfl hold

/-- Leaving an authenticator sends nothing but a start. -/
theorem approach_frames {P : Frame → Prop} (h : Headed own s.io.outData)
    (hP : opts.sendEapolStart → ¬d.forks → P (sentFrame s.io EapolPacket.start)) :
    (approach V opts s d).Sat (Frames P) fun s' => Headed own s'.io.outData := by
  unfold approach
  split
  · exact .pure h
  · refine .bind (.tell (Q := fun _ => True) trivial trivial) fun _ _ => ?_
    cases s.state with
    | init => exact .pure h
    | didAuth => exact .pure h
    | doAuth => exact (doAbort_frames h hP).bind fun _ hs => .pure hs

/-- A start is meant as one. -/
theorem meant_start (s₁ : MainLoop H) (hasked : opts.sendEapolStart) (hforks : ¬d.forks) :
    Meant V opts s d (sentFrame s₁.io EapolPacket.start) :=
  .start (sentFrame_type (by decide)) (sentFrame_bodyLen (by decide)) hasked hforks

variable {digest : Digest} {E : Engine} {t t' s' : MainLoop Handler}

/-- What the EAP layer leaves in the buffer. -/
theorem headed_of_process {l : Ll8023} {e : EapState Handler} {r : Ret × EapState Handler × EapPacket}
    (h : Headed own l.outData)
    (hr : (e.process (Handler.vtable digest E) d.heap f.payload.body l.output.body).result = .ok r) :
    Headed own r.2.2.mem ∧ (Ll8023.output { l with outData := r.2.2.mem }).body = r.2.2 := by
  have hV := Handler.disciplined digest E
  obtain ⟨hdata, hcode⟩ := EapState.process_code hV hr
  refine ⟨h.congr fun i hi => EapState.process_mem hV hr ?_,
    (congrArg (Pointer.mk r.2.2.mem) hdata).symm⟩
  have hplace : l.output.body.data = 18 := rfl
  omega

/-- Passing a packet sends what its result calls for. -/
theorem pass_frames (h : Headed own t.io.outData) :
    (pass (Handler.vtable digest E) opts t d f).Sat
      (Frames fun g => ∃ r l, (t.auth.process (Handler.vtable digest E) d.heap f.payload.body
          t.io.output.body).result = .ok r ∧ l.output.body = r.2.2 ∧
        Headed own l.outData ∧ Settling opts { t with io := l } d r.1 g)
      fun s' => Headed own s'.io.outData := by
  refine .bind (.tell (Q := fun _ => True) trivial trivial) fun _ _ => ?_
  split
  · exact .fail
  · rename_i r hr
    obtain ⟨hhead, hbody⟩ := headed_of_process h hr
    have hold := EapState.process_ne_old hr
    rw [if_neg hold]
    refine (settle_frames (s := { t with auth := r.2.1, io := { t.io with outData := r.2.2.mem } })
      hhead hold).mono (fun ev hev => ?_) fun _ hs => hs
    cases ev with
    | sent data len =>
      refine ⟨r, { t.io with outData := r.2.2.mem }, hr, hbody, hhead, ?_⟩
      cases hev with
      | start hf hasked hforks => exact .start hf hasked hforks
      | response hf hrc => exact .response hf hrc
      | logoff hf hasked hsingle hstate hrc => exact .logoff hf hasked hsingle hstate hrc
    | otherPae | doAbort | passed => trivial

/-- With `-exit` the program does not go on after it was authenticated. -/
theorem next_eq_none_of_single (hsingle : opts.singleShot) (hstate : s.state = .doAuth)
    (hsame : SamePae s d) (hok : Results V opts s d .ok) : next V opts s d = none := by
  obtain ⟨f, s₁, r, hf, hacc, htype, happroach, hr, hrc⟩ := hok
  by_contra hgoes
  obtain ⟨s', hnext⟩ := Option.ne_none_iff_exists'.mp hgoes
  have hres := Exec.result_of_toOption hnext
  rw [step_accepted hf hacc] at hres
  obtain ⟨s₂, hhandle, -⟩ := Exec.result_bind_eq_ok.mp hres
  rw [handle_eq, if_neg (not_not.mpr htype), Exec.result_bind_of_ok happroach, pass,
    Exec.result_bind_of_ok (Exec.result_tell _), hr] at hhandle
  have hdo : s₁.state = .doAuth := by
    rw [approach_state happroach, if_pos (hsame f hf)]
    exact hstate
  have hnew : ¬r.1 = .old := by
    rw [hrc]
    decide
  dsimp only at hhandle
  rw [if_neg hnew, hrc] at hhandle
  unfold settle at hhandle
  rw [hdo] at hhandle
  dsimp only at hhandle
  rw [if_pos hsingle] at hhandle
  exact out_ends hhandle

section Response

variable {l : Ll8023} {r : Ret × EapState H × EapPacket} {output : EapPacket}

/-- The response in a frame is the one that was made in the buffer. -/
theorem sentFrame_response (hbody : l.output.body = r.2.2) (hhead : Headed own l.outData)
    (hr : (e.process V d.heap f.payload.body output).result = .ok r) (hrc : r.1 = .cont) :
    f.payload.body.code = request ∧
      (sentFrame l EapolPacket.pckt).payload.body.code = Eap.response ∧
      (sentFrame l EapolPacket.pckt).payload.body.id = f.payload.body.id ∧
      ((sentFrame l EapolPacket.pckt).payload.body.type = f.payload.body.type ∨
        (sentFrame l EapolPacket.pckt).payload.body.type = nak) := by
  obtain ⟨rc, e', o⟩ := r
  cases hrc
  obtain ⟨hreq, hid, htype⟩ := EapState.process_answer hr
  dsimp only at hbody
  have hsame (i : ℕ) : (sentFrame l EapolPacket.pckt).payload.body.byte i = o.byte i :=
    (sentFrame_byte l EapolPacket.pckt i).trans (congrArg (Pointer.byte · i) hbody)
  refine ⟨hreq, ?_, ?_, ?_⟩
  · rw [EapPacket.code_eq, sentFrame_byte]
    exact congrArg UInt8.toNat hhead.code
  · rw [EapPacket.id_eq, hsame, ← EapPacket.id_eq, hid]
  · rw [EapPacket.type_eq, hsame, ← EapPacket.type_eq]
    exact htype

end Response

/-- The program logs off in a step only if it has just been authenticated. -/
private theorem doAuth_of_approach {t : MainLoop H}
    (hres : (approach V opts { s with io := s.io.observe f } d).result = .ok t)
    (hstate : t.state = .doAuth) : s.state = .doAuth ∧ (s.io.observe f).samePae = true := by
  have hbefore := approach_state hres
  have hsame : (s.io.observe f).samePae = true := by
    by_contra hother
    rw [if_neg hother] at hbefore
    cases hstate.symm.trans hbefore
  rw [if_pos hsame] at hbefore
  exact ⟨hbefore.symm.trans hstate, hsame⟩

/-- What is sent when a result is settled is a proper frame that is meant for something. -/
private theorem Settling.meant {g : Frame} {t : MainLoop Handler} {l : Ll8023}
    {r : Ret × EapState Handler × EapPacket} (hf : d.frame = some f)
    (hacc : f.Accepted s'.io.etherSrc) (htype : f.payload.type = EapolPacket.pckt)
    (hres : (approach (Handler.vtable digest E) opts { s' with io := s'.io.observe f } d).result =
      .ok t)
    (hr : (t.auth.process (Handler.vtable digest E) d.heap f.payload.body t.io.output.body).result =
      .ok r) (hbody : l.output.body = r.2.2) (hhead : Headed own l.outData)
    (h : Settling opts { t with io := l } d r.1 g) :
    Proper own g ∧ Meant (Handler.vtable digest E) opts s' d g := by
  have hresults : Results (Handler.vtable digest E) opts s' d r.1 :=
    ⟨f, t, r, hf, hacc, htype, hres, hr, rfl⟩
  cases h with
  | start hframe hasked hforks =>
    rw [hframe]
    exact ⟨hhead.proper _, meant_start { t with io := l } hasked hforks⟩
  | response hframe hrc =>
    rw [hframe]
    rw [hrc] at hresults
    obtain ⟨hreq, hcode, hid, hkind⟩ := sentFrame_response hbody hhead hr hrc
    exact ⟨hhead.proper _, .response hf hresults (sentFrame_type (by decide))
      sentFrame_lengthsMatch hreq hcode hid hkind⟩
  | logoff hframe hasked hsingle hstate hrc =>
    rw [hframe]
    rw [hrc] at hresults
    obtain ⟨hdo, hsame⟩ := doAuth_of_approach hres hstate
    have hfrom : SamePae s' d := by
      intro f' hf'
      cases hf.symm.trans hf'
      exact hsame
    exact ⟨hhead.proper _, .logoff (sentFrame_type (by decide)) (sentFrame_bodyLen (by decide))
      hasked hsingle hdo hfrom hresults (next_eq_none_of_single hsingle hdo hfrom hresults)⟩

/-- A step sends proper frames that are meant for something. -/
theorem step_frames (h : Headed own s'.io.outData) :
    (step (Handler.vtable digest E) opts s' d).Sat
      (Frames fun g => Proper own g ∧ Meant (Handler.vtable digest E) opts s' d g)
      fun t => Headed own t.io.outData := by
  cases hf : d.frame with
  | none =>
    rw [step, hf]
    exact .fail
  | some f =>
    have hobserved : Headed own (s'.io.observe f).outData := by rwa [Ll8023.observe_outData]
    by_cases hacc : f.Accepted s'.io.etherSrc
    · rw [step_accepted hf hacc, handle_eq]
      refine .bind (Q := fun t => Headed own t.io.outData) ?_ fun t ht => .pure ht
      split
      · exact .pure hobserved
      · rename_i htype
        have happroach : (approach (Handler.vtable digest E) opts
            { s' with io := s'.io.observe f } d).Sat (Frames fun g =>
              Proper own g ∧ Meant (Handler.vtable digest E) opts s' d g)
            fun t => Headed own t.io.outData :=
          approach_frames (s := { s' with io := s'.io.observe f }) hobserved fun hasked hforks =>
            ⟨hobserved.proper EapolPacket.start,
              meant_start { s' with io := s'.io.observe f } hasked hforks⟩
        refine .bind ⟨happroach.effects, fun t ht => And.intro (happroach.value t ht) ht⟩ ?_
        rintro t ⟨ht, hres⟩
        refine (pass_frames ht).mono (fun ev hev => ?_) fun _ => id
        cases ev with
        | otherPae | doAbort | passed => trivial
        | sent data len =>
          obtain ⟨r, l, hr, hbody, hhead, hsettling⟩ := hev
          exact hsettling.meant hf hacc (not_not.mp htype) hres hr hbody hhead
    · rw [step_rejected hf hacc]
      exact .pure hobserved

/-- What `terminate` sends takes leave. -/
theorem terminate_frames (h : Headed own s.io.outData) :
    (terminate opts s d).Sat (Frames fun g => Proper own g ∧ g.payload.type = EapolPacket.logoff ∧
      g.payload.bodyLen = 0) fun t => Headed own t.io.outData :=
  out_frames h fun _ => ⟨h.proper _, sentFrame_type (by decide), sentFrame_bodyLen (by decide)⟩

/-- What is sent at the beginning looks for an authenticator. -/
theorem start_frames (hown : own.length = etherAddrLen) :
    (start opts (Ll8023.new own buf) e d₀).Sat
      (Frames fun g => Proper own g ∧ g.payload.type = EapolPacket.start ∧ g.payload.bodyLen = 0)
      fun t => Headed own t.io.outData := by
  have hsetup : Headed own (Ll8023.new own buf).setupOutput.outData := .setupOutput hown
  refine .bind (Q := fun t => Headed own t.io.outData) ?_ fun t ht => .pure ht
  exact restartMolestor_frames (s := ⟨(Ll8023.new own buf).setupOutput, e, .init, false⟩) hsetup
    fun _ _ => ⟨hsetup.proper _, sentFrame_type (by decide), sentFrame_bodyLen (by decide)⟩

/-- In every run of the program every frame that is sent, at the beginning, for a packet or on a signal,
is a proper one and is meant for something: it looks for an authenticator, answers the request that
was delivered, or takes leave. -/
theorem frames_meant {e : EapState Handler} {s₀ s : MainLoop Handler}
    (hown : own.length = etherAddrLen)
    (hstart : (start opts (Ll8023.new own buf) e d₀).result = .ok s₀)
    (run : Run (next (Handler.vtable digest E) opts) s₀ ds s) :
    (∀ ev ∈ (start opts (Ll8023.new own buf) e d₀).log, Frames (fun g => Proper own g ∧
      g.payload.type = EapolPacket.start ∧ g.payload.bodyLen = 0) ev) ∧
    ∀ d, (∀ ev ∈ (step (Handler.vtable digest E) opts s d).log,
        Frames (fun g => Proper own g ∧ Meant (Handler.vtable digest E) opts s d g) ev) ∧
      ∀ ev ∈ (terminate opts s d).log, Frames (fun g => Proper own g ∧
        g.payload.type = EapolPacket.logoff ∧ g.payload.bodyLen = 0) ev := by
  have hheaded : Headed own s.io.outData := by
    refine run.invariant (I := fun s => Headed own s.io.outData) ?_ fun s d s' hs _ hnext => ?_
    · exact (start_frames hown).value s₀ hstart
    · exact (step_frames hs).value s' (Exec.result_of_toOption hnext)
  exact ⟨(start_frames hown).effects, fun d => ⟨(step_frames hheaded).effects,
    (terminate_frames hheaded).effects⟩⟩

/-- The program that ends with its first authentication. -/
def singleOptions : Options := ⟨false, true, true⟩

/-- The types of the frames that were sent. -/
def sentTypes (log : List Event) : List ℕ :=
  log.filterMap fun
    | .sent data len => some (Frame.mk data len).payload.type
    | _ => none

/-- A program that ends after a Success takes leave with a proper frame. -/
theorem frames_meant_logoff : ∃ s data len,
    Run (next plainVtable singleOptions) plainDaemon.waiting [delivery (askIdentity 2)] s ∧
    .sent data len ∈ (step plainVtable singleOptions s (delivery (tellSuccess 2))).log ∧
    (Frame.mk data len).payload.type = EapolPacket.logoff ∧
    Proper [2, 0, 0, 0, 0, 1] ⟨data, len⟩ ∧
    Meant plainVtable singleOptions s (delivery (tellSuccess 2)) ⟨data, len⟩ := by
  have heval : (runLabels (next plainVtable singleOptions) plainDaemon.waiting
      [delivery (askIdentity 2)]).map (fun s =>
        sentTypes (step plainVtable singleOptions s (delivery (tellSuccess 2))).log) =
      some [EapolPacket.logoff] := by
    decide +kernel
  obtain ⟨s, hrun, htypes⟩ := Option.map_eq_some_iff.mp heval
  have run := run_of_runLabels hrun
  have hstart : (start singleOptions (Ll8023.new [2, 0, 0, 0, 0, 1] fun _ => 0)
      (EapState.init.addHandler (.identity ⟨[97]⟩)) (delivery (askIdentity 2))).result =
        .ok plainDaemon.waiting := rfl
  have hlogoff : EapolPacket.logoff ∈
      sentTypes (step plainVtable singleOptions s (delivery (tellSuccess 2))).log := by
    rw [htypes]
    exact List.mem_singleton_self _
  obtain ⟨ev, hmem, hev⟩ := List.mem_filterMap.mp hlogoff
  have hmeant := ((frames_meant rfl hstart run).2 (delivery (tellSuccess 2))).1 ev hmem
  cases ev with
  | sent data len =>
    obtain ⟨hproper, hmeant⟩ := hmeant
    exact ⟨s, data, len, run, hmem, Option.some.inj hev, hproper, hmeant⟩
  | otherPae | doAbort | passed => cases hev

end MainLoop

end Dot1x.Daemon
