import Dot1x.Client.ConnectionState
import Dot1x.Client.ResponseLength
import Dot1x.System.Network

/-!
# What the station does

The station acts on frames that its link layer accepted. A Success or a Failure of the EAP layer comes
of such a packet and of nothing else, since the handlers that `Login` installs only ever answer, and
every frame that is sent holds a response.
-/

namespace Dot1x.System

open Dot1x.Base Dot1x.Wire Dot1x.Eap Dot1x.Link Dot1x.Nas
open Dot1x.Client (Listener LoginCall Delivery Output ConState Serves Ready transmit transmitted
  waiting installHandlers)

/-- What a step of the thread is: it goes on waiting, or the EAP layer returned for a frame that was
accepted and the listener settled the result. -/
inductive Passes (V : Vtable Handler) (s : Listener) (d : Delivery) : Listener → List Output → Prop
  | waits {l l' : Ll8023} (hio : s.io = some l) (hout : l'.outData = l.outData) :
      Passes V s d { s with io := some l' } []
  | settles {f : Frame} {l l' : Ll8023} {e : EapState Handler} {r : Ret × EapState Handler × EapPacket}
      {s' : Listener} {outs : List Output} (hrunning : s.thread = true) (hio : s.io = some l)
      (hauth : s.auth = some e) (hframe : d.frame = some f) (hlengths : f.LengthsMatch)
      (htype : f.payload.type = EapolPacket.pckt)
      (hprocess : (e.process V d.heap f.payload.body l.output.body).result = .ok r)
      (hsettle : Listener.settle s { l' with outData := r.2.2.mem } r.2.1 d.sends r.1 =
        some (s', outs)) :
      Passes V s d s' (.processed r.1 :: outs)

variable {V : Vtable Handler} {s s' : Listener} {d : Delivery} {outs : List Output} {l : Ll8023}
  {e : EapState Handler} {heap : Heap} {input output : EapPacket} {data : Mem} {len : ℕ}

/-- A frame that is delivered is handled in one of the ways. -/
theorem passes_of_deliver (h : s.deliver V d = some (s', outs)) : Passes V s d s' outs := by
  unfold Listener.deliver at h
  split at h
  case h_2 => cases h
  case h_1 l e hthread hio hauth =>
    cases hd : d.frame with
    | none =>
      rw [hd] at h
      cases h
      exact .waits hio rfl
    | some f =>
      rw [hd, Ll8023.turn_some] at h
      have hobserved : (l.observe f).outData = l.outData := l.observe_outData f
      by_cases hacc : f.Accepted l.etherSrc
      · rw [if_pos hacc] at h
        cases hlen : f.payload.bodyLen with
        | zero =>
          rw [hlen] at h
          cases h
          exact .waits hio hobserved
        | succ n =>
          rw [hlen] at h
          simp only [Ll8023.observe_inData, Option.bind_some] at h
          unfold Listener.handle at h
          split at h
          · rename_i htype
            split at h
            · rename_i r hprocess
              have hout : (l.observe f).output = l.output := by
                simp only [Ll8023.output, hobserved]
              rw [hout] at hprocess
              obtain ⟨⟨s₁, outs₁⟩, hsettle, heq⟩ := Option.map_eq_some_iff.mp h
              cases heq
              exact .settles hthread hio hauth hd hacc.1 htype hprocess hsettle
            · cases h
          · cases h
            exact .waits hio hobserved
      · rw [if_neg hacc] at h
        cases h
        exact .waits hio hobserved

/-- A handler whose answers have a known length always answers. -/
private theorem cont_of_dataLen {digest : Digest} {E : Engine} {h : Handler} {n : ℕ}
    {r : Ret × Handler × EapPacket} (hn : h.dataLen = some n)
    (hres : (h.process digest E heap input output).result = .ok r) : r.1 = .cont := by
  cases h with
  | notification =>
    obtain ⟨⟨rc, o⟩, ha, hr⟩ := Exec.result_bind_eq_ok.mp hres
    cases hr
    exact (TypeNotification.process_result_eq_ok ha).1
  | identity t =>
    cases hres
    rfl
  | md5 t =>
    obtain ⟨⟨rc, t', o⟩, ha, hr⟩ := Exec.result_bind_eq_ok.mp hres
    cases hr
    obtain ⟨-, -, -, hrc, -⟩ := TypeMd5.process_result_eq_ok.mp ha
    exact hrc
  | tls t => cases hn

/-- If the handler at a position answers, the request is answered. -/
private theorem runHandler_cont_of_answers {H : Type} {V : Vtable H} {e : EapState H} {i : ℕ}
    {r : Ret × EapState H × EapPacket} (hanswers : ∀ hd r', e.handlers[i]? = some hd →
      (V.process hd heap input output).result = .ok r' → r'.1 = .cont)
    (h : (EapState.runHandler V e i heap input output).result = .ok r) : r.1 = .cont := by
  unfold EapState.runHandler at h
  split at h
  · cases h
  · rename_i hd hget
    obtain ⟨⟨rc, hd', o⟩, hproc, hrest⟩ := Exec.result_bind_eq_ok.mp h
    have hrc : rc = .cont := hanswers hd _ hget hproc
    subst hrc
    cases hrest
    rfl

/-- The handlers of a user always answer. -/
theorem cont_of_runHandler {digest : Digest} {E : Engine} {user i : ℕ} {w : Want}
    (hserves : Serves user e) {r : Ret × EapState Handler × EapPacket}
    (h : (EapState.runHandler (Handler.vtable digest E)
      (e.claim (Handler.vtable digest E) i w input.type) i heap input output).result = .ok r) :
    r.1 = .cont := by
  refine runHandler_cont_of_answers (fun hd r' hget hres => ?_) h
  have hmem : hd.signature ∈ Client.loginSignatures user := by
    rw [← hserves, ← EapState.claim_handlers_map (V := Handler.vtable digest E)
      Handler.signature_abort i w input.type]
    exact List.mem_map_of_mem (List.mem_of_getElem? hget)
  exact cont_of_dataLen (Client.dataLen_of_mem hmem) hres

/-- The EAP layer of a user returns for a packet of each code what that code asks for. -/
theorem code_of_processed {digest : Digest} {E : Engine} {user : ℕ} (hserves : Serves user e)
    {r : Ret × EapState Handler × EapPacket}
    (h : (e.process (Handler.vtable digest E) heap input output).result = .ok r) :
    (r.1 = .ok → input.code = Eap.success) ∧ (r.1 = .fail → input.code = Eap.failure) ∧
      r.1 ≠ .old := by
  unfold EapState.process at h
  split at h
  · have hnever : r.1 = .cont ∨ r.1 = .inv := by
      unfold EapState.processRequest at h
      split at h
      · exact Or.inl (cont_of_runHandler hserves h)
      · split at h <;> cases h
        · exact Or.inl rfl
        · exact Or.inr rfl
    rcases hnever with hrc | hrc <;> simp [hrc]
  · split at h
    · rename_i hsuccess
      cases h
      simp [hsuccess]
    · split at h <;> cases h
      · rename_i hfailure
        simp [hfailure]
      · simp

/-- The frame that `transmit` sends is as long as its header tells. -/
theorem whole_transmit (l : Ll8023) (type : ℕ) :
    Whole (transmit l type).outData (transmit l type).outLen :=
  Nat.add_assoc ..

/-- A frame holds the packet of the output buffer behind its header. -/
theorem sentPacket_transmit (l : Ll8023) (type i : ℕ) :
    (sentPacket (transmit l type).outData).byte i = l.output.body.byte i :=
  Ll8023.makeEapol_outData l type (Or.inr (Nat.le_add_right ..))

/-- Transmitting keeps the code of the packet. -/
theorem code_transmit (l : Ll8023) (type : ℕ) :
    (sentPacket (transmit l type).outData).code = l.output.body.code :=
  (fields_congr (sentPacket_transmit l type)).1

/-- What settling a result sends: the answer, or the last frame again. -/
theorem sent_of_settle {sends : Bool} {rc : Ret}
    (h : Listener.settle s l e sends rc = some (s', outs)) (hsent : .sent data len ∈ outs) :
    (rc = .cont ∧ data = (transmit l EapolPacket.pckt).outData ∧
      len = (transmit l EapolPacket.pckt).outLen) ∨ rc = .old := by
  cases rc with
  | cont => exact Or.inl ⟨rfl, (Listener.sent_iff_of_settle_cont h).mp hsent⟩
  | old => exact Or.inr rfl
  | ok =>
    simp only [Listener.settle] at h
    split at h <;> cases h <;> simp at hsent
  | inv | abort | fail =>
    cases h
    simp at hsent

/-- The output buffer after a result was settled. -/
theorem io_of_settle {sends : Bool} {rc : Ret} {l' : Ll8023}
    (h : Listener.settle s l e sends rc = some (s', outs)) (hio : s'.io = some l') :
    l'.outData = l.outData ∨ l'.outData = (transmit l EapolPacket.pckt).outData := by
  cases rc with
  | cont =>
    simp only [Listener.settle] at h
    split at h
    · cases h
      cases hio
      exact Or.inr rfl
    · cases h
  | ok =>
    simp only [Listener.settle] at h
    split at h <;> cases h <;> cases hio <;> exact Or.inl rfl
  | old =>
    simp only [Listener.settle] at h
    split at h
    · cases h
      cases hio
      exact Or.inl rfl
    · cases h
  | fail =>
    cases h
    cases hio
  | inv | abort =>
    cases h
    cases hio
    exact Or.inl rfl

/-- The packet in the output buffer is a response. -/
def Responding (s : Listener) : Prop := ∀ l, s.io = some l → l.output.body.code = Eap.response

/-- What holds of a station between two steps, whatever it hears. -/
structure Sound (s : Listener) : Prop where
  ready : ∃ user, Ready user s
  responding : Responding s

/-- The address of the adapter is one of Ethernet. -/
def ProperAdapter : Client.Action → Prop
  | .login c => ∀ a ∈ c.adapter, a.1.length = etherAddrLen
  | _ => True

/-- A frame that the station sends is whole and holds a response. -/
def SendsResponses (outs : List Output) : Prop :=
  ∀ data len, .sent data len ∈ outs → Whole data len ∧ (sentPacket data).code = Eap.response

/-- Where nothing is sent, only responses are. -/
theorem sendsResponses_nil : SendsResponses [] := fun _ _ h => absurd h List.not_mem_nil

/-- The station is sound at first. -/
theorem sound_init : Sound Listener.init := ⟨⟨0, nofun⟩, nofun⟩

/-- A packet with the code of a response is sent as one. -/
theorem sendsResponses_transmitted {type : ℕ} (h : l.output.body.code = Eap.response) :
    SendsResponses [transmitted (transmit l type)] := by
  intro data len hsent
  cases List.mem_singleton.mp hsent
  exact ⟨whole_transmit l type, (code_transmit l type).trans h⟩

/-- The output buffer that `Login` prepares holds a response. -/
theorem code_of_login {own : List UInt8} {buf : Mem} (hown : own.length = etherAddrLen) :
    (Ll8023.new own buf).setupOutput.output.body.code = Eap.response :=
  Ll8023.setupOutput_code hown rfl

section Steps

variable {digest : Digest} {E : Engine}

/-- A login keeps the station sound. -/
theorem sound_login {c : LoginCall} (h : s.login c = some (s', outs)) (hsound : Sound s)
    (hproper : ProperAdapter (.login c)) : Sound s' ∧ SendsResponses outs := by
  have hnext : s.next Listener.plainVtable (.login c) = some s' := congrArg (Option.map Prod.fst) h
  have hready : Ready c.user.bytes.length s' := Listener.ready_of_login hnext
  refine ⟨⟨⟨_, hready⟩, ?_⟩, ?_⟩
  · intro l hl
    simp only [Listener.login] at h
    split at h
    · cases h
    · split at h
      · cases h
        exact hsound.responding l hl
      · rename_i a hadapter
        have hown : a.1.length = etherAddrLen := hproper a hadapter
        split at h <;> cases h <;> cases hl
        · exact (Ll8023.makeEapol_body_code ..).trans (code_of_login hown)
        · exact code_of_login hown
  · simp only [Listener.login] at h
    split at h
    · cases h
    · split at h
      · cases h
        exact sendsResponses_nil
      · rename_i a hadapter
        split at h <;> cases h
        · exact sendsResponses_transmitted (code_of_login (hproper a hadapter))
        · exact sendsResponses_nil

/-- A frame keeps the station sound, and is answered by responses. -/
theorem sound_deliver (h : s.deliver (Handler.vtable digest E) d = some (s', outs))
    (hsound : Sound s) : Sound s' ∧ SendsResponses outs := by
  obtain ⟨user, hready⟩ := hsound.ready
  have hready' : Ready user s' := Listener.ready_deliver hready h
  cases passes_of_deliver h with
  | @waits l l' hio hout =>
    refine ⟨⟨⟨user, hready'⟩, fun l₁ hl₁ => ?_⟩, nofun⟩
    cases hl₁
    rw [Ll8023.output, hout]
    exact hsound.responding l hio
  | @settles f l l' e r _ outs hrunning hio hauth hframe hlengths htype hprocess hsettle =>
    obtain ⟨hdata, hcode⟩ := EapState.process_code (Handler.disciplined digest E) hprocess
    obtain ⟨-, -, hnew⟩ := code_of_processed (hready hrunning e hauth) hprocess
    -- The answer stands where the packet of the output buffer was.
    have hanswer : (Ll8023.output { l' with outData := r.2.2.mem }).body.code = Eap.response := by
      have hplace : r.2.2 = ⟨r.2.2.mem, llHdrLen + 4⟩ := congrArg (Pointer.mk r.2.2.mem) hdata
      exact (congrArg EapPacket.code hplace).symm.trans (hcode.trans (hsound.responding l hio))
    refine ⟨⟨⟨user, hready'⟩, fun l₁ hl₁ => ?_⟩, fun data len hsent => ?_⟩
    · rcases io_of_settle hsettle hl₁ with hsame | hsent
      · rw [Ll8023.output, hsame]
        exact hanswer
      · rw [Ll8023.output, hsent]
        exact (code_transmit ..).trans hanswer
    · rcases sent_of_settle hsettle (by simpa using hsent) with ⟨-, rfl, rfl⟩ | hold
      · exact ⟨whole_transmit .., (code_transmit ..).trans hanswer⟩
      · exact absurd hold hnew

/-- A step of the station. -/
theorem sound_step {a : Client.Action} (h : s.step (Handler.vtable digest E) a = some (s', outs))
    (hsound : Sound s) (hproper : ProperAdapter a) : Sound s' ∧ SendsResponses outs := by
  cases a with
  | login c => exact sound_login h hsound hproper
  | deliver d => exact sound_deliver h hsound
  | logout =>
    cases h
    refine ⟨sound_init, ?_⟩
    cases hio : s.io with
    | none => exact nofun
    | some l => exact sendsResponses_transmitted (hsound.responding l hio)

/-- A result is one for a frame that was delivered. A Success is processed for a packet with its code
only, and so is a Failure. -/
theorem code_of_step {a : Client.Action} {rc : Ret}
    (h : s.step (Handler.vtable digest E) a = some (s', outs)) (hsound : Sound s)
    (hrc : .processed rc ∈ outs) : ∃ d f, a = .deliver d ∧ d.frame = some f ∧ f.LengthsMatch ∧
      f.payload.type = EapolPacket.pckt ∧ (rc = .ok → f.payload.body.code = Eap.success) ∧
      (rc = .fail → f.payload.body.code = Eap.failure) := by
  cases a with
  | login c =>
    simp only [Listener.step, Listener.login] at h
    split at h
    · cases h
    · split at h
      · cases h
        cases hrc
      · split at h <;> cases h
        · simp [transmitted] at hrc
        · cases hrc
  | logout =>
    cases h
    cases hio : s.io <;> simp [hio, transmitted] at hrc
  | deliver d =>
    cases passes_of_deliver h with
    | waits => cases hrc
    | @settles f l l' e r _ outs hrunning hio hauth hframe hlengths htype hprocess hsettle =>
      obtain ⟨user, hready⟩ := hsound.ready
      obtain ⟨hok, hfail, -⟩ := code_of_processed (hready hrunning e hauth) hprocess
      have hnot : .processed rc ∉ outs := Listener.processed_notMem_settle hsettle
      have hsame : rc = r.1 := by simpa [hnot] using hrc
      subst hsame
      exact ⟨d, f, rfl, hframe, hlengths, htype, hok, hfail⟩

end Steps

end Dot1x.System
