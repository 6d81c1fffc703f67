import Dot1x.Eap.Fragmentation
import Dot1x.Eap.Retransmission
import Dot1x.Eap.TlsResponse

/-!
# The length of an EAP-TLS response

The length of a response with a payload is put together in up to three steps: it is assigned, then
`frame_next` and the EAP layer add to it with `operator +=`, which loses the carry out of the low
byte. So it is right exactly when the low byte of the payload's length and the flags leaves room for
the header and for the length of the message where that is included. An acknowledgement is short
enough. Where the engine has nothing to say the response keeps the length of an earlier packet.
-/

namespace Dot1x.Eap

open Dot1x.Base Dot1x.Wire

variable {digest : Digest} {E : Engine} {e e' : EapState Handler} {heap : Heap}
  {input output o o' : EapPacket} {t : TypeTls} {ρ : TypeTls.Reaction}

namespace TypeTls

/-- The length of a response is that of its header, the flags, the length of the message if it is
included, and a payload. -/
def LengthExact (o : TlsPacket) (payload : ℕ) : Prop :=
  o.len = EapPacket.headerLen + 1 + (if o.hasLength then 4 else 0) + payload

/-- The length of what is written leaves room for the header in its low byte. -/
def Reaction.Fits (output : TlsPacket) : Reaction → Prop
  | .ack => True
  | .part declared _ payload =>
    (payload.length + 1) % 256 + declaredLen declared + EapPacket.headerLen < 256
  | .nothing => output.len = if output.hasLength then 5 else 1

/-- The additions to the length carry nothing out of its low byte when the engine's output is sent.
Where there is none they are made to the length that the output packet had before. -/
def OutputCarryFree (output : TlsPacket) (fragmentSize : ℕ) (out : List UInt8) : Prop :=
  if out = [] then output.len = if output.hasLength then 5 else 1
  else (chunkLen fragmentSize out.length + 1) % 256 + 4 + EapPacket.headerLen < 256

/-- The additions carry nothing in the answer to what a packet amounted to. -/
def IntakeCarryFree (E : Engine) (t : TypeTls) (output : TlsPacket) : Intake → Prop
  | .reject | .ack _ => True
  | .resume msg cur =>
    (chunkLen t.fragmentSize (msg.length - cur) + 1) % 256 + EapPacket.headerLen < 256
  | .ask t' =>
    match E.processMsg t'.calls with
    | none | some ⟨.success, _⟩ => True
    | some ⟨.failed, out⟩ => t'.failedOnce ∨ OutputCarryFree output t'.fragmentSize out
    | some ⟨.moreData, out⟩ => OutputCarryFree output t'.fragmentSize out

/-- The additions carry nothing in the answer to a packet. -/
def CarryFree (E : Engine) (t : TypeTls) (heap : Heap) (input output : EapPacket) : Prop :=
  ∀ x, (t.intake E heap input).result = .ok x → t.IntakeCarryFree E output x

/-- Two packets at one place with the same type data have the same payload. -/
theorem tlsData_congr (hdata : o'.data = o.data)
    (hmem : ∀ a, o.data + EapPacket.headerLen ≤ a → o'.mem a = o.mem a) :
    TlsPacket.hasLength o' = TlsPacket.hasLength o ∧ TlsPacket.tlsData o' = TlsPacket.tlsData o := by
  have hflags : o'.mem (EapPacket.eapData o') = o.mem (EapPacket.eapData o) := by
    rw [EapPacket.eapData, EapPacket.eapData, hdata]
    exact hmem _ (Nat.le_refl _)
  have hlength : TlsPacket.hasLength o' = TlsPacket.hasLength o := by
    rw [TlsPacket.hasLength, TlsPacket.hasLength, hflags]
  refine ⟨hlength, ?_⟩
  rw [TlsPacket.tlsData, TlsPacket.tlsData, hlength, EapPacket.eapData, EapPacket.eapData, hdata]

/-- A payload stays in a packet whose data does not change. -/
theorem Copied.congr {payload : List UInt8} (h : Copied output o payload) (hdata : o'.data = o.data)
    (hmem : ∀ a, o.data + EapPacket.headerLen ≤ a → o'.mem a = o.mem a) :
    Copied output o' payload := by
  have hplace := (tlsData_congr hdata hmem).2
  have hbehind : o.data + EapPacket.headerLen ≤ TlsPacket.tlsData o :=
    TlsPacket.headerLen_le_tlsData o
  constructor
  · rw [hplace, slice_congr fun i hi _ => hmem i (by omega)]
    exact h.inPlace
  · intro a ha
    rw [hplace] at ha
    rw [hmem a (by omega), h.behind a ha]

/-- The payload is written where the flags say. -/
theorem Reaction.copied (ρ : Reaction) (output : TlsPacket) :
    Copied output (ρ.apply output) ρ.payload := by
  cases ρ with
  | nothing => exact ⟨rfl, fun _ _ => rfl⟩
  | ack =>
    refine ⟨rfl, fun a ha => ?_⟩
    have hplace : output.data + 6 ≤ a := by
      refine Nat.le_trans ?_ ha
      rw [TlsPacket.tlsData, EapPacket.eapData]
      change output.data + 6 ≤ output.data + 5 + _
      split <;> omega
    refine Pointer.storeAll_mem_of_outside ?_
    simp only [Reaction.stores, List.forall_mem_cons, List.length_cons, List.length_nil]
    exact ⟨by omega, by omega, List.forall_mem_nil _⟩
  | part => exact copied_framed

/-- An acknowledgement carries no length. -/
theorem makeAck_hasLength : TlsPacket.hasLength (makeAck output) = false := by
  have hflags := (makeAck_ack output).1
  rw [TlsPacket.tlsFlags, AccessUi8.get] at hflags
  have hzero : (makeAck output).mem (makeAck output).eapData = 0 := UInt8.toNat_inj.mp hflags
  rw [TlsPacket.hasLength, hzero]
  rfl

/-- The answer with the engine's output fits exactly if nothing is carried. -/
theorem replying_fits {a : Answer} (h : t.replying out = some a) :
    a.2.2.Fits output ↔ OutputCarryFree output t.fragmentSize out := by
  unfold replying at h
  unfold OutputCarryFree
  by_cases hout : out = []
  · rw [if_pos hout] at h ⊢
    cases h
    exact Iff.rfl
  · rw [if_neg hout] at h ⊢
    have hlen : (nextPart t.fragmentSize out 0).length = chunkLen t.fragmentSize out.length :=
      nextPart_length
    split at h
    · cases h
    · cases h
      rw [← hlen]
      exact Iff.rfl

/-- What is written for a response fits exactly when the additions carry nothing. -/
theorem outcome_fits {x : Intake} {t' : TypeTls} (h : t.outcome E x = some (.cont, t', ρ)) :
    ρ.Fits output ↔ t.IntakeCarryFree E output x := by
  cases x with
  | reject => cases h
  | ack t₁ =>
    cases h
    exact Iff.rfl
  | resume msg cur =>
    simp only [outcome] at h
    split at h
    · cases h
    · cases h
      rw [IntakeCarryFree, ← nextPart_length]
      exact Iff.rfl
  | ask t₁ =>
    simp only [outcome] at h
    simp only [IntakeCarryFree]
    cases hreply : E.processMsg t₁.calls with
    | none =>
      rw [hreply] at h
      cases h
    | some reply =>
      obtain ⟨rc, out⟩ := reply
      rw [hreply] at h
      cases rc with
      | success =>
        cases h
        exact Iff.rfl
      | moreData => exact replying_fits h
      | failed =>
        dsimp only at h ⊢
        split at h
        · cases h
        · rename_i hfirst
          rw [or_iff_right hfirst]
          exact replying_fits h

/-- An answer that goes on fits exactly if nothing is carried. -/
theorem answer_fits {t' : TypeTls} (h : t.answer E heap input = some (.cont, t', ρ)) :
    ρ.Fits output ↔ t.CarryFree E heap input output := by
  obtain ⟨x, hx, houtcome⟩ := Option.bind_eq_some_iff.mp h
  have hintake := Exec.result_of_toOption hx
  rw [outcome_fits houtcome]
  constructor
  · intro hfree x' hx'
    cases hintake.symm.trans hx'
    exact hfree
  · exact fun hfree => hfree x hintake

end TypeTls

namespace EapState

/-- Finishing a response changes nothing behind the type. -/
theorem straightReturn_mem (e : EapState Handler) (input o : EapPacket) (type : ℕ) :
    (e.straightReturn input (EapPacket.setType o type)).2.data = o.data ∧
      ∀ a, o.data + EapPacket.headerLen ≤ a →
        (e.straightReturn input (EapPacket.setType o type)).2.mem a = o.mem a := by
  refine ⟨rfl, fun a ha => ?_⟩
  simp only [EapPacket.headerLen] at ha
  change (EapPacket.addLen (EapPacket.setId (EapPacket.setType o type) input.id) 5).mem a = _
  rw [EapPacket.addLen_eq _ _ (by decide), EapPacket.setId_eq, EapPacket.setType_eq]
  simp only [Pointer.store]
  rw [write_of_outside (by simp; omega), write_of_outside (by simp; omega),
    write_of_outside (by simp; omega)]

/-- The length of a response is exact under a condition on what is copied, and on the output packet
where nothing is written. -/
theorem lengthExact_iff (e : EapState Handler) (input output : EapPacket) (ρ : TypeTls.Reaction)
    (hρ : ρ.payload.length < 65535) :
    TypeTls.LengthExact
      (e.straightReturn input (EapPacket.setType (ρ.apply output) input.type)).2 ρ.payload.length ↔
      ρ.Fits output := by
  obtain ⟨hdata, hmem⟩ := straightReturn_mem e input (ρ.apply output) input.type
  rw [TypeTls.LengthExact, len_straightReturn, (TypeTls.tlsData_congr hdata hmem).1]
  cases ρ with
  | nothing =>
    have hlt := EapPacket.len_lt output
    rw [TypeTls.Reaction.apply_nothing]
    simp only [TypeTls.Reaction.payload, TypeTls.Reaction.Fits, EapPacket.headerLen, List.length_nil]
    split <;> omega
  | ack =>
    have hempty : (TypeTls.makeAck output).len = 1 := (TypeTls.makeAck_ack output).2
    rw [TypeTls.Reaction.apply_ack, TypeTls.makeAck_hasLength, hempty]
    exact iff_of_true rfl trivial
  | part declared more payload =>
    simp only [TypeTls.Reaction.payload] at hρ ⊢
    rw [TypeTls.Reaction.apply_part, TypeTls.framed_hasLength, TypeTls.framed_len]
    simp only [TypeTls.Reaction.Fits, TypeTls.declaredLen, EapPacket.headerLen]
    split <;> omega

/-- Every answered request for EAP-TLS has the length of what it carries exactly when the low byte
of the length has room for all that is added to it. -/
theorem tlsLength_iff (hreaches : e.ReachesTls (Handler.vtable digest E) input t)
    (hsize : t.fragmentSize < 65535)
    (hres : (process (Handler.vtable digest E) e heap input output).result = .ok (.cont, e', o)) :
    ∃ t' ρ, t.answer E heap input = some (.cont, t', ρ) ∧ TypeTls.Copied output o ρ.payload ∧
      (TypeTls.LengthExact o ρ.payload.length ↔ t.CarryFree E heap input output) := by
  obtain ⟨t', ρ, hanswer, rfl⟩ := hreaches.response hres
  have hpayload := TypeTls.payload_le hanswer
  obtain ⟨hdata, hmem⟩ := straightReturn_mem e input (ρ.apply output) input.type
  refine ⟨t', ρ, hanswer, (ρ.copied output).congr hdata hmem, ?_⟩
  rw [lengthExact_iff e input output ρ (Nat.lt_of_le_of_lt hpayload hsize)]
  exact TypeTls.answer_fits hanswer

/-- An engine that begins with 250 bytes. -/
def longEngine : Engine := ⟨fun _ => true, fun _ => some ⟨.moreData, List.replicate 250 22⟩⟩

/-- The methods of the handlers with that engine. -/
def longVtable : Vtable Handler := Handler.vtable (fun _ => Vector.replicate 16 0) longEngine

/-- The handler for parts of 250 bytes as the constructor returns it. -/
def longHandler : TypeTls := { TypeTls.blankHandler with fragmentSize := 250 }

/-- The start of a session with that engine. -/
theorem long_start : ∃ e e' o,
    (install (fun _ => some fun _ => 0) (.single 97) (.single 115) 250).result = .ok e ∧
      e.ReachesTls longVtable (TypeTls.tlsRequest 6 0x20 []) longHandler ∧
      (∃ t', longHandler.answer longEngine (fun _ => some fun _ => 0) (TypeTls.tlsRequest 6 0x20 []) =
        some (.cont, t', .part (some 250) false (List.replicate 250 22))) ∧
      (e.process longVtable (fun _ => some fun _ => 0) (TypeTls.tlsRequest 6 0x20 [])
        ⟨fun _ => 0, 0⟩).result = .ok (.cont, e', o) := by
  have heval : ∃ e, (install (fun _ => some fun _ => 0) (.single 97) (.single 115) 250).result = .ok e ∧
      search longVtable (TypeTls.tlsRequest 6 0x20 []) e.handlers = some (0, .iWillAuth) ∧
      (e.claim longVtable 0 .iWillAuth 13).handlers[0]? = some (.tls longHandler) ∧
      (e.process longVtable (fun _ => some fun _ => 0) (TypeTls.tlsRequest 6 0x20 [])
        ⟨fun _ => 0, 0⟩).result.toOption.map Prod.fst = some .cont :=
    ⟨_, rfl, by decide +kernel, rfl, by decide +kernel⟩
  obtain ⟨e, hinst, hsearch, hget, hcont⟩ := heval
  obtain ⟨⟨rc, e', o⟩, hres, rfl⟩ := Option.map_eq_some_iff.mp hcont
  have htype : (TypeTls.tlsRequest 6 0x20 []).type = 13 := by decide +kernel
  refine ⟨e, e', o, hinst, ⟨0, .iWillAuth, hsearch, by rwa [htype]⟩, ?_, Exec.result_of_toOption hres⟩
  obtain ⟨t₀, hintake, hsize⟩ : ∃ t₀ : TypeTls,
      (longHandler.intake longEngine (fun _ => some fun _ => 0) (TypeTls.tlsRequest 6 0x20 [])).result =
        .ok (.ask t₀) ∧ t₀.fragmentSize = 250 :=
    ⟨_, TypeTls.intake_tlsStart _ rfl (by decide +kernel) rfl, rfl⟩
  have hfits : (List.replicate 250 (22 : UInt8)).length ≤ t₀.fragmentSize := by
    rw [List.length_replicate, hsize]
  have hout : List.replicate 250 (22 : UInt8) ≠ [] :=
    List.length_pos_iff.mp (by rw [List.length_replicate]; decide)
  have hreply := TypeTls.replying_of_le (t := { t₀ with state := .recv }) hout hfits
  rw [List.length_replicate] at hreply
  rw [TypeTls.answer, hintake]
  exact ⟨_, hreply⟩

/-- The whole message in one packet. -/
theorem tlsLength_long : ∃ e e' o,
    (install (fun _ => some fun _ => 0) (.single 97) (.single 115) 250).result = .ok e ∧
    (e.process longVtable (fun _ => some fun _ => 0) (TypeTls.tlsRequest 6 0x20 [])
      ⟨fun _ => 0, 0⟩).result = .ok (.cont, e', o) ∧
    TypeTls.Copied ⟨fun _ => 0, 0⟩ o (List.replicate 250 22) ∧
    (TypeTls.LengthExact o 250 ↔ longHandler.CarryFree longEngine (fun _ => some fun _ => 0)
      (TypeTls.tlsRequest 6 0x20 []) ⟨fun _ => 0, 0⟩) := by
  obtain ⟨e, e', o, hinst, hreaches, ⟨t', hanswer⟩, hres⟩ := long_start
  obtain ⟨t'', ρ, hanswer', hcopied, hiff⟩ := tlsLength_iff hreaches (by decide) hres
  cases hanswer.symm.trans hanswer'
  simp only [TypeTls.Reaction.payload, List.length_replicate] at hiff
  exact ⟨e, e', o, hinst, hres, hcopied, hiff⟩

/-- With 250 bytes in the first packet the length is wrong. -/
theorem not_tlsLength_long : ∃ e e' o,
    (install (fun _ => some fun _ => 0) (.single 97) (.single 115) 250).result = .ok e ∧
    (e.process longVtable (fun _ => some fun _ => 0) (TypeTls.tlsRequest 6 0x20 [])
      ⟨fun _ => 0, 0⟩).result = .ok (.cont, e', o) ∧
    TypeTls.Copied ⟨fun _ => 0, 0⟩ o (List.replicate 250 22) ∧ ¬TypeTls.LengthExact o 250 := by
  obtain ⟨e, e', o, hinst, hreaches, ⟨t', hanswer⟩, hres⟩ := long_start
  obtain ⟨t'', ρ, hanswer', ho⟩ := hreaches.response hres
  cases hanswer.symm.trans hanswer'
  obtain ⟨hdata, hmem⟩ := straightReturn_mem e (TypeTls.tlsRequest 6 0x20 [])
    ((TypeTls.Reaction.part (some 250) false (List.replicate 250 22)).apply ⟨fun _ => 0, 0⟩)
    (TypeTls.tlsRequest 6 0x20 []).type
  subst ho
  refine ⟨e, e', _, hinst, hres, (TypeTls.Reaction.copied _ _).congr hdata hmem, fun hexact => ?_⟩
  have hlen : (TypeTls.Reaction.part (some 250) false (List.replicate 250 22)).payload.length = 250 :=
    List.length_replicate
  have hiff := lengthExact_iff e (TypeTls.tlsRequest 6 0x20 []) ⟨fun _ => 0, 0⟩
    (.part (some 250) false (List.replicate 250 22)) (by rw [hlen]; decide)
  rw [hlen, TypeTls.Reaction.Fits, List.length_replicate] at hiff
  exact absurd (hiff.mp hexact) (by decide)

end EapState

end Dot1x.Eap
