import Dot1x.Eap.Stores

/-!
# The room an answer takes

The output packet has as much room as the owner of the buffer gave it; nobody asks for it. What an
answer takes of it depends on who gives it: the name of the user, a part of the engine's output as
large as the fragment size allows, or a fixed number of bytes. Where all of that fits, nothing is
stored behind the room, and the length of the response does not exceed it.
-/

namespace Dot1x.Eap

open Dot1x.Base Dot1x.Wire

/-- The length of a packet with the header added by `operator +=`. -/
def withHeader (len : ℕ) : ℕ := len / 256 * 256 + (len % 256 + EapPacket.headerLen) % 256

/-- Every block is stored within the first bytes of a packet. -/
def Within (room : ℕ) (S : Stores) : Prop := ∀ s ∈ S, s.1 + s.2.length ≤ room

namespace TypeTls

/-- The engine's output is sent within the room. Where there is none the response has the length that
the output packet had before, and the header. -/
def OutputFits (room stale fragmentSize : ℕ) (out : List UInt8) : Prop :=
  if out = [] then EapPacket.headerLen ≤ room ∧ withHeader stale ≤ room
  else 0 < chunkLen fragmentSize out.length ∧ 10 + chunkLen fragmentSize out.length ≤ room

/-- The answer to what a packet amounted to is sent within the room. -/
def IntakeFits (E : Engine) (room stale : ℕ) (t : TypeTls) : Intake → Prop
  | .reject => True
  | .ack _ => 6 ≤ room
  | .resume msg cur =>
    0 < chunkLen t.fragmentSize (msg.length - cur) ∧
      6 + chunkLen t.fragmentSize (msg.length - cur) ≤ room
  | .ask t' =>
    match E.processMsg t'.calls with
    | none => True
    | some ⟨.success, _⟩ => 6 ≤ room
    | some ⟨.failed, out⟩ => t'.failedOnce ∨ OutputFits room stale t'.fragmentSize out
    | some ⟨.moreData, out⟩ => OutputFits room stale t'.fragmentSize out

/-- The answer to a packet is sent within the room. -/
def Fits (E : Engine) (room stale : ℕ) (t : TypeTls) (heap : Heap) (input : EapPacket) : Prop :=
  ∀ x, (t.intake E heap input).result = .ok x → t.IntakeFits E room stale x

/-- `frame_next` is called with nothing to copy, and copies until something stops it. -/
def RunsAway (E : Engine) (t : TypeTls) (heap : Heap) (input : EapPacket) : Prop :=
  ∃ x, (t.intake E heap input).result = .ok x ∧ t.outcome E x = none ∧
    ∀ t', x = .ask t' → E.processMsg t'.calls ≠ none

end TypeTls

/-- The answer of a handler is sent within the room. -/
def Handler.Fits (E : Engine) (room stale : ℕ) (heap : Heap) (input : EapPacket) : Handler → Prop
  | .notification => EapPacket.headerLen ≤ room
  | .identity t => EapPacket.headerLen + t.id.length ≤ room
  | .md5 t => EapPacket.headerLen + (17 + t.idBuf.length) ≤ room
  | .tls t => t.Fits E room stale heap input

/-- The response to a packet is sent within the room. -/
def EapState.Fits (V : Vtable Handler) (E : Engine) (room stale : ℕ) (e : EapState Handler)
    (heap : Heap) (input : EapPacket) : Prop :=
  input.code = request →
    match search V input e.handlers with
    | some r => ∀ hd, (e.claim V r.1 r.2 input.type).handlers[r.1]? = some hd →
        hd.Fits E room stale heap input
    | none => (e.handlers.findSome? Handler.nakType).isSome → EapPacket.headerLen + 1 ≤ room

variable {digest : Digest} {E : Engine} {e e' : EapState Handler} {heap : Heap}
  {input output o : EapPacket} {room stale : ℕ} {hd : Handler} {rc : Ret} {S : Stores}

/-- Adding the header adds five at most, also where the low byte wraps around. -/
theorem withHeader_le (n : ℕ) : withHeader n ≤ n + EapPacket.headerLen := by
  have hlow := Nat.mod_le (n % 256 + EapPacket.headerLen) 256
  unfold withHeader
  omega

/-- What is stored within the room leaves what lies behind it alone. -/
theorem Within.behind (h : Within room S) {a : ℕ} (ha : output.data + room ≤ a) :
    (output.storeAll S).mem a = output.mem a := by
  refine Pointer.storeAll_mem_of_outside fun s hs => Or.inr ?_
  have hwithin := h s hs
  omega

/-- Stores within the room stay there when they are put together. -/
theorem Within.append {S' : Stores} (h : Within room S) (h' : Within room S') :
    Within room (S ++ S') :=
  List.forall_mem_append.mpr ⟨h, h'⟩

/-- The EAP layer finishes a response within its header. -/
theorem within_finalStores (hroom : EapPacket.headerLen ≤ room) (o : EapPacket) (type id : ℕ) :
    Within room (finalStores o type id) := by
  have hhdr : EapPacket.headerLen = 5 := rfl
  simp only [Within, finalStores, List.forall_mem_cons, List.length_cons, List.length_nil]
  exact ⟨by omega, by omega, by omega, List.forall_mem_nil _⟩

/-- A length that is stored last is the length of the packet. -/
private theorem len_storeAll_snoc (output : EapPacket) (S : Stores) (n : ℕ) :
    EapPacket.len (output.storeAll (S ++ [lenStore n])) = n % 2 ^ 16 := by
  rw [storeAll_append]
  change EapPacket.len ((output.storeAll S).store 2 [UInt8.ofNat (n / 256), UInt8.ofNat n]) = _
  rw [← EapPacket.setLen_eq, EapPacket.len_setLen]

/-- Stores within the room that end with the length of what they store. -/
theorem fits_of_lenStore (output : EapPacket) {n : ℕ} (hwithin : Within room S)
    (hn : EapPacket.headerLen + n ≤ room) :
    Within room (S ++ [lenStore n]) ∧
      withHeader (EapPacket.len (output.storeAll (S ++ [lenStore n]))) ≤ room := by
  have hhdr : EapPacket.headerLen = 5 := rfl
  constructor
  · refine hwithin.append fun s hs => ?_
    rw [List.mem_singleton.mp hs]
    change 2 + 2 ≤ room
    omega
  · rw [len_storeAll_snoc]
    have hheader := withHeader_le (n % 2 ^ 16)
    have hmod := Nat.mod_le n (2 ^ 16)
    exact Nat.le_trans hheader (by omega)

namespace TypeTls

variable {t t' : TypeTls} {a : Answer} {out msg part : List UInt8} {cur : ℕ} {declared : Option ℕ}
  {more : Bool}

/-- The reaction is written within the room, and the response is not longer. -/
structure Reaction.Within (ρ : Reaction) (room : ℕ) (output : TlsPacket) : Prop where
  header : EapPacket.headerLen ≤ room
  stores : Eap.Within room ρ.stores
  len : withHeader (ρ.apply output).len ≤ room

/-- An acknowledgement takes six bytes. -/
theorem within_ack (hroom : 6 ≤ room) : Reaction.ack.Within room output := by
  have hzero : Eap.Within room [(5, [0])] := by simpa [Eap.Within] using hroom
  obtain ⟨hstores, hlen⟩ := fits_of_lenStore output (n := 1) hzero hroom
  exact ⟨Nat.le_trans (by decide) hroom, hstores, hlen⟩

/-- The length of a framed part is not larger than what is framed. -/
private theorem len_framed_le : (framed output declared more part).len ≤
    declaredLen declared + (part.length + 1) := by
  rw [framed_len]
  omega

/-- A part takes the header, the flags, the length if it is declared, and its bytes. -/
theorem within_part (hroom : 6 + declaredLen declared + part.length ≤ room) :
    (Reaction.part declared more part).Within room output := by
  have hhdr : EapPacket.headerLen = 5 := rfl
  refine ⟨by omega, ?_, ?_⟩
  · simp only [Eap.Within, Reaction.stores, partStores, headStores, bodyStores, List.cons_append,
      List.nil_append, List.forall_mem_cons, List.length_cons, List.length_nil, declaredBytes_length]
    exact ⟨by omega, by omega, by omega, by omega, by omega, by omega, List.forall_mem_nil _⟩
  · have hlen : ((Reaction.part declared more part).apply output).len ≤ _ := len_framed_le
    have hheader := withHeader_le ((Reaction.part declared more part).apply output).len
    omega

/-- Where there is something to copy a part is sent. -/
theorem nextPart_ne_nil (h : 0 < chunkLen t.fragmentSize (msg.length - cur)) :
    nextPart t.fragmentSize msg cur ≠ [] := by
  rw [← nextPart_length] at h
  exact List.length_pos_iff.mp h

/-- Output that fits is sent within the room. -/
theorem OutputFits.replying (h : OutputFits room output.len t.fragmentSize out) :
    ∃ a, t.replying out = some a ∧ a.1 = .cont ∧ a.2.2.Within room output := by
  unfold OutputFits at h
  unfold TypeTls.replying
  by_cases hout : out = []
  · rw [if_pos hout] at h ⊢
    exact ⟨_, rfl, rfl, h.1, List.forall_mem_nil _, h.2⟩
  · rw [if_neg hout] at h ⊢
    have hpart : nextPart t.fragmentSize out 0 ≠ [] := nextPart_ne_nil h.1
    have hlen : (nextPart t.fragmentSize out 0).length = chunkLen t.fragmentSize out.length :=
      nextPart_length
    rw [if_neg hpart]
    refine ⟨_, rfl, rfl, within_part ?_⟩
    change 6 + 4 + _ ≤ room
    omega

/-- Where the answer fits there is one unless the engine throws, and what it writes is within the
room. -/
theorem IntakeFits.outcome {x : Intake} (h : t.IntakeFits E room output.len x)
    (hengine : ∀ t', x = .ask t' → E.processMsg t'.calls ≠ none) :
    ∃ a, t.outcome E x = some a ∧
      (a.2.2.Within room output ∨ a.1 ≠ .cont ∧ a.2.2 = .nothing) := by
  cases x with
  | reject =>
    refine ⟨_, rfl, Or.inr ⟨?_, rfl⟩⟩
    intro hcont
    cases hcont
  | ack t' => exact ⟨_, rfl, Or.inl (within_ack h)⟩
  | resume msg cur =>
    obtain ⟨hpos, hroom⟩ := h
    have hpart : nextPart t.fragmentSize msg cur ≠ [] := nextPart_ne_nil hpos
    rw [TypeTls.outcome, if_neg hpart]
    refine ⟨_, rfl, Or.inl (within_part ?_)⟩
    rw [nextPart_length]
    exact hroom
  | ask t' =>
    simp only [IntakeFits] at h
    simp only [TypeTls.outcome]
    cases hreply : E.processMsg t'.calls with
    | none => exact absurd hreply (hengine t' rfl)
    | some reply =>
      obtain ⟨rc, out⟩ := reply
      rw [hreply] at h
      have hsend {t₁ : TypeTls} (hsize : t₁.fragmentSize = t'.fragmentSize)
          (h : OutputFits room output.len t'.fragmentSize out) :
          ∃ a, t₁.replying out = some a ∧
            (a.2.2.Within room output ∨ a.1 ≠ .cont ∧ a.2.2 = .nothing) := by
        obtain ⟨a, ha, -, hwithin⟩ := OutputFits.replying (t := t₁) (hsize ▸ h)
        exact ⟨a, ha, Or.inl hwithin⟩
      cases rc with
      | success => exact ⟨_, rfl, Or.inl (within_ack h)⟩
      | moreData => exact hsend rfl h
      | failed =>
        dsimp only
        by_cases hfailed : t'.failedOnce = true
        · rw [if_pos hfailed]
          refine ⟨_, rfl, Or.inr ⟨?_, rfl⟩⟩
          intro hcont
          cases hcont
        · rw [if_neg hfailed]
          exact hsend rfl (h.resolve_left hfailed)

/-- Where the answer fits `frame_next` has something to copy. -/
theorem Fits.not_runsAway (h : t.Fits E room output.len heap input) : ¬t.RunsAway E heap input := by
  rintro ⟨x, hx, hnone, hengine⟩
  obtain ⟨a, ha, -⟩ := (h x hx).outcome hengine
  rw [hnone] at ha
  cases ha

/-- What an answer that fits writes. -/
theorem Fits.within (h : t.Fits E room output.len heap input) (hanswer : t.answer E heap input = some a) :
    a.2.2.Within room output ∨ a.1 ≠ .cont ∧ a.2.2 = .nothing := by
  obtain ⟨x, hx, houtcome⟩ := Option.bind_eq_some_iff.mp hanswer
  have hengine : ∀ t', x = .ask t' → E.processMsg t'.calls ≠ none := by
    intro t' hask hthrows
    subst hask
    simp only [TypeTls.outcome, hthrows] at houtcome
    cases houtcome
  obtain ⟨a', ha', hwithin⟩ := (h x (Exec.result_of_toOption hx)).outcome hengine
  cases houtcome.symm.trans ha'
  exact hwithin

end TypeTls

/-- What a handler whose answer fits writes. -/
theorem Handler.Fits.within (hfits : hd.Fits E room output.len heap input)
    (h : hd.Writes E heap input rc S) :
    Within room S ∧ (rc = .cont → EapPacket.headerLen ≤ room ∧
      withHeader (EapPacket.len (output.storeAll S)) ≤ room) := by
  have hstored {S : Stores} {n : ℕ} (hwithin : Within room S) (hn : EapPacket.headerLen + n ≤ room) :
      Within room (S ++ [lenStore n]) ∧ (Ret.cont = .cont → EapPacket.headerLen ≤ room ∧
        withHeader (EapPacket.len (output.storeAll (S ++ [lenStore n]))) ≤ room) := by
    obtain ⟨hstores, hlen⟩ := fits_of_lenStore output hwithin hn
    exact ⟨hstores, fun _ => ⟨Nat.le_trans (Nat.le_add_right ..) hn, hlen⟩⟩
  have hhdr : EapPacket.headerLen = 5 := rfl
  cases h with
  | notification => exact hstored (S := []) (List.forall_mem_nil _) hfits
  | identity t =>
    have hroom : EapPacket.headerLen + t.id.length ≤ room := hfits
    exact hstored (S := [(5, t.id)]) (by simpa [Within, hhdr] using hroom) hroom
  | md5 t value =>
    refine hstored (S := [(6, value.toList), (5, [16]), (22, t.idBuf)]) ?_ hfits
    have hroom : EapPacket.headerLen + (17 + t.idBuf.length) ≤ room := hfits
    simp only [Within, List.forall_mem_cons, List.length_cons, List.length_nil, Vector.length_toList]
    exact ⟨by omega, by omega, by omega, List.forall_mem_nil _⟩
  | @tls t a hanswer =>
    rcases TypeTls.Fits.within hfits hanswer with hwithin | ⟨hrc, hnothing⟩
    · exact ⟨hwithin.stores, fun _ => ⟨hwithin.header, hwithin.len⟩⟩
    · rw [hnothing]
      exact ⟨List.forall_mem_nil _, fun hcont => absurd hcont hrc⟩

namespace EapState

/-- A packet leaves what lies behind the room alone, and a response is not longer than the room. -/
def AnswersInside (room : ℕ) (output : EapPacket) (rc : Ret) (o : EapPacket) : Prop :=
  (∀ a, output.data + room ≤ a → o.mem a = output.mem a) ∧ (rc = .cont → o.len ≤ room)

/-- Without a response it is enough that the stores are within the room. -/
theorem inside_of_ne (hrc : rc ≠ .cont) (hwithin : Within room S) :
    AnswersInside room output rc (output.storeAll S) :=
  ⟨fun _ ha => hwithin.behind ha, fun hcont => absurd hcont hrc⟩

/-- A response that is finished within the room. -/
theorem inside_of_storeAll (hroom : EapPacket.headerLen ≤ room) (hwithin : Within room S)
    (hlen : withHeader (EapPacket.len (output.storeAll S)) ≤ room) (type : ℕ) (e : EapState Handler)
    (input : EapPacket) :
    AnswersInside room output .cont
      (e.straightReturn input (EapPacket.setType (output.storeAll S) type)).2 := by
  refine ⟨fun a ha => ?_, fun _ => ?_⟩
  · rw [straightReturn_eq_storeAll, ← storeAll_append]
    exact (hwithin.append (within_finalStores hroom _ _ _)).behind ha
  · rw [len_straightReturn]
    exact hlen

/-- A handler whose answer fits is run within the room. -/
theorem runHandler_inside {i : ℕ}
    (hfits : ∀ hd, e.handlers[i]? = some hd → hd.Fits E room output.len heap input)
    (h : (e.runHandler (Handler.vtable digest E) i heap input output).result = .ok (rc, e', o)) :
    AnswersInside room output rc o := by
  unfold runHandler at h
  cases hget : e.handlers[i]? with
  | none => simp [hget] at h
  | some hd =>
    simp only [hget] at h
    obtain ⟨⟨rc', hd', o'⟩, hproc, hrest⟩ := Exec.result_bind_eq_ok.mp h
    obtain ⟨S, hS, hall⟩ := Handler.process_writes hproc
    cases hproc.symm.trans (hall output)
    obtain ⟨hwithin, hlen⟩ := (hfits hd hget).within hS
    cases rc' with
    | cont =>
      cases hrest
      obtain ⟨hroom, hlen⟩ := hlen rfl
      exact inside_of_storeAll hroom hwithin hlen input.type
        { e with handlers := e.handlers.set i hd' } input
    | inv =>
      dsimp only at hrest
      split at hrest <;> cases hrest <;> exact inside_of_ne (fun h => by cases h) hwithin
    | ok | fail | abort | old =>
      cases hrest
      exact inside_of_ne (fun h => by cases h) hwithin

/-- A type that is not wanted takes one byte behind the header. -/
private theorem nak_inside (hroom : EapPacket.headerLen + 1 ≤ room) (type : ℕ)
    (e : EapState Handler) (input : EapPacket) :
    AnswersInside room output .cont (e.straightReturn input
      (EapPacket.setType (answerWith output [(5, [UInt8.ofNat type])] 1) nak)).2 := by
  have hstored : answerWith output [(5, [UInt8.ofNat type])] 1 =
      output.storeAll ([(5, [UInt8.ofNat type])] ++ [lenStore 1]) := by
    rw [answerWith, EapPacket.setLen_eq]
    rfl
  obtain ⟨hwithin, hlen⟩ := fits_of_lenStore output (S := [(5, [UInt8.ofNat type])])
    (by simpa [Within, EapPacket.headerLen] using hroom) hroom
  rw [hstored]
  exact inside_of_storeAll (Nat.le_trans (Nat.le_succ _) hroom) hwithin hlen nak e input

/-- Where the response fits, a packet is processed without a store behind the room. -/
theorem process_inside (hfits : e.Fits (Handler.vtable digest E) E room output.len heap input)
    (hres : (process (Handler.vtable digest E) e heap input output).result = .ok (rc, e', o)) :
    o.data = output.data ∧ AnswersInside room output rc o := by
  refine ⟨(process_code (Handler.disciplined digest E) hres).1, ?_⟩
  have hkept {rc : Ret} (hrc : rc ≠ .cont) : AnswersInside room output rc output :=
    inside_of_ne (S := []) hrc (List.forall_mem_nil _)
  generalize hr : (rc, e', o) = r at hres
  cases process_outcome hres with
  | @handled i w _ hreq hsearch hrun =>
    have hfits := hfits hreq
    rw [hsearch] at hfits
    subst hr
    exact runHandler_inside hfits hrun
  | @nak o' hreq hsearch hnak =>
    have hfits := hfits hreq
    rw [hsearch] at hfits
    cases hr
    obtain ⟨type, htype, rfl⟩ := Option.map_eq_some_iff.mp ((findSome?_nakIt _ _).symm.trans hnak)
    exact nak_inside (hfits (by rw [htype]; rfl)) type e input
  | unsupported | succeeded =>
    cases hr
    exact hkept (by decide)
  | passed hreq hsuccess =>
    cases hr
    have hrc : rc ≠ .cont := by
      rintro rfl
      exact hreq (process_cont.mp hres).1
    exact hkept hrc

end EapState

end Dot1x.Eap
