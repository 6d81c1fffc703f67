import Dot1x.Eap.TypeTls

/-!
# The receive buffer of the EAP-TLS handler

While fragments are received the two offsets should satisfy `cur ≤ end ≤ size`. A fragment that
continues a message is checked against what remains, and a message of a single packet is as long
as its payload. Only the first of several fragments is not checked: the buffer is made as large
as the length the peer declares, and the payload is copied whatever its length. So the invariant
holds along a sequence of packets exactly as long as no first fragment is longer than the message
it declares.
-/

namespace Dot1x.Eap

open Dot1x.Base Dot1x.Wire

/-- A copy from the input stays inside its destination. -/
def Effect.Inside : Effect → Prop
  | .copyIn n off size => off + n ≤ size
  | _ => True

/-- What happens to a handler: it is handed a packet, or aborted. -/
inductive TlsEvent
  | packet (heap : Heap) (input output : EapPacket)
  | abort

namespace TypeTls

/-- `recv_buffer ≤ cur ≤ end ≤ recv_buffer + size` while fragments are received. -/
def InBuffer (t : TypeTls) : Prop :=
  ∀ cur stop, t.state = .fragRecv cur stop → cur ≤ stop ∧ stop ≤ t.recvBuffer.size

/-- The invariant holds and every copy stays inside, from a state on and for as long as calls
return. -/
def BufferSafe (E : Engine) (t : TypeTls) : List TlsEvent → Prop
  | [] => t.InBuffer
  | .abort :: events => t.InBuffer ∧ BufferSafe E t.abort events
  | .packet heap input output :: events => t.InBuffer ∧
      (t.process E heap input output).Sat Effect.Inside fun r => BufferSafe E r.2.1 events

/-- A packet is the first of several fragments, room for the message it declares can be had, and
its own payload is longer than that message. -/
def Overlong (t : TypeTls) (heap : Heap) (input : TlsPacket) : Prop :=
  t.state = .recv ∧ classifyPacket input (pduLen input) = .tlsFrag ∧ input.hasLength ∧
    (t.recvBuffer.size < input.tlsLen → (heap input.tlsLen).isSome) ∧ input.tlsLen < pduLen input

/-- No packet of a sequence is an overlong first fragment in the state in which it arrives. -/
def FragmentsFit (E : Engine) (t : TypeTls) : List TlsEvent → Prop
  | [] => True
  | .abort :: events => FragmentsFit E t.abort events
  | .packet heap input output :: events => ¬t.Overlong heap input ∧
      ∀ rc t' o, (t.process E heap input output).result = .ok (rc, t', o) → FragmentsFit E t' events

variable {E : Engine} {t t' : TypeTls} {heap : Heap} {input output o : EapPacket} {rc : Ret}

/-- Outside of the state of receiving fragments there is nothing to show. -/
theorem inBuffer_of_not_receiving (h : ¬t.state.Receiving) : t.InBuffer := by
  intro cur stop hstate
  rw [hstate] at h
  exact absurd trivial h

/-- Handing a message to the engine keeps the invariant. -/
theorem InBuffer.tlsProcessing {n : ℕ} (h : t.InBuffer) :
    (tlsProcessing E t n output).Sat Effect.Inside fun r => r.2.1.InBuffer where
  effects := by simp
  value := by
    rintro ⟨rc, t', o⟩ hres
    obtain ⟨hsize, -, ⟨hsame, -⟩ | hother⟩ := tlsProcessing_result_eq_ok hres
    · intro cur stop hstate
      rw [hsize]
      exact h cur stop (hsame ▸ hstate)
    · exact inBuffer_of_not_receiving hother

/-- A payload for which there is room behind the offset is copied inside. -/
theorem recvNext_sat {cur len : ℕ} {p : TlsPacket} (h : cur + len ≤ t.recvBuffer.size) :
    (t.recvNext cur p len).Sat Effect.Inside fun t' =>
      t'.recvBuffer.size = t.recvBuffer.size ∧ t'.state = t.state where
  effects := by
    intro e he
    rw [recvNext_log, List.mem_singleton] at he
    exact he ▸ h
  value := by
    intro t' hres
    obtain ⟨-, rfl⟩ := recvNext_result_eq_ok.mp hres
    exact ⟨rfl, rfl⟩

/-- A message begins inside the buffer when its first payload is not longer than the message. -/
theorem recvFirst_sat {len max : ℕ} {p : TlsPacket} (hmax : max < 2 ^ 32)
    (h : ∀ g, (t.recvBuffer.need heap max).result = .ok g → len ≤ max) :
    (t.recvFirst heap p len max).Sat Effect.Inside fun t' =>
      len ≤ max ∧ max ≤ t'.recvBuffer.size ∧ t'.state = t.state := by
  refine (Exec.Sat.of_effects ?_).bind fun g hg => ?_
  · simp [Effect.Inside]
  · have hroom := Growable.le_size_of_need hg
    rw [toSize_of_lt hmax] at hroom
    have hlen := h g hg
    refine (recvNext_sat (show 0 + len ≤ g.size by omega)).mono (fun _ => id)
      fun t' ht' => ?_
    exact ⟨hlen, ht'.1 ▸ hroom, ht'.2⟩

/-- A packet keeps the invariant and its copies stay inside, unless it is overlong. -/
theorem processType_safe {n : ℕ} {type : PacketType} (hin : t.InBuffer) (hn : n < 2 ^ 32)
    (hfit : t.state = .recv → type = .tlsFrag → TlsPacket.hasLength input →
      ∀ g, (t.recvBuffer.need heap (TlsPacket.tlsLen input)).result = .ok g →
        n ≤ TlsPacket.tlsLen input) :
    (t.processType E heap input output n type).Sat Effect.Inside fun r => r.2.1.InBuffer := by
  unfold processType
  split
  · exact .pure hin
  split
  case h_1 hstate =>
    split
    · exact .pure hin
    · refine (Exec.Sat.of_effects (by simp)).bind fun t₁ h₁ => ?_
      obtain ⟨-, rfl⟩ := resetSsl_result_eq_ok.mp h₁
      refine InBuffer.tlsProcessing (inBuffer_of_not_receiving ?_)
      simp [hstate, TlsState.Receiving]
  case h_2 msg cur hstate =>
    split
    · exact .pure hin
    · refine (Exec.Sat.of_effects (by simp)).bind fun r _ => .pure (inBuffer_of_not_receiving ?_)
      dsimp only
      split <;> exact id
  case h_3 cur stop hstate =>
    obtain ⟨hle, hsize⟩ := hin cur stop hstate
    split
    · split
      · exact .pure hin
      · rename_i hremain
        rw [wrapSub_of_le hle] at hremain
        refine (recvNext_sat (by omega)).bind fun t₁ ht₁ => ?_
        have hnext : InBuffer { t₁ with state := .fragRecv (cur + n) stop } := by
          intro cur' stop' hstate'
          cases hstate'
          exact ⟨by omega, ht₁.1 ▸ hsize⟩
        split
        · exact .pure hnext
        · exact hnext.tlsProcessing
    · exact .pure hin
  case h_4 hstate =>
    split
    · rename_i htype
      split
      · exact .pure hin
      · rename_i hlength
        refine (recvFirst_sat (TlsPacket.tlsLen_lt input)
          (hfit hstate htype (not_not.mp hlength))).bind fun t₁ ht₁ => .pure ?_
        intro cur' stop' hstate'
        cases hstate'
        exact ⟨ht₁.1, ht₁.2.1⟩
    · split
      · refine (recvFirst_sat hn fun _ _ => Nat.le_refl n).bind fun t₁ ht₁ => ?_
        refine InBuffer.tlsProcessing (inBuffer_of_not_receiving ?_)
        rw [ht₁.2.2, hstate]
        exact id
      · exact .pure hin

/-- Room for the declared length can be had exactly when the buffer grants it. -/
theorem need_tlsLen_result {p : TlsPacket} :
    (∃ g, (t.recvBuffer.need heap p.tlsLen).result = .ok g) ↔
      (t.recvBuffer.size < p.tlsLen → (heap p.tlsLen).isSome) := by
  simp only [Growable.need_result_eq_ok, toSize_of_lt p.tlsLen_lt, Option.isSome_iff_exists]
  by_cases hlt : t.recvBuffer.size < p.tlsLen
  · simp only [hlt, true_imp_iff]
    exact ⟨fun ⟨_, m, hm, _⟩ => ⟨m, hm⟩, fun ⟨m, hm⟩ => ⟨_, m, hm, rfl⟩⟩
  · simp [hlt]

/-- One packet that is not overlong. -/
theorem process_safe (hin : t.InBuffer) (hfit : ¬t.Overlong heap input) :
    (t.process E heap input output).Sat Effect.Inside fun r => r.2.1.InBuffer := by
  refine (Exec.Sat.of_effects ?_).bind fun n hn => ?_
  · rw [tlsPduLen_log]
    split <;> simp [Effect.Inside]
  · rw [tlsPduLen_result] at hn
    cases hn
    refine processType_safe hin (pduLen_lt input) fun hstate htype hlength g hg => ?_
    by_contra hlong
    exact hfit ⟨hstate, htype, hlength, need_tlsLen_result.mp ⟨g, hg⟩, by omega⟩

/-- One packet that is overlong: its payload leaves the buffer, or the offsets end up in the
wrong order. -/
theorem not_process_safe (hlong : t.Overlong heap input) :
    ¬(t.process E heap input output).Sat Effect.Inside fun r => r.2.1.InBuffer := by
  obtain ⟨hstate, htype, hlength, hgrant, hlt⟩ := hlong
  intro hsafe
  obtain ⟨g, hg⟩ := need_tlsLen_result.mpr hgrant
  have heq : t.processType E heap input output (pduLen input) .tlsFrag = (do
      let t' ← recvFirst t heap input (pduLen input) (TlsPacket.tlsLen input)
      pure (.cont, { t' with state := .fragRecv (pduLen input) (TlsPacket.tlsLen input) },
        makeAck output)) := by
    simp [processType, hstate, hlength]
  have hlog : .copyIn (pduLen input) 0 g.size ∈ (t.process E heap input output).log := by
    rw [process_log, htype, heq]
    refine List.mem_append_right _ (Exec.mem_log_bind_left ?_)
    rw [recvFirst, Exec.log_bind_of_ok hg, recvNext_log]
    simp
  have hroom : 0 + pduLen input ≤ g.size := hsafe.effects _ hlog
  have hres : ∃ t', (t.process E heap input output).result = .ok (.cont, t', makeAck output) ∧
      t'.state = .fragRecv (pduLen input) (TlsPacket.tlsLen input) := by
    rw [process_result, htype, heq]
    exact ⟨_, Exec.result_bind_eq_ok.mpr
      ⟨_, recvFirst_result_eq_ok.mpr ⟨g, hg, by omega, rfl⟩, rfl⟩, rfl⟩
  obtain ⟨t', hok, hstate'⟩ := hres
  have horder := (hsafe.value _ hok _ _ hstate').1
  omega

/-- The invariant holds along a sequence exactly as long as no first fragment is overlong. -/
theorem bufferSafe_iff_fragmentsFit (hin : t.InBuffer) (events : List TlsEvent) :
    BufferSafe E t events ↔ FragmentsFit E t events := by
  induction events generalizing t with
  | nil => simpa [BufferSafe, FragmentsFit] using hin
  | cons event events ih =>
    cases event with
    | abort =>
      have hnext : t.abort.InBuffer := inBuffer_of_not_receiving id
      simp only [BufferSafe, FragmentsFit, ih hnext, hin, true_and]
    | packet heap input output =>
      constructor
      · rintro ⟨-, hsafe⟩
        have hfit : ¬t.Overlong heap input := by
          intro hlong
          refine not_process_safe hlong (hsafe.mono (fun _ => id) fun r hr => ?_)
          cases events with
          | nil => exact hr
          | cons event' _ => cases event' <;> exact hr.1
        refine ⟨hfit, fun rc t' o hres => ?_⟩
        have hnext := (process_safe hin hfit).value _ hres
        exact (ih hnext).mp (hsafe.value _ hres)
      · rintro ⟨hfit, hrest⟩
        have hstep : (t.process E heap input output).Sat Effect.Inside fun r => r.2.1.InBuffer :=
          process_safe hin hfit
        refine ⟨hin, hstep.effects, fun r hres => ?_⟩
        exact (ih (hstep.value r hres)).mpr (hrest _ _ _ hres)

/-- A new handler has nothing in its buffer yet. -/
private theorem new_inBuffer {frags : ℕ} (h : (new heap frags).result = .ok t) : t.InBuffer := by
  obtain ⟨m, -, h⟩ := Exec.result_bind_eq_ok.mp h
  cases h
  exact inBuffer_of_not_receiving id

/-- From a new handler on, the invariant holds along a sequence of packets, whatever the engine
does, exactly as long as no first fragment is overlong. -/
theorem new_bufferSafe_iff {frags : ℕ} (h : (new heap frags).result = .ok t) (E : Engine)
    (events : List TlsEvent) : BufferSafe E t events ↔ FragmentsFit E t events :=
  bufferSafe_iff_fragmentsFit (new_inBuffer h) events

/-- A request of type EAP-TLS with the given length, flags and following bytes. -/
def tlsRequest (len flags : UInt8) (bytes : List UInt8) : EapPacket :=
  ⟨write (fun _ => 0) 0 ([1, 9, 0, len, 13, flags] ++ bytes), 0⟩

/-- An engine that asks for more and has nothing to say. -/
def silentEngine : Engine := ⟨fun _ => true, fun _ => some ⟨.moreData, []⟩⟩

/-- A handler as the constructor returns it. -/
def blankHandler : TypeTls := ⟨⟨1024, fun _ => 0, by decide⟩, [], 1024, .start, false⟩

/-- The session is started, then the first fragment of a message is received. -/
def firstFragment (len : UInt8) (declared : UInt8) : List TlsEvent :=
  [.packet (fun _ => some fun _ => 0) (tlsRequest 6 0x20 []) ⟨fun _ => 0, 0⟩,
   .packet (fun _ => some fun _ => 0) (tlsRequest len 0xc0 [0, 0, 0, declared]) ⟨fun _ => 0, 0⟩]

/-- A first fragment that is not longer than its message keeps the invariant. -/
theorem new_bufferSafe_short : BufferSafe silentEngine blankHandler (firstFragment 20 100) := by
  have hnew : (new (fun _ => some fun _ => 0) 1024).result = .ok blankHandler := rfl
  refine (new_bufferSafe_iff hnew _ _).mpr ?_
  refine ⟨fun h => (nomatch h.1), fun rc t' o _ => ⟨fun h => ?_, fun _ _ _ _ => trivial⟩⟩
  exact absurd h.2.2.2.2 (by decide +kernel)

/-- A first fragment of ten bytes of a message declared to have five breaks it. -/
theorem not_bufferSafe_long : (new (fun _ => some fun _ => 0) 1024).result = .ok blankHandler ∧
    ¬BufferSafe silentEngine blankHandler (firstFragment 20 5) := by
  refine ⟨rfl, fun hsafe => ?_⟩
  have hfit := (bufferSafe_iff_fragmentsFit (inBuffer_of_not_receiving id) _).mp hsafe
  have htype : classifyPacket (tlsRequest 6 0x20 []) (pduLen (tlsRequest 6 0x20 [])) =
      .tlsStart := by
    decide +kernel
  have hstart : (blankHandler.process silentEngine (fun _ => some fun _ => 0)
      (tlsRequest 6 0x20 []) ⟨fun _ => 0, 0⟩).result = _ := process_result
  rw [htype] at hstart
  refine (hfit.2 _ _ _ hstart).1 ⟨rfl, ?_, ?_, ?_, ?_⟩ <;> decide +kernel

end TypeTls

end Dot1x.Eap
