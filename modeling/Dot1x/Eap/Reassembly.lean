import Dot1x.Eap.TypeTls

/-!
# Reassembly of TLS messages

A conforming peer sends a message in one packet or in fragments. All fragments but the last are
marked, the first of several declares the length of the message, and each is sent after the one
before was acknowledged. The receive buffer may be of any size and hold anything at the beginning;
from the first fragment on it is as large as the message and holds the fragments received so far.

The engine is called once, with the last fragment. What the handler does afterwards depends on
the engine's reply only, so that this is the one call made to it.
-/

namespace Dot1x.Eap

open Dot1x.Base Dot1x.Wire

namespace TypeTls

/-- A packet that carries a part of a message, marked if there is more to come, with the length of
the message if it declares one. -/
structure IsFragment (input : TlsPacket) (more : Bool) (declared : Option ℕ)
    (payload : List UInt8) : Prop where
  flags : input.tlsFlags = (if more then TlsPacket.moreFrags else 0) +
    if declared.isSome then TlsPacket.lengthIncluded else 0
  tlsLen : ∀ n ∈ declared, input.tlsLen = n
  len : input.len = EapPacket.headerLen + (if declared.isSome then 5 else 1) + payload.length
  data : slice input.mem (input.eapData + if declared.isSome then 5 else 1) payload.length = payload
  nonempty : payload ≠ []

/-- What is passed to a call of `process`. -/
structure Turn where
  heap : Heap
  input : EapPacket
  output : EapPacket

/-- The packets that carry the parts of a message behind the first one. -/
inductive Later : List (List UInt8) → List Turn → Prop
  | last {part : List UInt8} {turn : Turn} {declared : Option ℕ}
      (hpart : IsFragment turn.input false declared part) : Later [part] [turn]
  | more {part : List UInt8} {turn : Turn} {declared : Option ℕ} {parts : List (List UInt8)}
      {turns : List Turn} (hpart : IsFragment turn.input true declared part)
      (hlater : Later parts turns) : Later (part :: parts) (turn :: turns)

/-- The packets of a conforming peer for a message and a split of it. -/
inductive Conforming : List (List UInt8) → List Turn → Prop
  | whole {part : List UInt8} {turn : Turn} {declared : Option ℕ}
      (hpart : IsFragment turn.input false declared part) : Conforming [part] [turn]
  | split {part : List UInt8} {turn : Turn} {parts : List (List UInt8)} {turns : List Turn}
      (hpart : IsFragment turn.input true (some (part :: parts).flatten.length) part)
      (hlater : Later parts turns) : Conforming (part :: parts) (turn :: turns)

/-- The packets of these turns are acknowledged, one after the other. -/
inductive Acked (E : Engine) : TypeTls → List Turn → TypeTls → Prop
  | nil (t : TypeTls) : Acked E t [] t
  | cons {t t₁ t₂ : TypeTls} {turn : Turn} {turns : List Turn} {o : TlsPacket}
      (hres : (t.process E turn.heap turn.input turn.output).result = .ok (.cont, t₁, o))
      (hflags : o.tlsFlags = 0) (hlen : o.len = 1) (hrest : Acked E t₁ turns t₂) :
      Acked E t (turn :: turns) t₂

/-- What the handler does with the reply of the engine. -/
def engineReplied (t : TypeTls) (output : TlsPacket) :
    Option Reply → Call (Ret × TypeTls × EapPacket)
  | none => Exec.fail .tlsError
  | some ⟨.success, _⟩ => pure (.cont, { t with state := .start }, makeAck output)
  | some ⟨.failed, out⟩ =>
    if t.failedOnce then pure (.abort, t, output)
    else sendOutput { t with failedOnce := true, state := .recv } out output
  | some ⟨.moreData, out⟩ => sendOutput { t with state := .recv } out output

/-- The packet of a turn makes the handler call the engine once, with the given message, and
return what it makes of the reply. -/
def HandsOver (t : TypeTls) (turn : Turn) (msg : List UInt8) : Prop :=
  ∃ t' : TypeTls, t'.calls = .processMsg msg :: t.calls ∧
    ∀ E, (t.process E turn.heap turn.input turn.output).result =
      (t'.engineReplied turn.output (E.processMsg t'.calls)).result

/-- The handler with a part stored at an offset of its buffer. -/
def appended (t : TypeTls) (cur : ℕ) (part : List UInt8) : TypeTls :=
  { t with recvBuffer := { t.recvBuffer with buf := write t.recvBuffer.buf cur part } }

/-- There is room for a message, or it can be had. -/
def Grants (t : TypeTls) (heap : Heap) (n : ℕ) : Prop := t.recvBuffer.size < n → (heap n).isSome

/-- The handler has received a part of a message of a given length. -/
structure Holding (t : TypeTls) (n : ℕ) (received : List UInt8) : Prop where
  state : t.state = .fragRecv received.length n
  room : n ≤ t.recvBuffer.size
  buf : slice t.recvBuffer.buf 0 received.length = received

variable {t t' : TypeTls} {heap : Heap} {input output : EapPacket} {more : Bool}
  {declared : Option ℕ} {part received msg : List UInt8} {n : ℕ}

namespace IsFragment

/-- The byte of flags. -/
private theorem flags_eq (h : IsFragment input more declared part) :
    input.mem input.eapData = UInt8.ofNat ((if more then TlsPacket.moreFrags else 0) +
      if declared.isSome then TlsPacket.lengthIncluded else 0) := by
  rw [← h.flags]
  exact UInt8.ofNat_toNat.symm

/-- The flag for a length is set exactly if the fragment declares one. -/
theorem hasLength (h : IsFragment input more declared part) :
    TlsPacket.hasLength input = declared.isSome := by
  rw [TlsPacket.hasLength, h.flags_eq]
  cases more <;> cases declared.isSome <;> rfl

/-- The payload is where the handler looks for it. -/
theorem payload (h : IsFragment input more declared part) :
    slice input.mem (TlsPacket.tlsData input) part.length = part := by
  rw [TlsPacket.tlsData, h.hasLength]
  exact h.data

/-- The payload is as long as the handler takes it to be. -/
theorem pduLen (h : IsFragment input more declared part) :
    TypeTls.pduLen input = part.length := by
  have hlen := h.len
  simp only [EapPacket.headerLen] at hlen
  have hfirst : wrapSub input.len EapPacket.headerLen = input.len - 5 :=
    wrapSub_of_le (by simp only [EapPacket.headerLen]; omega)
  have hone : 1 ≤ input.len - 5 := by
    split at hlen <;> omega
  simp only [TypeTls.pduLen, h.hasLength, hfirst, wrapSub_of_le hone]
  split at hlen
  · rename_i hdeclared
    rw [if_pos hdeclared, wrapSub_of_le (by omega)]
    omega
  · rename_i hdeclared
    rw [if_neg hdeclared]
    omega

/-- A fragment is classified by the flag for more fragments. -/
theorem classify (h : IsFragment input more declared part) :
    classifyPacket input (TypeTls.pduLen input) = if more then .tlsFrag else .tlsData := by
  have hpos : part.length ≠ 0 := fun hzero => h.nonempty (List.length_eq_zero_iff.mp hzero)
  rw [classifyPacket, h.flags, h.pduLen, if_neg hpos]
  cases more <;> cases declared.isSome <;> rfl

/-- A fragment is short enough for a size. -/
theorem length_lt (h : IsFragment input more declared part) : part.length < 2 ^ 32 := by
  have hlen := h.len
  have hlt := input.len_lt
  omega

end IsFragment

/-- An acknowledgement has no flags and no data. -/
theorem makeAck_ack (output : TlsPacket) :
    TlsPacket.tlsFlags (makeAck output) = 0 ∧ (makeAck output).len = 1 := by
  refine ⟨?_, EapPacket.len_setLen _ _⟩
  change (Pointer.byte (makeAck output) 5).toNat = 0
  rw [makeAck, EapPacket.setLen_eq, Pointer.byte_store_of_outside (by simp),
    TlsPacket.setTlsFlags_eq, Pointer.byte_store, if_pos (by simp)]
  rfl

/-- The engine is called with the first bytes of the buffer. -/
theorem tlsProcessing_eq (E : Engine) (t : TypeTls) (hn : n ≠ 0) (output : TlsPacket) :
    tlsProcessing E t n output =
      engineReplied { t with calls := .processMsg (slice t.recvBuffer.buf 0 n) :: t.calls } output
        (E.processMsg (.processMsg (slice t.recvBuffer.buf 0 n) :: t.calls)) := by
  simp only [tlsProcessing, if_neg hn]
  rfl

/-- A payload for which there is room is stored. -/
theorem recvNext_fragment (hpart : IsFragment input more declared part) {cur : ℕ}
    (hroom : cur + part.length ≤ t.recvBuffer.size) :
    (t.recvNext cur input part.length).result = .ok (t.appended cur part) := by
  refine recvNext_result_eq_ok.mpr ⟨hroom, ?_⟩
  rw [hpart.payload]
  rfl

/-- A part behind what is there already. -/
theorem appended_buf (t : TypeTls) (part : List UInt8)
    (hbuf : slice t.recvBuffer.buf 0 received.length = received) :
    slice (t.appended received.length part).recvBuffer.buf 0 (received ++ part).length =
      received ++ part := by
  have hold : slice (write t.recvBuffer.buf received.length part) 0 received.length = received := by
    rw [slice_write_disjoint (Or.inl (by omega)), hbuf]
  rw [List.length_append, ← slice_append, Nat.zero_add]
  simp only [appended]
  rw [hold, slice_write_self]

/-- A further fragment is appended and acknowledged. -/
theorem Holding.fragment (h : t.Holding n received) (heap : Heap) (output : EapPacket)
    (hpart : IsFragment input true declared part)
    (hfit : received.length + part.length ≤ n) :
    ∃ t', (∀ E, (t.process E heap input output).result = .ok (.cont, t', makeAck output)) ∧
      t'.Holding n (received ++ part) ∧ t'.calls = t.calls := by
  have hnext := recvNext_fragment (t := t) hpart (Nat.le_trans hfit h.room)
  have hremain : ¬wrapSub n received.length < part.length := by
    rw [wrapSub_of_le (by omega)]
    omega
  refine ⟨{ t.appended received.length part with
    state := .fragRecv (received.length + part.length) n }, fun E => ?_, ?_, rfl⟩
  · rw [process_result, hpart.classify, hpart.pduLen]
    simp only [processType, h.state, if_true, true_or, if_neg hremain]
    rw [Exec.result_bind_of_ok hnext]
    rfl
  · exact ⟨by rw [List.length_append], h.room, appended_buf t part h.buf⟩

/-- The last fragment makes the handler call the engine with what was received. -/
theorem Holding.lastFragment (h : t.Holding n received) {turn : Turn}
    (hpart : IsFragment turn.input false declared part)
    (hfit : received.length + part.length ≤ n) : t.HandsOver turn (received ++ part) := by
  have hnext := recvNext_fragment (t := t) hpart (Nat.le_trans hfit h.room)
  have hremain : ¬wrapSub n received.length < part.length := by
    rw [wrapSub_of_le (by omega)]
    omega
  have hpos : received.length + part.length ≠ 0 := by
    have hpart' := List.length_pos_iff.mpr hpart.nonempty
    omega
  have hbuf := appended_buf t part h.buf
  rw [List.length_append] at hbuf
  refine ⟨{ t.appended received.length part with
    calls := .processMsg (received ++ part) :: t.calls,
    state := .fragRecv (received.length + part.length) n }, rfl, fun E => ?_⟩
  rw [process_result, hpart.classify, hpart.pduLen]
  simp only [processType, h.state, Bool.false_eq_true, if_false, or_true, if_true, if_neg hremain]
  rw [Exec.result_bind_of_ok hnext]
  simp only [reduceCtorEq, if_false]
  rw [tlsProcessing_eq _ _ hpos, hbuf]
  rfl

/-- A message begins in a buffer that has room for it. -/
theorem recvFirst_fragment (hgrants : t.Grants heap n) (hn : n < 2 ^ 32)
    (hpart : IsFragment input more declared part) (hfit : part.length ≤ n) :
    ∃ g : Growable, n ≤ g.size ∧ (t.recvFirst heap input part.length n).result =
      .ok ({ t with recvBuffer := g }.appended 0 part) := by
  have hneed : ∃ g, (t.recvBuffer.need heap n).result = .ok g := by
    simp only [Growable.need_result_eq_ok, toSize_of_lt hn]
    by_cases hlt : t.recvBuffer.size < n
    · obtain ⟨m, hm⟩ := Option.isSome_iff_exists.mp (hgrants hlt)
      exact ⟨.fresh n m, by rw [if_pos hlt]; exact ⟨m, hm, rfl⟩⟩
    · exact ⟨t.recvBuffer, if_neg hlt ▸ rfl⟩
  obtain ⟨g, hg⟩ := hneed
  have hsize := Growable.le_size_of_need hg
  rw [toSize_of_lt hn] at hsize
  refine ⟨g, hsize, ?_⟩
  rw [recvFirst, Exec.result_bind_of_ok hg]
  exact recvNext_fragment hpart (by rw [Nat.zero_add]; exact Nat.le_trans hfit hsize)

/-- Without room there is no message. -/
theorem recvFirst_of_not_grants (hgrants : ¬t.Grants heap n) (hn : n < 2 ^ 32) (len : ℕ) :
    (t.recvFirst heap input len n).result = .error .outOfMem := by
  obtain ⟨hlt, hnone⟩ : t.recvBuffer.size < n ∧ heap n = none := by
    simpa [Grants] using hgrants
  refine Exec.result_bind_eq_error.mpr (Or.inl ?_)
  rw [Growable.need, Exec.result_bind_of_ok rfl, toSize_of_lt hn, if_pos hlt]
  exact Exec.result_bind_eq_error.mpr (Or.inl (by rw [alloc, hnone]; rfl))

/-- The first of several fragments is stored and acknowledged. -/
theorem firstFragment_ack (output : EapPacket) (hrecv : t.state = .recv) (hgrants : t.Grants heap n)
    (hpart : IsFragment input true (some n) part) (hfit : part.length ≤ n) :
    ∃ t', (∀ E, (t.process E heap input output).result = .ok (.cont, t', makeAck output)) ∧
      t'.Holding n part ∧ t'.calls = t.calls := by
  have htls : TlsPacket.tlsLen input = n := hpart.tlsLen n rfl
  have hn : n < 2 ^ 32 := htls ▸ TlsPacket.tlsLen_lt input
  have hlength : TlsPacket.hasLength input := hpart.hasLength
  obtain ⟨g, hsize, hfirst⟩ := recvFirst_fragment hgrants hn hpart hfit
  refine ⟨{ { t with recvBuffer := g }.appended 0 part with state := .fragRecv part.length n },
    fun E => ?_, ⟨rfl, hsize, slice_write_self ..⟩, rfl⟩
  rw [process_result, hpart.classify, hpart.pduLen]
  simp only [processType, hrecv, if_true, hlength, not_true, if_false, htls]
  rw [Exec.result_bind_of_ok hfirst]
  rfl

/-- A message in one packet is handed to the engine at once. -/
theorem wholeMessage_handsOver (hrecv : t.state = .recv) {turn : Turn}
    (hgrants : t.Grants turn.heap part.length)
    (hpart : IsFragment turn.input false declared part) : t.HandsOver turn part := by
  have hpos : part.length ≠ 0 := fun hzero => hpart.nonempty (List.length_eq_zero_iff.mp hzero)
  obtain ⟨g, -, hfirst⟩ := recvFirst_fragment hgrants hpart.length_lt hpart (Nat.le_refl _)
  refine ⟨{ { t with recvBuffer := g }.appended 0 part with
    calls := .processMsg part :: t.calls }, rfl, fun E => ?_⟩
  rw [process_result, hpart.classify, hpart.pduLen]
  simp only [processType, hrecv, Bool.false_eq_true, if_false, reduceCtorEq, if_true]
  rw [Exec.result_bind_of_ok hfirst]
  have hbuf :
      slice ({ t with recvBuffer := g }.appended 0 part).recvBuffer.buf 0 part.length = part :=
    slice_write_self ..
  rw [tlsProcessing_eq _ _ hpos, hbuf, ← hrecv]
  rfl

/-- All packets of a sequence but the last are acknowledged without a call of the engine, and the
last one hands the message over. -/
def Reassembles (t : TypeTls) (turns : List Turn) (msg : List UInt8) : Prop :=
  ∃ first last t', turns = first ++ [last] ∧ (∀ E, Acked E t first t') ∧ t'.calls = t.calls ∧
    t'.HandsOver last msg

/-- What remains to be sent completes what was received. -/
theorem Holding.completes {parts : List (List UInt8)} {turns : List Turn}
    (h : t.Holding n received) (hlater : Later parts turns)
    (hall : received.length + parts.flatten.length ≤ n) :
    t.Reassembles turns (received ++ parts.flatten) := by
  induction hlater generalizing t received with
  | last hpart =>
    simp only [List.flatten_cons, List.flatten_nil, List.append_nil] at hall ⊢
    exact ⟨[], _, t, rfl, fun E => .nil t, rfl, h.lastFragment hpart hall⟩
  | @more part turn declared parts turns hpart _ ih =>
    rw [List.flatten_cons, List.length_append] at hall
    obtain ⟨t₁, hres, h₁, hcalls⟩ := h.fragment turn.heap turn.output hpart (by omega)
    obtain ⟨first, last, t₂, rfl, hacked, hcalls', hover⟩ := ih h₁ (by
      rw [List.length_append]
      omega)
    obtain ⟨hflags, hlen⟩ := makeAck_ack turn.output
    refine ⟨turn :: first, last, t₂, rfl, fun E => .cons (hres E) hflags hlen (hacked E),
      hcalls'.trans hcalls, ?_⟩
    rwa [List.flatten_cons, ← List.append_assoc]

/-- Whatever the split of a message, a handler that is ready to receive acknowledges every packet
but the last and with the last one calls the engine once, with the bytes of the message. Only if
the buffer is too small and no larger one can be had does the first packet fail. -/
theorem reassembles {parts : List (List UInt8)} {turn : Turn} {turns : List Turn}
    (hrecv : t.state = .recv) (h : Conforming parts (turn :: turns)) :
    (t.Grants turn.heap parts.flatten.length → t.Reassembles (turn :: turns) parts.flatten) ∧
      (¬t.Grants turn.heap parts.flatten.length → ∀ E,
        (t.process E turn.heap turn.input turn.output).result = .error .outOfMem) := by
  cases h with
  | whole hpart =>
    simp only [List.flatten_cons, List.flatten_nil, List.append_nil]
    refine ⟨fun hgrants => ⟨[], _, t, rfl, fun E => .nil t, rfl,
      wholeMessage_handsOver hrecv hgrants hpart⟩, fun hgrants E => ?_⟩
    rw [process_result, hpart.classify, hpart.pduLen]
    simp only [processType, hrecv, Bool.false_eq_true, if_false, reduceCtorEq, if_true]
    exact Exec.result_bind_eq_error.mpr
      (Or.inl (recvFirst_of_not_grants hgrants hpart.length_lt _))
  | @split part _ parts _ hpart hlater =>
    generalize hn : (part :: parts).flatten.length = n at hpart ⊢
    have hsum : part.length + parts.flatten.length = n := by
      rw [← hn, List.flatten_cons, List.length_append]
    refine ⟨fun hgrants => ?_, fun hgrants E => ?_⟩
    · obtain ⟨t₁, hres, h₁, hcalls⟩ := firstFragment_ack turn.output hrecv hgrants hpart (by omega)
      obtain ⟨first, last, t₂, rfl, hacked, hcalls', hover⟩ := h₁.completes hlater (by omega)
      obtain ⟨hflags, hlen⟩ := makeAck_ack turn.output
      exact ⟨turn :: first, last, t₂, rfl, fun E => .cons (hres E) hflags hlen (hacked E),
        hcalls'.trans hcalls, hover⟩
    · have htls : TlsPacket.tlsLen turn.input = n := hpart.tlsLen n rfl
      have hlength : TlsPacket.hasLength turn.input := hpart.hasLength
      rw [process_result, hpart.classify, hpart.pduLen]
      simp only [processType, hrecv, if_true, hlength, not_true, if_false, htls]
      exact Exec.result_bind_eq_error.mpr (Or.inl
        (recvFirst_of_not_grants hgrants (htls ▸ TlsPacket.tlsLen_lt turn.input) _))

/-- A packet of type EAP-TLS with a length, flags and what follows them, at the start of a memory,
and room for the answer. -/
def fragmentTurn (len flags : UInt8) (bytes : List UInt8) : Turn :=
  ⟨fun _ => none, ⟨write (fun _ => 0) 0 ([1, 9, 0, len, 13, flags] ++ bytes), 0⟩, ⟨fun _ => 0, 0⟩⟩

/-- A message of three bytes in two fragments, received in a buffer that is large enough. -/
theorem reassembles_two :
    (⟨⟨1024, fun _ => 0xff, by decide⟩, [], 1024, .recv, false⟩ : TypeTls).Reassembles
      [fragmentTurn 11 0xc0 [0, 0, 0, 3, 22], fragmentTurn 8 0 [3, 1]] [22, 3, 1] := by
  have hfirst : IsFragment (fragmentTurn 11 0xc0 [0, 0, 0, 3, 22]).input true (some 3) [22] :=
    ⟨by decide +kernel, by decide +kernel, by decide +kernel, by decide +kernel, by decide⟩
  have hlast : IsFragment (fragmentTurn 8 0 [3, 1]).input false none [3, 1] :=
    ⟨by decide +kernel, by decide, by decide +kernel, by decide +kernel, by decide⟩
  have hsent : Conforming [[22], [3, 1]]
      [fragmentTurn 11 0xc0 [0, 0, 0, 3, 22], fragmentTurn 8 0 [3, 1]] :=
    .split hfirst (.last hlast)
  exact (reassembles rfl hsent).1 fun hlt => absurd hlt (by decide)

end TypeTls

end Dot1x.Eap
