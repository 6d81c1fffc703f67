import Dot1x.Eap.Framing
import Mathlib.Algebra.Order.Floor.Div

/-!
# Fragmentation of the engine's output

What the engine wants to be sent goes out in packets of at most the fragment size. The first packet
answers the one with which the engine was called; each of the others answers an acknowledgement.
Between them the handler keeps the message and how far it has come, so that what remains shrinks by
one part with each packet.
-/

namespace Dot1x.Eap

open Dot1x.Base Dot1x.Wire

namespace TypeTls

/-- A response: the handler after it, the packet, and what was copied into it. -/
structure Sent where
  handler : TypeTls
  packet : TlsPacket
  payload : List UInt8

/-- These bytes were copied into a packet and nothing behind them. -/
structure Copied (output o : TlsPacket) (payload : List UInt8) : Prop where
  inPlace : slice o.mem o.tlsData payload.length = payload
  behind : ∀ a, o.tlsData + payload.length ≤ a → o.mem a = output.mem a

/-- Each of the turns is answered with a packet. -/
inductive Sends (E : Engine) : TypeTls → List Turn → List Sent → Prop
  | nil (t : TypeTls) : Sends E t [] []
  | cons {t t' : TypeTls} {turn : Turn} {o : TlsPacket} {payload : List UInt8} {turns : List Turn}
      {rest : List Sent}
      (hres : (t.process E turn.heap turn.input turn.output).result = .ok (.cont, t', o))
      (hcopied : Copied turn.output o payload) (hrest : Sends E t' turns rest) :
      Sends E t (turn :: turns) (⟨t', o, payload⟩ :: rest)

/-- The packet is an EAP-TLS acknowledgement. -/
def IsAck (input : EapPacket) : Prop := classifyPacket input (pduLen input) = .tlsAck

/-- The packets that carry the rest of a message. -/
structure Parts (fragmentSize : ℕ) (msg rest : List UInt8) (sent : List Sent) : Prop where
  count : sent.length = rest.length ⌈/⌉ fragmentSize
  complete : (sent.map Sent.payload).flatten = rest
  bounded : ∀ s ∈ sent, s.payload.length ≤ fragmentSize
  inner : ∀ s ∈ sent.dropLast, s.packet.moreFragments ∧ ∃ cur, s.handler.state = .fragSend msg cur
  last : ∀ s ∈ sent.getLast?, ¬s.packet.moreFragments ∧ s.handler.state = .recv

/-- The packets that carry a message; only the first one declares its length. -/
structure Fragments (fragmentSize : ℕ) (msg : List UInt8) (sent : List Sent) : Prop
    extends Parts fragmentSize msg msg sent where
  first : ∀ s ∈ sent.head?, s.packet.hasLength ∧ s.packet.tlsLen = msg.length
  later : ∀ s ∈ sent.tail, ¬s.packet.hasLength

/-- Acknowledgements are not answered. -/
def RejectsAcks (E : Engine) (t : TypeTls) : Prop :=
  ∀ turn : Turn, IsAck turn.input →
    (t.process E turn.heap turn.input turn.output).result = .ok (.inv, t, turn.output)

variable {E : Engine} {t t₀ : TypeTls} {turn : Turn} {acks : List Turn} {sent : List Sent} {s : Sent}
  {fragmentSize cur : ℕ} {msg rest out part : List UInt8} {declared : Option ℕ} {more : Bool}
  {output : TlsPacket}

/-- The payload of a framed packet was copied into it. -/
theorem copied_framed : Copied output (framed output declared more part) part where
  inPlace := by
    rw [framed_tlsData]
    have hpayload := framed_payload output declared more part
    rwa [Pointer.bytes, framed_data] at hpayload
  behind a ha := framed_behind (by rwa [framed_tlsData] at ha)

/-- One packet is enough for what fits into it. -/
theorem ceilDiv_of_le {n k : ℕ} (hpos : 0 < n) (hle : n ≤ k) : n ⌈/⌉ k = 1 := by
  rw [Nat.ceilDiv_eq_add_pred_div]
  exact Nat.div_eq_of_lt_le (by omega) (by omega)

/-- What does not fit takes one packet more than what is left of it. -/
theorem ceilDiv_of_lt {n k : ℕ} (hpos : 0 < k) (hlt : k < n) : n ⌈/⌉ k = (n - k) ⌈/⌉ k + 1 := by
  rw [Nat.ceilDiv_eq_add_pred_div, Nat.ceilDiv_eq_add_pred_div, ← Nat.add_div_right _ hpos]
  congr 1
  omega

/-- The last packet carries what fits into it. -/
theorem Parts.single (hne : rest ≠ []) (hfit : rest.length ≤ fragmentSize) (hpayload : s.payload = rest)
    (hmore : ¬s.packet.moreFragments) (hstate : s.handler.state = .recv) :
    Parts fragmentSize msg rest [s] where
  count := by
    rw [ceilDiv_of_le (List.length_pos_iff.mpr hne) hfit, List.length_singleton]
  complete := by simpa using hpayload
  bounded := by simpa [hpayload] using hfit
  inner := by simp
  last := by
    simp only [List.getLast?_singleton, Option.mem_some_iff, forall_eq']
    exact ⟨hmore, hstate⟩

/-- One packet more for what is longer. -/
theorem Parts.cons (hsize : 0 < fragmentSize) (hlong : fragmentSize < rest.length)
    (hpayload : s.payload = rest.take fragmentSize) (hmore : s.packet.moreFragments)
    (hstate : s.handler.state = .fragSend msg cur)
    (h : Parts fragmentSize msg (rest.drop fragmentSize) sent) :
    Parts fragmentSize msg rest (s :: sent) := by
  have hsent : sent ≠ [] := by
    intro hnil
    have hempty : rest.drop fragmentSize = [] := by rw [← h.complete, hnil]; rfl
    exact absurd (List.drop_eq_nil_iff.mp hempty) (by omega)
  refine ⟨?_, ?_, ?_, ?_, ?_⟩
  · rw [List.length_cons, h.count, List.length_drop, ceilDiv_of_lt hsize hlong]
  · rw [List.map_cons, List.flatten_cons, h.complete, hpayload, List.take_append_drop]
  · refine List.forall_mem_cons.mpr ⟨?_, h.bounded⟩
    rw [hpayload, List.length_take]
    omega
  · rw [List.dropLast_cons_of_ne_nil hsent]
    exact List.forall_mem_cons.mpr ⟨⟨hmore, cur, hstate⟩, h.inner⟩
  · rw [List.getLast?_cons, List.getLast?_eq_some_getLast hsent]
    intro s' hs'
    refine h.last s' ?_
    rw [List.getLast?_eq_some_getLast hsent]
    simpa using hs'

/-- An acknowledgement makes the next part due. -/
theorem process_ack (hstate : t.state = .fragSend msg cur) (hack : IsAck turn.input) :
    (t.process E turn.heap turn.input turn.output).result = (t.resume msg cur turn.output).result := by
  rw [process_eq_intake, intake, bind_assoc, Exec.result_bind_of_ok (tlsPduLen_result _), hack]
  simp only [intakeType, hstate]
  rfl

/-- In the state `recv` an acknowledgement is invalid. -/
theorem rejectsAcks_of_recv (hstate : t.state = .recv) : RejectsAcks E t := by
  intro turn hack
  rw [process_result, hack]
  simp only [processType, hstate]
  rfl

/-- What remains of a message is sent, one part for each acknowledgement. -/
private theorem sends_rest (hsize : 0 < t.fragmentSize) (hstate : t.state = .fragSend msg cur)
    (hcur : cur < msg.length) (hacks : ∀ a ∈ acks, IsAck a.input)
    (hcount : acks.length = (msg.length - cur) ⌈/⌉ t.fragmentSize) :
    ∃ sent, Sends E t acks sent ∧ Parts t.fragmentSize msg (msg.drop cur) sent ∧
      ∀ s ∈ sent, ¬s.packet.hasLength := by
  induction acks generalizing t cur with
  | nil =>
    have hnone := (ceilDiv_le_iff_le_mul hsize).mp hcount.ge
    simp at hnone
    omega
  | cons turn acks ih =>
    obtain ⟨hack, hacks⟩ := List.forall_mem_cons.mp hacks
    have hne : nextPart t.fragmentSize msg cur ≠ [] := nextPart_eq_nil.not.mpr (by omega)
    have hanswer : (t.process E turn.heap turn.input turn.output).result = _ :=
      process_ack hstate hack
    have hres := hanswer.trans (resume_eq_ok.mpr ⟨hne, rfl⟩)
    by_cases hfit : msg.length - cur ≤ t.fragmentSize
    · obtain ⟨hall, hmore⟩ := due_of_le hcur.le hfit
      rw [ceilDiv_of_le (by omega) hfit, List.length_cons] at hcount
      obtain rfl : acks = [] := List.length_eq_zero_iff.mp (by omega)
      rw [hmore, hall] at hres
      refine ⟨_, .cons hres copied_framed (.nil _), ?_, ?_⟩
      · refine .single (List.drop_eq_nil_iff.not.mpr (by omega)) (by rwa [List.length_drop]) rfl ?_ rfl
        simp
      · simp
    · obtain ⟨hlen, hmore⟩ := due_of_lt (not_le.mp hfit)
      rw [ceilDiv_of_lt hsize (by omega), List.length_cons, Nat.add_right_cancel_iff] at hcount
      rw [hmore, hlen] at hres
      obtain ⟨sent, hsends, hparts, hlater⟩ := ih
        (t := { t with state := .fragSend msg (cur + t.fragmentSize) }) hsize rfl (by omega) hacks
        (by rw [hcount]; congr 1; omega)
      refine ⟨_, .cons hres copied_framed hsends, ?_, ?_⟩
      · refine .cons hsize (by rw [List.length_drop]; omega) rfl ?_ rfl ?_
        · simp
        · rwa [List.drop_drop]
      · exact List.forall_mem_cons.mpr ⟨by simp, hlater⟩

/-- The reply of the engine goes out in the answer to the packet with which it was called, and in
the answers to the acknowledgements that follow. -/
theorem fragments (hask : (t.intake E turn.heap turn.input).result = .ok (.ask t₀))
    (hreply : E.processMsg t₀.calls = some ⟨.moreData, out⟩) (hout : out ≠ [])
    (hlen : out.length < 2 ^ 32) (hsize : 0 < t.fragmentSize) (hacks : ∀ a ∈ acks, IsAck a.input)
    (hcount : acks.length + 1 = out.length ⌈/⌉ t.fragmentSize) :
    ∃ sent, Sends E t (turn :: acks) sent ∧ Fragments t.fragmentSize out sent ∧
      ∀ s ∈ sent.getLast?, RejectsAcks E s.handler := by
  have hsize₀ : t₀.fragmentSize = t.fragmentSize := fragmentSize_of_ask hask
  have hpos := List.length_pos_iff.mpr hout
  have hne : nextPart t.fragmentSize out 0 ≠ [] := nextPart_eq_nil.not.mpr (by omega)
  have hres : (t.process E turn.heap turn.input turn.output).result =
      .ok (.cont,
        { t₀ with
          state :=
            if moreAfter t.fragmentSize out 0 then
              .fragSend out (nextPart t.fragmentSize out 0).length
            else .recv },
        framed turn.output (some out.length) (moreAfter t.fragmentSize out 0)
          (nextPart t.fragmentSize out 0)) := by
    rw [process_of_intake hask, finish, hreply, engineReplied, ← hsize₀]
    exact sendOutput_eq_ok.mpr (Or.inr ⟨by rwa [hsize₀], rfl⟩)
  have hsent : ∃ sent, Sends E t (turn :: acks) sent ∧ Fragments t.fragmentSize out sent := by
    have htlsLen (more : Bool) (part : List UInt8) :
        (framed turn.output (some out.length) more part).hasLength ∧
          (framed turn.output (some out.length) more part).tlsLen = out.length :=
      ⟨framed_hasLength, framed_tlsLen.trans (Nat.mod_eq_of_lt hlen)⟩
    by_cases hfit : out.length ≤ t.fragmentSize
    · obtain ⟨hall, hmore⟩ := due_of_le (Nat.zero_le _) hfit
      rw [ceilDiv_of_le hpos hfit] at hcount
      obtain rfl : acks = [] := List.length_eq_zero_iff.mp (by omega)
      rw [hmore, hall] at hres
      refine ⟨_, .cons hres copied_framed (.nil _), .single hout hfit rfl (by simp) rfl, ?_, ?_⟩
      · simpa using htlsLen false out
      · simp
    · obtain ⟨hpart, hmore⟩ := due_of_lt (show t.fragmentSize < out.length - 0 from not_le.mp hfit)
      rw [ceilDiv_of_lt hsize (by omega), Nat.add_right_cancel_iff] at hcount
      rw [hmore, hpart] at hres
      obtain ⟨sent, hsends, hparts, hlater⟩ := sends_rest (E := E)
        (t := { t₀ with state := .fragSend out t.fragmentSize })
        (by rwa [hsize₀]) rfl (by omega) hacks (by rw [hcount, hsize₀])
      rw [hsize₀] at hparts
      refine ⟨_, .cons hres copied_framed hsends, .cons hsize (by omega) rfl (by simp) rfl hparts,
        ?_, hlater⟩
      simpa using htlsLen true _
  obtain ⟨sent, hsends, hfragments⟩ := hsent
  exact ⟨sent, hsends, hfragments, fun s hs => rejectsAcks_of_recv (hfragments.last s hs).2⟩

/-- An engine that begins with five bytes. -/
def helloEngine : Engine := ⟨fun _ => true, fun _ => some ⟨.moreData, [22, 3, 1, 0, 2]⟩⟩

/-- Five bytes in parts of two: three packets. -/
theorem fragments_hello : ∃ sent,
    Sends helloEngine ⟨⟨1024, fun _ => 0xff, by decide⟩, [], 2, .start, false⟩
      [fragmentTurn 6 0x20 [], fragmentTurn 6 0 [], fragmentTurn 6 0 []] sent ∧
    Fragments 2 [22, 3, 1, 0, 2] sent ∧
    ∀ s ∈ sent.getLast?, RejectsAcks helloEngine s.handler := by
  have hstart : classifyPacket (fragmentTurn 6 0x20 []).input
      (pduLen (fragmentTurn 6 0x20 []).input) = .tlsStart := by decide +kernel
  have hask := intake_tlsStart (E := helloEngine)
    (t := ⟨⟨1024, fun _ => 0xff, by decide⟩, [], 2, .start, false⟩)
    (fragmentTurn 6 0x20 []).heap rfl hstart rfl
  have hack : IsAck (fragmentTurn 6 0 []).input := by
    unfold IsAck
    decide +kernel
  exact fragments hask rfl (by decide) (by decide) (by decide) (by simp [hack]) (by decide)

end TypeTls

end Dot1x.Eap
