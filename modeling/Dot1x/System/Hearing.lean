import Dot1x.System.Messages

/-!
# Saying and hearing

A frame says a message if it is addressed to the group and its packet, whose lengths agree, holds the
message. Whoever the frame arrives at accepts it and hears the message.
-/

namespace Dot1x.System

open Dot1x.Base Dot1x.Wire Dot1x.Eap Dot1x.Link Dot1x.Nas
open Dot1x.Client (transmit)

/-- A frame in an output buffer is addressed to the group, and its type is that of EAPOL. -/
structure ForGroup (data : Mem) : Prop where
  dst : slice data 0 etherAddrLen = paeGroupAddr
  high : data 12 = 0x88
  low : data 13 = 0x8e

/-- A frame says a message. -/
structure Says (data : Mem) (len : ℕ) (m : Message) : Prop where
  whole : Whole data len
  group : ForGroup data
  type : sentType data = EapolPacket.pckt
  lengths : (sentPacket data).len = sentBodyLen data
  long : 4 ≤ (sentPacket data).len
  message : Message.ofPacket (sentPacket data) = m

/-- Whoever is handed a frame hears a message. -/
structure Hears (f : Frame) (m : Message) : Prop where
  group : ForGroup f.mem
  type : f.payload.type = EapolPacket.pckt
  lengths : f.LengthsMatch
  long : 4 ≤ f.payload.body.len
  message : Message.ofPacket f.payload.body = m

variable {f : Frame} {data data' : Mem} {len : ℕ} {m : Message} {l : Ll8023} {p : EapPacket}

/-- The header in front of the type decides whom a frame is for. -/
theorem ForGroup.congr (h : ForGroup data) (hsame : ∀ i < 14, data' i = data i) : ForGroup data' where
  dst := (slice_congr fun i _ hi => hsame i (Nat.lt_trans hi (by decide))).trans h.dst
  high := (hsame 12 (by decide)).trans h.high
  low := (hsame 13 (by decide)).trans h.low

/-- `setup_output` addresses the buffer to the group. -/
theorem forGroup_setupOutput {own : List UInt8} {buf : Mem} (hown : own.length = etherAddrLen) :
    ForGroup (Ll8023.new own buf).setupOutput.outData := by
  have hsource : (Ll8023.new own buf).etherSrc.length = etherAddrLen := hown
  obtain ⟨hdst, hhigh, hlow⟩ := setupOutput_header hsource rfl
  exact ⟨hdst, hhigh, hlow⟩

/-- What is transmitted is addressed to the group. -/
theorem forGroup_transmit (type : ℕ) (h : ForGroup l.outData) : ForGroup (transmit l type).outData :=
  h.congr fun _ hi => Ll8023.makeEapol_outData l type (Or.inl (Nat.lt_succ_of_lt hi))

/-- A frame that arrives is addressed to the group if it was sent so. -/
theorem forGroup_of_arrives (h : Arrives f (tx data len)) (hwhole : Whole data len)
    (hgroup : ForGroup data) : ForGroup f.mem := by
  have hlen : len = sentBodyLen data + 18 := hwhole
  exact hgroup.congr fun i hi => h.byte (by omega)

/-- What is said is heard. -/
theorem hears_of_says (hsaid : Says data len m) (h : Arrives f (tx data len)) : Hears f m := by
  obtain ⟨htype, hbodyLen, hpacket, -⟩ := sameAs_of_arrives h hsaid.whole
  have hlen : len = sentBodyLen data + 18 := hsaid.whole
  have hlong : 4 ≤ sentBodyLen data := hsaid.lengths ▸ hsaid.long
  have hmatch : f.LengthsMatch := by
    have hread : f.payload.body.len = (sentPacket data).len := by
      rw [EapPacket.len_eq, EapPacket.len_eq]
      change (f.mem 20).toNat * 256 + (f.mem 21).toNat = (data 20).toNat * 256 + (data 21).toNat
      rw [h.byte (by omega), h.byte (by omega)]
    exact hbodyLen.trans (hsaid.lengths.symm.trans hread.symm)
  obtain ⟨-, -, hcontents⟩ := hpacket hmatch
  refine ⟨forGroup_of_arrives h hsaid.whole hsaid.group, htype.trans hsaid.type, hmatch, ?_, ?_⟩
  · rw [← hmatch, hbodyLen]
    exact hlong
  · rw [Message.ofPacket_congr hcontents hsaid.long, hsaid.message]

/-- A packet holds the code, the identifier and, if it has one, the type of its message. -/
theorem Hears.code (h : Hears f m) : f.payload.body.code = m.code.toNat := by
  rw [← h.message]
  rfl

/-- A message with a type is long enough for it. -/
theorem Hears.typed (h : Hears f m) (htype : m.type ≠ 0) : 5 ≤ f.payload.body.len := by
  by_contra hshort
  rw [← h.message, Message.ofPacket, if_neg hshort] at htype
  exact htype rfl

/-- The packet has the type of the message. -/
theorem Hears.packetType (h : Hears f m) (htype : m.type ≠ 0) : f.payload.body.type = m.type.toNat := by
  rw [← h.message, Message.ofPacket, if_pos (h.typed htype)]
  rfl

/-- The packet holds the bytes of the message. -/
theorem Hears.contents (h : Hears f m) (htype : m.type ≠ 0) : f.payload.body.contents = m.encode := by
  rw [Message.contents_eq (h.typed htype), h.message]

/-- The packet is as long as the message. -/
theorem Hears.packetLen (h : Hears f m) (htype : m.type ≠ 0) :
    f.payload.body.len = 5 + m.data.length := by
  have hfive := h.typed htype
  rw [← h.message, Message.ofPacket, Pointer.bytes_length]
  omega

/-- Every station accepts the frame. -/
theorem Hears.accepted (h : Hears f m) (own : List UInt8) : f.Accepted own :=
  ⟨h.lengths, Or.inl h.group.dst⟩

/-- A packet whose bytes are those of a message holds it. -/
theorem ofPacket_of_encode (hsmall : m.data.length < 2 ^ 15)
    (h : ∀ i < m.encode.length, p.byte i = m.encode.getD i 0) :
    p.len = 5 + m.data.length ∧ Message.ofPacket p = m := by
  have hbytes : m.encode = m.code :: m.id :: UInt8.ofNat ((5 + m.data.length) / 256) ::
      UInt8.ofNat (5 + m.data.length) :: m.type :: m.data := rfl
  have hcount : m.encode.length = 5 + m.data.length := by
    rw [hbytes]
    simp only [List.length_cons]
    omega
  have hlen : p.len = 5 + m.data.length := by
    rw [EapPacket.len_eq, h 2 (by omega), h 3 (by omega), hbytes]
    simp only [List.getD_cons_succ, List.getD_cons_zero, UInt8.toNat_ofNat']
    omega
  refine ⟨hlen, ?_⟩
  have hdata : p.bytes 5 (p.len - 5) = m.data := by
    refine List.ext_getElem (by rw [Pointer.bytes_length]; omega) fun i hi hi' => ?_
    have hat := h (i + 5) (by omega)
    rw [hbytes] at hat
    simp only [List.getD_cons_succ] at hat
    rw [List.getD_eq_getElem _ _ hi'] at hat
    rw [← hat]
    simp only [Pointer.bytes, slice_getElem, Pointer.byte]
    congr 1
    omega
  rw [Message.ofPacket, hdata, if_pos (by omega), h 0 (by omega), h 1 (by omega), h 4 (by omega),
    hbytes]
  rfl

end Dot1x.System
