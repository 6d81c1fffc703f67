import Dot1x.Nas.SimuNas

/-!
# From the supplicant to the server

The supplicant writes a frame with its copy of the link layer and the server reads it with another
copy, which has changed: it tests the type of the frame, and it compares the two lengths for EAP
packets only. Short frames are padded on the way. What the server reads lies before the padding, so
it finds what the supplicant wrote.
-/

namespace Dot1x.Nas

open Dot1x.Base Dot1x.Wire Dot1x.Eap Dot1x.Link

/-- Bytes of the shortest frame that is sent. -/
def minFrameLen : ℕ := 64

/-- `etherlink::tx`: what is handed to the adapter. -/
def tx (frame : Mem) (len : ℕ) : List UInt8 :=
  let buf := write (fun _ => 0) 0 (List.replicate minFrameLen 0xa5)
  if len < minFrameLen then slice (write buf 0 (slice frame 0 len)) 0 minFrameLen
  else slice frame 0 len

/-- The frame that `make_eapol` and `send` put on the wire. -/
def onWire (l : Ll8023) (type : ℕ) : List UInt8 :=
  let l := (l.makeEapol type).send
  tx l.outData l.outLen

/-- A driver hands over a frame as it was on the wire. Whatever is in its buffer behind the frame. -/
structure Arrives (f : Frame) (wire : List UInt8) : Prop where
  caplen : f.caplen = wire.length
  mem : slice f.mem 0 f.caplen = wire

/-- The output buffer still begins with what `setup_output` wrote in front of the EAPOL type. -/
def Prepared (l₀ : Ll8023) (m : Mem) : Prop := ∀ i < llHdrLen + 1, m i = l₀.setupOutput.outData i

/-- The server accepts a frame and reads in it what the supplicant meant to send: the type of the
frame and the EAP packet, if it carries one. -/
structure ReadAs (l n : Ll8023) (type : ℕ) (f : Frame) : Prop where
  accepted : (receiveTurn n (some f)).2 = some (some f)
  kind : f.payload.type = type
  packet : type = EapolPacket.pckt → f.payload.bodyLen = l.output.body.len ∧
    f.payload.body.contents = l.output.body.contents

variable {l l₀ n : Ll8023} {m : Mem} {f : Frame} {type len i : ℕ}

/-- Padding goes behind the frame. -/
private theorem getElem_tx (hi : i < len) : (tx m len)[i]? = some (m i) := by
  have hslice {m : Mem} {k : ℕ} (hik : i < k) : (slice m 0 k)[i]? = some (m i) := by
    rw [List.getElem?_eq_getElem (by simpa using hik), slice_getElem, Nat.zero_add]
  unfold tx
  split
  · rename_i hshort
    rw [hslice (by omega), write_of_inside (Nat.zero_le i) (by simpa using hi), Nat.sub_zero,
      slice_getD _ _ hi, Nat.zero_add]
  · exact hslice hi

/-- The bytes that were written arrive. -/
theorem Arrives.byte (h : Arrives f (tx m len)) (hi : i < len) : f.mem i = m i := by
  have hsent := getElem_tx (m := m) hi
  rw [← h.mem] at hsent
  obtain ⟨hlt, hbyte⟩ := List.getElem?_eq_some_iff.mp hsent
  rwa [slice_getElem, Nat.zero_add] at hbyte

/-- What `setup_output` writes in front of the packet. -/
theorem setupOutput_header (hsrc : l₀.etherSrc.length = etherAddrLen)
    (hdst : l₀.etherDst.length = etherAddrLen) :
    slice l₀.setupOutput.outData 0 etherAddrLen = l₀.etherDst ∧
      l₀.setupOutput.outData 12 = 0x88 ∧ l₀.setupOutput.outData 13 = 0x8e := by
  have hbehind {m : Mem} {i : ℕ} (hi : 12 ≤ i) :
      write (write m etherAddrLen l₀.etherSrc) 0 l₀.etherDst i = m i := by
    rw [write_of_outside (by rw [hdst]; exact Or.inr (Nat.le_trans (by decide) hi)),
      write_of_outside (by rw [hsrc]; exact Or.inr hi)]
  refine ⟨slice_write_eq hdst, ?_, ?_⟩
  · change write (write (AccessUi16.set _ _ _) etherAddrLen l₀.etherSrc) 0 l₀.etherDst 12 = _
    rw [hbehind (Nat.le_refl 12), AccessUi16.set_eq, write_of_inside (by decide) (by decide)]
    rfl
  · change write (write (AccessUi16.set _ _ _) etherAddrLen l₀.etherSrc) 0 l₀.etherDst 13 = _
    rw [hbehind (by decide), AccessUi16.set_eq, write_of_inside (by decide) (by decide)]
    rfl

/-- A packet has the type that it was made with. -/
theorem makeEapol_type (l : Ll8023) (htype : type < 256) : (l.makeEapol type).output.type = type := by
  change (EapolPacket.setBodyLen (EapolPacket.setType ⟨l.outData, llHdrLen⟩ _) _).type = _
  rw [EapolPacket.setBodyLen_eq, EapolPacket.setType_eq]
  change (Pointer.byte (Pointer.store (Pointer.store _ 1 _) 2 _) 1).toNat = type
  rw [Pointer.byte_store_of_outside (by simp), Pointer.byte_store, if_pos (by simp)]
  exact UInt8.toNat_ofNat_of_lt' htype

/-- The header of a frame is read as it was written. -/
theorem Arrives.header (h : Arrives f (onWire l type)) (hi : i < 18) :
    f.mem i = (l.makeEapol type).outData i := by
  have hout : (l.makeEapol type).send.outLen = (l.makeEapol type).output.bodyLen + 18 := rfl
  exact Arrives.byte h (by omega)

/-- An EAP packet that is as long as its header is read as it was written. -/
theorem Arrives.body (h : Arrives f (onWire l EapolPacket.pckt)) (hlen : 4 ≤ l.output.body.len) :
    f.payload.bodyLen = l.output.body.len ∧ f.payload.body.len = l.output.body.len ∧
      f.payload.body.contents = l.output.body.contents := by
  have hout : (l.makeEapol EapolPacket.pckt).send.outLen = l.output.body.len + 18 := by
    rw [← Ll8023.makeEapol_bodyLen l]
    rfl
  have hbyte (i : ℕ) (hlo : 18 ≤ i) (hhi : i < 18 + l.output.body.len) : f.mem i = l.outData i := by
    rw [← Ll8023.makeEapol_outData l EapolPacket.pckt (Or.inr hlo)]
    exact Arrives.byte h (by omega)
  have hbodyLen : f.payload.bodyLen = l.output.body.len := by
    rw [← Ll8023.makeEapol_bodyLen l]
    change AccessUi16.get f.mem 16 = AccessUi16.get _ 16
    rw [AccessUi16.get_eq, AccessUi16.get_eq, h.header (by decide), h.header (by decide)]
    rfl
  have hbody : f.payload.body.len = l.output.body.len := by
    rw [EapPacket.len_eq, EapPacket.len_eq]
    change (f.mem 20).toNat * 256 + (f.mem 21).toNat = _
    rw [hbyte 20 (by decide) (by omega), hbyte 21 (by decide) (by omega)]
    rfl
  refine ⟨hbodyLen, hbody, ?_⟩
  rw [EapPacket.contents, EapPacket.contents, hbody]
  exact slice_congr hbyte

/-- Every frame that the supplicant sends to the group or to the server is accepted there, whatever is
in the output buffer behind the packet, and read as it was meant. -/
theorem read_as_sent (hsrc : l₀.etherSrc.length = etherAddrLen)
    (hdst : l₀.etherDst.length = etherAddrLen) (hprepared : Prepared l₀ l.outData)
    (htype : type = EapolPacket.start ∨ type = EapolPacket.logoff ∨ type = EapolPacket.pckt)
    (hlen : 4 ≤ l.output.body.len) (hsent : l₀.etherDst = paeGroupAddr ∨ l₀.etherDst = n.etherSrc)
    (harrives : Arrives f (onWire l type)) : ReadAs l n type f := by
  have hbyte {i : ℕ} (hi : i < 15) : f.mem i = l₀.setupOutput.outData i := by
    rw [harrives.header (by omega), Ll8023.makeEapol_outData l type (Or.inl hi), hprepared i hi]
  obtain ⟨hto, hhigh, hlow⟩ := setupOutput_header hsrc hdst
  have hread : f.payload.type = type := by
    have hsmall : type < 256 := by
      rcases htype with rfl | rfl | rfl <;> decide
    rw [← makeEapol_type l hsmall]
    change (f.mem 15).toNat = ((l.makeEapol type).outData 15).toNat
    rw [harrives.header (by decide)]
  have hfor : f.dst = l₀.etherDst := by
    rw [← hto]
    exact slice_congr fun i _ hi => hbyte (Nat.lt_trans hi (by decide))
  refine ⟨?_, hread, ?_⟩
  · have heapol : ¬(f.mem 12 ≠ 0x88 ∨ f.mem 13 ≠ 0x8e) := by
      rw [hbyte (by decide), hbyte (by decide), hhigh, hlow]
      decide
    have hlengths : ¬(f.payload.type = EapolPacket.pckt ∧ ¬f.LengthsMatch) := by
      rintro ⟨hpckt, hdiffer⟩
      rw [hread] at hpckt
      subst hpckt
      obtain ⟨hbodyLen, hbody, -⟩ := harrives.body hlen
      exact hdiffer (hbodyLen.trans hbody.symm)
    have haddressed : f.AddressedTo n.etherSrc := by
      rw [Frame.AddressedTo, hfor]
      exact hsent
    have hkeep : (Ll8023.recordSource { n with inData := some f } f).etherSrc = n.etherSrc := by
      unfold Ll8023.recordSource
      split <;> rfl
    have hhook : (Ll8023.recvHook { n with inData := some f } f).2 = true := by
      simp only [Ll8023.recvHook, hkeep]
      exact decide_eq_true haddressed
    simp only [receiveTurn, if_neg heapol, if_neg hlengths, hhook, if_true]
  · intro hpckt
    subst hpckt
    obtain ⟨hbodyLen, -, hcontents⟩ := harrives.body hlen
    exact ⟨hbodyLen, hcontents⟩

/-- The link of a station that logs in. -/
def stationLink : Ll8023 := Ll8023.new [2, 0, 0, 0, 0, 1] fun _ => 0

/-- The same with the answer to a request for an identity in its output buffer. -/
def answeringLink : Ll8023 :=
  { stationLink.setupOutput with
    outData := write stationLink.setupOutput.outData 18 [2, 5, 0, 6, 1, 97] }

/-- A frame as it is handed over in a blank buffer. -/
def arriving (wire : List UInt8) : Frame := ⟨write (fun _ => 0) 0 wire, wire.length⟩

/-- A short answer is read in the padded frame. -/
theorem read_as_sent_identity :
    (onWire answeringLink EapolPacket.pckt).length = 64 ∧
    ReadAs answeringLink (Ll8023.new [2, 0, 0, 0, 0, 2] fun _ => 0) EapolPacket.pckt
      (arriving (onWire answeringLink EapolPacket.pckt)) := by
  refine ⟨by decide +kernel, read_as_sent (rfl : stationLink.etherSrc.length = etherAddrLen) rfl
    (fun i hi => ?_)
    (Or.inr (Or.inr rfl)) (by decide +kernel) (Or.inl rfl) ⟨rfl, slice_write_eq rfl⟩⟩
  exact write_of_outside (Or.inl (Nat.lt_of_lt_of_le hi (by decide)))

end Dot1x.Nas
