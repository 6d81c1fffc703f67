import Dot1x.Eap.Process

/-!
# The EAPOL link layer on Ethernet

The classes `ll_eapol`, `ll_ether` and `ll_802_3` form one object. Its `receive` waits for frames
until one passes two tests, made one after the other: the two length fields of the packet agree,
and the destination is the group address or the station's own. Before the second test the source
of the frame is recorded, so a frame that is then discarded has been recorded as well.

A driver hands over a frame as a pointer; how many bytes behind it were captured is known to the
driver only. What comes of one frame is `turn`, and `receive` repeats turns.
-/

namespace Dot1x.Link

open Dot1x.Base Dot1x.Wire

/-- Length of an Ethernet address. -/
def etherAddrLen : ℕ := 6

/-- Bytes before the EAPOL packet of a frame. -/
def llHdrLen : ℕ := 2 * etherAddrLen + 2

def etherType : ℕ := 0x888e

/-- The address to which the stations of a port listen. -/
def paeGroupAddr : List UInt8 := [0x01, 0x80, 0xc2, 0x00, 0x00, 0x03]

/-- A frame in the driver's buffer and how much of it was captured. -/
structure Frame where
  mem : Mem
  caplen : ℕ

namespace Frame

def dst (f : Frame) : List UInt8 := slice f.mem 0 etherAddrLen

def src (f : Frame) : List UInt8 := slice f.mem etherAddrLen etherAddrLen

def payload (f : Frame) : EapolPacket := ⟨f.mem, llHdrLen⟩

/-- The two length fields of the packet agree. -/
def LengthsMatch (f : Frame) : Prop := f.payload.bodyLen = f.payload.body.len

instance (f : Frame) : Decidable f.LengthsMatch := inferInstanceAs (Decidable (_ = _))

/-- The frame is addressed to the group or to a station. -/
def AddressedTo (f : Frame) (own : List UInt8) : Prop := f.dst = paeGroupAddr ∨ f.dst = own

instance (f : Frame) (own : List UInt8) : Decidable (f.AddressedTo own) :=
  inferInstanceAs (Decidable (_ ∨ _))

end Frame

/-- The data members of an `ll_802_3`. -/
structure Ll8023 where
  paeChanged : Bool
  inData : Option Frame
  outData : Mem
  outLen : ℕ
  etherSrc : List UInt8
  etherDst : List UInt8

/-- How a call of `receive` ends. -/
inductive Received
  /-- It returns the length of a packet, or zero when there was none. -/
  | returned (len : ℕ)
  /-- It throws the read error. -/
  | raised

namespace Ll8023

/-- The constructor; the address of the station and the output buffer come from outside. -/
def new (own : List UInt8) (buf : Mem) : Ll8023 := ⟨false, none, buf, 0, own, paeGroupAddr⟩

/-- The packet in the output buffer. -/
def output (l : Ll8023) : EapolPacket := ⟨l.outData, llHdrLen⟩

def samePae (l : Ll8023) : Bool := !l.paeChanged

/-- `setup_output` of all three classes. -/
def setupOutput (l : Ll8023) : Ll8023 :=
  let p := l.output.setVersion 1
  let p := p.body.setCode Eap.response
  let m := AccessUi16.set p.mem (2 * etherAddrLen) etherType
  let m := write m etherAddrLen l.etherSrc
  { l with outData := write m 0 l.etherDst }

def makeEapol (l : Ll8023) (type : ℕ) : Ll8023 :=
  let p := l.output.setType type
  { l with outData := (p.setBodyLen (if type = EapolPacket.pckt then p.body.len else 0)).mem }

/-- `send`; the frame that is handed to `send_frame` is the output buffer and its new length. -/
def send (l : Ll8023) : Ll8023 :=
  { l with outLen := l.output.bodyLen + EapolPacket.baseHeaderLen + llHdrLen }

/-- `ll_ether::recv_hook` -/
def recordSource (l : Ll8023) (f : Frame) : Ll8023 :=
  if f.src = l.etherDst then l else { l with paeChanged := true, etherDst := f.src }

/-- `ll_802_3::recv_hook` -/
def recvHook (l : Ll8023) (f : Frame) : Ll8023 × Bool :=
  let l := l.recordSource f
  (l, decide (f.AddressedTo l.etherSrc))

/-- What `receive` does with what the driver hands over, and its end if this ends it. -/
def turn (ignoreErrors : Bool) (l : Ll8023) (d : Option Frame) : Ll8023 × Option Received :=
  match d with
  | none => ({ l with inData := none }, some (if ignoreErrors then .returned 0 else .raised))
  | some f =>
    let l := { l with inData := some f }
    if f.LengthsMatch then
      let r := l.recvHook f
      (r.1, if r.2 then some (.returned f.payload.bodyLen) else none)
    else (l, none)

/-- The loop of `receive`. It returns the link, the end and what the driver has left to hand over;
there is no value while the loop waits. -/
def receiveLoop (ignoreErrors : Bool) (l : Ll8023) :
    List (Option Frame) → Option (Ll8023 × Received × List (Option Frame))
  | [] => none
  | d :: ds =>
    match turn ignoreErrors l d with
    | (l, some r) => some (l, r, ds)
    | (l, none) => receiveLoop ignoreErrors l ds

/-- `receive` -/
def receive (ignoreErrors : Bool) (l : Ll8023) (ds : List (Option Frame)) :
    Option (Ll8023 × Received × List (Option Frame)) :=
  receiveLoop ignoreErrors { l with paeChanged := false } ds

/-- `make_eapol` writes the type and the length of the EAPOL packet only. -/
theorem makeEapol_outData (l : Ll8023) (type : ℕ) {i : ℕ} (hi : i < 15 ∨ 18 ≤ i) :
    (l.makeEapol type).outData i = l.outData i := by
  change (EapolPacket.setBodyLen (EapolPacket.setType ⟨l.outData, llHdrLen⟩ _) _).mem i = _
  rw [EapolPacket.setBodyLen_eq, EapolPacket.setType_eq]
  have hhdr : llHdrLen = 14 := rfl
  simp only [Pointer.store, hhdr]
  rw [write_of_outside (by simp; omega), write_of_outside (by simp; omega)]

/-- The header of the output packet is written in front of the EAP packet in its body. -/
theorem makeEapol_body_len (l : Ll8023) (type : ℕ) :
    (l.makeEapol type).output.body.len = l.output.body.len := by
  change (EapolPacket.setBodyLen (l.output.setType type) _).body.len = _
  rw [EapolPacket.setBodyLen_eq, EapolPacket.body_len_store (by simp), EapolPacket.setType_eq,
    EapolPacket.body_len_store (by simp)]

/-- `setup_output` marks the EAP packet in the output buffer as a response. -/
theorem setupOutput_code {l : Ll8023} (hsrc : l.etherSrc.length = etherAddrLen)
    (hdst : l.etherDst.length = etherAddrLen) :
    l.setupOutput.output.body.code = Eap.response := by
  change (write (write (AccessUi16.set _ _ _) etherAddrLen l.etherSrc) 0 l.etherDst 18).toNat = _
  rw [write_of_outside (by rw [hdst]; decide), write_of_outside (by rw [hsrc]; decide),
    AccessUi16.set, write_of_outside (by rw [leBytes_length]; decide)]
  exact congrArg UInt8.toNat (write_singleton_self _ _ _)

/-- `setup_output` writes up to the code of the EAP packet. -/
theorem setupOutput_outData {l : Ll8023} (hsrc : l.etherSrc.length = etherAddrLen)
    (hdst : l.etherDst.length = etherAddrLen) {i : ℕ} (hi : 19 ≤ i) :
    l.setupOutput.outData i = l.outData i := by
  have haddr : etherAddrLen = 6 := rfl
  change write (write (AccessUi16.set (write (write l.outData 14 [1]) 18 [2]) _ _) etherAddrLen
    l.etherSrc) 0 l.etherDst i = _
  rw [AccessUi16.set_eq, write_of_outside (by omega), write_of_outside (by omega),
    write_of_outside (by simp; omega), write_of_outside (by simp; omega),
    write_of_outside (by simp; omega)]

/-- Making a packet keeps the code of the body. -/
theorem makeEapol_body_code (l : Ll8023) (type : ℕ) :
    (l.makeEapol type).output.body.code = l.output.body.code := by
  change (EapolPacket.setBodyLen (l.output.setType type) _).body.code = _
  rw [EapolPacket.setBodyLen_eq, EapolPacket.body_code_store (by simp), EapolPacket.setType_eq,
    EapolPacket.body_code_store (by simp)]

/-- The body of an EAPOL packet is as long as the EAP packet says. -/
theorem makeEapol_bodyLen (l : Ll8023) :
    (l.makeEapol EapolPacket.pckt).output.bodyLen = l.output.body.len := by
  change (EapolPacket.setBodyLen (l.output.setType EapolPacket.pckt) _).bodyLen = _
  rw [EapolPacket.bodyLen_setBodyLen, if_pos rfl, EapolPacket.setType_eq,
    EapolPacket.body_len_store (by simp), Nat.mod_eq_of_lt (EapPacket.len_lt _)]

end Ll8023

end Dot1x.Link
