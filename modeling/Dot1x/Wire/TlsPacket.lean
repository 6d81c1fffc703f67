import Dot1x.Wire.Packet

/-!
# EAP-TLS packets

An EAP-TLS packet begins its type data with a byte of flags. When the length flag is set the
length of the whole TLS message follows in four bytes, and the payload begins behind it.
-/

namespace Dot1x.Wire

open Dot1x.Base

/-- A pointer to an EAP packet of type EAP-TLS. -/
abbrev TlsPacket := EapPacket

namespace TlsPacket

/-- Flag: the length of the message is included. -/
def lengthIncluded : ℕ := 0x80

/-- Flag: further fragments follow. -/
def moreFrags : ℕ := 0x40

/-- Flag: the authenticator starts a session. -/
def eaptlsStart : ℕ := 0x20

def eapType : ℕ := 13

def tlsFlags (p : TlsPacket) : ℕ := AccessUi8.get p.mem p.eapData

def tlsLen (p : TlsPacket) : ℕ := AccessUi32.get p.mem (p.eapData + 1)

/-- The length flag is set. -/
def hasLength (p : TlsPacket) : Bool := (p.mem p.eapData &&& UInt8.ofNat lengthIncluded) ≠ 0

/-- The fragment flag is set. -/
def moreFragments (p : TlsPacket) : Bool := (p.mem p.eapData &&& UInt8.ofNat moreFrags) ≠ 0

/-- The pointer to the payload. -/
def tlsData (p : TlsPacket) : ℕ := p.eapData + if p.hasLength then 5 else 1

def setTlsFlags (p : TlsPacket) (v : ℕ) : TlsPacket :=
  { p with mem := AccessUi8.set p.mem p.eapData v }

/-- `tls_flags() |= v`. -/
def orTlsFlags (p : TlsPacket) (v : ℕ) : TlsPacket :=
  { p with mem := AccessUi8.orAssign p.mem p.eapData v }

def setTlsLen (p : TlsPacket) (v : ℕ) : TlsPacket :=
  { p with mem := AccessUi32.set p.mem (p.eapData + 1) v }

/-- Setting the flags keeps the head. -/
theorem sameHead_setTlsFlags (p : TlsPacket) (v : ℕ) : p.SameHead (p.setTlsFlags v) :=
  .write (Or.inr (Nat.le_refl _))

/-- Adding flags keeps the head. -/
theorem sameHead_orTlsFlags (p : TlsPacket) (v : ℕ) : p.SameHead (p.orTlsFlags v) :=
  .write (Or.inr (Nat.le_refl _))

/-- Setting the TLS length keeps the head. -/
theorem sameHead_setTlsLen (p : TlsPacket) (v : ℕ) : p.SameHead (p.setTlsLen v) :=
  .write (Or.inr (Nat.le_succ _))

/-- The payload is behind the header. -/
theorem headerLen_le_tlsData (p : TlsPacket) : p.data + EapPacket.headerLen ≤ p.tlsData :=
  Nat.le_add_right ..

/-- A TLS length is below `2 ^ 32`. -/
theorem tlsLen_lt (p : TlsPacket) : p.tlsLen < 2 ^ 32 := AccessUi32.get_lt ..

/-- Setting the flags stores their byte. -/
theorem setTlsFlags_eq (p : TlsPacket) (v : ℕ) : p.setTlsFlags v = p.store 5 [UInt8.ofNat v] := rfl

end TlsPacket

end Dot1x.Wire
