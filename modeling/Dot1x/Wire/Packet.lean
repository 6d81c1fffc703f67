import Dot1x.Wire.Accessor

/-!
# Packets as pointers

The packet classes of the source hold one pointer; every accessor adds a constant offset to
it. Here a packet is a memory together with that pointer, so an EAP packet inside an EAPOL
packet inside a frame shares the memory of the frame, and reading a field past the end of a
short packet reads whatever bytes follow.
-/

namespace Dot1x.Wire

open Dot1x.Base

/-- A memory and an offset into it. -/
structure Pointer where
  mem : Mem
  data : ℕ

namespace Pointer

/-- The byte at a distance from the pointer. -/
def byte (p : Pointer) (i : ℕ) : UInt8 := p.mem (p.data + i)

/-- The `n` bytes at a distance from the pointer. -/
def bytes (p : Pointer) (i n : ℕ) : List UInt8 := slice p.mem (p.data + i) n

/-- Store bytes at a distance from the pointer. -/
def store (p : Pointer) (i : ℕ) (bs : List UInt8) : Pointer :=
  { p with mem := write p.mem (p.data + i) bs }

/-- Storing does not move the packet. -/
@[simp] theorem store_data (p : Pointer) (i : ℕ) (bs : List UInt8) : (p.store i bs).data = p.data := rfl

/-- As many bytes as asked for. -/
@[simp] theorem bytes_length (p : Pointer) (i n : ℕ) : (p.bytes i n).length = n := slice_length ..

/-- A byte after a store. -/
theorem byte_store (p : Pointer) (i j : ℕ) (bs : List UInt8) :
    (p.store i bs).byte j = if i ≤ j ∧ j < i + bs.length then bs.getD (j - i) 0 else p.byte j := by
  have hcond : (p.data + i ≤ p.data + j ∧ p.data + j < p.data + i + bs.length) ↔
      (i ≤ j ∧ j < i + bs.length) := by omega
  have hidx : p.data + j - (p.data + i) = j - i := by omega
  simp only [store, byte, write, hcond, hidx]

/-- A byte outside the stored range. -/
theorem byte_store_of_outside {p : Pointer} {i j : ℕ} {bs : List UInt8}
    (h : j < i ∨ i + bs.length ≤ j) : (p.store i bs).byte j = p.byte j := by
  rw [byte_store, if_neg (by omega)]

/-- The stored block reads back. -/
theorem bytes_store_self {p : Pointer} {i n : ℕ} {bs : List UInt8} (h : bs.length = n) :
    (p.store i bs).bytes i n = bs := slice_write_eq h

/-- A block that does not meet the stored range is unchanged. -/
theorem bytes_store_of_disjoint {p : Pointer} {i j n : ℕ} {bs : List UInt8}
    (h : j + n ≤ i ∨ i + bs.length ≤ j) : (p.store i bs).bytes j n = p.bytes j n := by
  change slice (write p.mem (p.data + i) bs) (p.data + j) n = slice p.mem (p.data + j) n
  exact slice_write_disjoint (by omega)

/-- Storing the byte that is there. -/
theorem store_byte_self (p : Pointer) (i : ℕ) : p.store i [p.byte i] = p :=
  congrArg (Pointer.mk · p.data) (write_slice_self p.mem (p.data + i) 1)

/-- Store several blocks, one after the other. -/
def storeAll (p : Pointer) (stores : List (ℕ × List UInt8)) : Pointer :=
  stores.foldl (fun p s => p.store s.1 s.2) p

/-- A byte that no block covers. -/
theorem storeAll_mem_of_outside {stores : List (ℕ × List UInt8)} {p : Pointer} {a : ℕ}
    (h : ∀ s ∈ stores, a < p.data + s.1 ∨ p.data + s.1 + s.2.length ≤ a) :
    (p.storeAll stores).mem a = p.mem a := by
  induction stores generalizing p with
  | nil => rfl
  | cons s rest ih =>
    rw [List.forall_mem_cons] at h
    exact (ih (p := p.store s.1 s.2) h.2).trans (write_of_outside h.1)

/-- What several stores leave at a place depends on what was there only if none of them covers
it. -/
theorem storeAll_mem_congr {stores : List (ℕ × List UInt8)} {p q : Pointer} {a : ℕ}
    (hdata : p.data = q.data)
    (h : (∀ s ∈ stores, a < p.data + s.1 ∨ p.data + s.1 + s.2.length ≤ a) → p.mem a = q.mem a) :
    (p.storeAll stores).mem a = (q.storeAll stores).mem a := by
  induction stores generalizing p q with
  | nil => exact h (by simp)
  | cons s rest ih =>
    refine ih (p := p.store s.1 s.2) (q := q.store s.1 s.2) hdata fun ha => ?_
    by_cases hs : a < p.data + s.1 ∨ p.data + s.1 + s.2.length ≤ a
    · have hout := h (List.forall_mem_cons.mpr ⟨hs, ha⟩)
      simp only [store, ← hdata]
      rw [write_of_outside hs, write_of_outside hs, hout]
    · simp only [store, ← hdata]
      rw [write_of_inside (by omega) (by omega), write_of_inside (by omega) (by omega)]

/-- Storing blocks does not move the packet. -/
@[simp] theorem storeAll_data (p : Pointer) (stores : List (ℕ × List UInt8)) :
    (p.storeAll stores).data = p.data := by
  induction stores generalizing p with
  | nil => rfl
  | cons s rest ih => exact ih _

/-- What several stores leave depends on the bytes they do not cover only. -/
private theorem storeAll_congr {stores : List (ℕ × List UInt8)} {p q : Pointer}
    (hdata : p.data = q.data)
    (h : ∀ a, (∀ s ∈ stores, a < p.data + s.1 ∨ p.data + s.1 + s.2.length ≤ a) →
      p.mem a = q.mem a) : p.storeAll stores = q.storeAll stores := by
  have hmem : (p.storeAll stores).mem = (q.storeAll stores).mem :=
    funext fun a => storeAll_mem_congr hdata (h a)
  have hplace : (p.storeAll stores).data = (q.storeAll stores).data := by
    rw [storeAll_data, storeAll_data, hdata]
  exact Pointer.mk.injEq .. ▸ ⟨hmem, hplace⟩

/-- Storing the same blocks again changes nothing. -/
theorem storeAll_storeAll (p : Pointer) (stores : List (ℕ × List UInt8)) :
    (p.storeAll stores).storeAll stores = p.storeAll stores := by
  refine storeAll_congr (storeAll_data p stores) fun a ha => ?_
  rw [storeAll_data] at ha
  exact storeAll_mem_of_outside ha

end Pointer

/-- A pointer to an EAP packet. -/
abbrev EapPacket := Pointer

/-- A pointer to an EAPOL packet. -/
abbrev EapolPacket := Pointer

namespace EapPacket

/-- Offset of the code. -/
def eapCode : ℕ := 0

/-- Offset of the identifier. -/
def eapId : ℕ := 1

/-- Offset of the length. -/
def eapLen : ℕ := 2

/-- Offset of the type. -/
def eapType : ℕ := 4

/-- Bytes before the type data. -/
def headerLen : ℕ := 5

def code (p : EapPacket) : ℕ := AccessUi8.get p.mem (p.data + eapCode)

def id (p : EapPacket) : ℕ := AccessUi8.get p.mem (p.data + eapId)

def len (p : EapPacket) : ℕ := AccessUi16.get p.mem (p.data + eapLen)

def type (p : EapPacket) : ℕ := AccessUi8.get p.mem (p.data + eapType)

/-- The pointer to the type data. -/
def eapData (p : EapPacket) : ℕ := p.data + headerLen

def setCode (p : EapPacket) (v : ℕ) : EapPacket :=
  { p with mem := AccessUi8.set p.mem (p.data + eapCode) v }

def setId (p : EapPacket) (v : ℕ) : EapPacket :=
  { p with mem := AccessUi8.set p.mem (p.data + eapId) v }

def setLen (p : EapPacket) (v : ℕ) : EapPacket :=
  { p with mem := AccessUi16.set p.mem (p.data + eapLen) v }

/-- `len() += v`. -/
def addLen (p : EapPacket) (v : ℕ) : EapPacket :=
  { p with mem := AccessUi16.addAssign p.mem (p.data + eapLen) v }

def setType (p : EapPacket) (v : ℕ) : EapPacket :=
  { p with mem := AccessUi8.set p.mem (p.data + eapType) v }

/-- Store bytes at a distance from the type data. -/
def storeData (p : EapPacket) (i : ℕ) (bs : List UInt8) : EapPacket := p.store (headerLen + i) bs

/-- The code is the first byte. -/
theorem code_eq (p : EapPacket) : p.code = (p.byte 0).toNat := rfl

/-- The identifier is the second byte. -/
theorem id_eq (p : EapPacket) : p.id = (p.byte 1).toNat := rfl

/-- The type is the fifth byte. -/
theorem type_eq (p : EapPacket) : p.type = (p.byte 4).toNat := rfl

/-- The length is stored with its high byte first. -/
theorem len_eq (p : EapPacket) : p.len = (p.byte 2).toNat * 256 + (p.byte 3).toNat :=
  AccessUi16.get_eq ..

/-- A length is below `2 ^ 16`. -/
theorem len_lt (p : EapPacket) : p.len < 2 ^ 16 := AccessUi16.get_lt ..

/-- Setting the identifier stores its byte. -/
theorem setId_eq (p : EapPacket) (v : ℕ) : p.setId v = p.store 1 [UInt8.ofNat v] := rfl

/-- Setting the type stores its byte. -/
theorem setType_eq (p : EapPacket) (v : ℕ) : p.setType v = p.store 4 [UInt8.ofNat v] := rfl

/-- Setting the length stores two bytes. -/
theorem setLen_eq (p : EapPacket) (v : ℕ) :
    p.setLen v = p.store 2 [UInt8.ofNat (v / 256), UInt8.ofNat v] := by
  rw [setLen, AccessUi16.set_eq]
  rfl

/-- Adding a small number to the length changes its low byte, and carries nothing. -/
theorem addLen_eq (p : EapPacket) (v : ℕ) (hv : v < 256) :
    p.addLen v = p.store 2 [p.byte 2, UInt8.ofNat ((p.byte 3).toNat + v)] := by
  rw [addLen, AccessUi16.addAssign_eq _ _ _ hv]
  rfl

/-- `+=` over a length below 256. -/
theorem addLen_of_high_zero {p : EapPacket} (v : ℕ) (h : p.byte 2 = 0) :
    p.addLen v = p.store 2 [UInt8.ofNat (v / 256), UInt8.ofNat ((p.byte 3).toNat + v)] := by
  have hhigh : p.mem (p.data + eapLen) = 0 := h
  rw [addLen, AccessUi16.addAssign_of_high_zero v hhigh]
  rfl

/-- The type data are stored behind the type. -/
theorem storeData_eq (p : EapPacket) (i : ℕ) (bs : List UInt8) :
    p.storeData i bs = p.store (5 + i) bs := rfl

/-- The length field after an assignment. -/
theorem len_setLen (p : EapPacket) (v : ℕ) : (p.setLen v).len = v % 2 ^ 16 := AccessUi16.get_set ..

/-- The length field is not touched by a store elsewhere in the packet. -/
theorem len_store_of_outside {p : EapPacket} {i : ℕ} {bs : List UInt8}
    (h : i + bs.length ≤ 2 ∨ 4 ≤ i) : EapPacket.len (p.store i bs) = p.len := by
  rw [len_eq, len_eq, Pointer.byte_store_of_outside (by omega),
    Pointer.byte_store_of_outside (by omega)]

/-- The length field after `+=`: the carry out of the low byte is lost. -/
theorem len_addLen (p : EapPacket) (v : ℕ) (hv : v < 256) :
    (p.addLen v).len = p.len / 256 * 256 + (p.len % 256 + v) % 256 :=
  AccessUi16.get_addAssign _ _ _ hv

/-- Two packets at one place that differ in the length and the type data only. -/
structure SameHead (p q : EapPacket) : Prop where
  data : q.data = p.data
  mem : ∀ a, a < p.data + eapLen ∨ a = p.data + eapType → q.mem a = p.mem a

namespace SameHead

variable {p q r : EapPacket}

/-- A packet has its own head. -/
theorem refl (p : EapPacket) : p.SameHead p := ⟨rfl, fun _ _ => rfl⟩

/-- The head stays the same from step to step. -/
theorem trans (h : p.SameHead q) (h' : q.SameHead r) : p.SameHead r where
  data := h'.data.trans h.data
  mem := by
    intro a ha
    have hq : a < q.data + eapLen ∨ a = q.data + eapType := by rwa [h.data]
    rw [h'.mem a hq, h.mem a ha]

/-- A store into the length or behind the type. -/
theorem write {w : ℕ} {bs : List UInt8}
    (h : p.data + eapLen ≤ w ∧ w + bs.length ≤ p.data + eapType ∨ p.data + headerLen ≤ w) :
    p.SameHead { p with mem := Base.write p.mem w bs } where
  data := rfl
  mem := by
    intro a ha
    simp only [eapLen, eapType, headerLen] at h ha
    exact write_of_outside (by omega)

/-- Setting the length keeps the head. -/
theorem setLen (p : EapPacket) (v : ℕ) : p.SameHead (EapPacket.setLen p v) :=
  write (by simp [eapLen, eapType, headerLen])

/-- Adding to the length keeps the head. -/
theorem addLen (p : EapPacket) (v : ℕ) : p.SameHead (EapPacket.addLen p v) :=
  write (by simp [eapLen, eapType, headerLen])

/-- Storing type data keeps the head. -/
theorem storeData (p : EapPacket) (i : ℕ) (bs : List UInt8) :
    p.SameHead (EapPacket.storeData p i bs) :=
  write (by simp only [headerLen]; omega)

/-- The code is in the head. -/
theorem code (h : p.SameHead q) : q.code = p.code := by
  have hbyte := h.mem (p.data + eapCode) (Or.inl (by simp [eapCode, eapLen]))
  rw [EapPacket.code, EapPacket.code, AccessUi8.get, AccessUi8.get, h.data, hbyte]

end SameHead

/-- The whole packet, as long as its length field says. -/
def contents (p : EapPacket) : List UInt8 := p.bytes 0 p.len

end EapPacket

namespace EapolPacket

/-- Type of a frame that carries an EAP packet. -/
def pckt : ℕ := 0

def start : ℕ := 1

def logoff : ℕ := 2

def key : ℕ := 3

/-- Bytes before the body. -/
def baseHeaderLen : ℕ := 4

def version (p : EapolPacket) : ℕ := AccessUi8.get p.mem p.data

def type (p : EapolPacket) : ℕ := AccessUi8.get p.mem (p.data + 1)

def bodyLen (p : EapolPacket) : ℕ := AccessUi16.get p.mem (p.data + 2)

/-- The EAP packet in the body. -/
def body (p : EapolPacket) : EapPacket := ⟨p.mem, p.data + 4⟩

def setVersion (p : EapolPacket) (v : ℕ) : EapolPacket := { p with mem := AccessUi8.set p.mem p.data v }

def setType (p : EapolPacket) (v : ℕ) : EapolPacket :=
  { p with mem := AccessUi8.set p.mem (p.data + 1) v }

def setBodyLen (p : EapolPacket) (v : ℕ) : EapolPacket :=
  { p with mem := AccessUi16.set p.mem (p.data + 2) v }

/-- Setting the type stores its byte. -/
theorem setType_eq (p : EapolPacket) (v : ℕ) : p.setType v = p.store 1 [UInt8.ofNat v] := rfl

/-- Setting the length of the body stores two bytes. -/
theorem setBodyLen_eq (p : EapolPacket) (v : ℕ) :
    p.setBodyLen v = p.store 2 [UInt8.ofNat (v / 256), UInt8.ofNat v] := by
  rw [setBodyLen, AccessUi16.set_eq]
  rfl

/-- The length of the body is read back as far as 16 bits go. -/
theorem bodyLen_setBodyLen (p : EapolPacket) (v : ℕ) : (p.setBodyLen v).bodyLen = v % 2 ^ 16 :=
  AccessUi16.get_set ..

/-- A byte of the EAP packet in the body. -/
theorem body_byte (p : EapolPacket) (j : ℕ) : p.body.byte j = p.byte (baseHeaderLen + j) := by
  simp only [Pointer.byte, body, baseHeaderLen, Nat.add_assoc]

/-- The EAP packet in the body is not touched by a store in the header. -/
theorem body_len_store {p : EapolPacket} {i : ℕ} {bs : List UInt8} (h : i + bs.length ≤ 6) :
    (body (p.store i bs)).len = p.body.len := by
  simp only [EapPacket.len_eq, body_byte, baseHeaderLen]
  rw [Pointer.byte_store_of_outside (by omega), Pointer.byte_store_of_outside (by omega)]

/-- A store in front of the body does not touch the code in it. -/
theorem body_code_store {p : EapolPacket} {i : ℕ} {bs : List UInt8} (h : i + bs.length ≤ 4) :
    (body (p.store i bs)).code = p.body.code := by
  simp only [EapPacket.code_eq, body_byte, baseHeaderLen]
  rw [Pointer.byte_store_of_outside (by omega)]

end EapolPacket

end Dot1x.Wire
