import Dot1x.Base.Memory

/-!
# Field accessors

The accessor classes read and write fields of a packet in place, converting between host and
network byte order. The model fixes the little-endian hosts both programs run on: there
`htons` and `htonl` reverse the bytes of the word.

The only accessor whose effect is not plain is `operator +=` of the 16-bit one. It adds the
two words in network order, as the host sees them, so a carry out of the low byte of the
number is a carry out of the high byte of the host's word and is lost.
-/

namespace Dot1x.Wire

open Dot1x.Base

/-- The host's 16-bit word with its two bytes exchanged; the argument is cut to 16 bits. -/
def htons (v : ℕ) : ℕ := leValue (leBytes 2 v).reverse

/-- The inverse conversion, which is the same exchange. -/
def ntohs (v : ℕ) : ℕ := htons v

/-- The host's 32-bit word with its bytes reversed; the argument is cut to 32 bits. -/
def htonl (v : ℕ) : ℕ := leValue (leBytes 4 v).reverse

/-- The inverse conversion, which is the same reversal. -/
def ntohl (v : ℕ) : ℕ := htonl v

namespace AccessUi8

/-- `operator unsigned`. -/
def get (m : Mem) (w : ℕ) : ℕ := (m w).toNat

/-- `operator =`. -/
def set (m : Mem) (w v : ℕ) : Mem := write m w [UInt8.ofNat v]

/-- `operator |=`. -/
def orAssign (m : Mem) (w v : ℕ) : Mem := write m w [m w ||| UInt8.ofNat v]

end AccessUi8

namespace AccessUi16

/-- `operator unsigned`. -/
def get (m : Mem) (w : ℕ) : ℕ := ntohs (leValue (slice m w 2))

/-- `operator =`. -/
def set (m : Mem) (w v : ℕ) : Mem := write m w (leBytes 2 (htons v))

/-- `operator +=`: the sum is formed on the host's word and cut to 16 bits by the store. -/
def addAssign (m : Mem) (w v : ℕ) : Mem := write m w (leBytes 2 (leValue (slice m w 2) + htons v))

end AccessUi16

namespace AccessUi32

/-- `operator ui32`. -/
def get (m : Mem) (w : ℕ) : ℕ := ntohl (leValue (slice m w 4))

/-- `operator =`. -/
def set (m : Mem) (w v : ℕ) : Mem := write m w (leBytes 4 (htonl v))

end AccessUi32

/-- Storing a converted word stores its bytes in network order. -/
private theorem leBytes_htons (v : ℕ) : leBytes 2 (htons v) = (leBytes 2 v).reverse := by
  have h := leBytes_leValue (leBytes 2 v).reverse
  rwa [List.length_reverse, leBytes_length] at h

/-- A 16-bit field is read as a big-endian number. -/
theorem AccessUi16.get_eq (m : Mem) (w : ℕ) :
    get m w = (m w).toNat * 256 + (m (w + 1)).toNat := by
  have hbytes : leBytes 2 (leValue (slice m w 2)) = slice m w 2 := by
    simpa using leBytes_leValue (slice m w 2)
  rw [get, ntohs, htons, hbytes, slice_succ, slice_succ, slice_zero]
  simp only [List.reverse_cons, List.reverse_nil, List.nil_append, List.cons_append, leValue]
  omega

/-- A number of two bytes is below `2 ^ 16`. -/
theorem AccessUi16.get_lt (m : Mem) (w : ℕ) : get m w < 2 ^ 16 := by
  have h := (m w).toNat_lt
  have h' := (m (w + 1)).toNat_lt
  rw [get_eq]
  omega

/-- The two bytes an assignment stores. -/
theorem AccessUi16.set_eq (m : Mem) (w v : ℕ) :
    set m w v = write m w [UInt8.ofNat (v / 256), UInt8.ofNat v] := by
  rw [set, leBytes_htons]
  rfl

/-- An assigned field reads back as its value cut to 16 bits. -/
theorem AccessUi16.get_set (m : Mem) (w v : ℕ) : get (set m w v) w = v % 2 ^ 16 := by
  rw [get_eq, set_eq, write_of_inside (by omega) (by simp), write_of_inside (by omega) (by simp)]
  simp only [Nat.sub_self, Nat.add_sub_cancel_left, List.getD_cons_zero, List.getD_cons_succ,
    UInt8.toNat_ofNat']
  omega

/-- The two bytes `+=` stores for an increment below 256: the high byte is left alone and the
low byte is increased modulo 256. -/
theorem AccessUi16.addAssign_eq (m : Mem) (w v : ℕ) (hv : v < 256) :
    addAssign m w v = write m w [m w, UInt8.ofNat ((m (w + 1)).toNat + v)] := by
  have hhigh : (m w).toNat < 2 ^ 8 := (m w).toNat_lt
  have hword : leValue (slice m w 2) = (m w).toNat + 256 * (m (w + 1)).toNat := by
    simp [slice_succ, leValue]
  have hinc : htons v = 256 * v := by
    simp only [htons, leBytes, List.reverse_cons, List.reverse_nil, List.nil_append,
      List.cons_append, leValue, UInt8.toNat_ofNat']
    omega
  have hfirst : UInt8.ofNat ((m w).toNat + 256 * (m (w + 1)).toNat + 256 * v) = m w := by
    apply UInt8.toNat_inj.mp
    rw [UInt8.toNat_ofNat']
    omega
  have hsecond : ((m w).toNat + 256 * (m (w + 1)).toNat + 256 * v) / 256 = (m (w + 1)).toNat + v := by
    omega
  simp only [addAssign, hword, hinc, leBytes, hfirst, hsecond]

/-- The two bytes `+=` stores where the high byte is zero, for any increment. -/
theorem AccessUi16.addAssign_of_high_zero {m : Mem} {w : ℕ} (v : ℕ) (h : m w = 0) :
    addAssign m w v =
      write m w [UInt8.ofNat (v / 256), UInt8.ofNat ((m (w + 1)).toNat + v)] := by
  have hword : leValue (slice m w 2) = 256 * (m (w + 1)).toNat := by
    simp [slice_succ, leValue, h]
  have hinc : htons v = v / 256 % 256 + 256 * (v % 256) := by
    simp only [htons, leBytes, List.reverse_cons, List.reverse_nil, List.nil_append,
      List.cons_append, leValue, UInt8.toNat_ofNat']
    omega
  have hfirst : UInt8.ofNat (256 * (m (w + 1)).toNat + (v / 256 % 256 + 256 * (v % 256))) =
      UInt8.ofNat (v / 256) := by
    apply UInt8.toNat_inj.mp
    rw [UInt8.toNat_ofNat', UInt8.toNat_ofNat']
    omega
  have hsecond : UInt8.ofNat ((256 * (m (w + 1)).toNat + (v / 256 % 256 + 256 * (v % 256))) / 256) =
      UInt8.ofNat ((m (w + 1)).toNat + v) := by
    have hhigh : (256 * (m (w + 1)).toNat + (v / 256 % 256 + 256 * (v % 256))) / 256 =
        (m (w + 1)).toNat + v % 256 := by omega
    apply UInt8.toNat_inj.mp
    rw [UInt8.toNat_ofNat', UInt8.toNat_ofNat', hhigh]
    omega
  simp only [addAssign, hword, hinc, leBytes, hfirst, hsecond]

/-- The value of a field after `+=`: the carry out of the low byte is lost. -/
theorem AccessUi16.get_addAssign (m : Mem) (w v : ℕ) (hv : v < 256) :
    get (addAssign m w v) w = get m w / 256 * 256 + (get m w % 256 + v) % 256 := by
  have hlow := (m (w + 1)).toNat_lt
  rw [addAssign_eq m w v hv, get_eq, get_eq, write_of_inside (by omega) (by simp),
    write_of_inside (by omega) (by simp)]
  simp only [Nat.sub_self, Nat.add_sub_cancel_left, List.getD_cons_zero, List.getD_cons_succ,
    UInt8.toNat_ofNat']
  omega

/-- `+=` adds exactly when the low byte does not overflow. -/
theorem AccessUi16.get_addAssign_eq_add_iff (m : Mem) (w v : ℕ) (hpos : 0 < v) (hv : v < 256) :
    get (addAssign m w v) w = get m w + v ↔ get m w % 256 + v < 256 := by
  rw [get_addAssign m w v hv]
  omega

/-- A 32-bit field is read as a big-endian number. -/
theorem AccessUi32.get_eq (m : Mem) (w : ℕ) :
    get m w = leValue (slice m w 4).reverse := by
  have hbytes : leBytes 4 (leValue (slice m w 4)) = slice m w 4 := by
    simpa using leBytes_leValue (slice m w 4)
  rw [get, ntohl, htonl, hbytes]

/-- The four bytes an assignment stores. -/
theorem AccessUi32.set_eq (m : Mem) (w v : ℕ) : set m w v = write m w (leBytes 4 v).reverse := by
  have h := leBytes_leValue (leBytes 4 v).reverse
  rw [List.length_reverse, leBytes_length] at h
  rw [set, htonl, h]

/-- A field that holds the bytes of a number reads back as that number cut to 32 bits. -/
theorem AccessUi32.get_of_slice {m : Mem} {w v : ℕ} (h : slice m w 4 = (leBytes 4 v).reverse) :
    get m w = v % 2 ^ 32 := by
  rw [AccessUi32.get_eq, h, List.reverse_reverse, leValue_leBytes]
  rfl

/-- A number of four bytes is below `2 ^ 32`. -/
theorem AccessUi32.get_lt (m : Mem) (w : ℕ) : get m w < 2 ^ 32 := by
  have h := leValue_lt (slice m w 4).reverse
  rw [get_eq]
  simpa using h

end Dot1x.Wire
