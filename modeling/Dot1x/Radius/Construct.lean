import Dot1x.Base.Blocks
import Dot1x.Radius.Attribute

/-!
# Constructing and appending

Every kind of attribute is encoded twice: by a constructor, and in place by the packet that it is
appended to. The two agree on every value that fits.
-/

namespace Dot1x.Radius

open Dot1x.Base

/-- What a vendor-specific attribute with `n` bytes in its value begins with. -/
def vsaHeader (vendorId : UInt32) (vendorType : UInt8) (n : ℕ) : List UInt8 :=
  RadiusAttr.vendorSpecific :: UInt8.ofNat (n + 8) ::
    (AppendOp.bigEndian vendorId ++ [vendorType, UInt8.ofNat (n + 2)])

section Header

variable {i : UInt32} {t : UInt8} {n : ℕ} {v : List UInt8}

/-- An integer takes four bytes. -/
theorem bigEndian_length (i : UInt32) : (AppendOp.bigEndian i).length = 4 := by
  rw [AppendOp.bigEndian, List.length_reverse, leBytes_length]

/-- The header of a vendor-specific attribute takes eight bytes. -/
theorem vsaHeader_length : (vsaHeader i t n).length = 8 := by
  simp [vsaHeader, bigEndian_length]

/-- A vendor-specific attribute takes the header and the value. -/
theorem vsa_length : (AppendOp.vsa i t v).length = v.length + 8 := by
  simp [AppendOp.vsa, Tlv.length, bigEndian_length]
  omega

/-- It is the header with the value behind it. -/
theorem vsa_bytes : (AppendOp.vsa i t v).bytes = vsaHeader i t v.length ++ v := by
  rw [Tlv.bytes, vsa_length, vsaHeader, AppendOp.vsa]
  simp

/-- Only the two lengths depend on the value. -/
private theorem vsaHeader_set (k : ℕ) :
    ((vsaHeader i t n).set 1 (UInt8.ofNat (k + 8))).set 7 (UInt8.ofNat (k + 2)) =
      vsaHeader i t k := by
  rw [vsaHeader, vsaHeader, ← radiusInteger_eq]
  rfl

/-- Both lengths are where they are expected. -/
private theorem vsaHeader_getD (w : List UInt8) :
    (vsaHeader i t n ++ w).getD 1 0 = UInt8.ofNat (n + 8) ∧
      (vsaHeader i t n ++ w).getD 7 0 = UInt8.ofNat (n + 2) := by
  rw [vsaHeader, ← radiusInteger_eq]
  exact ⟨rfl, rfl⟩

end Header

namespace RadiusAttr

variable {fresh : Mem} {t : UInt8} {i : UInt32} {v w : List UInt8} {n k : ℕ}

/-- The constructor with a value that fits builds the attribute in memory. -/
theorem ofValue_eq (h : v.length ≤ 253) :
    ofValue fresh t v = write fresh 0 (Tlv.bytes ⟨t, v⟩) := by
  have hmin : min v.length maxValueLength = v.length := Nat.min_eq_left h
  have hlength : write fresh 0 [t, UInt8.ofNat fixedHeaderLength] 1 = UInt8.ofNat 2 := rfl
  have hone : 1 < [t, UInt8.ofNat fixedHeaderLength].length := Nat.one_lt_two
  have hset := write_write_set fresh 0 hone (UInt8.ofNat 2 + UInt8.ofNat v.length)
  rw [Nat.zero_add] at hset
  rw [ofValue, hmin]
  split
  · rw [hlength]
    simp only [hset]
    rw [List.take_length, ← UInt8.ofNat_add, Nat.add_comm 2]
    exact write_write_append fresh 0 [t, UInt8.ofNat (v.length + 2)] v
  · rename_i hempty
    rw [List.length_eq_zero_iff.mp (Nat.eq_zero_of_not_pos hempty)]
    rfl

/-- The first part of the vendor-specific constructors writes the header. -/
theorem beginVsa_eq (n : ℕ) :
    beginVsa fresh (n + 8) (n + 2) i t = write fresh 0 (vsaHeader i t n) := by
  rw [beginVsa, radiusInteger_eq]
  have hbefore := write_write_before (write fresh 0 [vendorSpecific, UInt8.ofNat (n + 8)]) 2
    (AppendOp.bigEndian i) [t, UInt8.ofNat (n + 2)]
  rw [bigEndian_length] at hbefore
  exact hbefore.trans (write_write_append fresh 0 [vendorSpecific, UInt8.ofNat (n + 8)] _)

/-- Storing both lengths anew, whatever is behind the header. -/
theorem write_lengths (k : ℕ) (w : List UInt8) :
    write (write (write fresh 0 (vsaHeader i t n ++ w)) 1 [UInt8.ofNat (k + 8)]) 7
      [UInt8.ofNat (k + 2)] = write fresh 0 (vsaHeader i t k ++ w) := by
  have hone : 1 < (vsaHeader i t n).length := vsaHeader_length.symm ▸ (by decide : 1 < 8)
  have hseven : 7 < ((vsaHeader i t n).set 1 (UInt8.ofNat (k + 8))).length := by
    rw [List.length_set]
    exact vsaHeader_length.symm ▸ (by decide : 7 < 8)
  have hone' : 1 < (vsaHeader i t n ++ w).length := Nat.lt_of_lt_of_le hone (by simp)
  have hseven' : 7 < ((vsaHeader i t n).set 1 (UInt8.ofNat (k + 8)) ++ w).length :=
    Nat.lt_of_lt_of_le hseven (by simp)
  have hfirst := write_write_set fresh 0 hone' (UInt8.ofNat (k + 8))
  have hsecond := write_write_set fresh 0 hseven' (UInt8.ofNat (k + 2))
  rw [Nat.zero_add, List.set_append_left _ _ hone] at hfirst
  rw [Nat.zero_add, List.set_append_left _ _ hseven, vsaHeader_set] at hsecond
  rw [hfirst, hsecond]

/-- The lengths of an attribute that is stored. -/
theorem write_getD (fresh : Mem) (i : UInt32) (t : UInt8) (n : ℕ) (w : List UInt8) :
    write fresh 0 (vsaHeader i t n ++ w) 1 = UInt8.ofNat (n + 8) ∧
      write fresh 0 (vsaHeader i t n ++ w) 7 = UInt8.ofNat (n + 2) := by
  obtain ⟨hlength, hvendor⟩ := vsaHeader_getD (i := i) (t := t) (n := n) w
  have hlong : 8 ≤ (vsaHeader i t n ++ w).length := by
    rw [List.length_append, vsaHeader_length]
    omega
  rw [← hlength, ← hvendor]
  exact ⟨write_of_inside (Nat.zero_le 1) (by omega), write_of_inside (Nat.zero_le 7) (by omega)⟩

/-- The length of the second value is added to the byte of the first. -/
theorem ofNat_add_ofNat (a b c : ℕ) :
    UInt8.ofNat (a + b) + UInt8.ofNat c = UInt8.ofNat (a + c + b) := by
  rw [← UInt8.ofNat_add, Nat.add_right_comm]

/-- The vendor-specific constructor with a value that fits. -/
theorem ofVsaValue_eq (h : v.length ≤ 247) :
    ofVsaValue fresh v i t = write fresh 0 (AppendOp.vsa i t v).bytes := by
  have hmin : min v.length vsaMaxRfc2865ValueLength = v.length := Nat.min_eq_left h
  have hbegin : beginVsa fresh vsaRfc2865FixedHeaderLength 2 i t =
      write fresh 0 (vsaHeader i t 0 ++ []) := by
    rw [List.append_nil]
    exact beginVsa_eq 0
  rw [ofVsaValue, hmin, hbegin, vsa_bytes]
  split
  · obtain ⟨hlength, hvendor⟩ := write_getD fresh i t 0 []
    rw [hlength, ofNat_add_ofNat]
    have hother : write (write fresh 0 (vsaHeader i t 0 ++ [])) 1 [UInt8.ofNat (0 + v.length + 8)] 7 =
        UInt8.ofNat (0 + 2) := (write_of_outside (Or.inr (Nat.le_add_left 2 5))).trans hvendor
    simp only [hother]
    rw [ofNat_add_ofNat, write_lengths, List.take_length, List.append_nil, Nat.zero_add]
    have happend := write_write_append fresh 0 (vsaHeader i t v.length) v
    rwa [vsaHeader_length] at happend
  · rename_i hempty
    rw [List.length_eq_zero_iff.mp (Nat.eq_zero_of_not_pos hempty)]
    rfl

/-- The value of a vendor-specific attribute grows at its end. -/
theorem extendVsa_eq : extendVsa (write fresh 0 (AppendOp.vsa i t v).bytes) 0 (v.length + 8) w =
    write fresh 0 (AppendOp.vsa i t (v ++ w)).bytes := by
  have happend := write_write_append fresh 0 (vsaHeader i t v.length ++ v) w
  rw [List.length_append, vsaHeader_length, Nat.add_comm 8, Nat.zero_add, List.append_assoc]
    at happend
  obtain ⟨hlength, hvendor⟩ := write_getD fresh i t v.length (v ++ w)
  have hother (b : UInt8) : write (write fresh 0 (vsaHeader i t v.length ++ (v ++ w))) 1 [b] 7 =
      UInt8.ofNat (v.length + 2) := (write_of_outside (Or.inr (Nat.le_add_left 2 5))).trans hvendor
  simp only [extendVsa, vsa_bytes, happend, Nat.zero_add, hlength, hother, ofNat_add_ofNat,
    write_lengths, List.length_append]

/-- Four bytes behind a header. -/
theorem beginVsa_four {bs : List UInt8} (h : bs.length = 4) :
    write (beginVsa fresh (vsaRfc2865FixedHeaderLength + 4) (2 + 4) i t) 8 bs =
      write fresh 0 (AppendOp.vsa i t bs).bytes := by
  have happend := write_write_append fresh 0 (vsaHeader i t 4) bs
  rw [vsaHeader_length, ← beginVsa_eq] at happend
  rw [vsa_bytes, h]
  exact happend

/-- The length byte of what was written. -/
theorem getLength_write (h : v.length + 8 < 256) :
    getLength (write fresh 0 (AppendOp.vsa i t v).bytes) 0 = v.length + 8 := by
  rw [getLength, vsa_bytes, (write_getD fresh i t v.length v).1, UInt8.toNat_ofNat', Nat.mod_eq_of_lt h]

/-- The string of a Cisco attribute that fits. -/
theorem putCiscoString_eq (h : (v ++ w).length ≤ 247) :
    putCiscoString (write fresh 0 (AppendOp.vsa i t v).bytes) w =
      write fresh 0 (AppendOp.vsa i t (v ++ w)).bytes := by
  rw [List.length_append] at h
  have hroom : ¬maxLength < v.length + 8 + w.length := by
    change ¬255 < _
    omega
  rw [putCiscoString, getLength_write (by omega), if_neg hroom, extendVsa_eq]

/-- The Cisco constructor with a string that fits. -/
theorem ofCisco_eq {vsaHack : Bool} (h : (AppendOp.ciscoValue t v vsaHack).length ≤ 247) :
    ofCisco fresh t vsaHack v = write fresh 0
      (AppendOp.vsa ciscoVendorId t (AppendOp.ciscoValue t v vsaHack)).bytes := by
  have hbegin : beginVsa fresh vsaRfc2865FixedHeaderLength 2 ciscoVendorId t =
      write fresh 0 (AppendOp.vsa ciscoVendorId t []).bytes := by
    rw [vsa_bytes, List.append_nil]
    exact beginVsa_eq 0
  rw [AppendOp.ciscoValue] at h
  rw [ofCisco, hbegin, AppendOp.ciscoValue]
  cases hname : if vsaHack then none else ciscoAttrName t with
  | none =>
    simp only [hname] at h
    exact putCiscoString_eq h
  | some name =>
    simp only [hname, List.length_append] at h
    have hnamed : extendVsa (write fresh 0 (AppendOp.vsa ciscoVendorId t []).bytes) 0
        vsaRfc2865FixedHeaderLength name = write fresh 0 (AppendOp.vsa ciscoVendorId t name).bytes :=
      extendVsa_eq (v := [])
    simp only [hnamed]
    rw [getLength_write (by omega), extendVsa_eq]
    exact putCiscoString_eq (by simpa only [List.length_append] using h)

end RadiusAttr

namespace AppendOp

variable {fresh : Mem} {p : RadiusPDU} {op : AppendOp}

/-- The object that `AppendAttr` is passed instead; an attribute is copied. -/
def construct (fresh : Mem) : AppendOp → Mem
  | attr m a => fun i => m (a + i)
  | attrData t v => RadiusAttr.ofData fresh t v
  | attrString t v => RadiusAttr.ofString fresh t v
  | attrInt t v => RadiusAttr.ofInt fresh t v
  | attrAddress t v => RadiusAttr.ofAddress fresh t v
  | vsaAttrData v i t => RadiusAttr.ofVsaData fresh v i t
  | vsaAttrString v i t => RadiusAttr.ofVsaString fresh v i t
  | vsaAttrInt v i t => RadiusAttr.ofVsaInt fresh v i t
  | vsaAttrAddress v i t => RadiusAttr.ofVsaAddress fresh v i t
  | ciscoAttr t v hack => RadiusAttr.ofCisco fresh t hack v

/-- The type that is passed is not that of vendor-specific attributes. -/
def Plain : AppendOp → Prop
  | attrData t _ | attrString t _ | attrInt t _ | attrAddress t _ => t ≠ RadiusAttr.vendorSpecific
  | attr .. | vsaAttrData .. | vsaAttrString .. | vsaAttrInt .. | vsaAttrAddress ..
  | ciscoAttr .. => True

/-- A value is passed, and not an attribute. -/
def Encodes : AppendOp → Prop
  | attr .. => False
  | attrData .. | attrString .. | attrInt .. | attrAddress .. | vsaAttrData .. | vsaAttrString ..
  | vsaAttrInt .. | vsaAttrAddress .. | ciscoAttr .. => True

/-- The attribute fits, and the packet has room for it. -/
structure Fits (p : RadiusPDU) (op : AppendOp) : Prop where
  plain : op.Plain
  length : op.requested.length ≤ RadiusAttr.maxLength
  room : p.getLength + op.requested.length ≤ RadiusPDU.maxPduLength

/-- The constructors store the attribute that is asked for. -/
theorem construct_eq (hop : op.Encodes) (hfits : op.requested.length ≤ 255) :
    op.construct fresh = write fresh 0 op.requested.bytes := by
  cases op with
  | attr m a => exact hop.elim
  | attrData t v | attrString t v => exact RadiusAttr.ofValue_eq (Nat.le_of_add_le_add_right hfits)
  | attrInt t v =>
    rw [requested, ← radiusInteger_eq]
    exact write_write_append fresh 0 [t, 6] _
  | attrAddress t v => exact write_write_append fresh 0 [t, 6] _
  | vsaAttrData v i t | vsaAttrString v i t =>
    rw [requested, vsa_length] at hfits
    exact RadiusAttr.ofVsaValue_eq (by omega)
  | vsaAttrInt v i t =>
    rw [requested, ← radiusInteger_eq]
    exact RadiusAttr.beginVsa_four rfl
  | vsaAttrAddress v i t => exact RadiusAttr.beginVsa_four (leBytes_length 4 _)
  | ciscoAttr t v hack =>
    rw [requested, vsa_length] at hfits
    exact RadiusAttr.ofCisco_eq (by omega)

/-- Two calls with the same result, after which the packets are the same. -/
structure Agree (r r' : Bool × RadiusPDU) : Prop where
  result : r'.1 = r.1
  length : r'.2.getLength = r.2.getLength
  data : ∀ i, i < r.2.getLength → r'.2.data i = r.2.data i

/-- Every result agrees with itself. -/
theorem Agree.refl (r : Bool × RadiusPDU) : Agree r r := ⟨rfl, rfl, fun _ _ => rfl⟩

/-- Two calls that append the same attribute agree. -/
private theorem agree_of_outcome {a : Tlv} {bad bad' : Prop} {r r' : Bool × RadiusPDU}
    (h : p.Outcome bad a r) (h' : p.Outcome bad' a r') (hgood : ¬bad) (hgood' : ¬bad')
    (hfits : a.length ≤ RadiusAttr.maxLength)
    (hroom : p.getLength + a.length ≤ RadiusPDU.maxPduLength) : Agree r r' := by
  have hnot {b : Prop} (hb : ¬b) (hwhy : b ∨ RadiusAttr.maxLength < a.length ∨
      RadiusPDU.maxPduLength < p.getLength + a.length) : False := by
    rcases hwhy with hbad | hover | hfull
    · exact hb hbad
    · exact Nat.not_le.mpr hover hfits
    · exact Nat.not_le.mpr hfull hroom
  cases h with
  | refused hwhy => exact (hnot hgood hwhy).elim
  | @accepted m _ _ _ hbytes hsame =>
    cases h' with
    | refused hwhy => exact (hnot hgood' hwhy).elim
    | @accepted m' _ _ _ hbytes' hsame' =>
      have hsmall : p.getLength + a.length < 2 ^ 16 :=
        Nat.lt_of_le_of_lt hroom (by decide : 4096 < 2 ^ 16)
      have hlength (m : Mem) : ((RadiusPDU.mk m).setLength (p.getLength + a.length)).getLength =
          p.getLength + a.length := RadiusPDU.getLength_setLength hsmall
      refine ⟨rfl, (hlength m').trans (hlength m).symm, fun i hi => ?_⟩
      rw [hlength] at hi
      -- the length is written over both in the same way
      have hmem : m' i = m i := by
        by_cases hold : i < p.getLength
        · rw [hsame i hold, hsame' i hold]
        · obtain ⟨k, rfl⟩ := Nat.exists_eq_add_of_le (Nat.not_lt.mp hold)
          have hk : k < a.length := by omega
          rw [← slice_getD m' p.getLength hk, ← slice_getD m p.getLength hk, hbytes, hbytes']
      by_cases hfield : i = 2 ∨ i = 3
      · rcases hfield with rfl | rfl <;> rfl
      · rw [RadiusPDU.setLength_data (by omega), RadiusPDU.setLength_data (by omega)]
        exact hmem

/-- An attribute with another type is valid, and so is a vendor-specific one with a vendor. -/
theorem Plain.valid (h : op.Plain) (hop : op.Encodes) :
    RadiusAttr.Valid op.requested ∧ ¬op.PassesInvalid := by
  cases op with
  | attr m a => exact hop.elim
  | attrData t v | attrString t v | attrInt t v | attrAddress t v =>
    exact ⟨fun ht => absurd ht h, id⟩
  | vsaAttrData | vsaAttrString | vsaAttrInt | vsaAttrAddress | ciscoAttr =>
    exact ⟨RadiusPDU.valid_vsa _ _ _, id⟩

/-- The attribute that is stored is read, and is valid if it was. -/
theorem read_write (fresh : Mem) {a : Tlv} (hfits : a.length ≤ 255) :
    Tlv.read (write fresh 0 a.bytes) 0 = a ∧
      (RadiusAttr.isValid (write fresh 0 a.bytes) 0 = true ↔ RadiusAttr.Valid a) := by
  have hbytes : slice (write fresh 0 a.bytes) 0 a.length = a.bytes := slice_write_self ..
  obtain ⟨hread, hlength⟩ := Tlv.read_eq hbytes hfits
  refine ⟨hread, ?_⟩
  have hlong : RadiusAttr.fixedHeaderLength ≤ RadiusAttr.getLength (write fresh 0 a.bytes) 0 := by
    rw [RadiusAttr.getLength, hlength]
    exact Nat.le_add_left 2 _
  rw [RadiusAttr.isValid_iff hlong, hread]

/-- What fits is appended as the attribute that is constructed of it. -/
theorem Fits.agree (h : op.Fits p) (hop : op.Encodes) (fresh : Mem) :
    Agree (op.apply p) (p.appendAttr (op.construct fresh) 0) := by
  obtain ⟨hvalid, hgood⟩ := h.plain.valid hop
  obtain ⟨hread, hvalid'⟩ := read_write fresh h.length
  have hconstructed := p.outcome_appendAttr (write fresh 0 op.requested.bytes) 0
  rw [hread] at hconstructed
  rw [construct_eq hop h.length]
  refine agree_of_outcome (p.outcome_apply op) hconstructed hgood ?_ h.length h.room
  rw [hvalid'.mpr hvalid]
  exact Bool.noConfusion

/-- **Appending a value and appending the attribute that is constructed from it are the same.** The
packet ends up with the same bytes, and the calls return the same. -/
theorem append_construct_agree (fresh : Mem) (h : op.Fits p) :
    Agree (op.apply p) (p.appendAttr (op.construct fresh) 0) := by
  cases op with
  | attr m a =>
    have hlength : RadiusAttr.getLength ((attr m a).construct fresh) 0 =
        RadiusAttr.getLength m a := rfl
    have hgood : RadiusAttr.isValid ((attr m a).construct fresh) 0 = RadiusAttr.isValid m a := rfl
    have hbytes (n : ℕ) : slice ((attr m a).construct fresh) 0 n = slice m a n := by
      simp [slice, construct]
    rw [apply, RadiusPDU.appendAttr, RadiusPDU.appendAttr]
    simp only [hlength, hbytes, hgood]
    exact .refl _
  | attrData | attrString | attrInt | attrAddress | vsaAttrData | vsaAttrString | vsaAttrInt
  | vsaAttrAddress | ciscoAttr => exact h.agree trivial fresh

/-- A Cisco attribute with its name is appended to a new packet. -/
theorem append_construct_agree_cisco :
    Agree ((ciscoAttr 110 [85, 83, 68] false).apply (.new (fun _ => 0) 1 7))
      ((RadiusPDU.new (fun _ => 0) 1 7).appendAttr
        ((ciscoAttr 110 [85, 83, 68] false).construct fun _ => 0) 0) :=
  append_construct_agree (fun _ => 0) ⟨trivial, by decide +kernel, by decide +kernel⟩

end AppendOp

end Dot1x.Radius
