import Dot1x.Radius.Construct

/-!
# Values of attributes

An attribute that is constructed from a value gives the value back through the accessor for it, also
after it was written to an array and read again. There is one accessor that does not: that for time
stamps takes a plain attribute for a vendor-specific one.
-/

namespace Dot1x.Radius

open Dot1x.Base

/-- A value for each constructor; time stamps are passed as integers. -/
inductive TypedValue
  | data (attrType : UInt8) (attrValue : List UInt8)
  | string (attrType : UInt8) (stringValue : List UInt8)
  | int (attrType : UInt8) (intValue : UInt32)
  | time (attrType : UInt8) (timeValue : UInt32)
  | address (attrType : UInt8) (addressValue : UInt32)
  | vsaData (attrValue : List UInt8) (vendorId : UInt32) (vendorType : UInt8)
  | vsaString (stringValue : List UInt8) (vendorId : UInt32) (vendorType : UInt8)
  | vsaInt (intValue : UInt32) (vendorId : UInt32) (vendorType : UInt8)
  | vsaTime (timeValue : UInt32) (vendorId : UInt32) (vendorType : UInt8)
  | vsaAddress (addressValue : UInt32) (vendorId : UInt32) (vendorType : UInt8)

namespace RadiusAttr

variable (m : Mem) (attr : ℕ)

/-- `GetValue` stores these bytes, as many as `GetValueLength` says. -/
def ValueIs (v : List UInt8) : Prop :=
  getValueLength m attr = v.length ∧ ∀ (buffer : List UInt8) (offset : Option ℕ), ∃ buffer',
    getValueArray m attr buffer offset = some buffer' ∧
      (buffer'.drop (offset.getD buffer.length)).take v.length = v

/-- `GetVsaValue` stores these bytes, as many as `GetVsaValueLength` says. -/
def VsaValueIs (v : List UInt8) : Prop :=
  getVsaValueLength m attr = v.length ∧ ∀ (buffer : List UInt8) (offset : Option ℕ), ∃ buffer',
    getVsaValueArray m attr buffer offset = some buffer' ∧
      (buffer'.drop (offset.getD buffer.length)).take v.length = v

/-- The vendor and the vendor's type. -/
def VendorIs (vendorId : UInt32) (vendorType : UInt8) : Prop :=
  getVsaVendorId m attr = vendorId ∧ getVsaType m attr = vendorType

end RadiusAttr

namespace TypedValue

open RadiusAttr

/-- The call that appends the same value. -/
def op : TypedValue → AppendOp
  | data t v => .attrData t v
  | string t v => .attrString t v
  | int t v | time t v => .attrInt t v
  | address t v => .attrAddress t v
  | vsaData v i t => .vsaAttrData v i t
  | vsaString v i t => .vsaAttrString v i t
  | vsaInt v i t | vsaTime v i t => .vsaAttrInt v i t
  | vsaAddress v i t => .vsaAttrAddress v i t

/-- The object that is constructed. -/
def construct (fresh : Mem) (value : TypedValue) : Mem := value.op.construct fresh

/-- A value of bytes is short enough, and a plain attribute has not the type of vendor-specific
ones. -/
def Fits : TypedValue → Prop
  | data t v | string t v => t ≠ vendorSpecific ∧ v.length ≤ 253
  | int t _ | time t _ | address t _ => t ≠ vendorSpecific
  | vsaData v _ _ | vsaString v _ _ => v.length ≤ 247
  | vsaInt .. | vsaTime .. | vsaAddress .. => True

/-- The accessors for the kind of value give it back. -/
def GivesBack (m : Mem) (attr : ℕ) : TypedValue → Prop
  | data _ v | string _ v => asString m attr = v ∧ ValueIs m attr v
  | int _ v => asInteger m attr = v
  | time _ v => asTime m attr = v
  | address _ v => asAddress m attr = v
  | vsaData v i t | vsaString v i t =>
    asVsaString m attr = v ∧ VsaValueIs m attr v ∧ VendorIs m attr i t
  | vsaInt v i t => asVsaInteger m attr = v ∧ VendorIs m attr i t
  | vsaTime v i t => asVsaTime m attr = v ∧ VendorIs m attr i t
  | vsaAddress v i t => asVsaAddress m attr = v ∧ VendorIs m attr i t

/-- The value is given back, also by an attribute that is read from where it was written. -/
structure RoundTrip (value : TypedValue) : Prop where
  constructed : ∀ fresh, value.GivesBack (value.construct fresh) 0
  transmitted : ∀ fresh buffer offset, ∃ buffer' written,
    writeArray (value.construct fresh) 0 buffer offset = some (buffer', written) ∧
      ∀ fresh', (read fresh' (buffer'.drop (offset.getD buffer.length))).1 = true ∧
        value.GivesBack (ofRawData fresh' (buffer'.drop (offset.getD buffer.length))) 0

end TypedValue

/-- The bytes that are copied into an array are in it. -/
theorem drop_fillArray (buffer : List UInt8) (offset : ℕ) (bytes : List UInt8) :
    ∃ rest, (fillArray buffer offset bytes).drop offset = bytes ++ rest := by
  have htake : ((buffer ++ List.replicate (offset + bytes.length - buffer.length) 0).take
      offset).length = offset := by
    rw [List.length_take, List.length_append, List.length_replicate]
    omega
  rw [fillArray, List.append_assoc, List.drop_left' htake]
  exact ⟨_, rfl⟩

/-- What is written into an array is read back from it. -/
theorem take_drop_fillArray (buffer : List UInt8) (offset : ℕ) (bytes : List UInt8) :
    ((fillArray buffer offset bytes).drop offset).take bytes.length = bytes := by
  obtain ⟨rest, hrest⟩ := drop_fillArray buffer offset bytes
  rw [hrest, List.take_left' rfl]

namespace RadiusAttr

variable {m : Mem} {attr : ℕ} {t : UInt8} {i : UInt32} {v : List UInt8}

/-- An attribute is there with a type that is not vendor-specific. -/
structure PlainAt (m : Mem) (attr : ℕ) (t : UInt8) (v : List UInt8) : Prop where
  type : getType m attr = t
  plain : t ≠ vendorSpecific
  length : getLength m attr = v.length + 2
  value : slice m (attr + 2) v.length = v

/-- A vendor-specific attribute is there. -/
structure VsaAt (m : Mem) (attr : ℕ) (i : UInt32) (t : UInt8) (v : List UInt8) : Prop where
  type : getType m attr = vendorSpecific
  length : getLength m attr = v.length + 8
  vendorId : getRadiusInteger m (attr + 2) = i
  vendorType : m (attr + 6) = t
  vendorLength : (m (attr + 7)).toNat = v.length + 2
  value : slice m (attr + 8) v.length = v

/-- A plain attribute that is stored. -/
theorem plainAt (h : slice m attr (Tlv.length ⟨t, v⟩) = Tlv.bytes ⟨t, v⟩) (hplain : t ≠ vendorSpecific)
    (hfits : v.length ≤ 253) : PlainAt m attr t v := by
  obtain ⟨hread, hlength⟩ := Tlv.read_eq h (Nat.add_le_add_right hfits 2)
  have hlong : (m (attr + 1)).toNat - 2 = v.length := by
    rw [hlength]
    exact Nat.add_sub_cancel ..
  refine ⟨congrArg Tlv.type hread, hplain, hlength, ?_⟩
  rw [← hlong]
  exact congrArg Tlv.value hread

/-- A vendor-specific attribute that is stored. -/
theorem vsaAt (h : slice m attr (AppendOp.vsa i t v).length = (AppendOp.vsa i t v).bytes)
    (hfits : v.length ≤ 247) : VsaAt m attr i t v := by
  rw [vsa_length, vsa_bytes, Nat.add_comm, ← slice_append] at h
  obtain ⟨hheader, hvalue⟩ := List.append_inj h (by rw [slice_length, vsaHeader_length])
  have hsplit : slice m attr 8 =
      m attr :: m (attr + 1) :: (slice m (attr + 2) 4 ++ [m (attr + 6), m (attr + 7)]) := rfl
  rw [hsplit, vsaHeader, List.cons.injEq, List.cons.injEq] at hheader
  obtain ⟨htype, hlength, hrest⟩ := hheader
  obtain ⟨hvendor, hlast⟩ := List.append_inj hrest (by rw [slice_length, bigEndian_length])
  rw [List.cons.injEq, List.cons.injEq] at hlast
  obtain ⟨hvendorType, hvendorLength, -⟩ := hlast
  refine ⟨htype, ?_, getRadiusInteger_of_slice hvendor, hvendorType, ?_, hvalue⟩
  · rw [getLength, hlength, UInt8.toNat_ofNat', Nat.mod_eq_of_lt (by omega)]
  · rw [hvendorLength, UInt8.toNat_ofNat', Nat.mod_eq_of_lt (by omega)]

namespace PlainAt

variable (h : PlainAt m attr t v)

include h

/-- A plain attribute is not vendor-specific. -/
theorem not_vsa : getType m attr ≠ vendorSpecific := h.type ▸ h.plain

/-- A plain attribute is valid. -/
theorem isValid : isValid m attr = true := by
  rw [RadiusAttr.isValid, if_neg h.not_vsa, h.length]
  exact decide_eq_true (Nat.le_add_left 2 _)

/-- The length of its value is that of what was stored. -/
theorem getValueLength_eq : getValueLength m attr = v.length := by
  have hvsa : isVsa m attr = false := decide_eq_false h.not_vsa
  simp only [getValueLength, hvsa, h.length, Bool.false_eq_true, if_false, fixedHeaderLength]
  split <;> omega

/-- Its value is read as a string. -/
theorem asString_eq : asString m attr = v := by
  simp only [asString, h.isValid, h.length, if_neg h.not_vsa, Bool.not_true, Bool.false_eq_true,
    if_false]
  split
  · rename_i hempty
    have hempty : v.length + 2 ≤ 2 := hempty
    exact (List.length_eq_zero_iff.mp (by omega)).symm
  · exact (congrArg _ (Nat.add_sub_cancel ..)).trans h.value

/-- Its value is what is copied into an array, at any offset. -/
theorem valueIs : ValueIs m attr v := by
  refine ⟨h.getValueLength_eq, fun buffer offset => ?_⟩
  have hvsa : isVsa m attr = false := decide_eq_false h.not_vsa
  simp only [getValueArray, h.isValid, hvsa, h.getValueLength_eq, Bool.not_true,
    Bool.false_eq_true, if_false]
  refine ⟨_, rfl, ?_⟩
  split
  · rw [show attr + fixedHeaderLength = attr + 2 from rfl, h.value]
    exact take_drop_fillArray ..
  · rename_i hempty
    rw [List.length_eq_zero_iff.mp (Nat.eq_zero_of_not_pos hempty)]
    rfl

/-- A plain attribute of four bytes is long enough for a number. -/
theorem accessible (hfour : v.length = 4) :
    ¬(getLength m attr < fixedHeaderLength + 4 || getType m attr = vendorSpecific) = true := by
  rw [h.length, hfour]
  simp [h.not_vsa, fixedHeaderLength]

/-- A plain attribute has no vendor-specific number. -/
theorem asVsaInteger_eq : asVsaInteger m attr = 0 := by
  rw [asVsaInteger, if_pos]
  simp [h.not_vsa]

end PlainAt

/-- Its value is read as the integer that was stored. -/
theorem PlainAt.asInteger_eq {value : UInt32} (h : PlainAt m attr t (AppendOp.bigEndian value)) :
    asInteger m attr = value := by
  rw [asInteger, if_neg (h.accessible (bigEndian_length value))]
  exact getRadiusInteger_of_slice (bigEndian_length value ▸ h.value)

/-- Its value is read as the address that was stored. -/
theorem PlainAt.asAddress_eq {value : UInt32} (h : PlainAt m attr t (addressBytes value)) :
    asAddress m attr = value := by
  have hfour : (addressBytes value).length = 4 := leBytes_length 4 _
  rw [asAddress, if_neg (h.accessible hfour)]
  exact getAddress_of_slice (hfour ▸ h.value)

namespace VsaAt

variable (h : VsaAt m attr i t v)

include h

/-- A vendor-specific attribute is valid. -/
theorem isValid : isValid m attr = true := by
  rw [RadiusAttr.isValid, if_pos h.type, h.length]
  exact decide_eq_true (Nat.le_add_left_of_le (by decide))

/-- It is of the vendor and the type it was made for. -/
theorem vendorIs : VendorIs m attr i t := by
  refine ⟨h.vendorId, ?_⟩
  have hlong : ¬v.length + 8 < vsaRfc2865FixedHeaderLength := Nat.not_lt.mpr (Nat.le_add_left 8 _)
  rw [getVsaType, h.length, if_neg hlong, h.vendorType]

/-- The length of its value is that of what was stored. -/
theorem getVsaValueLength_eq : getVsaValueLength m attr = v.length := by
  simp only [getVsaValueLength, h.length, h.vendorLength, vsaRfc2865FixedHeaderLength,
    vsaFixedHeaderLength, fixedHeaderLength]
  split_ifs <;> omega

/-- Its value is read as a string. -/
theorem asVsaString_eq : asVsaString m attr = v := by
  simp only [asVsaString, h.isValid, h.type, h.length, Bool.not_true, ne_eq, not_true_eq_false,
    decide_false, Bool.or_false, Bool.false_eq_true, if_false]
  split
  · rename_i hempty
    have hempty : v.length + 8 ≤ 8 := hempty
    exact (List.length_eq_zero_iff.mp (by omega)).symm
  · exact (congrArg _ (Nat.add_sub_cancel ..)).trans h.value

/-- Its value is what is copied into an array, at any offset. -/
theorem vsaValueIs : VsaValueIs m attr v := by
  refine ⟨h.getVsaValueLength_eq, fun buffer offset => ?_⟩
  have hvsa : isVsa m attr = true := decide_eq_true h.type
  simp only [getVsaValueArray, h.isValid, hvsa, h.getVsaValueLength_eq, Bool.and_self,
    Bool.not_true, Bool.false_eq_true, if_false]
  refine ⟨_, rfl, ?_⟩
  split
  · rw [h.value]
    exact take_drop_fillArray ..
  · rename_i hempty
    rw [List.length_eq_zero_iff.mp (Nat.eq_zero_of_not_pos hempty)]
    rfl

/-- A vendor-specific attribute of four bytes is long enough for a number. -/
theorem accessible (hfour : v.length = 4) :
    ¬(getLength m attr < vsaRfc2865FixedHeaderLength + 4 || getType m attr ≠ vendorSpecific) =
      true := by
  rw [h.length, hfour]
  simp [h.type, vsaRfc2865FixedHeaderLength, vsaFixedHeaderLength, fixedHeaderLength]

end VsaAt

/-- Its value is read as the integer that was stored. -/
theorem VsaAt.asVsaInteger_eq {value : UInt32} (h : VsaAt m attr i t (AppendOp.bigEndian value)) :
    asVsaInteger m attr = value := by
  rw [asVsaInteger, if_neg (h.accessible (bigEndian_length value))]
  exact getRadiusInteger_of_slice (bigEndian_length value ▸ h.value)

/-- Its value is read as the address that was stored. -/
theorem VsaAt.asVsaAddress_eq {value : UInt32} (h : VsaAt m attr i t (addressBytes value)) :
    asVsaAddress m attr = value := by
  have hfour : (addressBytes value).length = 4 := leBytes_length 4 _
  rw [asVsaAddress, if_neg (h.accessible hfour)]
  exact getAddress_of_slice (hfour ▸ h.value)

/-- An attribute is read from its bytes, whatever is behind them. -/
theorem read_bytes (fresh : Mem) {a : Tlv} (hfits : a.length ≤ 255) (hvalid : Valid a)
    (rest : List UInt8) : read fresh (a.bytes ++ rest) =
      (true, write (write fresh 0 [0, 0]) 0 a.bytes) := by
  have hlength : ((a.bytes ++ rest).getD 1 0).toNat = a.length := by
    change (UInt8.ofNat a.length).toNat = a.length
    rw [UInt8.toNat_ofNat', Nat.mod_eq_of_lt (by omega)]
  have htype : (a.bytes ++ rest).getD 0 0 = a.type := rfl
  have hlong : 2 ≤ a.length := Nat.le_add_left 2 _
  have hgood : ¬(a.length < fixedHeaderLength || (a.bytes ++ rest).length < a.length ||
      (a.type = vendorSpecific && a.length < vsaFixedHeaderLength)) = true := by
    simp only [Bool.or_eq_true, Bool.and_eq_true, decide_eq_true_eq, not_or, not_and, Nat.not_lt,
      List.length_append, Tlv.bytes_length]
    exact ⟨⟨hlong, Nat.le_add_right ..⟩, hvalid⟩
  rw [read, if_neg (by rw [List.length_append, Tlv.bytes_length]; change ¬_ < 2; omega)]
  simp only [hlength, htype]
  rw [if_neg hgood, List.take_left' (Tlv.bytes_length a)]

end RadiusAttr

namespace TypedValue

open RadiusAttr

variable {m : Mem} {attr : ℕ} {value : TypedValue}

/-- The value is anything but a time stamp for a plain attribute, or is zero. -/
def Recovered : TypedValue → Prop
  | time _ v => v = 0
  | data .. | string .. | int .. | address .. | vsaData .. | vsaString .. | vsaInt .. | vsaTime ..
  | vsaAddress .. => True

/-- A stored attribute gives its value back, unless it is taken for another kind of attribute. -/
theorem givesBack_iff (h : slice m attr value.op.requested.length = value.op.requested.bytes)
    (hfits : value.Fits) : value.GivesBack m attr ↔ value.Recovered := by
  cases value with
  | data t v | string t v =>
    have hat := plainAt h hfits.1 hfits.2
    exact iff_of_true ⟨hat.asString_eq, hat.valueIs⟩ trivial
  | int t v =>
    exact iff_of_true (plainAt h hfits (by rw [bigEndian_length]; decide)).asInteger_eq trivial
  | time t v =>
    have hat := plainAt h hfits (by rw [bigEndian_length]; decide)
    rw [GivesBack, asTime, hat.asVsaInteger_eq, Recovered, eq_comm]
  | address t v =>
    have hfour : (addressBytes v).length = 4 := leBytes_length 4 _
    exact iff_of_true (plainAt h hfits (by rw [hfour]; decide)).asAddress_eq trivial
  | vsaData v i t | vsaString v i t =>
    have hat := vsaAt h hfits
    exact iff_of_true ⟨hat.asVsaString_eq, hat.vsaValueIs, hat.vendorIs⟩ trivial
  | vsaInt v i t | vsaTime v i t =>
    have hat := vsaAt h (by rw [bigEndian_length]; decide)
    exact iff_of_true ⟨hat.asVsaInteger_eq, hat.vendorIs⟩ trivial
  | vsaAddress v i t =>
    have hfour : (addressBytes v).length = 4 := leBytes_length 4 _
    have hat := vsaAt h (by rw [hfour]; decide)
    exact iff_of_true ⟨hat.asVsaAddress_eq, hat.vendorIs⟩ trivial

/-- The attribute for a value is one that can be stored. -/
theorem Fits.requested (hfits : value.Fits) : value.op.Encodes ∧ value.op.Plain ∧
    value.op.requested.length ≤ 255 := by
  cases value with
  | data t v | string t v => exact ⟨trivial, hfits.1, Nat.add_le_add_right hfits.2 2⟩
  | int t v | time t v | address t v =>
    refine ⟨trivial, hfits, ?_⟩
    simp [op, AppendOp.requested, Tlv.length, bigEndian_length, addressBytes]
  | vsaData v i t | vsaString v i t =>
    exact ⟨trivial, trivial, vsa_length.trans_le (Nat.add_le_add_right hfits 8)⟩
  | vsaInt v i t | vsaTime v i t | vsaAddress v i t =>
    refine ⟨trivial, trivial, vsa_length.trans_le ?_⟩
    simp [bigEndian_length, addressBytes]

/-- A value that fits is constructed as the attribute that is requested of it. -/
theorem Fits.construct_eq (hfits : value.Fits) (fresh : Mem) :
    value.construct fresh = write fresh 0 value.op.requested.bytes :=
  AppendOp.construct_eq hfits.requested.1 hfits.requested.2.2

/-- **The exact condition for a value to come back.** Every value does that fits, from the attribute
that is constructed and from one that it was sent to, except time stamps in plain attributes other
than zero. -/
theorem roundTrip_iff (hfits : value.Fits) : value.RoundTrip ↔ value.Recovered := by
  obtain ⟨hencodes, hplain, hshort⟩ := hfits.requested
  have hvalid := (hplain.valid hencodes).1
  have hstored (m : Mem) : slice (write m 0 value.op.requested.bytes) 0 value.op.requested.length =
      value.op.requested.bytes := slice_write_self ..
  constructor
  · intro h
    have hback := h.constructed fun _ => 0
    rw [hfits.construct_eq] at hback
    exact (givesBack_iff (hstored _) hfits).mp hback
  · intro hrecovered
    refine ⟨fun fresh => ?_, fun fresh buffer offset => ?_⟩
    · rw [hfits.construct_eq]
      exact (givesBack_iff (hstored fresh) hfits).mpr hrecovered
    · obtain ⟨rest, hrest⟩ := drop_fillArray buffer (offset.getD buffer.length)
        value.op.requested.bytes
      have hgood := (AppendOp.read_write fresh hshort).2.mpr hvalid
      have hlength := (Tlv.read_eq (hstored fresh) hshort).2
      have hwrite : writeArray (write fresh 0 value.op.requested.bytes) 0 buffer offset =
          some (fillArray buffer (offset.getD buffer.length) value.op.requested.bytes,
            value.op.requested.length) := by
        simp only [writeArray, hgood, Bool.not_true, Bool.false_eq_true, if_false]
        rw [RadiusAttr.getLength, hlength, hstored]
      rw [hfits.construct_eq]
      refine ⟨_, _, hwrite, fun fresh' => ?_⟩
      rw [ofRawData, hrest, read_bytes fresh' hshort hvalid]
      exact ⟨rfl, (givesBack_iff (hstored _) hfits).mpr hrecovered⟩

/-- A vendor-specific time stamp. -/
theorem roundTrip_vsaTime : (vsaTime 1000 9 1).RoundTrip := by
  have hfits : (vsaTime 1000 9 1).Fits := trivial
  exact (roundTrip_iff hfits).mpr trivial

/-- A plain time stamp does not come back. -/
theorem not_roundTrip : ¬∀ value : TypedValue, value.Fits → value.RoundTrip := by
  intro hall
  have hback : asTime (ofInt (fun _ => 0) 55 1000) 0 = 1000 :=
    (hall (time 55 1000) (by decide : (55 : UInt8) ≠ vendorSpecific)).constructed fun _ => 0
  revert hback
  decide +kernel

end TypedValue

end Dot1x.Radius
