import Dot1x.Radius.AttributeStore

/-!
# Attributes

An object that holds one attribute, and what can be asked of an attribute, in an object or in a
packet. There is a constructor for each kind of value, and an accessor that is to give it back. The
constructors leave what they do not store as it was in memory; their assertions are left out.
-/

namespace Dot1x.Radius

open Dot1x.Base

/-- `GetRadiusInteger` -/
def getRadiusInteger (m : Mem) (intBuffer : ℕ) : UInt32 :=
  (m intBuffer).toUInt32 <<< 24 ||| (m (intBuffer + 1)).toUInt32 <<< 16 |||
    (m (intBuffer + 2)).toUInt32 <<< 8 ||| (m (intBuffer + 3)).toUInt32

/-- An address from the bytes that the host stores it as. -/
def getAddress (m : Mem) (buffer : ℕ) : UInt32 := UInt32.ofNat (leValue (slice m buffer 4))

/-- An array after bytes were copied into it; it grows as needed. -/
def fillArray (buffer : List UInt8) (offset : ℕ) (bytes : List UInt8) : List UInt8 :=
  let grown := buffer ++ List.replicate (offset + bytes.length - buffer.length) 0
  grown.take offset ++ bytes ++ grown.drop (offset + bytes.length)

namespace RadiusAttr

def maxValueLength : ℕ := maxLength - fixedHeaderLength
def vsaMaxRfc2865ValueLength : ℕ := maxLength - vsaRfc2865FixedHeaderLength

section Construct

variable (fresh : Mem)

/-- The constructors with a type and bytes. -/
def ofValue (attrType : UInt8) (attrValue : List UInt8) : Mem :=
  let m := write fresh 0 [attrType, UInt8.ofNat fixedHeaderLength]
  let valueLength := min attrValue.length maxValueLength
  if 0 < valueLength then
    let m := write m 1 [m 1 + UInt8.ofNat valueLength]
    write m 2 (attrValue.take valueLength)
  else m

/-- The constructor with a buffer. -/
def ofData (attrType : UInt8) (attrValue : List UInt8) : Mem := ofValue fresh attrType attrValue

def ofString (attrType : UInt8) (stringValue : List UInt8) : Mem :=
  ofValue fresh attrType stringValue

def ofInt (attrType : UInt8) (intValue : UInt32) : Mem :=
  write (write fresh 0 [attrType, UInt8.ofNat (fixedHeaderLength + 4)]) 2 (radiusInteger intValue)

def ofAddress (attrType : UInt8) (addressValue : UInt32) : Mem :=
  write (write fresh 0 [attrType, UInt8.ofNat (fixedHeaderLength + 4)]) 2
    (addressBytes addressValue)

/-- What the vendor-specific constructors begin with: both lengths, the type and the vendor. -/
def beginVsa (length vendorLength : ℕ) (vendorId : UInt32) (vendorType : UInt8) : Mem :=
  let m := write fresh 0 [vendorSpecific, UInt8.ofNat length]
  let m := write m 6 [vendorType, UInt8.ofNat vendorLength]
  write m 2 (radiusInteger vendorId)

/-- The vendor-specific constructors with bytes. -/
def ofVsaValue (attrValue : List UInt8) (vendorId : UInt32) (vendorType : UInt8) : Mem :=
  let m := beginVsa fresh vsaRfc2865FixedHeaderLength 2 vendorId vendorType
  let valueLength := min attrValue.length vsaMaxRfc2865ValueLength
  if 0 < valueLength then
    let m := write m 1 [m 1 + UInt8.ofNat valueLength]
    let m := write m 7 [m 7 + UInt8.ofNat valueLength]
    write m 8 (attrValue.take valueLength)
  else m

/-- The vendor-specific constructor with a buffer. -/
def ofVsaData (attrValue : List UInt8) (vendorId : UInt32) (vendorType : UInt8) : Mem :=
  ofVsaValue fresh attrValue vendorId vendorType

def ofVsaString (stringValue : List UInt8) (vendorId : UInt32) (vendorType : UInt8) : Mem :=
  ofVsaValue fresh stringValue vendorId vendorType

def ofVsaInt (intValue : UInt32) (vendorId : UInt32) (vendorType : UInt8) : Mem :=
  write (beginVsa fresh (vsaRfc2865FixedHeaderLength + 4) (2 + 4) vendorId vendorType) 8
    (radiusInteger intValue)

def ofVsaAddress (addressValue : UInt32) (vendorId : UInt32) (vendorType : UInt8) : Mem :=
  write (beginVsa fresh (vsaRfc2865FixedHeaderLength + 4) (2 + 4) vendorId vendorType) 8
    (addressBytes addressValue)

/-- The end of the Cisco constructor: a string that does not fit is left out. -/
def putCiscoString (m : Mem) (stringValue : List UInt8) : Mem :=
  if maxLength < getLength m 0 + stringValue.length then m
  else extendVsa m 0 (getLength m 0) stringValue

/-- The constructor for Cisco attributes. -/
def ofCisco (type : UInt8) (vsaHack : Bool) (stringValue : List UInt8) : Mem :=
  let m := beginVsa fresh vsaRfc2865FixedHeaderLength 2 ciscoVendorId type
  match if vsaHack then none else ciscoAttrName type with
  | none => putCiscoString m stringValue
  | some name =>
    let m := extendVsa m 0 vsaRfc2865FixedHeaderLength name
    let m := extendVsa m 0 (getLength m 0) (asciiBytes "=")
    putCiscoString m stringValue

/-- `Read` from a buffer that is there. -/
def read (m : Mem) (rawData : List UInt8) : Bool × Mem :=
  let rawLength := rawData.length
  let m := write m 0 [0, 0]
  if rawLength < fixedHeaderLength then (false, m)
  else
    let len := (rawData.getD 1 0).toNat
    if len < fixedHeaderLength || rawLength < len ||
        (rawData.getD 0 0 = vendorSpecific && len < vsaFixedHeaderLength) then (false, m)
    else (true, write m 0 (rawData.take len))

/-- The constructor with raw data. -/
def ofRawData (rawData : List UInt8) : Mem := (read fresh rawData).2

end Construct

section Access

variable (m : Mem) (attr : ℕ)

def getVsaVendorId : UInt32 := getRadiusInteger m (attr + 2)

def getVsaType : UInt8 :=
  if getLength m attr < vsaRfc2865FixedHeaderLength then 0 else m (attr + 6)

def getVsaValueLength : ℕ :=
  let len := getLength m attr
  let len := if len ≤ vsaRfc2865FixedHeaderLength then 0 else len - vsaRfc2865FixedHeaderLength
  let len2 := if 0 < len then
      let len2 := (m (attr + 7)).toNat
      if len2 ≤ 2 then 0 else len2 - 2
    else 0
  if len2 < len then len2 else len

/-- `GetValue` into an array; without an offset, at its end. -/
def getValueArray (buffer : List UInt8) (offset : Option ℕ) : Option (List UInt8) :=
  if !isValid m attr then none
  else
    let len := getValueLength m attr
    let offset := offset.getD buffer.length
    some (if 0 < len then fillArray buffer offset (slice m (attr + if isVsa m attr then
      vsaFixedHeaderLength else fixedHeaderLength) len) else buffer)

/-- `GetVsaValue` into an array; without an offset, at its end. -/
def getVsaValueArray (buffer : List UInt8) (offset : Option ℕ) : Option (List UInt8) :=
  if !(isValid m attr && isVsa m attr) then none
  else
    let len := getVsaValueLength m attr
    let offset := offset.getD buffer.length
    some (if 0 < len then fillArray buffer offset (slice m (attr + 8) len) else buffer)

/-- `Write` into an array; without an offset, at its end. -/
def writeArray (buffer : List UInt8) (offset : Option ℕ) : Option (List UInt8 × ℕ) :=
  if !isValid m attr then none
  else
    let offset := offset.getD buffer.length
    let len := getLength m attr
    some (fillArray buffer offset (slice m attr len), len)

def asString : List UInt8 :=
  if !isValid m attr then []
  else
    let len := getLength m attr
    let headerLen := if getType m attr = vendorSpecific then vsaFixedHeaderLength
      else fixedHeaderLength
    if len ≤ headerLen then [] else slice m (attr + headerLen) (len - headerLen)

def asInteger : UInt32 :=
  if getLength m attr < fixedHeaderLength + 4 || getType m attr = vendorSpecific then 0
  else getRadiusInteger m (attr + 2)

def asAddress : UInt32 :=
  if getLength m attr < fixedHeaderLength + 4 || getType m attr = vendorSpecific then 0
  else getAddress m (attr + 2)

def asVsaString : List UInt8 :=
  if !isValid m attr || getType m attr ≠ vendorSpecific then []
  else
    let len := getLength m attr
    if len ≤ vsaRfc2865FixedHeaderLength then []
    else slice m (attr + 8) (len - vsaRfc2865FixedHeaderLength)

def asVsaInteger : UInt32 :=
  if getLength m attr < vsaRfc2865FixedHeaderLength + 4 || getType m attr ≠ vendorSpecific then 0
  else getRadiusInteger m (attr + 8)

def asVsaAddress : UInt32 :=
  if getLength m attr < vsaRfc2865FixedHeaderLength + 4 || getType m attr ≠ vendorSpecific then 0
  else getAddress m (attr + 8)

/-- `AsTime` takes the integer of a vendor-specific attribute. -/
def asTime : UInt32 := asVsaInteger m attr

def asVsaTime : UInt32 := asVsaInteger m attr

/-- How many bytes `AsCiscoString` leaves out. -/
def ciscoOffset : ℕ :=
  let offset := vsaRfc2865FixedHeaderLength
  match ciscoAttrName (m (attr + 6)) with
  | none => offset
  | some name =>
    -- the difference is converted to an unsigned number
    if (getLength m attr < offset ∨ name.length < getLength m attr - offset) ∧
        slice m (attr + offset) name.length = name ∧
        [m (attr + (offset + name.length))] = asciiBytes "=" then offset + (name.length + 1)
    else offset

def asCiscoString : List UInt8 :=
  if !isValid m attr || getType m attr ≠ vendorSpecific ||
      getRadiusInteger m (attr + 2) ≠ ciscoVendorId then []
  else
    let len := getLength m attr
    let offset := ciscoOffset m attr
    if len ≤ offset then [] else slice m (attr + offset) (len - offset)

end Access

end RadiusAttr

/-- Joining bytes adds them up. -/
theorem shiftLeft_or (n : ℕ) (b : UInt8) : n <<< 8 ||| b.toNat = n * 256 + b.toNat := by
  rw [← Nat.shiftLeft_add_eq_or_of_lt b.toNat_lt, Nat.shiftLeft_eq]

/-- `GetRadiusInteger` reads the most significant byte first. -/
private theorem getRadiusInteger_eq (m : Mem) (intBuffer : ℕ) :
    getRadiusInteger m intBuffer = UInt32.ofNat (leValue (slice m intBuffer 4).reverse) := by
  have hvalue (a b c d : UInt8) : leValue [a, b, c, d].reverse =
      ((a.toNat * 256 + b.toNat) * 256 + c.toNat) * 256 + d.toNat := by
    simp only [List.reverse_cons, List.reverse_nil, List.nil_append, List.cons_append, leValue]
    omega
  have hshift (b : UInt8) {k : ℕ} (hk : k ≤ 24) : (b.toUInt32 <<< UInt32.ofNat k).toNat =
      b.toNat <<< k := by
    have hb : b.toNat < 2 ^ 8 := b.toNat_lt
    have hmod : (UInt32.ofNat k).toNat % 32 = k := by
      rw [UInt32.toNat_ofNat']
      omega
    have hpow : 2 ^ k ≤ 2 ^ 24 := Nat.pow_le_pow_right (by decide) hk
    have hsmall : b.toNat * 2 ^ k < 2 ^ 32 :=
      Nat.lt_of_le_of_lt (Nat.mul_le_mul_left _ hpow) (by omega)
    rw [UInt32.toNat_shiftLeft, hmod, UInt8.toNat_toUInt32, Nat.shiftLeft_eq,
      Nat.mod_eq_of_lt hsmall]
  have hjoin (a b c d : ℕ) : a <<< 24 ||| b <<< 16 ||| c <<< 8 ||| d =
      (((a <<< 8 ||| b) <<< 8 ||| c) <<< 8) ||| d := by
    simp only [Nat.shiftLeft_or_distrib, ← Nat.shiftLeft_add]
  apply UInt32.toNat_inj.mp
  have h0 := (m intBuffer).toNat_lt
  have h1 := (m (intBuffer + 1)).toNat_lt
  have h2 := (m (intBuffer + 1 + 1)).toNat_lt
  have h3 := (m (intBuffer + 1 + 1 + 1)).toNat_lt
  rw [slice_succ, slice_succ, slice_succ, slice_succ, slice_zero, hvalue, UInt32.toNat_ofNat',
    Nat.mod_eq_of_lt (by omega), ← shiftLeft_or, ← shiftLeft_or, ← shiftLeft_or, ← hjoin,
    getRadiusInteger]
  simp only [UInt32.toNat_or]
  exact congrArg₂ _ (congrArg₂ _ (congrArg₂ _ (hshift _ (by decide : 24 ≤ 24))
    (hshift _ (by decide : 16 ≤ 24))) (hshift _ (by decide : 8 ≤ 24))) (UInt8.toNat_toUInt32 _)

/-- A number that was stored is read. -/
theorem getRadiusInteger_of_slice {m : Mem} {intBuffer : ℕ} {v : UInt32}
    (h : slice m intBuffer 4 = AppendOp.bigEndian v) : getRadiusInteger m intBuffer = v := by
  rw [getRadiusInteger_eq, h, AppendOp.bigEndian, List.reverse_reverse, leValue_leBytes,
    Nat.mod_eq_of_lt (show v.toNat < 256 ^ 4 from v.toNat_lt), UInt32.ofNat_toNat]

/-- An address that was stored is read. -/
theorem getAddress_of_slice {m : Mem} {buffer : ℕ} {v : UInt32}
    (h : slice m buffer 4 = addressBytes v) : getAddress m buffer = v := by
  rw [getAddress, h, addressBytes, leValue_leBytes,
    Nat.mod_eq_of_lt (show v.toNat < 256 ^ 4 from v.toNat_lt), UInt32.ofNat_toNat]

end Dot1x.Radius
