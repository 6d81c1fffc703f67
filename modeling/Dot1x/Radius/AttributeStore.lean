import Dot1x.Radius.Pdu

/-!
# The attribute store

A packet is built by the overloads of `AppendAttr`, `AppendVsaAttr` and `AppendCiscoAttr`. All of
them write the attribute in place after the last one and then set the length of the packet; most
differ in the value they store only. What they build is valid, enumerated by `GetAttr` as it was
requested, and read back from what `Write` makes of it.
-/

namespace Dot1x.Radius

open Dot1x.Base

/-- The characters of a name, as bytes. -/
def asciiBytes (s : String) : List UInt8 := s.toList.map fun c => UInt8.ofNat c.toNat

/-- Names of attributes and their types. -/
def ciscoAttrNames : List (String × UInt8) :=
  [("h323-remote-address", 23), ("h323-conf-id", 24), ("h323-setup-time", 25),
    ("h323-connect-time", 28), ("h323-disconnect-time", 29), ("h323-disconnect-cause", 30),
    ("h323-credit-amount", 101), ("h323-credit-time", 102), ("h323-return-code", 103),
    ("h323-billing-model", 109), ("h323-currency", 110), ("h323-redirect-number", 106),
    ("h323-redirect-ip-address", 108), ("h323-gw-id", 33), ("h323-call-origin", 26),
    ("h323-call-type", 27), ("h323-voice-quality", 31), ("h323-incoming-conf-id", 35),
    ("h323-preferred-lang", 107)]

/-- The name of a type of attributes. -/
def ciscoAttrName (vendorType : UInt8) : Option (List UInt8) :=
  (ciscoAttrNames.find? (·.2 = vendorType)).map fun entry => asciiBytes entry.1

/-- Write at an offset of a vendor-specific attribute that is being built, and increase its two
lengths. -/
def extendVsa (m : Mem) (attr offset : ℕ) (bytes : List UInt8) : Mem :=
  let m := write m (attr + offset) bytes
  let m := write m (attr + 1) [m (attr + 1) + UInt8.ofNat bytes.length]
  write m (attr + 7) [m (attr + 7) + UInt8.ofNat bytes.length]

namespace RadiusPDU

/-- `AppendAttr` with an attribute. -/
def appendAttr (p : RadiusPDU) (m : Mem) (attr : ℕ) : Bool × RadiusPDU :=
  let len := p.getLength
  let attrLen := RadiusAttr.getLength m attr
  if !RadiusAttr.isValid m attr || maxPduLength < len + attrLen then (false, p)
  else (true, (RadiusPDU.mk (write p.data len (slice m attr attrLen))).setLength (len + attrLen))

/-- The overloads of `AppendAttr` with a type and a value. -/
def appendValue (p : RadiusPDU) (attrType : UInt8) (attrValue : List UInt8) : Bool × RadiusPDU :=
  let len := p.getLength
  let attrLen := RadiusAttr.fixedHeaderLength + attrValue.length
  if RadiusAttr.maxLength < attrLen || maxPduLength < len + attrLen then (false, p)
  else (true, (RadiusPDU.mk (write p.data len
    ([attrType, UInt8.ofNat attrLen] ++ attrValue))).setLength (len + attrLen))

/-- `AppendAttr` with a buffer. -/
def appendAttrData (p : RadiusPDU) (attrType : UInt8) (attrValue : List UInt8) :
    Bool × RadiusPDU :=
  p.appendValue attrType attrValue

def appendAttrString (p : RadiusPDU) (attrType : UInt8) (stringValue : List UInt8) :
    Bool × RadiusPDU :=
  p.appendValue attrType stringValue

def appendAttrInt (p : RadiusPDU) (attrType : UInt8) (intValue : UInt32) : Bool × RadiusPDU :=
  p.appendValue attrType (radiusInteger intValue)

def appendAttrAddress (p : RadiusPDU) (attrType : UInt8) (addressValue : UInt32) :
    Bool × RadiusPDU :=
  p.appendValue attrType (addressBytes addressValue)

/-- The overloads of `AppendVsaAttr`. -/
def appendVsaValue (p : RadiusPDU) (attrValue : List UInt8) (vendorId : UInt32)
    (vendorType : UInt8) : Bool × RadiusPDU :=
  let len := p.getLength
  let attrLen := RadiusAttr.vsaRfc2865FixedHeaderLength + attrValue.length
  if RadiusAttr.maxLength < attrLen || maxPduLength < len + attrLen then (false, p)
  else (true, (RadiusPDU.mk (write p.data len
    ([RadiusAttr.vendorSpecific, UInt8.ofNat attrLen] ++ (radiusInteger vendorId ++
      ([vendorType, UInt8.ofNat (attrValue.length + 2)] ++ attrValue))))).setLength (len + attrLen))

/-- `AppendVsaAttr` with a buffer. -/
def appendVsaAttrData (p : RadiusPDU) (attrValue : List UInt8) (vendorId : UInt32)
    (vendorType : UInt8) : Bool × RadiusPDU :=
  p.appendVsaValue attrValue vendorId vendorType

def appendVsaAttrString (p : RadiusPDU) (stringValue : List UInt8) (vendorId : UInt32)
    (vendorType : UInt8) : Bool × RadiusPDU :=
  p.appendVsaValue stringValue vendorId vendorType

def appendVsaAttrInt (p : RadiusPDU) (intValue : UInt32) (vendorId : UInt32)
    (vendorType : UInt8) : Bool × RadiusPDU :=
  p.appendVsaValue (radiusInteger intValue) vendorId vendorType

def appendVsaAttrAddress (p : RadiusPDU) (addressValue : UInt32) (vendorId : UInt32)
    (vendorType : UInt8) : Bool × RadiusPDU :=
  p.appendVsaValue (addressBytes addressValue) vendorId vendorType

/-- The end of `AppendCiscoAttr`: the string is put behind what is there of the attribute. -/
def appendCiscoString (p : RadiusPDU) (m : Mem) (attrLen : ℕ) (stringValue : List UInt8) :
    Bool × RadiusPDU :=
  let len := p.getLength
  let strLen := stringValue.length
  let attrLen := attrLen + strLen
  if RadiusAttr.maxLength < RadiusAttr.getLength m len + strLen
      || maxPduLength < len + attrLen then (false, ⟨m⟩)
  else (true, (RadiusPDU.mk (extendVsa m len (RadiusAttr.getLength m len)
    stringValue)).setLength (len + attrLen))

/-- `AppendCiscoAttr` -/
def appendCiscoAttr (p : RadiusPDU) (vendorType : UInt8) (stringValue : List UInt8)
    (vsaHack : Bool) : Bool × RadiusPDU :=
  let len := p.getLength
  let attrLen := RadiusAttr.vsaRfc2865FixedHeaderLength
  if maxPduLength < len + attrLen then (false, p)
  else
    let m := write p.data len ([RadiusAttr.vendorSpecific, UInt8.ofNat attrLen] ++
      (radiusInteger RadiusAttr.ciscoVendorId ++ [vendorType, 2]))
    match if vsaHack then none else ciscoAttrName vendorType with
    | none => p.appendCiscoString m attrLen stringValue
    | some name =>
      let attrLen := attrLen + (name.length + 1)
      if maxPduLength < len + attrLen then (false, ⟨m⟩)
      else
        let m := extendVsa m len RadiusAttr.vsaRfc2865FixedHeaderLength name
        let m := extendVsa m len (RadiusAttr.getLength m len) (asciiBytes "=")
        p.appendCiscoString m attrLen stringValue

/-- `Write` into an array, which grows as needed; without an offset, at its end. -/
def write (p : RadiusPDU) (buffer : List UInt8) (offset : Option ℕ) : Option (List UInt8 × ℕ) :=
  if !p.isValid then none
  else
    let offset := offset.getD buffer.length
    let len := p.getLength
    let grown := buffer ++ List.replicate (len + offset - buffer.length) 0
    some (grown.take offset ++ slice p.data 0 len ++ grown.drop (offset + len), len)

/-- `Read` from a buffer that is there. -/
def read (p : RadiusPDU) (rawData : List UInt8) : Bool × RadiusPDU :=
  let rawLength := rawData.length
  let p := p.invalidate
  if rawLength < minPduLength then (false, p)
  else
    let p : RadiusPDU := ⟨Base.write p.data 0 (rawData.take fixedHeaderLength)⟩
    let length := p.getLength
    if rawLength < length || length < minPduLength || maxPduLength < length then
      (false, p.invalidate)
    else if fixedHeaderLength < length then
      (true, ⟨Base.write p.data fixedHeaderLength
        ((rawData.drop fixedHeaderLength).take (length - fixedHeaderLength))⟩)
    else (true, p)

/-- `Read` from an array. -/
def readArray (p : RadiusPDU) (buffer : List UInt8) (offset : ℕ) : Bool × RadiusPDU :=
  if buffer.length ≤ offset then (false, p) else p.read (buffer.drop offset)

end RadiusPDU

/-- The length that the packet in a datagram claims. -/
def lengthField (d : List UInt8) : ℕ := (d.getD 2 0).toNat * 256 + (d.getD 3 0).toNat

/-- A call of one of the overloads. -/
inductive AppendOp
  | attr (m : Mem) (attr : ℕ)
  | attrData (attrType : UInt8) (attrValue : List UInt8)
  | attrString (attrType : UInt8) (stringValue : List UInt8)
  | attrInt (attrType : UInt8) (intValue : UInt32)
  | attrAddress (attrType : UInt8) (addressValue : UInt32)
  | vsaAttrData (attrValue : List UInt8) (vendorId : UInt32) (vendorType : UInt8)
  | vsaAttrString (stringValue : List UInt8) (vendorId : UInt32) (vendorType : UInt8)
  | vsaAttrInt (intValue : UInt32) (vendorId : UInt32) (vendorType : UInt8)
  | vsaAttrAddress (addressValue : UInt32) (vendorId : UInt32) (vendorType : UInt8)
  | ciscoAttr (vendorType : UInt8) (stringValue : List UInt8) (vsaHack : Bool)

namespace AppendOp

/-- What the call returns and does. -/
def apply (p : RadiusPDU) : AppendOp → Bool × RadiusPDU
  | attr m a => p.appendAttr m a
  | attrData t v => p.appendAttrData t v
  | attrString t v => p.appendAttrString t v
  | attrInt t v => p.appendAttrInt t v
  | attrAddress t v => p.appendAttrAddress t v
  | vsaAttrData v i t => p.appendVsaAttrData v i t
  | vsaAttrString v i t => p.appendVsaAttrString v i t
  | vsaAttrInt v i t => p.appendVsaAttrInt v i t
  | vsaAttrAddress v i t => p.appendVsaAttrAddress v i t
  | ciscoAttr t v hack => p.appendCiscoAttr t v hack

/-- The four bytes of a number, most significant first. -/
def bigEndian (v : UInt32) : List UInt8 := (leBytes 4 v.toNat).reverse

/-- A vendor-specific attribute: vendor, type and length within the vendor's, and value. -/
def vsa (vendorId : UInt32) (vendorType : UInt8) (value : List UInt8) : Tlv :=
  ⟨RadiusAttr.vendorSpecific,
    bigEndian vendorId ++ ([vendorType, UInt8.ofNat (value.length + 2)] ++ value)⟩

/-- The value of a Cisco attribute begins with its name, if it has one and the caller wants it. -/
def ciscoValue (vendorType : UInt8) (value : List UInt8) (vsaHack : Bool) : List UInt8 :=
  match if vsaHack then none else ciscoAttrName vendorType with
  | none => value
  | some name => name ++ asciiBytes "=" ++ value

/-- The attribute that is asked for. -/
def requested : AppendOp → Tlv
  | attr m a => Tlv.read m a
  | attrData t v | attrString t v => ⟨t, v⟩
  | attrInt t v => ⟨t, bigEndian v⟩
  | attrAddress t v => ⟨t, addressBytes v⟩
  | vsaAttrData v i t | vsaAttrString v i t => vsa i t v
  | vsaAttrInt v i t => vsa i t (bigEndian v)
  | vsaAttrAddress v i t => vsa i t (addressBytes v)
  | ciscoAttr t v hack => vsa RadiusAttr.ciscoVendorId t (ciscoValue t v hack)

/-- The call passes an attribute that is not valid. -/
def PassesInvalid : AppendOp → Prop
  | attr m a => RadiusAttr.isValid m a = false
  | _ => False

/-- A value for a vendor-specific attribute that is passed as such has a vendor. -/
def Admissible : AppendOp → Prop
  | attrData t v | attrString t v => t = RadiusAttr.vendorSpecific → 4 ≤ v.length
  | attrInt .. | attrAddress .. | attr .. | vsaAttrData .. | vsaAttrString .. | vsaAttrInt ..
  | vsaAttrAddress .. | ciscoAttr .. => True

instance (op : AppendOp) : Decidable op.PassesInvalid :=
  match op with
  | attr m a => inferInstanceAs (Decidable (RadiusAttr.isValid m a = false))
  | attrData .. | attrString .. | attrInt .. | attrAddress .. | vsaAttrData .. | vsaAttrString ..
  | vsaAttrInt .. | vsaAttrAddress .. | ciscoAttr .. => inferInstanceAs (Decidable False)

/-- The call is not refused as long as there is room. -/
def Acceptable (op : AppendOp) : Prop :=
  ¬op.PassesInvalid ∧ op.requested.length ≤ RadiusAttr.maxLength

instance (op : AppendOp) : Decidable op.Acceptable := inferInstanceAs (Decidable (_ ∧ _))

/-- The attributes that some calls append as long as there is room. -/
def appended (ops : List AppendOp) : List Tlv := (ops.filter (·.Acceptable)).map requested

end AppendOp

/-- The packet after some calls. -/
def RadiusPDU.build (p : RadiusPDU) (ops : List AppendOp) : RadiusPDU :=
  ops.foldl (fun p op => (op.apply p).2) p

/-- The operations are applied from the first one on. -/
theorem RadiusPDU.build_cons (p : RadiusPDU) (op : AppendOp) (ops : List AppendOp) :
    p.build (op :: ops) = (op.apply p).2.build ops := rfl

/-- Shifting and cutting takes a byte of a number. -/
theorem toUInt8_shiftRight (v : UInt32) {k : ℕ} (hk : k < 32) :
    (v >>> UInt32.ofNat k).toUInt8 = UInt8.ofNat (v.toNat / 2 ^ k) := by
  apply UInt8.toNat_inj.mp
  have hmod : k % 2 ^ 32 % 32 = k := by omega
  rw [UInt32.toNat_toUInt8, UInt32.toNat_shiftRight, UInt32.toNat_ofNat', hmod,
    Nat.shiftRight_eq_div_pow, UInt8.toNat_ofNat']

/-- The integer of an attribute is stored with its highest byte first. -/
theorem radiusInteger_eq (v : UInt32) : radiusInteger v = AppendOp.bigEndian v := by
  have h24 : (v >>> 24).toUInt8 = UInt8.ofNat (v.toNat / 256 / 256 / 256) := by
    rw [Nat.div_div_eq_div_mul, Nat.div_div_eq_div_mul]
    exact toUInt8_shiftRight v (by decide : 24 < 32)
  have h16 : (v >>> 16).toUInt8 = UInt8.ofNat (v.toNat / 256 / 256) := by
    rw [Nat.div_div_eq_div_mul]
    exact toUInt8_shiftRight v (by decide : 16 < 32)
  have h8 : (v >>> 8).toUInt8 = UInt8.ofNat (v.toNat / 256) :=
    toUInt8_shiftRight v (by decide : 8 < 32)
  rw [radiusInteger, h24, h16, h8]
  rfl

namespace RadiusPDU

variable {p q : RadiusPDU} {as : List Tlv} {a : Tlv} {m : Mem}

/-- A packet is known by its bytes up to its length. -/
theorem Carries.congr (h : p.Carries as) (hsame : ∀ i, i < p.getLength → q.data i = p.data i) :
    q.Carries as := by
  have hlow : 20 ≤ p.getLength := h.stored.le
  have hlength : q.getLength = p.getLength :=
    getLength_congr (hsame 2 (by omega)) (hsame 3 (by omega))
  have hcode : q.getCode = p.getCode := hsame 0 (by omega)
  refine ⟨hcode ▸ h.code, hlength ▸ h.bound, ?_, h.valid⟩
  rw [hlength]
  exact h.stored.congr fun i _ hi => hsame i hi

/-- A valid attribute behind the last one becomes part of the packet with its new length. -/
theorem Carries.put (h : p.Carries as) (hvalid : RadiusAttr.Valid a) (hfits : a.length ≤ 255)
    (hroom : p.getLength + a.length ≤ maxPduLength)
    (hbytes : slice m p.getLength a.length = a.bytes)
    (hsame : ∀ i, i < p.getLength → m i = p.data i) :
    ((RadiusPDU.mk m).setLength (p.getLength + a.length)).Carries (as ++ [a]) := by
  have hlow : 20 ≤ p.getLength := h.stored.le
  have hhigh : p.getLength + a.length ≤ 4096 := hroom
  have hsmall : p.getLength + a.length < 2 ^ 16 := by omega
  have hlength : ((RadiusPDU.mk m).setLength (p.getLength + a.length)).getLength =
      p.getLength + a.length := getLength_setLength hsmall
  have hdata (i : ℕ) (hi : fixedHeaderLength ≤ i) :
      ((RadiusPDU.mk m).setLength (p.getLength + a.length)).data i = m i := by
    have hi : 20 ≤ i := hi
    exact setLength_data (Or.inr (by omega))
  refine ⟨?_, by rwa [hlength], ?_, ?_⟩
  · have hcode : ((RadiusPDU.mk m).setLength (p.getLength + a.length)).getCode = p.getCode :=
      (setLength_data (Or.inl (by omega))).trans (hsame 0 (by omega))
    rw [hcode]
    exact h.code
  · rw [hlength]
    have hold : Tlv.Stored ((RadiusPDU.mk m).setLength (p.getLength + a.length)).data
        fixedHeaderLength as p.getLength :=
      h.stored.congr fun i hi hi' => (hdata i hi).trans (hsame i hi')
    refine hold.append (.single ?_ hfits)
    rw [← hbytes]
    exact slice_congr fun i hi _ => hdata i (Nat.le_trans hlow hi)
  · rw [List.forall_mem_append]
    exact ⟨h.valid, by simpa using hvalid⟩

/-- What a call that is to append an attribute does: it is refused, or the attribute is written
behind the last one. -/
inductive Outcome (p : RadiusPDU) (bad : Prop) (a : Tlv) : Bool × RadiusPDU → Prop
  | refused {q : RadiusPDU} (hwhy : bad ∨ RadiusAttr.maxLength < a.length ∨
        maxPduLength < p.getLength + a.length)
      (hsame : ∀ i, i < p.getLength → q.data i = p.data i) : Outcome p bad a (false, q)
  | accepted {m : Mem} (hgood : ¬bad) (hfits : a.length ≤ RadiusAttr.maxLength)
      (hroom : p.getLength + a.length ≤ maxPduLength)
      (hbytes : slice m p.getLength a.length = a.bytes)
      (hsame : ∀ i, i < p.getLength → m i = p.data i) :
      Outcome p bad a (true, (RadiusPDU.mk m).setLength (p.getLength + a.length))

/-- What `AppendAttr` makes of a value that is passed to it. -/
theorem outcome_appendValue (t : UInt8) (v : List UInt8) :
    p.Outcome False ⟨t, v⟩ (p.appendValue t v) := by
  have hlength : RadiusAttr.fixedHeaderLength + v.length = Tlv.length ⟨t, v⟩ := Nat.add_comm ..
  simp only [appendValue, hlength, Bool.or_eq_true, decide_eq_true_eq]
  split
  · rename_i hwhy
    exact .refused (Or.inr hwhy) fun _ _ => rfl
  · rename_i hgood
    rw [not_or, Nat.not_lt, Nat.not_lt] at hgood
    refine .accepted id hgood.1 hgood.2 ?_ fun i hi => write_of_outside (Or.inl hi)
    exact slice_write_self p.data p.getLength (Tlv.bytes ⟨t, v⟩)

/-- What `AppendVsaAttr` makes of a value that is passed to it. -/
theorem outcome_appendVsaValue (v : List UInt8) (i : UInt32) (t : UInt8) :
    p.Outcome False (AppendOp.vsa i t v) (p.appendVsaValue v i t) := by
  have hint := radiusInteger_eq i
  have hsame : p.appendVsaValue v i t = p.appendValue RadiusAttr.vendorSpecific
      (AppendOp.vsa i t v).value := by
    have hlen : RadiusAttr.vsaRfc2865FixedHeaderLength + v.length =
        RadiusAttr.fixedHeaderLength + (AppendOp.vsa i t v).value.length := by
      rw [AppendOp.vsa, ← hint]
      simp [radiusInteger, RadiusAttr.vsaRfc2865FixedHeaderLength,
        RadiusAttr.vsaFixedHeaderLength, RadiusAttr.fixedHeaderLength]
      omega
    rw [appendVsaValue, appendValue, hlen, hint]
    rfl
  rw [hsame]
  exact outcome_appendValue _ _

/-- What `AppendAttr` makes of an attribute in memory, which it looks at first. -/
theorem outcome_appendAttr (m : Mem) (attr : ℕ) :
    p.Outcome (RadiusAttr.isValid m attr = false) (Tlv.read m attr) (p.appendAttr m attr) := by
  simp only [appendAttr, Bool.or_eq_true, decide_eq_true_eq, Bool.not_eq_true']
  split
  · rename_i hwhy
    refine .refused ?_ fun _ _ => rfl
    rcases hwhy with hbad | hover
    · exact Or.inl hbad
    · by_cases hok : RadiusAttr.isValid m attr = true
      · have hlong := RadiusAttr.fixedHeaderLength_le hok
        refine Or.inr (Or.inr ?_)
        rw [Tlv.length_read hlong]
        exact hover
      · exact Or.inl (Bool.not_eq_true _ ▸ hok)
  · rename_i hgood
    rw [not_or, Bool.not_eq_false, Nat.not_lt] at hgood
    obtain ⟨hok, hroom⟩ := hgood
    have hlong := RadiusAttr.fixedHeaderLength_le hok
    have hlength : RadiusAttr.getLength m attr = (Tlv.read m attr).length :=
      (Tlv.length_read hlong).symm
    have hbytes : slice m attr (Tlv.read m attr).length = (Tlv.read m attr).bytes := by
      rw [← hlength]
      exact (Tlv.bytes_read hlong).symm
    have hbyte := (m (attr + 1)).toNat_lt
    rw [hlength] at hroom ⊢
    refine .accepted (by rw [hok]; exact nofun) ?_ hroom ?_ ?_
    · rw [← hlength]
      exact Nat.le_of_lt_succ hbyte
    · rw [hbytes, ← Tlv.bytes_length, slice_write_self]
    · exact fun i hi => write_of_outside (Or.inl hi)

/-- A vendor-specific attribute of Cisco is there with some value. -/
structure Building (m : Mem) (attr : ℕ) (t : UInt8) (v : List UInt8) : Prop where
  type : m attr = RadiusAttr.vendorSpecific
  length : m (attr + 1) = UInt8.ofNat (v.length + 8)
  vendorId : slice m (attr + 2) 4 = AppendOp.bigEndian RadiusAttr.ciscoVendorId
  vendorType : m (attr + 6) = t
  vendorLength : m (attr + 7) = UInt8.ofNat (v.length + 2)
  value : slice m (attr + 8) v.length = v

variable {attr : ℕ} {t : UInt8} {v w : List UInt8}

/-- Storing a value behind an attribute leaves what stands before the attribute alone. -/
theorem extendVsa_of_lt {offset i : ℕ} (hi : i < attr) :
    extendVsa m attr offset w i = m i := by
  rw [extendVsa, write_of_outside (Or.inl (by omega)), write_of_outside (Or.inl (by omega)),
    write_of_outside (Or.inl (by omega))]

/-- The value grows at its end. -/
theorem Building.extend (h : Building m attr t v) :
    Building (extendVsa m attr (v.length + 8) w) attr t (v ++ w) := by
  have hkeep (i : ℕ) (hi : i = 0 ∨ 2 ≤ i ∧ i < 7) :
      extendVsa m attr (v.length + 8) w (attr + i) = m (attr + i) := by
    rw [extendVsa, write_of_outside (by simp; omega), write_of_outside (by simp; omega),
      write_of_outside (Or.inl (by omega))]
  have hsum (a : ℕ) : UInt8.ofNat (v.length + a) + UInt8.ofNat w.length =
      UInt8.ofNat ((v ++ w).length + a) := by
    rw [← UInt8.ofNat_add, List.length_append]
    congr 1
    omega
  refine ⟨(hkeep 0 (Or.inl rfl)).trans h.type, ?_, ?_, (hkeep 6 (by omega)).trans h.vendorType,
    ?_, ?_⟩
  · rw [extendVsa, write_of_outside (Or.inl (by omega)), write_singleton_self,
      write_of_outside (Or.inl (by omega)), h.length, hsum]
  · rw [← h.vendorId]
    refine slice_congr fun i hi hi' => ?_
    obtain ⟨k, rfl⟩ := Nat.exists_eq_add_of_le hi
    exact hkeep (2 + k) (by omega) |>.trans (by rw [Nat.add_assoc]) |> fun h => by
      rwa [← Nat.add_assoc] at h
  · rw [extendVsa, write_singleton_self, write_of_outside (Or.inr (by simp)),
      write_of_outside (Or.inl (by omega)), h.vendorLength, hsum]
  · rw [extendVsa, slice_write_disjoint (Or.inr (by simp)),
      slice_write_disjoint (Or.inr (by simp)), List.length_append, ← slice_append]
    congr 1
    · rw [slice_write_disjoint (Or.inl (by omega)), h.value]
    · have hplace : attr + 8 + v.length = attr + (v.length + 8) := by omega
      rw [hplace, slice_write_self]

/-- The whole attribute. -/
theorem Building.bytes (h : Building m attr t v) :
    slice m attr (AppendOp.vsa RadiusAttr.ciscoVendorId t v).length =
      (AppendOp.vsa RadiusAttr.ciscoVendorId t v).bytes := by
  have hlength : (AppendOp.vsa RadiusAttr.ciscoVendorId t v).length = v.length + 8 := by
    simp [AppendOp.vsa, Tlv.length, AppendOp.bigEndian]
    omega
  have hsplit : v.length + 8 = 4 + (v.length + 2) + 2 := by omega
  rw [Tlv.bytes, hlength, hsplit, slice_succ, slice_succ, h.type, h.length, ← slice_append,
    h.vendorId, slice_succ, slice_succ, h.vendorType, h.vendorLength, h.value, ← hsplit]
  rfl

/-- The string is put behind the name, and that was the attribute that was asked for. -/
theorem outcome_appendCiscoString (h : Building m p.getLength t v) (hshort : v.length + 8 < 256)
    (hsame : ∀ i, i < p.getLength → m i = p.data i) :
    p.Outcome False (AppendOp.vsa RadiusAttr.ciscoVendorId t (v ++ w))
      (p.appendCiscoString m (v.length + 8) w) := by
  have hlength : RadiusAttr.getLength m p.getLength = v.length + 8 := by
    rw [RadiusAttr.getLength, h.length, UInt8.toNat_ofNat', Nat.mod_eq_of_lt hshort]
  have htotal : v.length + 8 + w.length =
      (AppendOp.vsa RadiusAttr.ciscoVendorId t (v ++ w)).length := by
    simp [AppendOp.vsa, Tlv.length, AppendOp.bigEndian]
    omega
  simp only [appendCiscoString, hlength, htotal, Bool.or_eq_true, decide_eq_true_eq]
  split
  · rename_i hwhy
    exact .refused (Or.inr hwhy) hsame
  · rename_i hgood
    rw [not_or, Nat.not_lt, Nat.not_lt] at hgood
    exact .accepted id hgood.1 hgood.2 h.extend.bytes fun i hi =>
      (extendVsa_of_lt hi).trans (hsame i hi)

/-- Names are short. -/
private theorem ciscoAttrName_length {name : List UInt8} (h : ciscoAttrName t = some name) :
    name.length ≤ 100 := by
  obtain ⟨entry, hentry, rfl⟩ := Option.map_eq_some_iff.mp h
  have hall : ∀ entry ∈ ciscoAttrNames, (asciiBytes entry.1).length ≤ 100 := by
    decide +kernel
  exact hall entry (List.mem_of_find?_eq_some hentry)

/-- The attribute as it is begun, with no value. -/
private theorem building_nil (p : RadiusPDU) (t : UInt8) :
    Building (Base.write p.data p.getLength ([RadiusAttr.vendorSpecific,
      UInt8.ofNat RadiusAttr.vsaRfc2865FixedHeaderLength] ++
        (radiusInteger RadiusAttr.ciscoVendorId ++ [t, 2]))) p.getLength t [] ∧
      ∀ i, i < p.getLength → Base.write p.data p.getLength ([RadiusAttr.vendorSpecific,
        UInt8.ofNat RadiusAttr.vsaRfc2865FixedHeaderLength] ++
          (radiusInteger RadiusAttr.ciscoVendorId ++ [t, 2])) i = p.data i := by
  refine ⟨?_, fun i hi => write_of_outside (Or.inl hi)⟩
  have hbytes := slice_write_self p.data p.getLength ([RadiusAttr.vendorSpecific,
    UInt8.ofNat RadiusAttr.vsaRfc2865FixedHeaderLength] ++
      (radiusInteger RadiusAttr.ciscoVendorId ++ [t, 2]))
  generalize Base.write p.data p.getLength _ = m at hbytes ⊢
  have hbytes : slice m p.getLength 8 = [RadiusAttr.vendorSpecific, 8, 0, 0, 0, 9, t, 2] := hbytes
  simp only [slice_succ, slice_zero, List.cons.injEq, and_true] at hbytes
  obtain ⟨h0, h1, h2, h3, h4, h5, h6, h7⟩ := hbytes
  refine ⟨h0, h1, ?_, h6, h7, rfl⟩
  simp only [slice_succ, slice_zero, h2, h3, h4, h5]
  rfl

/-- The same string behind a name and an equals sign. -/
private theorem outcome_appendNamed {m : Mem} {name : List UInt8}
    (hbuilding : Building m p.getLength t []) (hsame : ∀ i, i < p.getLength → m i = p.data i)
    (hshort : name.length ≤ 100) :
    p.Outcome False (AppendOp.vsa RadiusAttr.ciscoVendorId t (name ++ asciiBytes "=" ++ w))
      (p.appendCiscoString (extendVsa (extendVsa m p.getLength 8 name) p.getLength
        (RadiusAttr.getLength (extendVsa m p.getLength 8 name) p.getLength) (asciiBytes "="))
        (RadiusAttr.vsaRfc2865FixedHeaderLength + (name.length + 1)) w) := by
  have hnamed : Building (extendVsa m p.getLength 8 name) p.getLength t name := hbuilding.extend
  have hlength : RadiusAttr.getLength (extendVsa m p.getLength 8 name) p.getLength =
      name.length + 8 := by
    rw [RadiusAttr.getLength, hnamed.length, UInt8.toNat_ofNat', Nat.mod_eq_of_lt (by omega)]
  have hprefix := hnamed.extend (w := asciiBytes "=")
  have hpos : RadiusAttr.vsaRfc2865FixedHeaderLength + (name.length + 1) =
      (name ++ asciiBytes "=").length + 8 := by
    rw [List.length_append]
    change 8 + (name.length + 1) = name.length + 1 + 8
    omega
  rw [hlength, hpos]
  refine outcome_appendCiscoString hprefix ?_ fun i hi => ?_
  · rw [List.length_append]
    change name.length + 1 + 8 < 256
    omega
  · rw [extendVsa_of_lt hi, extendVsa_of_lt hi, hsame i hi]

/-- What `AppendCiscoAttr` makes of a string, with and without the hack. -/
theorem outcome_appendCiscoAttr (vsaHack : Bool) :
    p.Outcome False (AppendOp.vsa RadiusAttr.ciscoVendorId t (AppendOp.ciscoValue t w vsaHack))
      (p.appendCiscoAttr t w vsaHack) := by
  have htotal (v : List UInt8) :
      (AppendOp.vsa RadiusAttr.ciscoVendorId t v).length = v.length + 8 := by
    simp [AppendOp.vsa, Tlv.length, AppendOp.bigEndian]
    omega
  rw [appendCiscoAttr, AppendOp.ciscoValue]
  by_cases hfull : maxPduLength < p.getLength + RadiusAttr.vsaRfc2865FixedHeaderLength
  · rw [if_pos hfull]
    refine .refused (Or.inr (Or.inr ?_)) fun _ _ => rfl
    have hfull : maxPduLength < p.getLength + 8 := hfull
    rw [htotal]
    omega
  · rw [if_neg hfull]
    have hempty := building_nil p t
    generalize Base.write p.data p.getLength ([RadiusAttr.vendorSpecific,
      UInt8.ofNat RadiusAttr.vsaRfc2865FixedHeaderLength] ++
        (radiusInteger RadiusAttr.ciscoVendorId ++ [t, 2])) = m at hempty ⊢
    obtain ⟨hbuilding, hsame⟩ := hempty
    cases hname : if vsaHack then none else ciscoAttrName t with
    | none => exact outcome_appendCiscoString hbuilding (by decide) hsame
    | some name =>
      have hshort : name.length ≤ 100 := by
        cases vsaHack with
        | true => cases hname
        | false => exact ciscoAttrName_length hname
      simp only
      split
      · rename_i hover
        have hover : maxPduLength < p.getLength + (8 + (name.length + 1)) := hover
        refine .refused (Or.inr (Or.inr ?_)) hsame
        have hone : (asciiBytes "=").length = 1 := rfl
        rw [htotal]
        simp only [List.length_append, hone]
        omega
      · exact outcome_appendNamed hbuilding hsame hshort

/-- What a call does. -/
theorem outcome_apply (p : RadiusPDU) (op : AppendOp) :
    p.Outcome op.PassesInvalid op.requested (op.apply p) := by
  cases op with
  | attr m a => exact outcome_appendAttr m a
  | attrData t v | attrString t v => exact outcome_appendValue t v
  | attrInt t v =>
    rw [AppendOp.requested, ← radiusInteger_eq]
    exact outcome_appendValue t _
  | attrAddress t v => exact outcome_appendValue t _
  | vsaAttrData v i t | vsaAttrString v i t => exact outcome_appendVsaValue v i t
  | vsaAttrInt v i t =>
    rw [AppendOp.requested, ← radiusInteger_eq]
    exact outcome_appendVsaValue _ i t
  | vsaAttrAddress v i t => exact outcome_appendVsaValue _ i t
  | ciscoAttr t v hack => exact outcome_appendCiscoAttr hack

/-- A vendor-specific attribute is valid whatever it holds. -/
theorem valid_vsa (i : UInt32) (t : UInt8) (v : List UInt8) :
    RadiusAttr.Valid (AppendOp.vsa i t v) := by
  intro _
  simp only [AppendOp.vsa, Tlv.length, AppendOp.bigEndian, List.length_append,
    List.length_reverse, leBytes_length, RadiusAttr.vsaFixedHeaderLength,
    RadiusAttr.fixedHeaderLength]
  omega

/-- An attribute that may be asked for, and is not refused as invalid, is valid. -/
private theorem valid_requested {op : AppendOp} (hop : op.Admissible) (hgood : ¬op.PassesInvalid) :
    RadiusAttr.Valid op.requested := by
  cases op with
  | attr m a =>
    have hok : RadiusAttr.isValid m a = true := Bool.not_eq_false _ ▸ hgood
    exact (RadiusAttr.isValid_iff (RadiusAttr.fixedHeaderLength_le hok)).mp hok
  | attrData t v | attrString t v => exact fun ht => Nat.add_le_add_right (hop ht) 2
  | attrInt t v | attrAddress t v => exact fun _ => Nat.le_refl 6
  | vsaAttrData | vsaAttrString | vsaAttrInt | vsaAttrAddress | ciscoAttr => exact valid_vsa _ _ _

/-- Every call keeps the packet valid. -/
theorem Carries.apply (h : p.Carries as) {op : AppendOp} (hop : op.Admissible) :
    (op.apply p).2.Carries (if (op.apply p).1 then as ++ [op.requested] else as) := by
  have houtcome := outcome_apply p op
  generalize op.apply p = r at houtcome
  cases houtcome with
  | refused hwhy hsame => exact h.congr hsame
  | accepted hgood hfits hroom hbytes hsame =>
    exact h.put (valid_requested hop hgood) hfits hroom hbytes hsame

/-- Two packets with the same header and the same attributes. -/
structure Same (p q : RadiusPDU) : Prop where
  code : q.getCode = p.getCode
  id : q.getId = p.getId
  authenticator : q.getAuthenticator = p.getAuthenticator
  attributes : q.attributes = p.attributes

/-- The header that `Read` copies. -/
theorem readHeader_data (old : RadiusPDU) {rawData : List UInt8} {i : ℕ}
    (hlong : 20 ≤ rawData.length) (hi : i < 20) :
    Base.write old.invalidate.data 0 (rawData.take fixedHeaderLength) i = rawData.getD i 0 := by
  have htake : (rawData.take 20).length = 20 := by
    rw [List.length_take]
    omega
  rw [write_of_inside (Nat.zero_le i) (by rw [Nat.zero_add]; exact htake.symm ▸ hi), Nat.sub_zero]
  simp [fixedHeaderLength, List.getD_eq_getElem?_getD, hi]

/-- What `Read` does with enough bytes for a header: it accepts a length of as many bytes as there
are, and no more than fit, and copies them. -/
theorem read_header (old : RadiusPDU) {rawData : List UInt8} (hlong : 20 ≤ rawData.length) :
    (old.read rawData).1 = decide (20 ≤ lengthField rawData ∧
        lengthField rawData ≤ rawData.length ∧ lengthField rawData ≤ 4096) ∧
      ((old.read rawData).1 = true → ∀ i, i < lengthField rawData →
        (old.read rawData).2.data i = rawData.getD i 0) := by
  have hlength : (RadiusPDU.mk (Base.write old.invalidate.data 0
      (rawData.take fixedHeaderLength))).getLength = lengthField rawData := by
    rw [getLength_eq]
    simp only [readHeader_data old hlong (by decide : 2 < 20),
      readHeader_data old hlong (by decide : 3 < 20)]
    rfl
  have hshort : ¬rawData.length < minPduLength := Nat.not_lt.mpr hlong
  simp only [RadiusPDU.read, hlength, if_neg hshort]
  split
  · rename_i hbad
    simp only [Bool.or_eq_true, decide_eq_true_eq] at hbad
    refine ⟨(decide_eq_false ?_).symm, nofun⟩
    rintro ⟨hlow, hfits, hhigh⟩
    rcases hbad with (hover | hunder) | hbig
    · omega
    · exact absurd hlow (Nat.not_le.mpr hunder)
    · exact absurd hhigh (Nat.not_le.mpr hbig)
  · rename_i hgood
    simp only [Bool.or_eq_true, decide_eq_true_eq, not_or, Nat.not_lt] at hgood
    obtain ⟨⟨hfits, hlow⟩, hhigh⟩ := hgood
    have hlow : 20 ≤ lengthField rawData := hlow
    have haccepted := (decide_eq_true (⟨hlow, hfits, hhigh⟩ : 20 ≤ lengthField rawData ∧
      lengthField rawData ≤ rawData.length ∧ lengthField rawData ≤ 4096)).symm
    split
    · refine ⟨haccepted, fun _ i hi => ?_⟩
      by_cases hi' : i < 20
      · exact (write_of_outside (Or.inl hi')).trans (readHeader_data old hlong hi')
      · have hrest : ((rawData.drop 20).take (lengthField rawData - 20)).length =
            lengthField rawData - 20 := by
          rw [List.length_take, List.length_drop]
          omega
        have hplace : 20 + (i - 20) = i := by omega
        have hless : i - 20 < lengthField rawData - 20 := by omega
        refine (write_of_inside (Nat.not_lt.mp hi') ?_).trans ?_
        · change i < 20 + ((rawData.drop 20).take (lengthField rawData - 20)).length
          omega
        · simp [fixedHeaderLength, List.getD_eq_getElem?_getD, hplace, hless]
    · rename_i hempty
      have hempty : ¬20 < lengthField rawData := hempty
      exact ⟨haccepted, fun _ i hi => readHeader_data old hlong (by omega)⟩

/-- `Read` does not accept a length of more bytes than there are. -/
theorem read_eq_false {old : RadiusPDU} {rawData : List UInt8} (hlong : 20 ≤ rawData.length)
    (hover : rawData.length < (rawData.getD 2 0).toNat * 256 + (rawData.getD 3 0).toNat) :
    (old.read rawData).1 = false := by
  rw [(read_header old hlong).1, decide_eq_false_iff_not]
  exact fun hfits => Nat.not_le.mpr hover hfits.2.1

/-- What is read from the bytes of a valid packet. -/
theorem Carries.read (h : p.Carries as) {rawData : List UInt8}
    (hlong : p.getLength ≤ rawData.length)
    (hraw : ∀ i, i < p.getLength → rawData.getD i 0 = p.data i) (old : RadiusPDU) :
    (old.read rawData).1 = true ∧ ∀ i, i < p.getLength → (old.read rawData).2.data i = p.data i := by
  have hlow : 20 ≤ p.getLength := h.stored.le
  have hlength : lengthField rawData = p.getLength := by
    rw [lengthField, getLength_eq, hraw 2 (by omega), hraw 3 (by omega)]
  obtain ⟨haccepts, hdata⟩ := read_header old (Nat.le_trans hlow hlong)
  have htrue : (old.read rawData).1 = true := by
    rw [haccepts, hlength]
    exact decide_eq_true ⟨hlow, hlong, h.bound⟩
  refine ⟨htrue, fun i hi => ?_⟩
  rw [hdata htrue i (hlength.symm ▸ hi), hraw i hi]

/-- Attributes are in the packet, and the bytes behind it do not matter. -/
theorem Carries.same (h : p.Carries as) (hsame : ∀ i, i < p.getLength → q.data i = p.data i) :
    p.Same q := by
  have hlow : 20 ≤ p.getLength := h.stored.le
  refine ⟨hsame 0 (by omega), hsame 1 (by omega), ?_, ?_⟩
  · refine slice_congr fun i _ hi => hsame i ?_
    have hi : i < 4 + 16 := hi
    omega
  · rw [h.attributes, (h.congr hsame).attributes]

/-- What is written of a valid packet, and where. -/
theorem Carries.write (h : p.Carries as) (buffer : List UInt8) (offset : Option ℕ) :
    ∃ buffer', p.write buffer offset = some (buffer', p.getLength) ∧
      offset.getD buffer.length + p.getLength ≤ buffer'.length ∧
      ∀ i, i < p.getLength → (buffer'.drop (offset.getD buffer.length)).getD i 0 = p.data i := by
  rw [RadiusPDU.write, h.isValid, if_neg (by decide)]
  refine ⟨_, rfl, ?_, fun i hi => ?_⟩
  · simp only [List.length_append, List.length_take, List.length_drop, slice_length,
      List.length_replicate]
    omega
  · have htake : (List.take (offset.getD buffer.length) (buffer ++ List.replicate
        (p.getLength + offset.getD buffer.length - buffer.length) 0)).length =
          offset.getD buffer.length := by
      rw [List.length_take, List.length_append, List.length_replicate]
      omega
    have hdata : (slice p.data 0 p.getLength)[i]? = some (p.data i) := by
      rw [List.getElem?_eq_getElem (by rw [slice_length]; exact hi), slice_getElem, Nat.zero_add]
    rw [List.append_assoc, List.drop_append_of_le_length (Nat.le_of_eq htake.symm),
      List.drop_eq_nil_of_le (Nat.le_of_eq htake), List.nil_append, List.getD_eq_getElem?_getD,
      List.getElem?_append_left (by rw [slice_length]; exact hi), hdata]
    rfl

/-- Reading back what was written. -/
theorem Carries.roundTrip (h : p.Carries as) (buffer : List UInt8) (offset : Option ℕ)
    (old : RadiusPDU) : ∃ buffer', p.write buffer offset = some (buffer', p.getLength) ∧
      (old.readArray buffer' (offset.getD buffer.length)).1 = true ∧
      p.Same (old.readArray buffer' (offset.getD buffer.length)).2 := by
  have hlow : 20 ≤ p.getLength := h.stored.le
  obtain ⟨buffer', hwrite, hlong, hbytes⟩ := h.write buffer offset
  have hdrop : p.getLength ≤ (buffer'.drop (offset.getD buffer.length)).length := by
    rw [List.length_drop]
    omega
  obtain ⟨hread, hsame⟩ := h.read hdrop hbytes old
  refine ⟨buffer', hwrite, ?_⟩
  rw [readArray, if_neg (by omega)]
  exact ⟨hread, h.same hsame⟩

/-- What a call does to the attributes of a packet and to the rest of it. -/
structure Stores (p : RadiusPDU) (op : AppendOp) : Prop where
  extended : (op.apply p).1 = true → ∃ as, p.attributes = some as ∧
    (op.apply p).2.attributes = some (as ++ [op.requested])
  refused : (op.apply p).1 = false → ∀ i, i < p.getLength → (op.apply p).2.data i = p.data i
  refuses : (op.apply p).1 = false ↔ op.PassesInvalid ∨
    RadiusAttr.maxLength < op.requested.length ∨
      maxPduLength < p.getLength + op.requested.length
  valid : (op.apply p).2.isValid = true

/-- Every admissible operation stores what it was given, or refuses it. -/
theorem Carries.stores (h : p.Carries as) {op : AppendOp} (hop : op.Admissible) :
    p.Stores op := by
  have happly := h.apply hop
  have houtcome := outcome_apply p op
  refine ⟨fun htrue => ⟨as, h.attributes, ?_⟩, ?_, ?_, happly.isValid⟩
  · rw [htrue, if_pos rfl] at happly
    exact happly.attributes
  · generalize op.apply p = r at houtcome
    cases houtcome with
    | refused hwhy hsame => exact fun _ => hsame
    | accepted => exact nofun
  · generalize op.apply p = r at houtcome
    cases houtcome with
    | refused hwhy hsame => exact iff_of_true rfl hwhy
    | accepted hgood hfits hroom =>
      refine iff_of_false (by simp) ?_
      rintro (hbad | hlong | hover)
      · exact hgood hbad
      · exact absurd hlong (Nat.not_lt.mpr hfits)
      · exact absurd hover (Nat.not_lt.mpr hroom)

/-- A new packet has no attributes. -/
theorem carries_new (fresh : Mem) {packetCode : UInt8} (packetId : UInt8)
    (hcode : packetCode ≠ invalid) : (new fresh packetCode packetId).Carries [] := by
  have hlength : (new fresh packetCode packetId).getLength = 20 := getLength_setLength (by decide)
  refine ⟨?_, by rw [hlength]; decide, ?_, nofun⟩
  · have hsame : (new fresh packetCode packetId).getCode = packetCode :=
      setLength_data (i := 0) (Or.inl (by decide))
    rwa [hsame]
  · rw [hlength]
    exact .nil 20

/-- A packet that is built is valid. -/
theorem carries_build (h : p.Carries as) {ops : List AppendOp}
    (hops : ∀ op ∈ ops, op.Admissible) : ∃ bs, (p.build ops).Carries bs := by
  induction ops generalizing p as with
  | nil => exact ⟨as, h⟩
  | cons op ops ih =>
    rw [List.forall_mem_cons] at hops
    exact ih (h.apply hops.1) hops.2

/-- The code of a packet that is built is that of the packet it was built of. -/
theorem Carries.getCode_build (h : p.Carries as) {ops : List AppendOp}
    (hops : ∀ op ∈ ops, op.Admissible) : (p.build ops).getCode = p.getCode := by
  induction ops generalizing p as with
  | nil => rfl
  | cons op ops ih =>
    rw [List.forall_mem_cons] at hops
    rw [build_cons, ih (h.apply hops.1) hops.2]
    have hlow : 20 ≤ p.getLength := h.stored.le
    have houtcome := outcome_apply p op
    generalize op.apply p = r at houtcome
    cases houtcome with
    | refused hwhy hsame => exact hsame 0 (by omega)
    | accepted hgood hfits hroom hbytes hsame =>
      exact (setLength_data (Or.inl (by decide))).trans (hsame 0 (by omega))

/-- With room for as many attributes of any length, the calls append what is acceptable. -/
theorem Carries.build (h : p.Carries as) {ops : List AppendOp}
    (hops : ∀ op ∈ ops, op.Admissible)
    (hroom : p.getLength + RadiusAttr.maxLength * ops.length ≤ maxPduLength) :
    (p.build ops).Carries (as ++ AppendOp.appended ops) := by
  induction ops generalizing p as with
  | nil => exact (List.append_nil as).symm ▸ h
  | cons op ops ih =>
    rw [List.forall_mem_cons] at hops
    have happly := h.apply hops.1
    have houtcome := outcome_apply p op
    rw [build_cons]
    have hspace : p.getLength + (255 * ops.length + 255) ≤ 4096 := hroom
    generalize op.apply p = r at happly houtcome ⊢
    cases houtcome with
    | @refused q hwhy hsame =>
      have hrefused : ¬op.Acceptable := by
        rintro ⟨hgood, hfits⟩
        rcases hwhy with hbad | hlong | hover
        · exact hgood hbad
        · exact absurd hlong (Nat.not_lt.mpr hfits)
        · have hfits : op.requested.length ≤ 255 := hfits
          have hover : 4096 < p.getLength + op.requested.length := hover
          omega
      have hlength : q.getLength = p.getLength := happly.stored.end_eq.trans h.stored.end_eq.symm
      rw [AppendOp.appended, List.filter_cons_of_neg (by simpa using hrefused)]
      refine ih happly hops.2 ?_
      change q.getLength + 255 * ops.length ≤ 4096
      omega
    | @accepted m hgood hfits hroom' hbytes hsame =>
      have hlength : ((RadiusPDU.mk m).setLength (p.getLength + op.requested.length)).getLength =
          p.getLength + op.requested.length := by
        have hroom' : p.getLength + op.requested.length ≤ 4096 := hroom'
        exact getLength_setLength (by omega)
      rw [AppendOp.appended, List.filter_cons_of_pos (by simpa using ⟨hgood, hfits⟩),
        List.map_cons, List.append_cons]
      refine ih happly hops.2 ?_
      have hfits : op.requested.length ≤ 255 := hfits
      rw [hlength]
      change p.getLength + op.requested.length + 255 * ops.length ≤ 4096
      omega

/-- The attribute store: whatever was built is valid and read back as it was, and another call
appends the attribute that is asked for or leaves what is there alone. -/
theorem attribute_store (fresh : Mem) {packetCode : UInt8} (packetId : UInt8)
    {ops : List AppendOp} (hcode : packetCode ≠ invalid) (hops : ∀ op ∈ ops, op.Admissible) :
    ((new fresh packetCode packetId).build ops).isValid = true ∧
    (∀ op : AppendOp, op.Admissible → ((new fresh packetCode packetId).build ops).Stores op) ∧
    ∀ (buffer : List UInt8) (offset : Option ℕ) (old : RadiusPDU), ∃ buffer',
      ((new fresh packetCode packetId).build ops).write buffer offset =
        some (buffer', ((new fresh packetCode packetId).build ops).getLength) ∧
      (old.readArray buffer' (offset.getD buffer.length)).1 = true ∧
      ((new fresh packetCode packetId).build ops).Same
        (old.readArray buffer' (offset.getD buffer.length)).2 := by
  obtain ⟨bs, h⟩ := carries_build (carries_new fresh packetId hcode) hops
  exact ⟨h.isValid, fun op hop => h.stores hop, h.roundTrip⟩

/-- A user name and a vendor-specific attribute are stored. -/
theorem attribute_store_two :
    ((new (fun _ => 0) accessRequest 7).build
      [.attrString 1 [97, 98], .ciscoAttr 110 [85, 83, 68] false]).attributes =
        some [⟨1, [97, 98]⟩, AppendOp.vsa 9 110 (asciiBytes "h323-currency=USD")] ∧
    ((new (fun _ => 0) accessRequest 7).build
      [.attrString 1 [97, 98], .ciscoAttr 110 [85, 83, 68] false]).isValid = true := by
  refine ⟨by decide +kernel, (attribute_store _ 7 (by decide) ?_).1⟩
  simp only [List.forall_mem_cons]
  exact ⟨nofun, trivial, nofun⟩

end RadiusPDU

end Dot1x.Radius
