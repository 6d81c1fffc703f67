import Dot1x.Base.Tlv

/-!
# RADIUS packets

A packet is the memory of a `RadiusPDU` object. An attribute is known by its offset, as the pointers
to it are. The loops over the attributes get a bound on their iterations; a loop that would not end
returns nothing.
-/

namespace Dot1x.Radius

open Dot1x.Base

namespace RadiusAttr

def maxLength : ℕ := 255
def fixedHeaderLength : ℕ := 2
def vsaFixedHeaderLength : ℕ := fixedHeaderLength + 4
def vsaRfc2865FixedHeaderLength : ℕ := vsaFixedHeaderLength + 2

def userName : UInt8 := 1
def userPassword : UInt8 := 2
def nasIpAddress : UInt8 := 4
def nasPort : UInt8 := 5
def serviceType : UInt8 := 6
def framedProtocol : UInt8 := 7
def framedIpAddress : UInt8 := 8
def state : UInt8 := 24
def vendorSpecific : UInt8 := 26
def callingStationId : UInt8 := 31
def nasIdentifier : UInt8 := 32
def acctStatusType : UInt8 := 40
def acctDelayTime : UInt8 := 41
def acctSessionTime : UInt8 := 46
def nasPortType : UInt8 := 61
def eapMessage : UInt8 := 79
def messageAuthenticator : UInt8 := 80

def ciscoVendorId : UInt32 := 9

/-- The type of the attribute at an address. -/
def getType (m : Mem) (attr : ℕ) : UInt8 := m attr

def getLength (m : Mem) (attr : ℕ) : ℕ := (m (attr + 1)).toNat

def isVsa (m : Mem) (attr : ℕ) : Bool := getType m attr = vendorSpecific

def getValueLength (m : Mem) (attr : ℕ) : ℕ :=
  let len := getLength m attr
  let headerLen := if isVsa m attr then vsaFixedHeaderLength else fixedHeaderLength
  if len ≤ headerLen then 0 else len - headerLen

def isValid (m : Mem) (attr : ℕ) : Bool :=
  (if getType m attr = vendorSpecific then vsaFixedHeaderLength else fixedHeaderLength) ≤
    getLength m attr

/-- The constructor without arguments, on memory that is not initialized. -/
def new (fresh : Mem) : Mem := write fresh 0 [0, 0]

/-- `operator=` copies as many bytes as the attribute at an address has. -/
def assign (m src : Mem) (attr : ℕ) : Mem := write m 0 (slice src attr (getLength src attr))

/-- `GetValue` into an array that is large enough. -/
def getValue (m : Mem) (attr : ℕ) (buffer : Mem) : Mem :=
  if !isValid m attr then buffer
  else write buffer 0 (slice m (attr + if isVsa m attr then vsaFixedHeaderLength
    else fixedHeaderLength) (getValueLength m attr))

/-- A vendor-specific attribute has a vendor. -/
def Valid (a : Tlv) : Prop := a.type = vendorSpecific → vsaFixedHeaderLength ≤ a.length

variable {m : Mem} {attr : ℕ}

/-- An attribute in memory is valid if what is read of it is. -/
theorem isValid_iff (h : fixedHeaderLength ≤ getLength m attr) :
    isValid m attr = true ↔ Valid (Tlv.read m attr) := by
  rw [isValid, decide_eq_true_eq, Valid, Tlv.length_read h]
  change _ ↔ (getType m attr = vendorSpecific → _)
  by_cases htype : getType m attr = vendorSpecific
  · simp only [htype, if_true, true_imp_iff]
    rfl
  · simp only [htype, if_false, false_imp_iff, iff_true]
    exact h

/-- The value of an attribute that has no vendor. -/
theorem getValue_eq (h : isValid m attr = true) (htype : getType m attr ≠ vendorSpecific)
    (buffer : Mem) : getValueLength m attr = (Tlv.read m attr).value.length ∧
      getValue m attr buffer = write buffer 0 (Tlv.read m attr).value := by
  have hvsa : isVsa m attr = false := decide_eq_false htype
  have hlength : getValueLength m attr = getLength m attr - 2 := by
    rw [getValueLength, hvsa]
    simp only [Bool.false_eq_true, if_false, fixedHeaderLength]
    split <;> omega
  refine ⟨?_, ?_⟩
  · rw [hlength, Tlv.read, slice_length]
    rfl
  · simp only [getValue, h, hvsa, hlength, Bool.not_true, Bool.false_eq_true, if_false]
    rfl

/-- A valid attribute has room for its header. -/
theorem fixedHeaderLength_le (h : isValid m attr = true) :
    fixedHeaderLength ≤ getLength m attr := by
  rw [isValid, decide_eq_true_eq] at h
  split at h
  · exact Nat.le_trans (by decide) h
  · exact h

end RadiusAttr

/-- `SetRadiusInteger` stores these bytes. -/
def radiusInteger (v : UInt32) : List UInt8 :=
  [(v >>> 24).toUInt8, (v >>> 16).toUInt8, (v >>> 8).toUInt8, v.toUInt8]

/-- The bytes of an address as the host stores them; it is kept in network order. -/
def addressBytes (address : UInt32) : List UInt8 := leBytes 4 address.toNat

/-- A packet. -/
structure RadiusPDU where
  data : Mem

namespace RadiusPDU

def fixedHeaderLength : ℕ := 20
def authenticatorLength : ℕ := 16
def messageAuthenticatorLength : ℕ := 16
def authenticatorOffset : ℕ := 4
def minPduLength : ℕ := fixedHeaderLength
def maxPduLength : ℕ := 4096

def invalid : UInt8 := 0
def accessRequest : UInt8 := 1
def accessAccept : UInt8 := 2
def accountingRequest : UInt8 := 4
def accountingResponse : UInt8 := 5
def accountingStatus : UInt8 := 6
def accountingMessage : UInt8 := 10
def accessChallenge : UInt8 := 11

def getCode (p : RadiusPDU) : UInt8 := p.data 0

def getId (p : RadiusPDU) : UInt8 := p.data 1

def getLength (p : RadiusPDU) : ℕ :=
  ((p.data 2).toNat &&& 0xff) <<< 8 ||| (p.data 3).toNat &&& 0xff

def getAuthenticator (p : RadiusPDU) : List UInt8 :=
  slice p.data authenticatorOffset authenticatorLength

def setLength (p : RadiusPDU) (newLen : ℕ) : RadiusPDU :=
  ⟨write p.data 2 [UInt8.ofNat (newLen >>> 8 &&& 0xff), UInt8.ofNat (newLen &&& 0xff)]⟩

def setId (p : RadiusPDU) (newId : UInt8) : RadiusPDU := ⟨write p.data 1 [newId]⟩

/-- The constructor with a code and an identifier, on memory that is not initialized. -/
def new (fresh : Mem) (packetCode packetId : UInt8) : RadiusPDU :=
  (RadiusPDU.mk (write fresh 0 [packetCode, packetId])).setLength fixedHeaderLength

/-- `m_code = m_id = Invalid`, and no attributes. -/
def invalidate (p : RadiusPDU) : RadiusPDU :=
  (RadiusPDU.mk (write p.data 0 [invalid, invalid])).setLength fixedHeaderLength

/-- The loop of `IsValid`: where it stops. -/
def validLoop (p : RadiusPDU) (len : ℕ) : ℕ → ℕ → ℕ
  | 0, currLen => currLen
  | fuel + 1, currLen =>
    if currLen < len then
      let remainingLen := len - currLen
      if remainingLen < RadiusAttr.fixedHeaderLength
          || remainingLen < RadiusAttr.getLength p.data currLen
          || !RadiusAttr.isValid p.data currLen then currLen
      else validLoop p len fuel (currLen + RadiusAttr.getLength p.data currLen)
    else currLen

def isValid (p : RadiusPDU) : Bool :=
  if p.getCode = invalid then false
  else
    let len := p.getLength
    if len < minPduLength || maxPduLength < len then false
    else p.validLoop len len fixedHeaderLength = len

/-- The attribute after another one, or the first. -/
def getAttr (p : RadiusPDU) (prevAttr : Option ℕ) : Option ℕ :=
  let offset := match prevAttr with
    | none => fixedHeaderLength
    | some attr => attr + RadiusAttr.getLength p.data attr
  if p.getLength ≤ offset then none else some offset

/-- The attributes that a loop over `GetAttr` comes to. -/
def attrLoop (p : RadiusPDU) : ℕ → Option ℕ → Option (List ℕ)
  | _, none => some []
  | 0, some _ => none
  | fuel + 1, some attr => (attrLoop p fuel (p.getAttr (some attr))).map (attr :: ·)

def getNumAttributes (p : RadiusPDU) : Option ℕ :=
  (p.attrLoop p.getLength (p.getAttr none)).map List.length

/-- The attributes as `GetAttr` enumerates them. -/
def attributes (p : RadiusPDU) : Option (List Tlv) :=
  (p.attrLoop p.getLength (p.getAttr none)).map (·.map (Tlv.read p.data))

def findAttrLoop (p : RadiusPDU) (attrType : UInt8) : ℕ → Option ℕ → Option (Option ℕ)
  | _, none => some none
  | 0, some _ => none
  | fuel + 1, some attr =>
    if RadiusAttr.getType p.data attr ≠ attrType then
      findAttrLoop p attrType fuel (p.getAttr (some attr))
    else some (some attr)

/-- The first attribute of a type. -/
def findAttr (p : RadiusPDU) (attrType : UInt8) : Option (Option ℕ) :=
  p.findAttrLoop attrType p.getLength (p.getAttr none)

/-- `CopyContents`, into an object with other contents. -/
def copyContents (p pdu : RadiusPDU) : RadiusPDU :=
  let p : RadiusPDU := ⟨write p.data 0 (slice pdu.data 0 fixedHeaderLength)⟩
  let len := p.getLength
  if len < minPduLength || maxPduLength < len then p.invalidate
  else if fixedHeaderLength < len then
    ⟨write p.data fixedHeaderLength (slice pdu.data fixedHeaderLength (len - fixedHeaderLength))⟩
  else p

variable {p q : RadiusPDU} {n i : ℕ} {as : List Tlv}

/-- The length of a packet is stored with its high byte first. -/
theorem getLength_eq (p : RadiusPDU) :
    p.getLength = (p.data 2).toNat * 256 + (p.data 3).toNat := by
  have hbyte (b : UInt8) : b.toNat &&& 0xff = b.toNat := by
    have hmask := Nat.and_two_pow_sub_one_eq_mod b.toNat 8
    rw [Nat.mod_eq_of_lt b.toNat_lt] at hmask
    exact hmask
  rw [getLength, hbyte, hbyte, ← Nat.shiftLeft_add_eq_or_of_lt (p.data 3).toNat_lt,
    Nat.shiftLeft_eq]

/-- The length depends on its two bytes. -/
theorem getLength_congr (h2 : q.data 2 = p.data 2) (h3 : q.data 3 = p.data 3) :
    q.getLength = p.getLength := by
  rw [getLength_eq, getLength_eq, h2, h3]

/-- Only two bytes change with the length. -/
theorem setLength_data (h : i < 2 ∨ 4 ≤ i) : (p.setLength n).data i = p.data i :=
  write_of_outside h

/-- A length that is stored is read back. -/
@[simp] theorem getLength_setLength (h : n < 2 ^ 16) : (p.setLength n).getLength = n := by
  have hlow : n &&& 0xff = n % 2 ^ 8 := Nat.and_two_pow_sub_one_eq_mod n 8
  have hhigh : n >>> 8 &&& 0xff = n / 2 ^ 8 % 2 ^ 8 := by
    rw [Nat.shiftRight_eq_div_pow]
    exact Nat.and_two_pow_sub_one_eq_mod _ 8
  have h2 : (p.setLength n).data 2 = UInt8.ofNat (n >>> 8 &&& 0xff) := rfl
  have h3 : (p.setLength n).data 3 = UInt8.ofNat (n &&& 0xff) := rfl
  rw [getLength_eq, h2, h3, UInt8.toNat_ofNat', UInt8.toNat_ofNat', hlow, hhigh]
  omega

/-- A packet that is valid, with its attributes. -/
structure Carries (p : RadiusPDU) (as : List Tlv) : Prop where
  code : p.getCode ≠ invalid
  bound : p.getLength ≤ maxPduLength
  stored : Tlv.Stored p.data fixedHeaderLength as p.getLength
  valid : ∀ a ∈ as, RadiusAttr.Valid a

/-- The loop of `IsValid` comes to the end exactly when valid attributes are stored up to there. -/
theorem validLoop_eq_iff {len fuel currLen : ℕ} (hle : currLen ≤ len)
    (hfuel : len - currLen ≤ fuel) : p.validLoop len fuel currLen = len ↔
      ∃ as, Tlv.Stored p.data currLen as len ∧ ∀ a ∈ as, RadiusAttr.Valid a := by
  induction fuel generalizing currLen with
  | zero =>
    have hend : currLen = len := by omega
    subst hend
    exact iff_of_true rfl ⟨[], .nil _, nofun⟩
  | succ fuel ih =>
    by_cases hlt : currLen < len
    · rw [validLoop, if_pos hlt]
      simp only [Bool.or_eq_true, decide_eq_true_eq, Bool.not_eq_true']
      split
      · -- The loop breaks, and no valid attribute is stored here.
        rename_i hbreak
        refine iff_of_false (by omega) ?_
        rintro ⟨as, hstored, has⟩
        cases hstored with
        | nil => omega
        | cons hlong hrest =>
          have hok := (RadiusAttr.isValid_iff hlong).mpr (has _ List.mem_cons_self)
          have hfits := hrest.le
          rcases hbreak with (hshort | hover) | hbad
          · have hshort : len - currLen < 2 := hshort
            omega
          · have hover : len - currLen < (p.data (currLen + 1)).toNat := hover
            omega
          · cases hok.symm.trans hbad
      · rename_i hgo
        simp only [not_or, Nat.not_lt, Bool.not_eq_false] at hgo
        obtain ⟨⟨hremains, hfits⟩, hok⟩ := hgo
        have hlong := RadiusAttr.fixedHeaderLength_le hok
        have hvalid := (RadiusAttr.isValid_iff hlong).mp hok
        have hstep : 2 ≤ RadiusAttr.getLength p.data currLen := hlong
        rw [ih (by omega) (by omega)]
        constructor
        · rintro ⟨as, hstored, has⟩
          exact ⟨_, .cons hlong hstored, List.forall_mem_cons.mpr ⟨hvalid, has⟩⟩
        · rintro ⟨as, hstored, has⟩
          cases hstored with
          | nil => omega
          | cons _ hrest => exact ⟨_, hrest, fun a ha => has a (List.mem_cons_of_mem _ ha)⟩
    · have hend : currLen = len := by omega
      subst hend
      rw [validLoop, if_neg hlt]
      exact iff_of_true rfl ⟨[], .nil _, nofun⟩

/-- What `IsValid` accepts. -/
theorem isValid_iff : p.isValid = true ↔ ∃ as, p.Carries as := by
  unfold isValid
  split
  · rename_i hcode
    exact iff_of_false Bool.false_ne_true fun ⟨as, h⟩ => h.code hcode
  · rename_i hcode
    simp only
    split
    · rename_i hlen
      refine iff_of_false Bool.false_ne_true fun ⟨as, h⟩ => ?_
      have hlow := h.stored.le
      have hhigh := h.bound
      simp only [Bool.or_eq_true, decide_eq_true_eq] at hlen
      rcases hlen with hshort | hover
      · exact absurd hlow (Nat.not_le.mpr hshort)
      · exact absurd hhigh (Nat.not_le.mpr hover)
    · rename_i hlen
      simp only [Bool.or_eq_true, decide_eq_true_eq, not_or, Nat.not_lt] at hlen
      have hlow : fixedHeaderLength ≤ p.getLength := hlen.1
      rw [decide_eq_true_eq, validLoop_eq_iff hlow (Nat.sub_le ..)]
      constructor
      · rintro ⟨as, hstored, has⟩
        exact ⟨as, hcode, hlen.2, hstored, has⟩
      · rintro ⟨as, h⟩
        exact ⟨as, h.stored, h.valid⟩

/-- A packet carries one list of attributes. -/
theorem Carries.unique {bs : List Tlv} (h : p.Carries as) (h' : p.Carries bs) : as = bs :=
  h.stored.unique h'.stored

/-- A packet that carries attributes is valid. -/
theorem Carries.isValid (h : p.Carries as) : p.isValid = true := isValid_iff.mpr ⟨as, h⟩

/-- The attribute at an offset, unless the packet ends there. -/
def attrFrom (p : RadiusPDU) (offset : ℕ) : Option ℕ :=
  if p.getLength ≤ offset then none else some offset

/-- Behind the last attribute there is none. -/
theorem attrFrom_of_stored_nil {offset : ℕ} (h : Tlv.Stored p.data offset [] p.getLength) :
    p.attrFrom offset = none :=
  if_pos (Nat.le_of_eq h.end_eq)

/-- An attribute that is stored is found, and the others behind it. -/
theorem attrFrom_of_stored_cons {offset : ℕ} {a : Tlv}
    (h : Tlv.Stored p.data offset (a :: as) p.getLength) : p.attrFrom offset = some offset ∧
      a = Tlv.read p.data offset ∧ 2 ≤ (p.data (offset + 1)).toNat ∧
      Tlv.Stored p.data (offset + (p.data (offset + 1)).toNat) as p.getLength := by
  cases h with
  | cons hlong hrest =>
    have hle := hrest.le
    exact ⟨if_neg (by omega), rfl, hlong, hrest⟩

/-- The loop over the attributes comes to those that are stored. -/
private theorem attrLoop_of_stored {fuel offset : ℕ} (h : Tlv.Stored p.data offset as p.getLength)
    (hfuel : p.getLength - offset ≤ fuel) :
    (p.attrLoop fuel (p.attrFrom offset)).map (·.map (Tlv.read p.data)) = some as := by
  induction as generalizing offset fuel with
  | nil =>
    rw [attrFrom_of_stored_nil h]
    cases fuel <;> rfl
  | cons a as ih =>
    obtain ⟨hfrom, hread, hlong, hrest⟩ := attrFrom_of_stored_cons h
    have hle := hrest.le
    cases fuel with
    | zero => omega
    | succ fuel =>
      have hless : p.getLength - (offset + (p.data (offset + 1)).toNat) ≤ fuel := by omega
      have hnext := ih hrest hless
      rw [hfrom, attrLoop, Option.map_map]
      change Option.map _ (p.attrLoop fuel (p.attrFrom (offset + (p.data (offset + 1)).toNat))) = _
      cases hloop : p.attrLoop fuel (p.attrFrom (offset + (p.data (offset + 1)).toNat)) with
      | none =>
        rw [hloop] at hnext
        cases hnext
      | some offsets =>
        rw [hloop, Option.map_some, Option.some.injEq] at hnext
        rw [Option.map_some, Function.comp_apply, List.map_cons, hnext, hread]

/-- The attributes are enumerated. -/
theorem Carries.attributes (h : p.Carries as) : p.attributes = some as :=
  attrLoop_of_stored h.stored (Nat.sub_le ..)

/-- The attributes of a valid packet are counted. -/
theorem Carries.getNumAttributes (h : p.Carries as) : p.getNumAttributes = some as.length := by
  have hattrs := h.attributes
  rw [RadiusPDU.attributes] at hattrs
  rw [RadiusPDU.getNumAttributes]
  cases hloop : p.attrLoop p.getLength (p.getAttr none) with
  | none =>
    rw [hloop] at hattrs
    cases hattrs
  | some offsets =>
    rw [hloop, Option.map_some, Option.some.injEq] at hattrs
    rw [Option.map_some, ← hattrs, List.length_map]

/-- The loop of `FindAttr` passes over attributes of other types. -/
private theorem findAttrLoop_of_stored {t : UInt8} {fuel offset : ℕ}
    (h : Tlv.Stored p.data offset as p.getLength) (hfuel : p.getLength - offset ≤ fuel) :
    p.findAttrLoop t fuel (p.attrFrom offset) =
      some ((as.findIdx? (·.type = t)).map fun i =>
        offset + (Tlv.bytesAll (as.take i)).length) := by
  induction as generalizing offset fuel with
  | nil =>
    rw [attrFrom_of_stored_nil h]
    cases fuel <;> rfl
  | cons a as ih =>
    obtain ⟨hfrom, hread, hlong, hrest⟩ := attrFrom_of_stored_cons h
    have hle := hrest.le
    cases fuel with
    | zero => omega
    | succ fuel =>
      have htype : RadiusAttr.getType p.data offset = a.type := by
        rw [hread]
        rfl
      rw [hfrom, findAttrLoop, htype, List.findIdx?_cons]
      by_cases ht : a.type = t
      · rw [if_neg (not_not.mpr ht), if_pos (decide_eq_true ht)]
        rfl
      · rw [if_pos ht, if_neg (by simpa using ht)]
        have hless : p.getLength - (offset + (p.data (offset + 1)).toNat) ≤ fuel := by omega
        have hnext := ih hrest hless
        have hlength : a.length = (p.data (offset + 1)).toNat := by
          rw [hread, Tlv.length_read hlong]
        change p.findAttrLoop t fuel (p.attrFrom (offset + (p.data (offset + 1)).toNat)) = _
        rw [hnext, Option.map_map, ← hlength]
        congr 2
        funext i
        rw [Function.comp_apply, List.take_succ_cons, Tlv.bytesAll, Tlv.bytesAll,
          List.flatMap_cons, List.length_append, Tlv.bytes_length, Nat.add_assoc]

/-- Where the first attribute of a type is. -/
theorem Carries.findAttr (h : p.Carries as) (t : UInt8) : p.findAttr t =
    some ((as.findIdx? (·.type = t)).map fun i =>
      fixedHeaderLength + (Tlv.bytesAll (as.take i)).length) :=
  findAttrLoop_of_stored h.stored (Nat.sub_le ..)

/-- Either no attribute has the type, or the first one that has it is found. -/
theorem Carries.findAttr_cases (h : p.Carries as) (t : UInt8) :
    (p.findAttr t = some none ∧ ∀ a ∈ as, a.type ≠ t) ∨
      ∃ l a r, as = l ++ a :: r ∧ a.type = t ∧ (∀ x ∈ l, x.type ≠ t) ∧
        p.findAttr t = some (some (fixedHeaderLength + (Tlv.bytesAll l).length)) := by
  rw [h.findAttr]
  cases hfind : as.findIdx? (·.type = t) with
  | none =>
    rw [List.findIdx?_eq_none_iff] at hfind
    exact Or.inl ⟨rfl, fun a ha => of_decide_eq_false (hfind a ha)⟩
  | some i =>
    obtain ⟨hi, ha, hbefore⟩ := List.findIdx?_eq_some_iff_getElem.mp hfind
    refine Or.inr ⟨as.take i, as[i], as.drop (i + 1), ?_, of_decide_eq_true ha, fun x hx => ?_, rfl⟩
    · rw [← List.drop_eq_getElem_cons hi, List.take_append_drop]
    · obtain ⟨j, hj, rfl⟩ := List.mem_take_iff_getElem.mp hx
      exact fun hx => hbefore j (by omega) (decide_eq_true hx)

/-- The first attribute of a type is found. -/
theorem Carries.findAttr_first {l r : List Tlv} {a : Tlv} {t : UInt8} (h : p.Carries (l ++ a :: r))
    (htype : a.type = t) (hfirst : ∀ x ∈ l, x.type ≠ t) :
    p.findAttr t = some (some (fixedHeaderLength + (Tlv.bytesAll l).length)) := by
  have hnone : l.findIdx? (·.type = t) = none :=
    List.findIdx?_eq_none_iff.mpr fun x hx => decide_eq_false (hfirst x hx)
  rw [h.findAttr, List.findIdx?_append, hnone, List.findIdx?_cons, if_pos (decide_eq_true htype)]
  simp

/-- Where an attribute of a valid packet is stored, and what is stored before and behind it. -/
theorem Carries.split {l r : List Tlv} {a : Tlv} (h : p.Carries (l ++ a :: r)) :
    Tlv.Stored p.data fixedHeaderLength l (fixedHeaderLength + (Tlv.bytesAll l).length) ∧
      a = Tlv.read p.data (fixedHeaderLength + (Tlv.bytesAll l).length) ∧
      RadiusAttr.getLength p.data (fixedHeaderLength + (Tlv.bytesAll l).length) = a.length ∧
      Tlv.Stored p.data (fixedHeaderLength + (Tlv.bytesAll l).length + a.length) r
        p.getLength := by
  obtain ⟨e, hl, hrest⟩ := Tlv.Stored.append_iff.mp h.stored
  have he := hl.end_eq
  subst he
  cases hrest with
  | cons hlong hrest =>
    rw [Tlv.length_read hlong]
    exact ⟨hl, rfl, rfl, hrest⟩

/-- The attribute that is found is the first one of its type, and where it is. -/
theorem Carries.findAttr_eq_some (h : p.Carries as) {t : UInt8} {attr : ℕ}
    (hfind : p.findAttr t = some (some attr)) : ∃ a, as.find? (·.type = t) = some a ∧
      a = Tlv.read p.data attr ∧ RadiusAttr.getLength p.data attr = a.length ∧
        RadiusAttr.isValid p.data attr = true := by
  rcases h.findAttr_cases t with ⟨hnone, -⟩ | ⟨l, a, r, rfl, htype, hfirst, hsome⟩
  · cases hnone.symm.trans hfind
  · cases hsome.symm.trans hfind
    obtain ⟨-, hread, hlength, -⟩ := h.split
    refine ⟨a, ?_, hread, hlength, ?_⟩
    · rw [List.find?_append, List.find?_eq_none.mpr (by simpa using hfirst), Option.none_or,
        List.find?_cons_of_pos (by simpa using htype)]
    · have hlong : RadiusAttr.fixedHeaderLength ≤ RadiusAttr.getLength p.data
          (fixedHeaderLength + (Tlv.bytesAll l).length) := by
        rw [hlength]
        exact Nat.le_add_left ..
      rw [RadiusAttr.isValid_iff hlong, ← hread]
      exact h.valid a (by simp)

/-- If there is an attribute of a type, one is found. -/
theorem Carries.findAttr_of_find? (h : p.Carries as) {t : UInt8} {a : Tlv}
    (ha : as.find? (·.type = t) = some a) : ∃ attr, p.findAttr t = some (some attr) := by
  rcases h.findAttr_cases t with ⟨-, hnone⟩ | ⟨l, _, _, _, _, _, hsome⟩
  · have hmem := List.mem_of_find?_eq_some ha
    have htype := List.find?_some ha
    exact absurd (of_decide_eq_true htype) (hnone a hmem)
  · exact ⟨_, hsome⟩

/-- Another value of the same length is written into an attribute. -/
theorem Carries.writeValue {l r : List Tlv} {a : Tlv} (h : p.Carries (l ++ a :: r))
    {v : List UInt8} (hlength : v.length = a.value.length)
    (hvalid : RadiusAttr.Valid ⟨a.type, v⟩) :
    (RadiusPDU.mk (write p.data (fixedHeaderLength + (Tlv.bytesAll l).length + 2) v)).Carries
        (l ++ ⟨a.type, v⟩ :: r) ∧
      (RadiusPDU.mk (write p.data (fixedHeaderLength + (Tlv.bytesAll l).length + 2) v)).getLength =
        p.getLength := by
  obtain ⟨hl, hread, ha, hr⟩ := h.split
  generalize hattr : fixedHeaderLength + (Tlv.bytesAll l).length = attr at *
  have hlow : 20 ≤ attr := hl.le
  have hlong : a.length = v.length + 2 := by
    rw [Tlv.length, hlength]
  have hbefore (i : ℕ) (hi : i < attr + 2) : write p.data (attr + 2) v i = p.data i :=
    write_of_outside (Or.inl hi)
  have hafter (i : ℕ) (hi : attr + a.length ≤ i) : write p.data (attr + 2) v i = p.data i :=
    write_of_outside (Or.inr (by omega))
  have hsame : (RadiusPDU.mk (write p.data (attr + 2) v)).getLength = p.getLength :=
    getLength_congr (hbefore 2 (by omega)) (hbefore 3 (by omega))
  have htype : p.data attr = a.type := by
    rw [hread]
    rfl
  have hbyte : p.data (attr + 1) = UInt8.ofNat a.length := by
    rw [← ha, RadiusAttr.getLength, UInt8.ofNat_toNat]
  have hfits : a.length ≤ 255 := by
    rw [← ha]
    exact Nat.le_of_lt_succ (p.data (attr + 1)).toNat_lt
  have hbytes : slice (write p.data (attr + 2) v) attr (Tlv.length ⟨a.type, v⟩) =
      Tlv.bytes ⟨a.type, v⟩ := by
    have hnew : Tlv.length ⟨a.type, v⟩ = v.length + 2 := rfl
    rw [hnew, slice_succ, slice_succ, hbefore attr (by omega), hbefore (attr + 1) (by omega),
      htype, hbyte, hlong, slice_write_self]
    rfl
  refine ⟨⟨?_, by rw [hsame]; exact h.bound, ?_, fun x hx => ?_⟩, hsame⟩
  · have hcode : (RadiusPDU.mk (write p.data (attr + 2) v)).getCode = p.getCode :=
      hbefore 0 (by omega)
    rw [hcode]
    exact h.code
  · rw [hsame]
    refine (hl.congr fun i _ hi => hbefore i (by omega)).append (.cons_of_slice hbytes ?_ ?_)
    · exact Nat.le_trans (Nat.le_of_eq hlong.symm) hfits
    · have hnew : Tlv.length ⟨a.type, v⟩ = a.length := hlong.symm
      rw [hnew]
      exact hr.congr fun i hi _ => hafter i hi
  · rcases List.mem_append.mp hx with hx | hx
    · exact h.valid x (List.mem_append_left _ hx)
    · rcases List.mem_cons.mp hx with rfl | hx
      · exact hvalid
      · exact h.valid x (List.mem_append_right _ (List.mem_cons_of_mem _ hx))

end RadiusPDU

end Dot1x.Radius
