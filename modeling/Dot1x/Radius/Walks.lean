import Dot1x.Radius.Attribute
import Dot1x.Radius.Reception

/-!
# Walks over attributes

`GetNumAttributes`, `FindAttr`, `FindVsaAttr` and `PrintOn` go from attribute to attribute by the
length that each of them claims. `Read` does not look at the attributes, so a walk over what it
accepted may come to an attribute that does not advance it, or to one that is not in the packet.
-/

namespace Dot1x.Radius

open Dot1x.Base

/-- What is printed of an attribute, without its layout. -/
inductive PrintedAttr
  | invalid (data : List UInt8)
  | plain (type : UInt8) (length : ℕ) (value : List UInt8)
  | vsa (type : UInt8) (length : ℕ) (vendorId : UInt32) (vendorHeader : Option (UInt8 × UInt8))
    (vendorValue : List UInt8)

/-- `PrintOn` of an attribute. -/
def RadiusAttr.printOn (m : Mem) (attr : ℕ) : PrintedAttr :=
  let totalLen := getLength m attr
  if !isValid m attr then .invalid (slice m attr totalLen)
  else if !isVsa m attr then
    let valueLen := if totalLen ≤ fixedHeaderLength then 0 else totalLen - fixedHeaderLength
    .plain (getType m attr) totalLen (slice m (attr + 2) valueLen)
  else
    let valueLen := if totalLen ≤ vsaFixedHeaderLength then 0 else totalLen - vsaFixedHeaderLength
    if 2 < valueLen then
      .vsa (getType m attr) totalLen (getVsaVendorId m attr) (some (m (attr + 6), m (attr + 7)))
        (slice m (attr + (vsaFixedHeaderLength + 2)) (valueLen - 2))
    else
      .vsa (getType m attr) totalLen (getVsaVendorId m attr) none
        (slice m (attr + vsaFixedHeaderLength) valueLen)

/-- What is printed of a packet; without attributes there is no list of them. -/
structure PrintedPdu where
  valid : Bool
  code : UInt8
  id : UInt8
  length : ℕ
  authenticator : List UInt8
  attributes : Option (ℕ × List PrintedAttr)

namespace RadiusPDU

/-- `FindAttr` from an attribute on. -/
def findAttrAfter (p : RadiusPDU) (attrType : UInt8) (prevAttr : Option ℕ) : Option (Option ℕ) :=
  p.findAttrLoop attrType p.getLength (p.getAttr prevAttr)

/-- The loop of `FindVsaAttr`, which does not look at the vendor. -/
def findVsaAttrLoop (p : RadiusPDU) (_vendorId : UInt32) (vendorType : UInt8) :
    ℕ → Option ℕ → Option (Option ℕ)
  | _, none => some none
  | 0, some _ => none
  | fuel + 1, some attr =>
    if !RadiusAttr.isVsa p.data attr || RadiusAttr.getVsaType p.data attr ≠ vendorType then
      findVsaAttrLoop p _vendorId vendorType fuel (p.getAttr (some attr))
    else some (some attr)

/-- `FindVsaAttr` -/
def findVsaAttr (p : RadiusPDU) (vendorId : UInt32) (vendorType : UInt8) (prevAttr : Option ℕ) :
    Option (Option ℕ) :=
  p.findVsaAttrLoop vendorId vendorType p.getLength (p.getAttr prevAttr)

/-- `PrintOn` -/
def printOn (p : RadiusPDU) : Option PrintedPdu := do
  let numAttributes ← p.getNumAttributes
  let attributes ← if numAttributes = 0 then some none
    else (p.attrLoop p.getLength (p.getAttr none)).map fun attrs =>
      some (numAttributes, attrs.map (RadiusAttr.printOn p.data))
  return ⟨p.isValid, p.getCode, p.getId, p.getLength, p.getAuthenticator, attributes⟩

/-- The constructor with raw data. -/
def ofRawData (fresh : Mem) (rawData : List UInt8) : RadiusPDU :=
  let r := (RadiusPDU.mk fresh).read rawData
  if r.1 then r.2 else r.2.invalidate

/-- A loop over `GetAttr` that may stop at an attribute: the attributes it comes to, and where it
stops. -/
def walk (p : RadiusPDU) (stops : ℕ → Bool) : ℕ → Option ℕ → Option (List ℕ × Option ℕ)
  | _, none => some ([], none)
  | 0, some _ => none
  | fuel + 1, some attr =>
    if stops attr then some ([attr], some attr)
    else (walk p stops fuel (p.getAttr (some attr))).map fun r => (attr :: r.1, r.2)

end RadiusPDU

/-- The walks, with the attribute that a search begins after. -/
inductive AttrWalk
  | getNumAttributes
  | findAttr (attrType : UInt8) (prevAttr : Option ℕ)
  | findVsaAttr (vendorId : UInt32) (vendorType : UInt8) (prevAttr : Option ℕ)
  | printOn

namespace AttrWalk

/-- The attribute that the walk begins after. -/
def start : AttrWalk → Option ℕ
  | getNumAttributes | printOn => none
  | findAttr _ prevAttr | findVsaAttr _ _ prevAttr => prevAttr

/-- Where the walk stops. -/
def stops (m : Mem) : AttrWalk → ℕ → Bool
  | getNumAttributes, _ | printOn, _ => false
  | findAttr attrType _, attr => RadiusAttr.getType m attr = attrType
  | findVsaAttr _ vendorType _, attr =>
    RadiusAttr.isVsa m attr && RadiusAttr.getVsaType m attr = vendorType

end AttrWalk

namespace RadiusPDU

/-- Attributes that `GetAttr` enumerates. -/
inductive Reached (p : RadiusPDU) : Option ℕ → Prop
  | none : Reached p none
  | next {prevAttr : Option ℕ} {attr : ℕ} (hprev : Reached p prevAttr)
      (hattr : p.getAttr prevAttr = some attr) : Reached p (some attr)

/-- The header of the attribute, and as many bytes as it claims, are in the packet. -/
def Inside (p : RadiusPDU) (attr : ℕ) : Prop :=
  attr + max 2 (RadiusAttr.getLength p.data attr) ≤ p.getLength

/-- The loops of `GetNumAttributes` and `PrintOn`, of `FindAttr` and of `FindVsaAttr` are walks, whatever
the packet holds and wherever they begin. -/
structure LoopsWalk (p : RadiusPDU) : Prop where
  attrLoop : ∀ fuel start, p.attrLoop fuel start =
    (p.walk (AttrWalk.getNumAttributes.stops p.data) fuel start).map Prod.fst
  findAttrLoop : ∀ attrType prevAttr fuel start, p.findAttrLoop attrType fuel start =
    (p.walk ((AttrWalk.findAttr attrType prevAttr).stops p.data) fuel start).map Prod.snd
  findVsaAttrLoop : ∀ vendorId vendorType prevAttr fuel start,
    p.findVsaAttrLoop vendorId vendorType fuel start =
      (p.walk ((AttrWalk.findVsaAttr vendorId vendorType prevAttr).stops p.data) fuel start).map
        Prod.snd

/-- The four functions return, the searches from any attribute that `GetAttr` enumerates. -/
structure FunctionsReturn (p : RadiusPDU) : Prop where
  getNumAttributes : ∃ n, p.getNumAttributes = some n
  printOn : ∃ printed, p.printOn = some printed
  findAttr : ∀ prevAttr, p.Reached prevAttr → ∀ attrType, ∃ found,
    p.findAttrAfter attrType prevAttr = some found
  findVsaAttr : ∀ prevAttr, p.Reached prevAttr → ∀ vendorId vendorType, ∃ found,
    p.findVsaAttr vendorId vendorType prevAttr = some found

/-- All walks end, and come to attributes that are in the packet only. -/
def WalksEnd (p : RadiusPDU) : Prop :=
  ∀ w : AttrWalk, p.Reached w.start → ∃ fuel visited result,
    p.walk (w.stops p.data) fuel (p.getAttr w.start) = some (visited, result) ∧
      ∀ attr ∈ visited, p.Inside attr

end RadiusPDU

/-- The bytes between two offsets are taken by attributes, as far as one can tell from their lengths:
none claims a length of zero, or more bytes than there are. -/
inductive Chain (m : Mem) : ℕ → ℕ → Prop
  | nil (s : ℕ) : Chain m s s
  | cons {s e : ℕ} (hpos : m (s + 1) ≠ 0) (hfits : s + max 2 (m (s + 1)).toNat ≤ e)
      (hrest : Chain m (s + (m (s + 1)).toNat) e) : Chain m s e

namespace Chain

variable {m m' : Mem} {s e : ℕ}

/-- Only the bytes between the offsets matter. -/
theorem congr (h : Chain m s e) (hsame : ∀ i, s ≤ i → i < e → m' i = m i) : Chain m' s e := by
  induction h with
  | nil => exact .nil _
  | @cons s e hpos hfits hrest ih =>
    have hlength : m' (s + 1) = m (s + 1) := hsame (s + 1) (by omega) (by omega)
    refine .cons (by rwa [hlength]) (by rwa [hlength]) ?_
    rw [hlength]
    exact ih fun i hi hi' => hsame i (by omega) hi'

/-- Attributes that are stored. -/
theorem of_stored {as : List Tlv} (h : Tlv.Stored m s as e) : Chain m s e := by
  induction h with
  | nil => exact .nil _
  | @cons s e as hlong hrest ih =>
    have hle := hrest.le
    refine .cons (fun hzero => ?_) (by omega) ih
    rw [hzero] at hlong
    exact Nat.not_succ_le_zero 1 hlong

end Chain

namespace RadiusPDU

variable {p : RadiusPDU} {stops : ℕ → Bool} {s fuel fuel' : ℕ}

/-- `GetAttr` goes on by the length that the attribute claims. -/
theorem getAttr_some (p : RadiusPDU) (s : ℕ) :
    p.getAttr (some s) = p.attrFrom (s + RadiusAttr.getLength p.data s) := rfl

/-- The loop of `GetNumAttributes` and `PrintOn` is a walk that does not stop. -/
theorem attrLoop_eq_walk (p : RadiusPDU) (fuel : ℕ) (start : Option ℕ) :
    p.attrLoop fuel start = (p.walk (fun _ => false) fuel start).map Prod.fst := by
  induction fuel generalizing start with
  | zero => cases start <;> rfl
  | succ fuel ih =>
    cases start with
    | none => rfl
    | some attr =>
      rw [attrLoop, walk, ih, if_neg Bool.false_ne_true, Option.map_map, Option.map_map]
      rfl

/-- The loop of `FindAttr` is a walk that stops at the type. -/
theorem findAttrLoop_eq_walk (p : RadiusPDU) (attrType : UInt8) (fuel : ℕ) (start : Option ℕ) :
    p.findAttrLoop attrType fuel start =
      (p.walk (fun attr => RadiusAttr.getType p.data attr = attrType) fuel start).map Prod.snd := by
  induction fuel generalizing start with
  | zero => cases start <;> rfl
  | succ fuel ih =>
    cases start with
    | none => rfl
    | some attr =>
      rw [findAttrLoop, walk]
      by_cases htype : RadiusAttr.getType p.data attr = attrType
      · rw [if_neg (not_not.mpr htype), if_pos (decide_eq_true htype)]
        rfl
      · rw [if_pos htype, if_neg (by simpa using htype), ih, Option.map_map]
        rfl

/-- The loop of `FindVsaAttr` is a walk that stops at the vendor type, whoever the vendor. -/
theorem findVsaAttrLoop_eq_walk (p : RadiusPDU) (vendorId : UInt32) (vendorType : UInt8)
    (fuel : ℕ) (start : Option ℕ) : p.findVsaAttrLoop vendorId vendorType fuel start =
      (p.walk (fun attr => RadiusAttr.isVsa p.data attr &&
        RadiusAttr.getVsaType p.data attr = vendorType) fuel start).map Prod.snd := by
  induction fuel generalizing start with
  | zero => cases start <;> rfl
  | succ fuel ih =>
    cases start with
    | none => rfl
    | some attr =>
      rw [findVsaAttrLoop, walk]
      by_cases hstop : (RadiusAttr.isVsa p.data attr &&
          RadiusAttr.getVsaType p.data attr = vendorType) = true
      · rw [if_pos hstop, if_neg (by simpa using hstop)]
        rfl
      · rw [if_neg hstop, if_pos (by simpa [imp_iff_not_or] using hstop), ih, Option.map_map]
        rfl

/-- A walk does not get past an attribute that claims a length of zero. -/
private theorem walk_zero (hzero : p.data (s + 1) = 0) (stops : ℕ → Bool) (hstop : stops s = false)
    (fuel : ℕ) : p.walk stops fuel (p.attrFrom s) = none ∨ p.getLength ≤ s := by
  by_cases hend : p.getLength ≤ s
  · exact Or.inr hend
  · left
    have hfrom : p.attrFrom s = some s := if_neg hend
    have hnext : p.getAttr (some s) = some s := by
      rw [getAttr_some, RadiusAttr.getLength, hzero]
      exact hfrom
    rw [hfrom]
    induction fuel with
    | zero => rfl
    | succ fuel ih => rw [walk, if_neg (by rw [hstop]; decide), hnext, ih, Option.map_none]

/-- A walk from the end is over. -/
private theorem walk_none (p : RadiusPDU) (stops : ℕ → Bool) (fuel : ℕ) :
    p.walk stops fuel none = some ([], none) := by
  cases fuel <;> rfl

/-- A walk over a chain ends. -/
theorem walk_of_chain (h : Chain p.data s p.getLength) (stops : ℕ → Bool)
    (hfuel : p.getLength - s ≤ fuel) : ∃ visited result,
      p.walk stops fuel (p.attrFrom s) = some (visited, result) ∧
        ∀ attr ∈ visited, p.Inside attr := by
  generalize he : p.getLength = e at h
  induction h generalizing fuel with
  | nil s =>
    have hfrom : p.attrFrom s = none := if_pos (Nat.le_of_eq he)
    rw [hfrom, walk_none]
    exact ⟨[], none, rfl, fun attr hattr => absurd hattr List.not_mem_nil⟩
  | @cons s e hpos hfits hrest ih =>
    have hfrom : p.attrFrom s = some s := if_neg (by omega)
    have hinside : p.Inside s := by
      rw [Inside, he]
      exact hfits
    obtain ⟨k, rfl⟩ : ∃ k, fuel = k + 1 := ⟨fuel - 1, by omega⟩
    have hlong : 0 < (p.data (s + 1)).toNat :=
      Nat.pos_of_ne_zero fun hzero => hpos (UInt8.toNat_inj.mp hzero)
    have hk : p.getLength - (s + (p.data (s + 1)).toNat) ≤ k := by omega
    rw [hfrom, walk]
    split
    · exact ⟨[s], some s, rfl, fun attr hattr => List.mem_singleton.mp hattr ▸ hinside⟩
    · obtain ⟨visited, result, hwalk, hall⟩ := ih hk he
      refine ⟨s :: visited, result, ?_, List.forall_mem_cons.mpr ⟨hinside, hall⟩⟩
      rw [getAttr_some, RadiusAttr.getLength, hwalk]
      rfl

/-- A walk that does not stop shows a chain. -/
theorem chain_of_walk {visited : List ℕ} {result : Option ℕ} (hle : s ≤ p.getLength)
    (hwalk : p.walk (fun _ => false) fuel (p.attrFrom s) = some (visited, result))
    (hinside : ∀ attr ∈ visited, p.Inside attr) : Chain p.data s p.getLength := by
  induction fuel generalizing s visited with
  | zero =>
    by_cases hend : p.getLength ≤ s
    · exact Nat.le_antisymm hle hend ▸ .nil s
    · have hfrom : p.attrFrom s = some s := if_neg hend
      rw [hfrom] at hwalk
      cases hwalk
  | succ fuel ih =>
    by_cases hend : p.getLength ≤ s
    · exact Nat.le_antisymm hle hend ▸ .nil s
    · have hpos : p.data (s + 1) ≠ 0 := fun hzero => by
        rcases walk_zero hzero (fun _ => false) rfl (fuel + 1) with hnone | hend'
        · cases hnone.symm.trans hwalk
        · exact hend hend'
      have hfrom : p.attrFrom s = some s := if_neg hend
      rw [hfrom, walk, if_neg Bool.false_ne_true, getAttr_some, Option.map_eq_some_iff] at hwalk
      obtain ⟨⟨rest, result'⟩, hrest, hvisited⟩ := hwalk
      cases hvisited
      have hfits : s + max 2 (p.data (s + 1)).toNat ≤ p.getLength :=
        hinside s List.mem_cons_self
      refine .cons hpos hfits (ih ?_ hrest fun attr hattr =>
        hinside attr (List.mem_cons_of_mem s hattr))
      exact Nat.le_trans (Nat.add_le_add_left (Nat.le_max_right 2 _) s) hfits

/-- Behind an attribute that is enumerated, the chain goes on. -/
theorem chain_of_reached (h : Chain p.data fixedHeaderLength p.getLength) {prevAttr : Option ℕ}
    (hreached : p.Reached prevAttr) :
    ∃ s, p.getAttr prevAttr = p.attrFrom s ∧ Chain p.data s p.getLength := by
  induction hreached with
  | none => exact ⟨fixedHeaderLength, rfl, h⟩
  | @next prevAttr attr _ hattr ih =>
    obtain ⟨s, hfrom, hchain⟩ := ih
    rw [hfrom] at hattr
    generalize he : p.getLength = e at hchain
    cases hchain with
    | nil => cases (if_pos (Nat.le_of_eq he) : p.attrFrom _ = none).symm.trans hattr
    | @cons s _ hpos hfits hrest =>
      have hself : p.attrFrom s = some s := if_neg (by omega)
      cases hself.symm.trans hattr
      exact ⟨attr + (p.data (attr + 1)).toNat, rfl, he ▸ hrest⟩

/-- The walks end over a chain, and over nothing else. -/
theorem walksEnd_iff (hle : fixedHeaderLength ≤ p.getLength) :
    p.WalksEnd ↔ Chain p.data fixedHeaderLength p.getLength := by
  constructor
  · intro h
    obtain ⟨fuel, visited, result, hwalk, hinside⟩ := h .getNumAttributes .none
    exact chain_of_walk hle hwalk hinside
  · intro h w hreached
    obtain ⟨s, hfrom, hchain⟩ := chain_of_reached h hreached
    obtain ⟨visited, result, hwalk, hinside⟩ :=
      walk_of_chain hchain (w.stops p.data) (Nat.le_refl _)
    rw [hfrom]
    exact ⟨_, visited, result, hwalk, hinside⟩

/-- The loops of the functions are walks. -/
theorem loopsWalk (p : RadiusPDU) : p.LoopsWalk where
  attrLoop := p.attrLoop_eq_walk
  findAttrLoop attrType _ := p.findAttrLoop_eq_walk attrType
  findVsaAttrLoop vendorId vendorType _ := p.findVsaAttrLoop_eq_walk vendorId vendorType

/-- Where the walks end, the functions that make them return. -/
theorem WalksEnd.functionsReturn (h : p.WalksEnd) (hle : fixedHeaderLength ≤ p.getLength) :
    p.FunctionsReturn := by
  have hchain := (walksEnd_iff hle).mp h
  have hwalk (stops : ℕ → Bool) {prevAttr : Option ℕ} (hreached : p.Reached prevAttr) :
      ∃ visited result, p.walk stops p.getLength (p.getAttr prevAttr) = some (visited, result) := by
    obtain ⟨s, hfrom, hrest⟩ := chain_of_reached hchain hreached
    obtain ⟨visited, result, hwalk, -⟩ := walk_of_chain hrest stops (Nat.sub_le ..)
    exact ⟨visited, result, hfrom ▸ hwalk⟩
  obtain ⟨visited, result, hall⟩ := hwalk (fun _ => false) .none
  have hloop : p.attrLoop p.getLength (p.getAttr none) = some visited := by
    rw [attrLoop_eq_walk, hall]
    rfl
  have hcount : p.getNumAttributes = some visited.length := by
    rw [RadiusPDU.getNumAttributes, hloop]
    rfl
  constructor
  case getNumAttributes => exact ⟨visited.length, hcount⟩
  case printOn =>
    rw [RadiusPDU.printOn, hcount, hloop]
    simp only [Option.bind_eq_bind, Option.bind_some, Option.map_some]
    split <;> exact ⟨_, rfl⟩
  case findAttr =>
    intro prevAttr hreached attrType
    obtain ⟨visited, found, hfound⟩ := hwalk _ hreached
    rw [findAttrAfter, findAttrLoop_eq_walk, hfound]
    exact ⟨found, rfl⟩
  case findVsaAttr =>
    intro prevAttr hreached vendorId vendorType
    obtain ⟨visited, found, hfound⟩ := hwalk _ hreached
    rw [RadiusPDU.findVsaAttr, findVsaAttrLoop_eq_walk, hfound]
    exact ⟨found, rfl⟩

/-- The walks over a valid packet end. -/
theorem Carries.walksEnd {as : List Tlv} (h : p.Carries as) : p.WalksEnd :=
  (walksEnd_iff h.stored.le).mpr (.of_stored h.stored)

/-- The raw data claims a length that `Read` accepts. -/
structure Readable (rawData : List UInt8) : Prop where
  header : 20 ≤ rawData.length
  low : 20 ≤ lengthField rawData
  fits : lengthField rawData ≤ rawData.length
  high : lengthField rawData ≤ 4096

/-- The attributes of raw data form a chain. -/
def RawChain (rawData : List UInt8) : Prop :=
  Chain (fun i => rawData.getD i 0) 20 (lengthField rawData)

/-- `Read` accepts raw data exactly where the claimed length is there. -/
theorem read_iff (old : RadiusPDU) {rawData : List UInt8} :
    (old.read rawData).1 = true ↔ Readable rawData := by
  by_cases hlong : 20 ≤ rawData.length
  · rw [(read_header old hlong).1, decide_eq_true_eq]
    exact ⟨fun h => ⟨hlong, h.1, h.2.1, h.2.2⟩, fun h => ⟨h.low, h.fits, h.high⟩⟩
  · have hshort : rawData.length < minPduLength := Nat.not_le.mp hlong
    rw [RadiusPDU.read, if_pos hshort]
    exact iff_of_false Bool.false_ne_true fun h => hlong h.header

/-- The walks over what `Read` makes of raw data that it accepts. -/
theorem Readable.walksEnd_iff {rawData : List UInt8} (h : Readable rawData) (old : RadiusPDU) :
    (old.read rawData).2.WalksEnd ↔ RawChain rawData := by
  have hdata := (read_header old h.header).2 ((read_iff old).mpr h)
  have hlow := h.low
  have hlength : (old.read rawData).2.getLength = lengthField rawData := by
    rw [getLength_eq, hdata 2 (by omega), hdata 3 (by omega)]
    rfl
  have hle : fixedHeaderLength ≤ (old.read rawData).2.getLength := hlength ▸ hlow
  rw [RadiusPDU.walksEnd_iff hle, hlength]
  constructor
  · intro hchain
    exact hchain.congr fun i _ hi => (hdata i hi).symm
  · intro hchain
    exact hchain.congr fun i _ hi => hdata i hi

/-- **When the walks over raw data end.** The loops of `GetNumAttributes`, `PrintOn`, `FindAttr` and
`FindVsaAttr` are walks, and the functions return where these end. Over raw data they end, and stay
within the packet, exactly where the lengths of the attributes lead from the first one to the end of the
packet, unless the constructor was given raw data that is refused. -/
theorem attrWalks_iff (rawData : List UInt8) :
    (∀ p : RadiusPDU, p.LoopsWalk ∧
        (p.WalksEnd → fixedHeaderLength ≤ p.getLength → p.FunctionsReturn)) ∧
      (∀ old : RadiusPDU, (old.read rawData).1 = true →
        ((old.read rawData).2.WalksEnd ↔ RawChain rawData)) ∧
      ∀ fresh, (ofRawData fresh rawData).WalksEnd ↔ Readable rawData → RawChain rawData := by
  refine ⟨fun p => ⟨p.loopsWalk, WalksEnd.functionsReturn⟩,
    fun old haccepted => ((read_iff old).mp haccepted).walksEnd_iff old, fun fresh => ?_⟩
  by_cases h : Readable rawData
  · have haccepted := (read_iff ⟨fresh⟩).mpr h
    rw [ofRawData, if_pos haccepted, h.walksEnd_iff, forall_prop_of_true h]
  · have hrefused : ¬((RadiusPDU.mk fresh).read rawData).1 = true := fun htrue =>
      h ((read_iff _).mp htrue)
    have hempty : (ofRawData fresh rawData).getLength = 20 := by
      rw [ofRawData, if_neg hrefused]
      exact getLength_setLength (by decide)
    refine iff_of_true ((RadiusPDU.walksEnd_iff (Nat.le_of_eq hempty.symm)).mpr ?_)
      fun hreadable => absurd hreadable h
    rw [hempty]
    exact .nil 20

/-- A request of 22 bytes with an attribute of two bytes: the walks over it end, and the functions
return. -/
theorem attrWalks_empty_attribute :
    ((RadiusPDU.mk fun _ => 0).read ([1, 7, 0, 22] ++ List.replicate 16 0 ++ [5, 2])).2.WalksEnd ∧
      (ofRawData (fun _ => 0) ([1, 7, 0, 22] ++ List.replicate 16 0 ++ [5, 2])).WalksEnd ∧
      (ofRawData (fun _ => 0)
        ([1, 7, 0, 22] ++ List.replicate 16 0 ++ [5, 2])).FunctionsReturn := by
  have hchain : RawChain ([1, 7, 0, 22] ++ List.replicate 16 0 ++ [5, 2]) :=
    .cons (by decide) (by decide) (.nil 22)
  obtain ⟨hloops, hread, hraw⟩ :=
    attrWalks_iff ([1, 7, 0, 22] ++ List.replicate 16 0 ++ [5, 2])
  have hends := (hraw fun _ => 0).mpr fun _ => hchain
  exact ⟨(hread _ (by decide +kernel)).mpr hchain, hends,
    (hloops _).2 hends (by decide +kernel)⟩

/-- An attribute that claims a length of zero is accepted, and keeps the walks where it is. -/
theorem not_attrWalks : ¬∀ (old : RadiusPDU) (rawData : List UInt8),
    (old.read rawData).1 = true → (old.read rawData).2.WalksEnd := by
  intro hall
  have haccepted : ((RadiusPDU.mk fun _ => 0).read
      ([1, 7, 0, 22] ++ List.replicate 16 0 ++ [5, 0])).1 = true := by decide +kernel
  have hchain := (((read_iff _).mp haccepted).walksEnd_iff _).mp (hall _ _ haccepted)
  rw [RawChain] at hchain
  generalize he : lengthField ([1, 7, 0, 22] ++ List.replicate 16 0 ++ [5, 0]) = e at hchain
  cases hchain with
  | nil => cases he
  | cons hpos => exact hpos rfl

end RadiusPDU

end Dot1x.Radius
