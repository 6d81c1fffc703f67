import Dot1x.Radius.Walks

/-!
# Searching for vendor-specific attributes

`FindVsaAttr` is asked for a vendor and a type of the vendor's, and compares the type only. So it
finds the right attributes where no other vendor uses the type.
-/

namespace Dot1x.Radius

open Dot1x.Base

namespace RadiusPDU

/-- An attribute of a vendor, with a type of the vendor's. -/
def IsVsaOf (p : RadiusPDU) (vendorId : UInt32) (vendorType : UInt8) (attr : ℕ) : Bool :=
  RadiusAttr.isVsa p.data attr && RadiusAttr.getVsaVendorId p.data attr = vendorId &&
    RadiusAttr.getVsaType p.data attr = vendorType

/-- What the search looks for: an attribute of any vendor with the type. -/
def HasVsaType (p : RadiusPDU) (vendorType : UInt8) (attr : ℕ) : Bool :=
  RadiusAttr.isVsa p.data attr && RadiusAttr.getVsaType p.data attr = vendorType

/-- The attributes that are found when each search begins after what was found before. -/
def findAllVsaAttrs (p : RadiusPDU) (vendorId : UInt32) (vendorType : UInt8) :
    ℕ → Option ℕ → Option (List ℕ)
  | 0, _ => none
  | fuel + 1, prevAttr =>
    match p.findVsaAttr vendorId vendorType prevAttr with
    | none => none
    | some none => some []
    | some (some attr) =>
      (findAllVsaAttrs p vendorId vendorType fuel (some attr)).map (attr :: ·)

/-- The search after an attribute finds the first one of those behind it, and repeating it finds all
of them. -/
structure Searches (p : RadiusPDU) (vendorId : UInt32) (vendorType : UInt8)
    (prevAttr : Option ℕ) (behind : List ℕ) : Prop where
  first : p.findVsaAttr vendorId vendorType prevAttr =
    some (behind.find? (p.IsVsaOf vendorId vendorType))
  all : p.findAllVsaAttrs vendorId vendorType (behind.length + 1) prevAttr =
    some (behind.filter (p.IsVsaOf vendorId vendorType))

variable {p : RadiusPDU} {v : UInt32} {t : UInt8} {fuel fuel' : ℕ} {start : Option ℕ}
  {attrs l r : List ℕ}

/-- The loop over the attributes begins with the first, and goes on behind it. -/
theorem attrLoop_cons {attr : ℕ} (h : p.attrLoop fuel start = some (attr :: attrs)) :
    start = some attr ∧ ∃ k, fuel = k + 1 ∧ p.attrLoop k (p.getAttr (some attr)) = some attrs := by
  cases start with
  | none => cases fuel <;> cases h
  | some first =>
    cases fuel with
    | zero => cases h
    | succ k =>
      rw [attrLoop, Option.map_eq_some_iff] at h
      obtain ⟨rest, hrest, hcons⟩ := h
      cases hcons
      exact ⟨rfl, k, rfl, hrest⟩

/-- A walk that comes to no attribute began at the end. -/
private theorem attrLoop_nil (h : p.attrLoop fuel start = some []) : start = none := by
  cases start with
  | none => rfl
  | some first =>
    cases fuel with
    | zero => cases h
    | succ k =>
      rw [attrLoop, Option.map_eq_some_iff] at h
      obtain ⟨rest, -, hcons⟩ := h
      cases hcons

/-- The loop over the attributes behind one of them. -/
private theorem attrLoop_behind {prevAttr : Option ℕ}
    (h : p.attrLoop fuel (p.getAttr prevAttr) = some (l ++ r)) :
    ∃ k, k ≤ fuel ∧ p.attrLoop k (p.getAttr (l.getLast?.or prevAttr)) = some r := by
  induction l generalizing fuel prevAttr with
  | nil => exact ⟨fuel, Nat.le_refl _, h⟩
  | cons attr l ih =>
    obtain ⟨-, k, rfl, hrest⟩ := attrLoop_cons h
    obtain ⟨k', hk', hbehind⟩ := ih hrest
    refine ⟨k', Nat.le_succ_of_le hk', ?_⟩
    rw [List.getLast?_cons]
    cases hlast : l.getLast? with
    | none =>
      rw [hlast] at hbehind
      exact hbehind
    | some last =>
      rw [hlast] at hbehind
      exact hbehind

/-- The loop of the search finds the first attribute with the type. -/
private theorem findVsaAttrLoop_eq (h : p.attrLoop fuel start = some attrs) (hfuel : fuel ≤ fuel') :
    p.findVsaAttrLoop v t fuel' start = some (attrs.find? (p.HasVsaType t)) := by
  induction attrs generalizing fuel fuel' start with
  | nil =>
    rw [attrLoop_nil h]
    cases fuel' <;> rfl
  | cons attr attrs ih =>
    obtain ⟨rfl, k, rfl, hrest⟩ := attrLoop_cons h
    obtain ⟨k', rfl⟩ := Nat.exists_eq_add_of_le' hfuel
    rw [← Nat.add_assoc, findVsaAttrLoop, List.find?_cons]
    cases htype : p.HasVsaType t attr with
    | true =>
      rw [HasVsaType, Bool.and_eq_true, decide_eq_true_eq] at htype
      rw [if_neg (by simp [htype.1, htype.2])]
    | false =>
      rw [HasVsaType, Bool.and_eq_false_iff, decide_eq_false_iff_not] at htype
      rw [if_pos (by simpa using htype)]
      exact ih hrest (Nat.le_add_left k k')

/-- The attributes of a packet, in the order in which `GetAttr` enumerates them. -/
def attrPointers (p : RadiusPDU) : Option (List ℕ) := p.attrLoop p.getLength (p.getAttr none)

/-- The search after an attribute finds the first one with the type. -/
theorem findVsaAttr_eq (h : p.attrPointers = some (l ++ r)) :
    p.findVsaAttr v t l.getLast? = some (r.find? (p.HasVsaType t)) := by
  obtain ⟨k, hk, hbehind⟩ := attrLoop_behind h
  rw [Option.or_none] at hbehind
  exact findVsaAttrLoop_eq hbehind hk

/-- Repeating the search finds all attributes with the type. -/
private theorem findAllVsaAttrs_eq (h : p.attrPointers = some (l ++ r)) (hfuel : r.length < fuel) :
    p.findAllVsaAttrs v t fuel l.getLast? = some (r.filter (p.HasVsaType t)) := by
  induction fuel generalizing l r with
  | zero => exact absurd hfuel (Nat.not_lt_zero _)
  | succ fuel ih =>
    rw [findAllVsaAttrs, findVsaAttr_eq h]
    cases hfind : r.find? (p.HasVsaType t) with
    | none =>
      rw [List.filter_eq_nil_iff.mpr (List.find?_eq_none.mp hfind)]
    | some attr =>
      obtain ⟨htype, before, behind, rfl, hbefore⟩ := List.find?_eq_some_iff_append.mp hfind
      have hnone : before.filter (p.HasVsaType t) = [] :=
        List.filter_eq_nil_iff.mpr fun x hx => by simpa using hbefore x hx
      have hsplit : l ++ (before ++ attr :: behind) = (l ++ before ++ [attr]) ++ behind := by
        simp only [List.append_assoc, List.singleton_append]
      have hlast : (l ++ before ++ [attr]).getLast? = some attr := List.getLast?_concat
      have hshort : behind.length < fuel := by
        rw [List.length_append, List.length_cons] at hfuel
        omega
      have hrest := ih (hsplit ▸ h) hshort
      rw [hlast] at hrest
      simp only
      rw [hrest, List.filter_append, hnone, List.nil_append, List.filter_cons_of_pos htype,
        Option.map_some]

/-- The vendor makes no difference. -/
theorem isVsaOf_eq (attr : ℕ) : p.IsVsaOf v t attr =
    (p.HasVsaType t attr && RadiusAttr.getVsaVendorId p.data attr = v) := by
  rw [IsVsaOf, HasVsaType, Bool.and_right_comm]

/-- **When `FindVsaAttr` searches for the vendor.** In a valid packet, it finds the attributes behind
any of them, or behind none, exactly if all that have the type are of the vendor. -/
theorem searches_iff (hvalid : p.isValid = true) (v : UInt32) (t : UInt8) :
    ∃ attrs, p.attrPointers = some attrs ∧ ∀ l r, attrs = l ++ r →
      (p.Searches v t l.getLast? r ↔
        ∀ attr ∈ r, p.HasVsaType t attr = true → RadiusAttr.getVsaVendorId p.data attr = v) := by
  obtain ⟨as, hcarries⟩ := isValid_iff.mp hvalid
  obtain ⟨attrs, hattrs, -⟩ := Option.map_eq_some_iff.mp hcarries.attributes
  refine ⟨attrs, hattrs, ?_⟩
  rintro l r rfl
  have hfound := findAllVsaAttrs_eq (v := v) (t := t) hattrs (Nat.lt_succ_self r.length)
  constructor
  · intro h attr hattr htype
    have hfilter := Option.some.inj (hfound.symm.trans h.all)
    have hmem : attr ∈ r.filter (p.IsVsaOf v t) :=
      hfilter ▸ List.mem_filter.mpr ⟨hattr, htype⟩
    have hof := (List.mem_filter.mp hmem).2
    rw [isVsaOf_eq, Bool.and_eq_true, decide_eq_true_eq] at hof
    exact hof.2
  · intro hvendor
    have hfilter : r.filter (p.IsVsaOf v t) = r.filter (p.HasVsaType t) := by
      refine List.filter_congr fun attr hattr => ?_
      rw [isVsaOf_eq]
      cases htype : p.HasVsaType t attr with
      | false => rfl
      | true => exact decide_eq_true (hvendor attr hattr htype)
    refine ⟨?_, by rw [hfound, hfilter]⟩
    rw [findVsaAttr_eq hattrs, ← List.head?_filter, ← List.head?_filter, hfilter]

/-- A request with attributes of two vendors that have the same type. -/
def withVendors : RadiusPDU :=
  (new (fun _ => 0) accessRequest 0).build
    [.vsaAttrInt 7 311 1, .vsaAttrInt 8 9 1, .vsaAttrInt 9 9 2]

/-- Type 2 of vendor 9 is found. -/
theorem searches_second_type : withVendors.Searches 9 2 none [20, 32, 44] := by
  have hpointers : withVendors.attrPointers = some [20, 32, 44] := by decide +kernel
  obtain ⟨attrs, hattrs, hall⟩ := searches_iff (p := withVendors) (by decide +kernel) 9 2
  obtain rfl := Option.some.inj (hpointers.symm.trans hattrs)
  exact (hall [] _ rfl).mpr (by decide +kernel)

/-- Type 1 of vendor 9 is not: the attribute of vendor 311 is found. -/
theorem not_searches : ¬∀ (p : RadiusPDU) (v : UInt32) (t : UInt8) (l r : List ℕ),
    p.isValid = true → p.attrPointers = some (l ++ r) → p.Searches v t l.getLast? r := by
  intro hall
  have hfirst := (hall withVendors 9 1 [] [20, 32, 44] (by decide +kernel) (by decide +kernel)).first
  revert hfirst
  decide +kernel

end RadiusPDU

end Dot1x.Radius
