import Dot1x.Radius.TypedValues

/-!
# Cisco attributes

The value of a Cisco attribute may begin with the name of the attribute. The constructor prepends the
name unless it is told not to, and the accessor removes it where it finds it, though it be a part of
the string itself.
-/

namespace Dot1x.Radius

open Dot1x.Base

/-- The string that `AsCiscoString` makes of a value. -/
def withoutCiscoName (vendorType : UInt8) (value : List UInt8) : List UInt8 :=
  match ciscoAttrName vendorType with
  | none => value
  | some name => if name ++ asciiBytes "=" <+: value then value.drop (name.length + 1) else value

/-- The string begins with the name of the attribute and `=`. -/
def BeginsWithCiscoName (vendorType : UInt8) (value : List UInt8) : Prop :=
  ∃ name, ciscoAttrName vendorType = some name ∧ name ++ asciiBytes "=" <+: value

namespace RadiusAttr

variable {fresh m : Mem} {attr : ℕ} {t : UInt8} {v s : List UInt8}

/-- What is compared with the name, in the order in which it is compared. -/
private theorem prefix_iff (h : slice m (attr + 8) v.length = v) (name : List UInt8) :
    name ++ asciiBytes "=" <+: v ↔ name.length < v.length ∧ slice m (attr + 8) name.length = name ∧
      [m (attr + (8 + name.length))] = asciiBytes "=" := by
  have hone : (name ++ asciiBytes "=").length = name.length + 1 := by
    rw [List.length_append]
    rfl
  constructor
  · intro hprefix
    have hshort := hprefix.length_le
    rw [hone] at hshort
    have htake := List.prefix_iff_eq_take.mp hprefix
    rw [hone, ← h, take_slice _ _ hshort, ← slice_append] at htake
    obtain ⟨hname, hequals⟩ := List.append_inj htake (slice_length ..).symm
    rw [Nat.add_assoc] at hequals
    exact ⟨hshort, hname.symm, hequals.symm⟩
  · rintro ⟨hshort, hname, hequals⟩
    have hshort : name.length + 1 ≤ v.length := hshort
    rw [List.prefix_iff_eq_take, hone, ← h, take_slice _ _ hshort, ← slice_append, hname,
      ← hequals, ← Nat.add_assoc]
    rfl

/-- How many bytes are left out. -/
private theorem VsaAt.ciscoOffset_eq (h : VsaAt m attr ciscoVendorId t v) : ciscoOffset m attr =
    match ciscoAttrName t with
    | none => 8
    | some name => if name ++ asciiBytes "=" <+: v then 8 + (name.length + 1) else 8 := by
  simp only [ciscoOffset, h.vendorType, h.length, vsaRfc2865FixedHeaderLength,
    vsaFixedHeaderLength, fixedHeaderLength]
  cases ciscoAttrName t with
  | none => rfl
  | some name =>
    have hlong : ¬v.length + 8 < 8 := by omega
    refine if_congr ?_ rfl rfl
    rw [prefix_iff h.value, Nat.add_sub_cancel, or_iff_right hlong]

/-- What the accessor makes of a Cisco attribute. -/
theorem VsaAt.asCiscoString_eq (h : VsaAt m attr ciscoVendorId t v) :
    asCiscoString m attr = withoutCiscoName t v := by
  have hdrop (k : ℕ) (hk : k ≤ v.length) : (if v.length + 8 ≤ 8 + k then [] else
      slice m (attr + (8 + k)) (v.length + 8 - (8 + k))) = v.drop k := by
    have hcount : v.length + 8 - (8 + k) = v.length - k := by omega
    rw [hcount, ← Nat.add_assoc, ← drop_slice m (attr + 8) hk, h.value]
    split
    · exact (List.drop_eq_nil_of_le (by omega)).symm
    · rfl
  have hvendor : getRadiusInteger m (attr + 2) = ciscoVendorId := h.vendorId
  simp only [asCiscoString, h.isValid, h.type, hvendor, h.length, h.ciscoOffset_eq, Bool.not_true,
    ne_eq, not_true_eq_false, decide_false, Bool.or_false, Bool.false_eq_true, if_false,
    withoutCiscoName]
  cases ciscoAttrName t with
  | none => exact hdrop 0 (Nat.zero_le _)
  | some name =>
    by_cases hprefix : name ++ asciiBytes "=" <+: v
    · have hlength := hprefix.length_le
      rw [List.length_append] at hlength
      simp only [if_pos hprefix]
      exact hdrop (name.length + 1) hlength
    · simp only [if_neg hprefix]
      exact hdrop 0 (Nat.zero_le _)

/-- The attribute that is constructed. -/
theorem vsaAt_ofCisco {vsaHack : Bool} (h : (AppendOp.ciscoValue t s vsaHack).length ≤ 247) :
    VsaAt (ofCisco fresh t vsaHack s) 0 ciscoVendorId t (AppendOp.ciscoValue t s vsaHack) := by
  rw [ofCisco_eq h]
  exact vsaAt (slice_write_self ..) h

/-- The name is removed that was prepended. -/
private theorem withoutCiscoName_ciscoValue (t : UInt8) (s : List UInt8) :
    withoutCiscoName t (AppendOp.ciscoValue t s false) = s := by
  rw [withoutCiscoName, AppendOp.ciscoValue]
  cases hname : ciscoAttrName t with
  | none => simp
  | some name =>
    simp only [Bool.false_eq_true, if_false]
    rw [if_pos (List.prefix_append ..)]
    exact List.drop_left' (by rw [List.length_append]; rfl)

/-- A string is left alone exactly when it does not begin with the name. -/
private theorem withoutCiscoName_eq_self : withoutCiscoName t s = s ↔ ¬BeginsWithCiscoName t s := by
  rw [withoutCiscoName, BeginsWithCiscoName]
  cases ciscoAttrName t with
  | none => exact iff_of_true rfl nofun
  | some name =>
    simp only [Option.some.injEq, exists_eq_left']
    split
    · rename_i hprefix
      have hlong : name.length + 1 ≤ s.length := by
        have hlength := hprefix.length_le
        rwa [List.length_append] at hlength
      refine iff_of_false (fun hself => ?_) (not_not.mpr hprefix)
      have hshort := congrArg List.length hself
      rw [List.length_drop] at hshort
      omega
    · rename_i hprefix
      exact iff_of_true rfl hprefix

/-- **When a Cisco string comes back.** A string that is prepended with the name comes back always, and
one that is not exactly when it does not itself begin with the name. -/
theorem ciscoString_roundTrip (fresh : Mem) (t : UInt8) (s : List UInt8) :
    ((AppendOp.ciscoValue t s false).length ≤ 247 →
        asCiscoString (ofCisco fresh t false s) 0 = s) ∧
      ((AppendOp.ciscoValue t s true).length ≤ 247 →
        (asCiscoString (ofCisco fresh t true s) 0 = s ↔ ¬BeginsWithCiscoName t s)) := by
  constructor
  · intro hfits
    rw [(vsaAt_ofCisco hfits).asCiscoString_eq, withoutCiscoName_ciscoValue]
  · intro hfits
    rw [(vsaAt_ofCisco hfits).asCiscoString_eq]
    exact withoutCiscoName_eq_self

/-- A string that begins with the name comes back only if the name is prepended once more. -/
theorem ciscoString_roundTrip_named :
    asCiscoString (ofCisco (fun _ => 0) 110 false (asciiBytes "h323-currency=USD")) 0 =
        asciiBytes "h323-currency=USD" ∧
      asCiscoString (ofCisco (fun _ => 0) 110 true (asciiBytes "h323-currency=USD")) 0 ≠
        asciiBytes "h323-currency=USD" := by
  obtain ⟨hname, hhack⟩ := ciscoString_roundTrip (fun _ => 0) 110 (asciiBytes "h323-currency=USD")
  refine ⟨hname (by decide +kernel), fun hback => (hhack (by decide +kernel)).mp hback ?_⟩
  exact ⟨asciiBytes "h323-currency", by decide +kernel, by decide +kernel⟩

end RadiusAttr

end Dot1x.Radius
