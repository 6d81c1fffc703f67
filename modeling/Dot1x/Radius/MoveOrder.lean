import Dot1x.Radius.Passwords

/-!
# The order of the final copy

After a password is encrypted, the attributes behind it are copied over it with a function that may
copy in any order. What the order is does not matter where the bytes that are copied and those that
are overwritten are apart, and they are rarely: the new attribute is itself among what is copied, and
is seldom as short as the one it replaces.
-/

namespace Dot1x.Radius

open Dot1x.Base

/-- The arguments of a copy. -/
structure Copying where
  dst : ℕ
  src : ℕ
  count : ℕ
  deriving DecidableEq

/-- What is read and what is overwritten do not overlap. -/
def Copying.Apart (c : Copying) : Prop := c.dst + c.count ≤ c.src ∨ c.src + c.count ≤ c.dst

instance (c : Copying) : Decidable c.Apart := inferInstanceAs (Decidable (_ ∨ _))

namespace RadiusPDU

/-- The final copy of `EncryptPasswords`, with the new attribute at the end. -/
def finalCopy (p : RadiusPDU) (attr last : ℕ) : Copying :=
  ⟨attr, attr + RadiusAttr.getLength p.data attr,
    last - attr + RadiusAttr.getLength p.data last - RadiusAttr.getLength p.data attr⟩

/-- What is behind an attribute, and the attribute at the end, is copied over it in some order. -/
def moveBy (copy : Mem → ℕ → ℕ → ℕ → Mem) (p : RadiusPDU) (attr last : ℕ) : RadiusPDU :=
  let q := p.setLength (last + RadiusAttr.getLength p.data last - RadiusAttr.getLength p.data attr)
  let c := p.finalCopy attr last
  ⟨copy q.data c.dst c.src c.count⟩

variable (addresses : Addresses) (md5 : Md5) (secret : List UInt8)

/-- `EncryptPasswords`, with the order of the final copy. -/
def encryptPasswordsBy (copy : Mem → ℕ → ℕ → ℕ → Mem) (p : RadiusPDU) :
    Option (Bool × RadiusPDU) :=
  (p.findAttr RadiusAttr.userPassword).map fun
    | none => (true, p)
    | some pwdAttr =>
      let len := p.getLength
      if maxPduLength < len + encPwdLength (RadiusAttr.getValueLength p.data pwdAttr) +
          RadiusAttr.fixedHeaderLength then (false, p)
      else (true, (RadiusPDU.mk (p.placeEncPwd addresses md5 secret pwdAttr)).moveBy copy pwdAttr
        len)

/-- The final copy, if there is one. -/
def finalCopyOf (p : RadiusPDU) : Option Copying :=
  match p.findAttr RadiusAttr.userPassword with
  | some (some pwdAttr) =>
    if maxPduLength < p.getLength + encPwdLength (RadiusAttr.getValueLength p.data pwdAttr) +
        RadiusAttr.fixedHeaderLength then none
    else some ((RadiusPDU.mk (p.placeEncPwd addresses md5 secret pwdAttr)).finalCopy pwdAttr
      p.getLength)
  | _ => none

/-- The order of the final copy does not matter. -/
def OrderFree (p : RadiusPDU) : Prop :=
  p.encryptPasswordsBy addresses md5 secret copyAscending =
      p.encryptPasswordsBy addresses md5 secret copyDescending ∧
    ∀ c ∈ p.finalCopyOf addresses md5 secret, c.Apart

/-- Copying in ascending order is what the code is modelled with. -/
theorem encryptPasswordsBy_ascending (p : RadiusPDU) :
    p.encryptPasswordsBy addresses md5 secret copyAscending =
      p.encryptPasswordsAt addresses md5 secret := rfl

variable {addresses md5 secret} {p : RadiusPDU} {as l r : List Tlv} {a : Tlv}

/-- Bytes that are apart are copied in either order. -/
private theorem moveBy_of_apart {attr last : ℕ} (h : (p.finalCopy attr last).Apart) :
    p.moveBy copyAscending attr last = p.moveBy copyDescending attr last := by
  have hle : (p.finalCopy attr last).dst ≤ (p.finalCopy attr last).src := Nat.le_add_right ..
  rw [moveBy, moveBy, copyAscending_eq hle, copyDescending_eq]
  exact h.elim Or.inr fun hbefore => Or.inl (Nat.le_of_add_right_le hbefore)

/-- The order does not matter if the final copy is one of bytes that are apart. -/
private theorem orderFree_iff : p.OrderFree addresses md5 secret ↔
    ∀ c ∈ p.finalCopyOf addresses md5 secret, c.Apart := by
  refine ⟨And.right, fun hapart => ⟨?_, hapart⟩⟩
  unfold encryptPasswordsBy
  unfold finalCopyOf at hapart
  cases hfind : p.findAttr RadiusAttr.userPassword with
  | none => rfl
  | some found =>
    cases found with
    | none => rfl
    | some pwdAttr =>
      simp only [hfind] at hapart
      rw [Option.map_some, Option.map_some]
      by_cases hfull : maxPduLength < p.getLength +
          encPwdLength (RadiusAttr.getValueLength p.data pwdAttr) + RadiusAttr.fixedHeaderLength
      · simp only [if_pos hfull]
      · rw [if_neg hfull] at hapart
        simp only [if_neg hfull]
        rw [moveBy_of_apart (hapart _ rfl)]

/-- The final copy of a packet with a password. -/
theorem Carries.finalCopyOf_eq (h : p.Carries (l ++ a :: r))
    (htype : a.type = RadiusAttr.userPassword)
    (hfind : p.findAttr RadiusAttr.userPassword =
      some (some (fixedHeaderLength + (Tlv.bytesAll l).length))) :
    p.finalCopyOf addresses md5 secret =
      if maxPduLength < p.getLength + encPwdLength a.value.length + 2 then none
      else some ⟨20 + (Tlv.bytesAll l).length, 20 + (Tlv.bytesAll l).length + a.length,
        (Tlv.bytesAll r).length + (encPwdLength a.value.length + 2) % 256⟩ := by
  have hvalue := h.getValueLength_eq htype
  obtain ⟨-, -, hlength, hr⟩ := h.split
  have hend := hr.end_eq
  have hlong : a.length = a.value.length + 2 := rfl
  have hold : RadiusAttr.getLength (p.writeEncPwd md5 secret (fixedHeaderLength +
      (Tlv.bytesAll l).length)) (fixedHeaderLength + (Tlv.bytesAll l).length) = a.length := by
    refine Eq.trans ?_ hlength
    rw [RadiusAttr.getLength, RadiusAttr.getLength, writeEncPwd_data (by omega),
      write_of_outside (Or.inl (by omega))]
  obtain ⟨hnew, hencoded⟩ := p.encPwd_length md5 secret
    (fixedHeaderLength + (Tlv.bytesAll l).length)
  rw [hencoded, hvalue] at hnew
  rw [RadiusPDU.finalCopyOf, hfind]
  simp only [hvalue, finalCopy, placeEncPwd_eq, hold, hnew]
  have hcount : p.getLength - (fixedHeaderLength + (Tlv.bytesAll l).length) +
      (encPwdLength a.value.length + RadiusAttr.fixedHeaderLength) % 256 - a.length =
        (Tlv.bytesAll r).length + (encPwdLength a.value.length + 2) % 256 := by
    change _ - _ + (encPwdLength a.value.length + 2) % 256 - _ = _
    omega
  rw [hcount]
  rfl

/-- **When the order of the final copy matters.** Encrypting the password of a valid packet leads
to the same packet in either order, without an overlap, exactly when there is no room for the
password, when it is the last attribute and fills its blocks, or when it is so long that the new
attribute seems to be empty and the attributes behind it are not longer. -/
theorem encryptPasswords_orderFree_iff (hvalid : p.isValid = true)
    (hattrs : p.attributes = some (l ++ a :: r)) (htype : a.type = RadiusAttr.userPassword)
    (hfirst : ∀ x ∈ l, x.type ≠ RadiusAttr.userPassword) (addresses : Addresses) (md5 : Md5)
    (secret : List UInt8) :
    p.OrderFree addresses md5 secret ↔
      maxPduLength < p.getLength + encPwdLength a.value.length + 2 ∨
      (r = [] ∧ 0 < a.value.length ∧ 16 ∣ a.value.length ∧ a.value.length ≤ 240) ∨
      (240 < a.value.length ∧ (Tlv.bytesAll r).length ≤ a.value.length) := by
  obtain ⟨bs, h⟩ := isValid_iff.mp hvalid
  obtain rfl := Option.some.inj (hattrs.symm.trans h.attributes)
  have hlong := h.value_le
  have hlength : a.length = a.value.length + 2 := rfl
  have hempty : r = [] ↔ (Tlv.bytesAll r).length = 0 := by
    cases r with
    | nil => exact iff_of_true rfl rfl
    | cons b r => exact iff_of_false (List.cons_ne_nil b r) (Nat.succ_ne_zero _)
  rw [orderFree_iff, h.finalCopyOf_eq htype (h.findAttr_first htype hfirst)]
  split
  · rename_i hfull
    exact iff_of_true (fun c hc => by cases hc) (Or.inl hfull)
  · rename_i hroom
    simp only [Option.mem_some_iff, forall_eq', Copying.Apart, hempty, encPwdLength_eq,
      Nat.dvd_iff_mod_eq_zero]
    rw [encPwdLength_eq] at hroom
    omega

/-- A password of one block that is the last attribute. -/
theorem encryptPasswords_orderFree_block :
    (withPassword (List.replicate 16 97)).OrderFree ⟨0, fun _ => 1⟩
      (fun _ => Vector.replicate 16 7) [1] :=
  (encryptPasswords_orderFree_iff (l := []) (r := [])
    (a := ⟨RadiusAttr.userPassword, List.replicate 16 97⟩)
    (carries_withPassword (by decide)).isValid (carries_withPassword (by decide)).attributes rfl
    (fun _ hx => absurd hx List.not_mem_nil) ⟨0, fun _ => 1⟩ (fun _ => Vector.replicate 16 7)
    [1]).mpr (Or.inr (Or.inl ⟨rfl, by decide, by decide, by decide⟩))

/-- The password `abc` is not: in descending order, the type of the new attribute is overwritten
before it is copied. -/
theorem not_encryptPasswords_orderFree : ¬∀ (p : RadiusPDU) (l r : List Tlv) (a : Tlv)
    (addresses : Addresses) (md5 : Md5) (secret : List UInt8), p.isValid = true →
    p.attributes = some (l ++ a :: r) → a.type = RadiusAttr.userPassword →
    (∀ x ∈ l, x.type ≠ RadiusAttr.userPassword) → p.OrderFree addresses md5 secret := by
  intro hall
  have h : (withPassword [97, 98, 99]).Carries [⟨RadiusAttr.userPassword, [97, 98, 99]⟩] :=
    carries_withPassword (by decide)
  obtain ⟨hsame, -⟩ := hall _ [] [] _ ⟨0, fun _ => 1⟩ (fun _ => Vector.replicate 16 7) [1]
    h.isValid h.attributes rfl fun _ hx => absurd hx List.not_mem_nil
  have hbyte : ((withPassword [97, 98, 99]).encryptPasswordsBy ⟨0, fun _ => 1⟩
      (fun _ => Vector.replicate 16 7) [1] copyAscending).map (·.2.data 20) =
      ((withPassword [97, 98, 99]).encryptPasswordsBy ⟨0, fun _ => 1⟩
        (fun _ => Vector.replicate 16 7) [1] copyDescending).map (·.2.data 20) := by
    rw [hsame]
  revert hbyte
  decide +kernel

end RadiusPDU

end Dot1x.Radius
