import Dot1x.Radius.Client

/-!
# Copies of a request

What is sent in place of a valid request, step by step: the copy carries its attributes, encrypting
the password replaces it by one at the end or is refused for want of room, and the message
authenticator is written into the first attribute for it, which is the one that was appended, or one
that the request has already.
-/

namespace Dot1x.Radius

open Dot1x.Base

namespace RadiusPDU

variable {p q request : RadiusPDU} {as bs : List Tlv} {md5 : Md5} {secret : List UInt8} {id : Id}
  {random : Fin 4 → UInt32} {fresh : Mem}

/-- There is room to encrypt the password behind the last attribute. -/
def PasswordFits (p : RadiusPDU) : Prop :=
  ∀ pwdAttr, p.findAttr RadiusAttr.userPassword = some (some pwdAttr) →
    p.getLength + encPwdLength (RadiusAttr.getValueLength p.data pwdAttr) +
      RadiusAttr.fixedHeaderLength ≤ maxPduLength

/-- Packets with the same attributes are of one length. -/
theorem Carries.getLength_eq (h : p.Carries as) (h' : q.Carries as) :
    q.getLength = p.getLength :=
  h'.stored.end_eq.trans h.stored.end_eq.symm

/-- The length of a password depends on the attribute only. -/
theorem Carries.getValueLength_eq {l r : List Tlv} {a : Tlv} (h : p.Carries (l ++ a :: r))
    (htype : a.type = RadiusAttr.userPassword) :
    RadiusAttr.getValueLength p.data (fixedHeaderLength + (Tlv.bytesAll l).length) =
      a.value.length := by
  obtain ⟨-, hread, hlength, -⟩ := h.split
  have hvsa : RadiusAttr.isVsa p.data (fixedHeaderLength + (Tlv.bytesAll l).length) = false := by
    have ht : p.data (fixedHeaderLength + (Tlv.bytesAll l).length) = RadiusAttr.userPassword := by
      rw [hread] at htype
      exact htype
    rw [RadiusAttr.isVsa, RadiusAttr.getType, ht]
    rfl
  have hlong : a.length = a.value.length + 2 := rfl
  rw [RadiusAttr.getValueLength, hvsa, hlength, hlong]
  simp only [Bool.false_eq_true, if_false, RadiusAttr.fixedHeaderLength]
  split
  · omega
  · omega

/-- Two packets with the same attributes have equal lengths when their passwords are encrypted. -/
theorem Carries.encryptedLength_eq (h : p.Carries as) (h' : q.Carries as) :
    q.encryptedLength = p.encryptedLength := by
  rcases h.findAttr_cases RadiusAttr.userPassword with
    ⟨hfind, -⟩ | ⟨l, a, r, rfl, htype, -, hfind⟩
  · have hfind' := h'.findAttr RadiusAttr.userPassword
    rw [← h.findAttr, hfind] at hfind'
    simp only [encryptedLength, hfind, hfind', h.getLength_eq h']
  · have hfind' := h'.findAttr RadiusAttr.userPassword
    rw [← h.findAttr, hfind] at hfind'
    simp only [encryptedLength, hfind, hfind', h.getLength_eq h', h.getValueLength_eq htype,
      h'.getValueLength_eq htype, h.split.2.2.1, h'.split.2.2.1]

/-- Packets with the same attributes have the same room for a password. -/
theorem Carries.passwordFits_iff (h : p.Carries as) (h' : q.Carries as) :
    q.PasswordFits ↔ p.PasswordFits := by
  have himp {p q : RadiusPDU} (h : p.Carries as) (h' : q.Carries as) (hfits : p.PasswordFits) :
      q.PasswordFits := by
    intro pwdAttr hq
    have hp : p.findAttr RadiusAttr.userPassword = some (some pwdAttr) := by
      rw [h.findAttr, ← h'.findAttr, hq]
    have hbound := hfits pwdAttr hp
    rcases h.findAttr_cases RadiusAttr.userPassword with
      ⟨hfind, -⟩ | ⟨l, a, r, rfl, htype, -, hfind⟩
    · cases hfind.symm.trans hp
    · cases hfind.symm.trans hp
      rw [h.getLength_eq h', h'.getValueLength_eq htype]
      rwa [h.getValueLength_eq htype] at hbound
  exact ⟨himp h' h, himp h h'⟩

/-- Encrypting the password succeeds where there is room. -/
private theorem encryptPasswords_fst {r : Bool × RadiusPDU}
    (h : p.encryptPasswords md5 secret = some r) :
    r.1 = true ↔ p.PasswordFits := by
  obtain ⟨found, hfound, rfl⟩ := Option.map_eq_some_iff.mp h
  cases found with
  | none =>
    refine iff_of_true rfl fun pwdAttr hattr => ?_
    cases hfound.symm.trans hattr
  | some pwdAttr =>
    simp only
    split
    · rename_i hfull
      refine iff_of_false Bool.false_ne_true fun hfits => ?_
      exact absurd hfull (Nat.not_lt.mpr (hfits pwdAttr hfound))
    · rename_i hroom
      refine iff_of_true rfl fun pwdAttr' hattr => ?_
      cases hfound.symm.trans hattr
      exact Nat.not_lt.mp hroom

/-- A copy differs from the request in the identifier only. -/
theorem Carries.copied_data (h : request.Carries as) (fresh : Mem) (id : UInt8) {i : ℕ}
    (hi : i < request.getLength) (h1 : i ≠ 1) :
    (((RadiusPDU.mk fresh).copyContents request).setId id).data i = request.data i :=
  (setId_data h1).trans (h.copyContents _ hi)

/-- The copy has the code of the request. -/
theorem Carries.copied_code (h : request.Carries as) (fresh : Mem) (id : UInt8) :
    (((RadiusPDU.mk fresh).copyContents request).setId id).getCode = request.getCode := by
  have hlow : 20 ≤ request.getLength := h.stored.le
  exact h.copied_data fresh id (by omega) (by decide)

/-- The copy of a valid request, before its password is encrypted. -/
theorem Carries.prepared (h : request.Carries as) (md5 : Md5) (secret : List UInt8) (id : Id)
    (random : Fin 4 → UInt32) (fresh : Mem) :
    (Radius.prepared md5 request secret id random fresh).Carries as ∧
      (Radius.prepared md5 request secret id random fresh).getCode = request.getCode ∧
      (Radius.prepared md5 request secret id random fresh).getId = UInt8.ofNat id := by
  have hlow : 20 ≤ request.getLength := h.stored.le
  have hdata (i : ℕ) (hi : i < request.getLength) (h1 : i ≠ 1) (hout : i < 4 ∨ 20 ≤ i) :
      (Radius.prepared md5 request secret id random fresh).data i = request.data i :=
    (setAuthenticator_data hout).trans (h.copied_data fresh _ hi h1)
  refine ⟨h.of_header hdata, hdata 0 (by omega) (by decide) (by decide), ?_⟩
  have hset : (Radius.prepared md5 request secret id random fresh).data 1 =
      (((RadiusPDU.mk fresh).copyContents request).setId (UInt8.ofNat id)).data 1 :=
    setAuthenticator_data (by decide)
  exact hset.trans getId_setId

/-- What a copy of a request is when its password has been encrypted. -/
structure EncryptedCopy (request : RadiusPDU) (as : List Tlv) (id : Id) (authenticator : List UInt8)
    (e : RadiusPDU) (bs : List Tlv) : Prop where
  carries : e.Carries bs
  replaced : PasswordReplaced as bs
  length : e.getLength = request.encryptedLength
  code : e.getCode = request.getCode
  id : e.getId = UInt8.ofNat id
  authenticator : e.getAuthenticator = authenticator

/-- Encrypting the password of a copy fails for want of room, or yields an encrypted copy. -/
theorem Carries.encrypted_cases (h : request.Carries as) (md5 : Md5) (secret : List UInt8) (id : Id)
    (random : Fin 4 → UInt32) (fresh : Mem) :
    ¬request.PasswordFits ∧ (∃ e, (Radius.prepared md5 request secret id random
      fresh).encryptPasswords md5 secret = some (false, e)) ∨
    request.PasswordFits ∧ ∃ e bs,
      (Radius.prepared md5 request secret id random fresh).encryptPasswords md5 secret =
        some (true, e) ∧
      request.EncryptedCopy as id
        (Radius.prepared md5 request secret id random fresh).getAuthenticator e bs := by
  obtain ⟨hprepared, hcode, hid⟩ := h.prepared md5 secret id random fresh
  have hauth : (Radius.prepared md5 request secret id random fresh).getAuthenticator =
    slice (Radius.prepared md5 request secret id random fresh).data 4 16 := rfl
  generalize Radius.prepared md5 request secret id random fresh = p at hprepared hcode hid hauth ⊢
  obtain ⟨⟨done, e⟩, hencrypt, hcarries⟩ := hprepared.encryptPasswords md5 secret
  have hfits := (encryptPasswords_fst hencrypt).trans (h.passwordFits_iff hprepared)
  cases done with
  | false => exact Or.inl ⟨fun hroom => Bool.false_ne_true (hfits.mpr hroom), e, hencrypt⟩
  | true =>
    obtain ⟨bs, hbs⟩ := hcarries rfl
    have hsame : e.getCode = p.getCode := hbs.header 0 (by decide) (by decide) (by decide)
    refine Or.inr ⟨hfits.mp rfl, e, bs, hencrypt,
      hbs.carries, hbs.replaced, ?_, hsame.trans hcode, ?_, ?_⟩
    · rw [hbs.length, h.encryptedLength_eq hprepared]
    · exact (hbs.header 1 (by decide) (by decide) (by decide)).trans hid
    · exact slice_congr fun i hi hi' => by
        have hlow : 4 ≤ i := hi
        have hhigh : i < 4 + 16 := hi'
        exact hbs.header i (by omega) (by omega) (by omega)

/-- What is sent in place of a valid request: nothing if its password does not fit, and otherwise
the copy with its password encrypted and, unless it is for accounting, authenticated. -/
theorem Carries.copyFor_cases (h : request.Carries as) (md5 : Md5) (secret : List UInt8) (id : Id)
    (random : Fin 4 → UInt32) (fresh : Mem) :
    ¬request.PasswordFits ∧ copyFor md5 request secret id random fresh = .error (.returns none) ∨
    request.PasswordFits ∧ ∃ e bs,
      (Radius.prepared md5 request secret id random fresh).encryptPasswords md5 secret =
        some (true, e) ∧
      request.EncryptedCopy as id
        (Radius.prepared md5 request secret id random fresh).getAuthenticator e bs ∧
      copyFor md5 request secret id random fresh =
        if accountingRequest ≠ request.getCode then
          (e.setupMessageAuthenticator md5 secret).elim (.error .fault) fun q => .ok (e, q)
        else .ok (e, e) := by
  rcases h.encrypted_cases md5 secret id random fresh with
    ⟨hfull, e, hencrypt⟩ | ⟨hfits, e, bs, hencrypt, hencrypted⟩
  · exact Or.inl ⟨hfull, by rw [copyFor, hencrypt]⟩
  · refine Or.inr ⟨hfits, e, bs, hencrypt, hencrypted, ?_⟩
    rw [copyFor, hencrypt]
    simp only [hencrypted.code]
    cases e.setupMessageAuthenticator md5 secret <;> rfl

/-- The value of the message authenticator before it is computed. -/
def zeroAuthenticator : List UInt8 := List.replicate messageAuthenticatorLength 0

/-- An attribute for the message authenticator. -/
def emptyAuthenticator : Tlv := ⟨RadiusAttr.messageAuthenticator, zeroAuthenticator⟩

/-- What the message authenticator is computed over and written into: the packet with one more
attribute, if there was room for it. -/
structure Extended (e : RadiusPDU) (bs : List Tlv) (x : RadiusPDU) (cs : List Tlv) : Prop where
  carries : x.Carries cs
  header : ∀ i, i < 20 → i ≠ 2 → i ≠ 3 → x.data i = e.data i
  appended : cs = if e.getLength + 18 ≤ maxPduLength then bs ++ [emptyAuthenticator] else bs

/-- What appending the message authenticator comes to, with and without room for it. -/
theorem Carries.extended (h : p.Carries as) :
    p.Extended as (p.appendAttrData RadiusAttr.messageAuthenticator zeroAuthenticator).2
      (if p.getLength + 18 ≤ maxPduLength then as ++ [emptyAuthenticator] else as) := by
  have hlow : 20 ≤ p.getLength := h.stored.le
  have hadmissible : AppendOp.Admissible
      (.attrData RadiusAttr.messageAuthenticator zeroAuthenticator) := fun ht => by cases ht
  have happly := h.apply hadmissible
  have houtcome : p.Outcome False emptyAuthenticator
      (p.appendAttrData RadiusAttr.messageAuthenticator zeroAuthenticator) :=
    outcome_appendValue _ _
  have hlength : emptyAuthenticator.length = 18 := rfl
  change RadiusPDU.Carries (p.appendAttrData _ _).2 (if (p.appendAttrData _ _).1 then _ else _)
    at happly
  generalize p.appendAttrData RadiusAttr.messageAuthenticator zeroAuthenticator = r at *
  cases houtcome with
  | refused hwhy hsame =>
    have hfull : ¬p.getLength + 18 ≤ maxPduLength := by
      rcases hwhy with hfalse | hlong | hover
      · exact hfalse.elim
      · exact absurd hlong (by decide)
      · exact Nat.not_le.mpr hover
    rw [if_neg hfull]
    exact ⟨happly, fun i hi _ _ => hsame i (by omega), by rw [if_neg hfull]⟩
  | @accepted m hgood hfits hroom hbytes hsame =>
    have hroom' : p.getLength + 18 ≤ maxPduLength := hroom
    rw [if_pos hroom']
    refine ⟨happly, fun i hi h2 h3 => ?_, by rw [if_pos hroom']⟩
    exact (setLength_data (by omega)).trans (hsame i (by omega))

/-- The message authenticator is written into the first attribute for it. -/
theorem Extended.setup {x : RadiusPDU} {cs : List Tlv} (h : p.Extended as x cs)
    (hx : x = (p.appendAttrData RadiusAttr.messageAuthenticator zeroAuthenticator).2) :
    (∀ a ∈ cs, a.type ≠ RadiusAttr.messageAuthenticator) ∧
      (∀ md5 secret, p.setupMessageAuthenticator md5 secret = none) ∨
    ∃ l a r, cs = l ++ a :: r ∧ a.type = RadiusAttr.messageAuthenticator ∧
      (∀ b ∈ l, b.type ≠ RadiusAttr.messageAuthenticator) ∧
      ∀ md5 secret, p.setupMessageAuthenticator md5 secret =
        some ⟨Base.write x.data (fixedHeaderLength + (Tlv.bytesAll l).length + 2)
          (hmacMd5 md5 (slice x.data 0 x.getLength) secret)⟩ := by
  subst hx
  rcases h.carries.findAttr_cases RadiusAttr.messageAuthenticator with
    ⟨hfind, hnone⟩ | ⟨l, a, r, hcs, htype, hfirst, hfind⟩
  · refine Or.inl ⟨hnone, fun md5 secret => ?_⟩
    simp only [setupMessageAuthenticator]
    rw [← zeroAuthenticator, hfind]
  · refine Or.inr ⟨l, a, r, hcs, htype, hfirst, fun md5 secret => ?_⟩
    simp only [setupMessageAuthenticator]
    rw [← zeroAuthenticator, hfind]

/-- The message authenticator is written behind the header. -/
theorem Carries.setup_data (h : p.Carries as) (hq : p.setupMessageAuthenticator md5 secret = some q)
    {i : ℕ} (hi : i < 20) (h2 : i ≠ 2) (h3 : i ≠ 3) : q.data i = p.data i := by
  have hextended := h.extended
  rcases hextended.setup rfl with ⟨-, hnone⟩ | ⟨l, a, r, -, -, -, hsome⟩
  · cases (hnone md5 secret).symm.trans hq
  · cases (hsome md5 secret).symm.trans hq
    have hlow : 20 ≤ fixedHeaderLength + (Tlv.bytesAll l).length := Nat.le_add_right 20 _
    exact (write_of_outside (Or.inl (by omega))).trans (hextended.header i hi h2 h3)

/-- The packet that is sent in place of a valid request. -/
structure Copied (md5 : Md5) (request : RadiusPDU) (as : List Tlv) (secret : List UInt8) (id : Id)
    (authenticator : List UInt8) (e q : RadiusPDU) (bs : List Tlv) : Prop where
  encrypted : request.EncryptedCopy as id authenticator e bs
  fits : request.PasswordFits
  signed : if accountingRequest ≠ request.getCode then
    e.setupMessageAuthenticator md5 secret = some q else q = e
  sentId : q.getId = UInt8.ofNat id
  sentAuthenticator : q.getAuthenticator = authenticator

/-- The copy that is sent, as far as the code gets. -/
theorem Carries.copied (h : request.Carries as) {e : RadiusPDU}
    (hcopy : copyFor md5 request secret id random fresh = .ok (e, q)) :
    ∃ bs, request.Copied md5 as secret id
      (Radius.prepared md5 request secret id random fresh).getAuthenticator e q bs := by
  rcases h.copyFor_cases md5 secret id random fresh with
    ⟨-, herror⟩ | ⟨hfits, e', bs, -, hencrypted, hok⟩
  · cases herror.symm.trans hcopy
  · rw [hok] at hcopy
    by_cases hcode : accountingRequest ≠ request.getCode
    · rw [if_pos hcode] at hcopy
      cases hsetup : e'.setupMessageAuthenticator md5 secret with
      | none =>
        rw [hsetup] at hcopy
        cases hcopy
      | some q' =>
        rw [hsetup] at hcopy
        cases hcopy
        have hsame {i : ℕ} (hi : i < 20) (h2 : i ≠ 2) (h3 : i ≠ 3) : q.data i = e.data i :=
          hencrypted.carries.setup_data hsetup hi h2 h3
        refine ⟨bs, hencrypted, hfits, by rwa [if_pos hcode], ?_, ?_⟩
        · exact (hsame (by decide) (by decide) (by decide)).trans hencrypted.id
        · refine (slice_congr fun i hi hi' => ?_).trans hencrypted.authenticator
          have hlow : 4 ≤ i := hi
          have hhigh : i < 4 + 16 := hi'
          exact hsame (by omega) (by omega) (by omega)
    · rw [if_neg hcode] at hcopy
      cases hcopy
      exact ⟨bs, hencrypted, hfits, by rw [if_neg hcode], hencrypted.id, hencrypted.authenticator⟩

/-- Encrypting the password does not concern attributes of another type. -/
theorem PasswordReplaced.filter_eq (h : PasswordReplaced as bs) {t : UInt8}
    (ht : t ≠ RadiusAttr.userPassword) : bs.filter (·.type = t) = as.filter (·.type = t) := by
  have hskip {a : Tlv} (r : List Tlv) (ha : a.type = RadiusAttr.userPassword) :
      (a :: r).filter (·.type = t) = r.filter (·.type = t) := by
    refine List.filter_cons_of_neg ?_
    rw [ha]
    simpa using ht.symm
  rcases h with ⟨-, rfl⟩ | ⟨l, a, r, e, rfl, ha, -, he, rfl⟩
  · rfl
  · rw [List.filter_append, List.filter_append, List.filter_append, hskip [] he, hskip r ha]
    exact List.append_nil _

/-- What is sent has the attributes of a request that has no message authenticator, but for the
password and the message authenticator. -/
theorem Copied.filter_eq {authenticator : List UInt8} {e : RadiusPDU}
    (h : request.Copied md5 as secret id authenticator e q bs)
    (hplain : ∀ a ∈ as, a.type ≠ RadiusAttr.messageAuthenticator) {t : UInt8}
    (ht : t ≠ RadiusAttr.userPassword) (ht' : t ≠ RadiusAttr.messageAuthenticator) :
    ∃ cs, q.Carries cs ∧ cs.filter (·.type = t) = as.filter (·.type = t) := by
  have hreplaced := h.encrypted.replaced.filter_eq ht
  have hsigned := h.signed
  split at hsigned
  · have hextended := h.encrypted.carries.extended
    generalize hx : (e.appendAttrData RadiusAttr.messageAuthenticator zeroAuthenticator).2 = x
      at hextended
    have hnone : ∀ b ∈ bs, b.type ≠ RadiusAttr.messageAuthenticator := by
      have hsame := h.encrypted.replaced.filter_eq (t := RadiusAttr.messageAuthenticator)
        (by decide)
      have hempty : as.filter (·.type = RadiusAttr.messageAuthenticator) = [] :=
        List.filter_eq_nil_iff.mpr (by simpa using hplain)
      rw [hempty, List.filter_eq_nil_iff] at hsame
      simpa using hsame
    rcases hextended.setup hx.symm with ⟨-, hfault⟩ | ⟨l, a, r, hcs, ha, -, hsome⟩
    · cases (hfault md5 secret).symm.trans hsigned
    · cases (hsome md5 secret).symm.trans hsigned
      have hlast : a = emptyAuthenticator := by
        have hmem : a ∈ l ++ a :: r := by simp
        rw [← hcs] at hmem
        split at hmem
        · rcases List.mem_append.mp hmem with hmem | hmem
          · exact absurd ha (hnone a hmem)
          · exact List.mem_singleton.mp hmem
        · exact absurd ha (hnone a hmem)
      subst hlast
      have hcarries := hextended.carries
      rw [hcs] at hcarries
      have hwritten := (hcarries.writeValue (hmacMd5_length md5 (slice x.data 0 x.getLength)
        secret) fun hvsa => by cases hvsa).1
      refine ⟨_, hwritten, Eq.trans ?_ hreplaced⟩
      have hskip (v : List UInt8) (r : List Tlv) :
          (⟨RadiusAttr.messageAuthenticator, v⟩ :: r : List Tlv).filter (·.type = t) =
            r.filter (·.type = t) :=
        List.filter_cons_of_neg (by simpa using ht'.symm)
      have hold : (l ++ emptyAuthenticator :: r).filter (·.type = t) =
          bs.filter (·.type = t) := by
        rw [← hcs]
        split
        · rw [List.filter_append, emptyAuthenticator, hskip]
          exact List.append_nil _
        · rfl
      rw [← hold, List.filter_append, List.filter_append, emptyAuthenticator, hskip, hskip]
  · rw [hsigned]
    exact ⟨bs, h.encrypted.carries, hreplaced⟩

/-- A request can be sent if it has no password and no message authenticator, but room for one. -/
theorem Carries.sendable_of_plain (h : request.Carries as)
    (hpassword : ∀ a ∈ as, a.type ≠ RadiusAttr.userPassword)
    (hplain : ∀ a ∈ as, a.type ≠ RadiusAttr.messageAuthenticator)
    (hroom : request.getLength + 18 ≤ maxPduLength) (md5 : Md5) (secret : List UInt8) (id : Id)
    (random : Fin 4 → UInt32) (fresh : Mem) : ∃ e q,
      copyFor md5 request secret id random fresh = .ok (e, q) ∧ q.isValid = true := by
  have hnone : request.findAttr RadiusAttr.userPassword = some none := by
    rcases h.findAttr_cases RadiusAttr.userPassword with ⟨hnone, -⟩ | ⟨l, a, r, rfl, ha, -, -⟩
    · exact hnone
    · exact absurd ha (hpassword a (by simp))
  have hfits : request.PasswordFits := by
    intro pwdAttr hattr
    cases hnone.symm.trans hattr
  obtain ⟨-, e, bs, -, hencrypted, hcopy⟩ :=
    (h.copyFor_cases md5 secret id random fresh).resolve_left fun hnot => hnot.1 hfits
  rw [hcopy]
  split
  · have hsame : bs = as := by
      rcases hencrypted.replaced with ⟨-, hsame⟩ | ⟨l, a, r, _, hsplit, ha, -⟩
      · exact hsame
      · exact absurd ha (hpassword a (by rw [hsplit]; simp))
    subst hsame
    have hlength : e.getLength = request.getLength :=
      hencrypted.carries.stored.end_eq.trans h.stored.end_eq.symm
    have hextended := hencrypted.carries.extended
    rw [hlength, if_pos hroom] at hextended
    rcases hextended.setup rfl with ⟨hnot, -⟩ | ⟨l, a, r, hcs, ha, -, hsetup⟩
    · exact absurd rfl (hnot emptyAuthenticator (List.mem_append_right _ List.mem_cons_self))
    · have hempty : a = emptyAuthenticator := by
        have hmem : a ∈ bs ++ [emptyAuthenticator] := hcs ▸ by simp
        rcases List.mem_append.mp hmem with hold | hnew
        · exact absurd ha (hplain a hold)
        · exact List.mem_singleton.mp hnew
      subst hempty
      have hcarries := hextended.carries
      rw [hcs] at hcarries
      rw [hsetup]
      exact ⟨e, _, rfl, (hcarries.writeValue (hmacMd5_length md5 _ secret)
        fun hvsa => by cases hvsa).1.isValid⟩
  · exact ⟨e, e, rfl, hencrypted.carries.isValid⟩

/-- A request without attributes can be sent. -/
theorem Carries.sendable (h : request.Carries []) (md5 : Md5) (secret : List UInt8) (id : Id)
    (random : Fin 4 → UInt32) (fresh : Mem) : ∃ e q,
      copyFor md5 request secret id random fresh = .ok (e, q) ∧ q.isValid = true := by
  have hlength : request.getLength = 20 := h.stored.end_eq
  exact h.sendable_of_plain nofun nofun (by rw [hlength]; decide) md5 secret id random fresh

end RadiusPDU

end Dot1x.Radius
