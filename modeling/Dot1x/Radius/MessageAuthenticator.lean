import Dot1x.Radius.Copies
import Dot1x.Radius.Unanswered

/-!
# The message authenticator

A copy of a request is signed when exactly one of its attributes is a message authenticator and that
one was computed over the copy with zeros in its place. The code appends an attribute for it, if there
is room, and then writes into the first one. So a request that has such an attribute already is sent
with two, or with one that was computed over what the caller had left in it.
-/

namespace Dot1x.Radius

open Dot1x.Base

namespace RadiusPDU

variable {p q e x request : RadiusPDU} {as bs cs : List Tlv} {md5 md5' : Md5} {secret : List UInt8}
  {id : Id} {random : Fin 4 → UInt32} {fresh : Mem}

/-- The message authenticators among some attributes. -/
def authenticators (as : List Tlv) : List Tlv :=
  as.filter (·.type = RadiusAttr.messageAuthenticator)

/-- All the other attributes. -/
def otherAttributes (as : List Tlv) : List Tlv :=
  as.filter (·.type ≠ RadiusAttr.messageAuthenticator)

/-- A packet has one message authenticator, which is right for a secret, and otherwise the
attributes of the packet before it was signed. -/
def Signed (md5 : Md5) (secret : List UInt8) (e q : RadiusPDU) : Prop :=
  ∃ as l r v, e.attributes = some as ∧
    q.attributes = some (l ++ ⟨RadiusAttr.messageAuthenticator, v⟩ :: r) ∧
    l ++ r = otherAttributes as ∧
    v = hmac (fun bytes => (md5 bytes).toList) 64 secret (slice (Base.write q.data
      (fixedHeaderLength + (Tlv.bytesAll l).length + 2) zeroAuthenticator) 0 q.getLength)

/-- A request that is signed wherever it is sent: it is never sent, it has no message authenticator,
or there is no room for another one and the one that it has holds zeros. -/
def Signable (request : RadiusPDU) : Prop :=
  ¬request.PasswordFits ∨ ∃ as, request.attributes = some as ∧
    (authenticators as = [] ∨ authenticators as = [emptyAuthenticator] ∧
      maxPduLength < request.encryptedLength + 18)

/-- The message authenticators of a list are those of its parts. -/
theorem authenticators_append : authenticators (as ++ bs) = authenticators as ++ authenticators bs :=
  List.filter_append ..

/-- The other attributes of a list are those of its parts. -/
theorem otherAttributes_append :
    otherAttributes (as ++ bs) = otherAttributes as ++ otherAttributes bs :=
  List.filter_append ..

/-- There are no message authenticators exactly where no attribute has their type. -/
theorem authenticators_eq_nil :
    authenticators as = [] ↔ ∀ a ∈ as, a.type ≠ RadiusAttr.messageAuthenticator := by
  simp [authenticators, List.filter_eq_nil_iff]

/-- Without message authenticators all attributes are others. -/
theorem otherAttributes_of_nil (h : authenticators as = []) : otherAttributes as = as := by
  rw [authenticators_eq_nil] at h
  exact List.filter_eq_self.mpr fun a ha => decide_eq_true (h a ha)

/-- Among the others there is no message authenticator. -/
theorem authenticators_otherAttributes : authenticators (otherAttributes as) = [] := by
  rw [authenticators_eq_nil]
  intro a ha
  exact of_decide_eq_true (List.mem_filter.mp ha).2

/-- The first message authenticator, and what is before and behind it. -/
theorem authenticators_split {l r : List Tlv} {a : Tlv}
    (ha : a.type = RadiusAttr.messageAuthenticator) (hl : authenticators l = []) :
    authenticators (l ++ a :: r) = a :: authenticators r ∧
      otherAttributes (l ++ a :: r) = l ++ otherAttributes r := by
  constructor
  · rw [authenticators_append, hl, List.nil_append]
    exact List.filter_cons_of_pos (decide_eq_true ha)
  · rw [otherAttributes_append, otherAttributes_of_nil hl]
    exact congrArg (l ++ ·) (List.filter_cons_of_neg (by simpa using ha))

/-- There is only one way to split attributes at the first message authenticator. -/
theorem split_unique {l l' r r' : List Tlv} {a a' : Tlv} (h : l ++ a :: r = l' ++ a' :: r')
    (ha : a.type = RadiusAttr.messageAuthenticator)
    (ha' : a'.type = RadiusAttr.messageAuthenticator) (hl : authenticators l = [])
    (hl' : authenticators l' = []) : l = l' ∧ a = a' := by
  rw [authenticators_eq_nil] at hl hl'
  induction l generalizing l' with
  | nil =>
    cases l' with
    | nil => exact ⟨rfl, (List.cons.inj h).1⟩
    | cons b l' =>
      rw [List.nil_append, List.cons_append, List.cons.injEq] at h
      exact absurd (h.1 ▸ ha) (hl' b List.mem_cons_self)
  | cons b l ih =>
    cases l' with
    | nil =>
      rw [List.nil_append, List.cons_append, List.cons.injEq] at h
      exact absurd (h.1 ▸ ha') (hl b List.mem_cons_self)
    | cons b' l' =>
      rw [List.cons_append, List.cons_append, List.cons.injEq] at h
      rw [List.forall_mem_cons] at hl hl'
      obtain ⟨rfl, rfl⟩ := ih h.2 hl.2 hl'.2
      exact ⟨congrArg (· :: l) h.1, rfl⟩

/-- Encrypting the password does not concern the message authenticators. -/
theorem PasswordReplaced.authenticators (h : PasswordReplaced as bs) :
    authenticators bs = RadiusPDU.authenticators as :=
  h.filter_eq (by decide)

/-- The value of an attribute, where it is stored. -/
theorem Carries.value_eq {l r : List Tlv} {a : Tlv} (h : p.Carries (l ++ a :: r)) :
    slice p.data (fixedHeaderLength + (Tlv.bytesAll l).length + 2) a.value.length = a.value := by
  obtain ⟨-, hread, -, -⟩ := h.split
  have hvalue : a.value = slice p.data (fixedHeaderLength + (Tlv.bytesAll l).length + 2)
      ((p.data (fixedHeaderLength + (Tlv.bytesAll l).length + 1)).toNat - 2) :=
    congrArg Tlv.value hread
  have hlength : a.value.length =
      (p.data (fixedHeaderLength + (Tlv.bytesAll l).length + 1)).toNat - 2 := by
    rw [hvalue, slice_length]
  rw [hlength, ← hvalue]

/-- Where the only message authenticator of the extended packet is empty, the packet is signed. -/
theorem Extended.signed (h : e.Extended bs x cs) (he : e.Carries bs)
    (hx : x = (e.appendAttrData RadiusAttr.messageAuthenticator zeroAuthenticator).2)
    (hone : authenticators cs = [emptyAuthenticator])
    (hq : e.setupMessageAuthenticator md5 secret = some q) : Signed md5 secret e q := by
  rcases h.setup hx with ⟨-, hnone⟩ | ⟨l, a, r, rfl, ha, hl, hsome⟩
  · cases (hnone md5 secret).symm.trans hq
  · cases (hsome md5 secret).symm.trans hq
    obtain ⟨hauth, hother⟩ := authenticators_split (r := r) ha (authenticators_eq_nil.mpr hl)
    rw [hauth, List.cons.injEq] at hone
    obtain ⟨rfl, hr⟩ := hone
    obtain ⟨hcarries, hlength⟩ := h.carries.writeValue (hmacMd5_length md5
      (slice x.data 0 x.getLength) secret) fun hvsa => by cases hvsa
    have hothers : l ++ r = otherAttributes bs := by
      rw [otherAttributes_of_nil hr] at hother
      rw [← hother, h.appended]
      split
      · rw [otherAttributes_append]
        exact List.append_nil _
      · rfl
    refine ⟨bs, l, r, _, he.attributes, hcarries.attributes, hothers, ?_⟩
    have hzero : slice x.data (fixedHeaderLength + (Tlv.bytesAll l).length + 2) 16 =
      zeroAuthenticator := h.carries.value_eq
    have hagain : Base.write (Base.write x.data (fixedHeaderLength + (Tlv.bytesAll l).length + 2)
        (hmacMd5 md5 (slice x.data 0 x.getLength) secret))
          (fixedHeaderLength + (Tlv.bytesAll l).length + 2) zeroAuthenticator =
        Base.write x.data (fixedHeaderLength + (Tlv.bytesAll l).length + 2) zeroAuthenticator :=
      write_eq_write_of_outside fun i hi => write_of_outside (by
        rw [hmacMd5_length]
        exact hi)
    have hback : Base.write x.data (fixedHeaderLength + (Tlv.bytesAll l).length + 2)
        zeroAuthenticator = x.data := by
      rw [← hzero]
      exact write_slice_self ..
    rw [hagain, hback, hlength, hmacMd5_eq]

/-- What is sent in place of a signable request is signed. -/
theorem Copied.signed_of_signable {authenticator : List UInt8}
    (h : request.Copied md5 as secret id authenticator e q bs) (has : request.Carries as)
    (hcode : request.getCode ≠ accountingRequest) (hsignable : request.Signable) :
    Signed md5 secret e q := by
  have hq := h.signed
  rw [if_pos hcode.symm] at hq
  have hextended := h.encrypted.carries.extended
  have hauth := h.encrypted.replaced.authenticators
  obtain ⟨as', has', hwhen⟩ := hsignable.resolve_left (not_not.mpr h.fits)
  cases has.attributes.symm.trans has'
  by_cases hroom : e.getLength + 18 ≤ maxPduLength
  · rw [if_pos hroom] at hextended
    have hnone : authenticators as = [] := by
      rcases hwhen with hnone | ⟨-, hfull⟩
      · exact hnone
      · rw [← h.encrypted.length] at hfull
        exact absurd hfull (Nat.not_lt.mpr hroom)
    refine hextended.signed h.encrypted.carries rfl ?_ hq
    rw [authenticators_append, hauth, hnone]
    rfl
  · rw [if_neg hroom] at hextended
    rcases hwhen with hnone | ⟨hone, -⟩
    · -- There is nothing to write into, so nothing is sent.
      rcases hextended.setup rfl with ⟨-, hfault⟩ | ⟨l, a, r, rfl, ha, hl, -⟩
      · cases (hfault md5 secret).symm.trans hq
      · rw [← hauth, (authenticators_split ha (authenticators_eq_nil.mpr hl)).1] at hnone
        cases hnone
    · exact hextended.signed h.encrypted.carries rfl (hauth.trans hone) hq

/-- Two hash functions that encrypt passwords alike under the empty secret. -/
def SameEncryption (md5 md5' : Md5) : Prop := ∀ bytes, bytes.length = 16 → md5 bytes = md5' bytes

/-- Passwords are encrypted alike by hash functions that agree on what is hashed for them. -/
private theorem encryptLoop_congr (h : SameEncryption md5 md5') {n buf : ℕ} {m : Mem} :
    encryptLoop md5 [] n m buf = encryptLoop md5' [] n m buf := by
  induction n generalizing m buf with
  | zero => rfl
  | succ n ih =>
    rw [encryptLoop, encryptLoop, List.nil_append, h _ (slice_length ..), ih]

/-- The encryption of passwords does not see the difference. -/
private theorem encryptPasswords_congr (h : SameEncryption md5 md5') :
    p.encryptPasswords md5 [] = p.encryptPasswords md5' [] := by
  have hwrite (pwdAttr : ℕ) : p.writeEncPwd md5 [] pwdAttr = p.writeEncPwd md5' [] pwdAttr := by
    have hfirst : md5 p.getAuthenticator = md5' p.getAuthenticator := h _ (slice_length ..)
    rw [writeEncPwd, writeEncPwd, List.nil_append, hfirst, encryptLoop_congr h]
  simp only [encryptPasswords, hwrite]

/-- The copy of a request that is not for accounting is made without a hash function. -/
private theorem Carries.prepared_congr (h : request.Carries as)
    (hcode : request.getCode ≠ accountingRequest) (md5' : Md5) :
    Radius.prepared md5 request secret id random fresh =
      Radius.prepared md5' request secret id random fresh := by
  rw [Radius.prepared, Radius.prepared, setAuthenticator, setAuthenticator, h.copied_code,
    if_neg hcode, if_neg hcode]

/-- The hash function for passwords and for the message authenticator, apart. -/
def hashBy (mac : List UInt8 → Vector UInt8 16) : Md5 := fun bytes =>
  if bytes.length = 16 then Vector.replicate 16 0 else mac bytes

/-- The packet whose message authenticator is to be computed, and the copies with it for all hash
functions that encrypt alike. -/
theorem Carries.exists_extended (h : request.Carries as)
    (hcode : request.getCode ≠ accountingRequest) (hfits : request.PasswordFits) (id : Id)
    (random : Fin 4 → UInt32) (fresh : Mem) : ∃ e bs authenticator,
      request.EncryptedCopy as id authenticator e bs ∧ ∀ mac,
        (Radius.prepared (hashBy mac) request [] id random fresh).encryptPasswords (hashBy mac) [] =
          some (true, e) ∧
        copyFor (hashBy mac) request [] id random fresh =
          (e.setupMessageAuthenticator (hashBy mac) []).elim (.error .fault) fun q => .ok (e, q) := by
  have hsame (mac mac' : List UInt8 → Vector UInt8 16) : SameEncryption (hashBy mac) (hashBy mac') :=
    fun bytes hbytes => by rw [hashBy, hashBy, if_pos hbytes, if_pos hbytes]
  have hencrypt (mac mac' : List UInt8 → Vector UInt8 16) :
      (Radius.prepared (hashBy mac) request [] id random fresh).encryptPasswords (hashBy mac) [] =
        (Radius.prepared (hashBy mac') request [] id random fresh).encryptPasswords
          (hashBy mac') [] := by
    rw [h.prepared_congr hcode (hashBy mac'), encryptPasswords_congr (hsame mac mac')]
  have hcases (mac : List UInt8 → Vector UInt8 16) :=
    (h.copyFor_cases (hashBy mac) [] id random fresh).resolve_left fun hnot => hnot.1 hfits
  obtain ⟨-, e, bs, he, hencrypted, -⟩ := hcases fun _ => Vector.replicate 16 0
  refine ⟨e, bs, _, hencrypted, fun mac => ?_⟩
  obtain ⟨-, e', bs', he', -, hcopy⟩ := hcases mac
  have hsame' := hencrypt mac fun _ => Vector.replicate 16 0
  rw [he, he'] at hsame'
  cases hsame'
  exact ⟨he', by rw [hcopy, if_pos hcode.symm]⟩

/-- A hash function whose message authenticators are some bytes. -/
def constantMac (d : Vector UInt8 16) : List UInt8 → Vector UInt8 16 := fun bytes =>
  if bytes.length = 80 then d else Vector.replicate 16 0

/-- The message authenticator of such a hash function is known. -/
theorem hmacMd5_constantMac (d : Vector UInt8 16) (text : List UInt8) :
    hmacMd5 (hashBy (constantMac d)) text [] = d.toList := by
  simp [hmacMd5, hashBy, constantMac]

/-- A message authenticator takes 16 bytes. -/
theorem hmac_length (md5 : Md5) (key text : List UInt8) :
    (hmac (fun bytes => (md5 bytes).toList) 64 key text).length = 16 :=
  Vector.length_toList

/-- What a signed packet says of the packet with the attribute to write into. -/
theorem Signed.split {l r : List Tlv} {a : Tlv} (h : Signed md5 secret e q)
    (hq : q.Carries (l ++ a :: r)) (ha : a.type = RadiusAttr.messageAuthenticator)
    (hl : authenticators l = []) : authenticators r = [] ∧
      a.value = hmac (fun bytes => (md5 bytes).toList) 64 secret (slice (Base.write q.data
        (fixedHeaderLength + (Tlv.bytesAll l).length + 2) zeroAuthenticator) 0 q.getLength) := by
  obtain ⟨as, l', r', v, -, hattrs, hother, hv⟩ := h
  have hsame : l ++ a :: r = l' ++ ⟨RadiusAttr.messageAuthenticator, v⟩ :: r' :=
    Option.some.inj (hq.attributes.symm.trans hattrs)
  have hnone : authenticators (l' ++ r') = [] := by
    rw [hother]
    exact authenticators_otherAttributes
  rw [authenticators_append, List.append_eq_nil_iff] at hnone
  obtain ⟨rfl, rfl⟩ := split_unique hsame ha rfl hl hnone.1
  have hrest : r = r' := (List.cons.inj (List.append_cancel_left hsame)).2
  exact ⟨hrest ▸ hnone.2, hv⟩

/-- The packet with a message authenticator as it is sent. -/
def withMac (x : RadiusPDU) (l : List Tlv) (mac : List UInt8 → Vector UInt8 16) : RadiusPDU :=
  ⟨Base.write x.data (fixedHeaderLength + (Tlv.bytesAll l).length + 2)
    (hmacMd5 (hashBy mac) (slice x.data 0 x.getLength) [])⟩

/-- If what is there is what is written, then the attribute is the only one of its kind, and of the
right length. -/
theorem only_of_signed {l r : List Tlv} {a : Tlv} (hx : x.Carries (l ++ a :: r))
    (ha : a.type = RadiusAttr.messageAuthenticator) (hl : authenticators l = [])
    (h : ∀ mac, (x.withMac l mac).isValid = true → Signed (hashBy mac) [] e (x.withMac l mac)) :
    authenticators r = [] ∧ a.value.length = 16 := by
  let d : Vector UInt8 16 := ⟨(slice x.data (fixedHeaderLength + (Tlv.bytesAll l).length + 2)
    16).toArray, by rw [List.size_toArray, slice_length]⟩
  have hd : d.toList = slice x.data (fixedHeaderLength + (Tlv.bytesAll l).length + 2) 16 := rfl
  have hsame : x.withMac l (constantMac d) = x := by
    rw [withMac, hmacMd5_constantMac, hd, write_slice_self]
  have hsigned := h (constantMac d)
  rw [hsame] at hsigned
  obtain ⟨hr, hvalue⟩ := (hsigned hx.isValid).split hx ha hl
  exact ⟨hr, by rw [hvalue, hmac_length]⟩

/-- A hash function that shows one byte of what is hashed. -/
def showByte (n : ℕ) : List UInt8 → Vector UInt8 16 := fun bytes =>
  Vector.replicate 16 (if bytes.length = 80 then bytes.getD 64 0 else bytes.getD (64 + n) 0)

/-- The message authenticator shows the byte of the text, 16 times. -/
theorem hmacMd5_showByte (n : ℕ) {text : List UInt8} (h : 20 ≤ text.length) :
    hmacMd5 (hashBy (showByte n)) text [] = List.replicate 16 (text.getD n 0) := by
  have hdigest (pad : List UInt8) (hpad : pad.length = 64) (b : UInt8) :
      hashBy (showByte n) (pad ++ List.replicate 16 b) = Vector.replicate 16 b := by
    have hlength : (pad ++ List.replicate 16 b).length = 80 := by
      rw [List.length_append, hpad, List.length_replicate]
    have hbyte : (pad ++ List.replicate 16 b).getD 64 0 = b := by
      rw [List.getD_append_right _ _ _ _ (Nat.le_of_eq hpad), hpad]
      rfl
    rw [hashBy, hlength, if_neg (by decide), showByte, hlength, if_pos rfl, hbyte]
  have htext (pad : List UInt8) (hpad : pad.length = 64) :
      hashBy (showByte n) (pad ++ text) = Vector.replicate 16 (text.getD n 0) := by
    have hlength : (pad ++ text).length = 64 + text.length := by
      rw [List.length_append, hpad]
    have hbyte : (pad ++ text).getD (64 + n) 0 = text.getD n 0 := by
      rw [List.getD_append_right _ _ _ _ (by omega), hpad, Nat.add_sub_cancel_left]
    rw [hashBy, hlength, if_neg (by omega), showByte, hlength, if_neg (by omega), hbyte]
  rw [hmacMd5_eq, hmac, htext _ (by simp [hmacKey]), Vector.toList_replicate,
    hdigest _ (by simp [hmacKey]), Vector.toList_replicate]

/-- If every byte of it is what it was computed over, then it held zeros. -/
private theorem empty_of_signed {l r : List Tlv} {a : Tlv} (hx : x.Carries (l ++ a :: r))
    (ha : a.type = RadiusAttr.messageAuthenticator) (hl : authenticators l = [])
    (hlong : a.value.length = 16)
    (h : ∀ mac, (x.withMac l mac).isValid = true → Signed (hashBy mac) [] e (x.withMac l mac)) :
    a.value = zeroAuthenticator := by
  obtain ⟨-, -, -, hr⟩ := hx.split
  have hlow : 20 ≤ x.getLength := hx.stored.le
  have hend : fixedHeaderLength + (Tlv.bytesAll l).length + a.length ≤ x.getLength := hr.le
  have hfit : a.length = 18 := congrArg (· + 2) hlong
  have hold := hx.value_eq
  rw [hlong] at hold
  refine List.ext_getElem hlong fun k hk hk' => ?_
  have hk : k < 16 := hlong ▸ hk
  generalize hattr : fixedHeaderLength + (Tlv.bytesAll l).length + 2 = attr at hold
  have hin : attr + k < x.getLength := by omega
  -- The message authenticator shows one byte of the value that was there, or of the zeros.
  have hmac : hmacMd5 (hashBy (showByte (attr + k))) (slice x.data 0 x.getLength) [] =
      List.replicate 16 (x.data (attr + k)) := by
    rw [hmacMd5_showByte _ (by rwa [slice_length]), slice_getD _ _ hin, Nat.zero_add]
  obtain ⟨hcarries, hlength⟩ := hx.writeValue
    ((hmacMd5_length (hashBy (showByte (attr + k))) (slice x.data 0 x.getLength) []).trans
      hlong.symm) fun hvsa => by cases ha.symm.trans hvsa
  obtain ⟨-, hvalue⟩ := (h _ hcarries.isValid).split hcarries ha hl
  have hzero : (slice (Base.write (x.withMac l (showByte (attr + k))).data attr zeroAuthenticator) 0
      (x.withMac l (showByte (attr + k))).getLength).getD (attr + k) 0 = 0 := by
    have hwhole : (x.withMac l (showByte (attr + k))).getLength = x.getLength := hlength
    have hinside : attr + k < attr + zeroAuthenticator.length := Nat.add_lt_add_left hk attr
    rw [hwhole, slice_getD _ _ hin, Nat.zero_add, write_of_inside (Nat.le_add_right attr k) hinside,
      Nat.add_sub_cancel_left]
    exact List.getD_replicate _ hk
  have hshort : 20 ≤ (slice (Base.write (x.withMac l (showByte (attr + k))).data attr
      zeroAuthenticator) 0 (x.withMac l (showByte (attr + k))).getLength).length := by
    have hwhole : (x.withMac l (showByte (attr + k))).getLength = x.getLength := hlength
    rwa [slice_length, hwhole]
  rw [hattr, ← hmacMd5_eq, hmacMd5_showByte _ hshort, hzero] at hvalue
  have hbyte : x.data (attr + k) = 0 :=
    (List.replicate_right_inj (by decide)).mp (hmac.symm.trans hvalue)
  have hvaluek : a.value[k] = x.data (attr + k) := by
    rw [← slice_getElem x.data attr 16 k (by rwa [slice_length])]
    simp only [hold]
  rw [hvaluek, hbyte]
  exact (List.getElem_replicate ..).symm

/-- A request whose copies are signed, as far as they are sent under the empty secret, is
signable. -/
private theorem Carries.signable (has : request.Carries as)
    (hcode : request.getCode ≠ accountingRequest)
    (h : ∀ md5 e q, copyFor md5 request [] 0 (fun _ => 0) (fun _ => 0) = .ok (e, q) →
      q.isValid = true → Signed md5 [] e q) : request.Signable := by
  by_cases hfits : request.PasswordFits
  · refine Or.inr ⟨as, has.attributes, ?_⟩
    obtain ⟨e, bs, _, hencrypted, hcopy⟩ := has.exists_extended hcode hfits 0 (fun _ => 0)
      fun _ => 0
    have hauth : authenticators bs = authenticators as := hencrypted.replaced.authenticators
    have hextended := hencrypted.carries.extended
    rcases hextended.setup rfl with ⟨hnone, -⟩ | ⟨l, a, r, hcs, ha, hl, hsetup⟩
    · -- There is nothing to write into.
      rw [← authenticators_eq_nil] at hnone
      by_cases hroom : e.getLength + 18 ≤ maxPduLength
      · rw [if_pos hroom, authenticators_append] at hnone
        cases (List.append_eq_nil_iff.mp hnone).2
      · rw [if_neg hroom, hauth] at hnone
        exact Or.inl hnone
    · rw [← authenticators_eq_nil] at hl
      have hx := hextended.carries
      rw [hcs] at hx
      have hsigned (mac : List UInt8 → Vector UInt8 16) := h (hashBy mac) e _ (by
        rw [(hcopy mac).2, hsetup]
        rfl)
      obtain ⟨hr, hlong⟩ := only_of_signed hx ha hl hsigned
      have hempty := empty_of_signed hx ha hl hlong hsigned
      have hone : authenticators (l ++ a :: r) = [a] := by
        rw [(authenticators_split ha hl).1, hr]
      by_cases hroom : e.getLength + 18 ≤ maxPduLength
      · -- The attribute that was appended is the only one.
        rw [if_pos hroom] at hcs
        rw [← hcs, authenticators_append, hauth] at hone
        refine Or.inl (List.eq_nil_of_length_eq_zero ?_)
        have hcount := congrArg List.length hone
        rw [List.length_append] at hcount
        have hnew : (authenticators [emptyAuthenticator]).length = 1 := rfl
        rw [hnew] at hcount
        exact Nat.add_right_cancel hcount
      · rw [if_neg hroom] at hcs
        rw [← hcs, hauth] at hone
        refine Or.inr ⟨?_, by rw [← hencrypted.length]; exact Nat.not_le.mp hroom⟩
        rw [hone]
        obtain ⟨type, value⟩ := a
        cases ha
        cases hempty
        rfl
  · exact Or.inl hfits

end RadiusPDU

namespace RadiusClient

variable {S A H : Type} [DecidableEq A] [Inhabited S] [Inhabited A] [Inhabited H] {md5 : Md5}
  {request e q : RadiusPDU}

/-- A client with one server and no secret. -/
def plainClient : RadiusClient H := ⟨[⟨default, 0, 0, []⟩], [], 1812, 1813, 1, false⟩

omit [DecidableEq A] [Inhabited S] [Inhabited A] in
/-- The client without a secret has none for any pass. -/
theorem secretAt_plainClient (i : ℕ) : (plainClient : RadiusClient H).secretAt i = some [] := by
  have hzero : i % [(⟨default, 0, 0, []⟩ : RadiusServer H)].length = 0 := Nat.mod_one i
  rw [secretAt, server, plainClient, hzero]
  rfl

/-- Nobody answers, and all random numbers are zero. -/
def silence : Environment S A H :=
  unanswered (fun _ _ => some default) (fun _ => some false) (fun _ => default) (fun _ _ => 0)

/-- A copy that can be sent is sent. -/
theorem exists_sent (hvalid : request.isValid = true)
    (hcopy : copyFor md5 request [] 0 (fun _ => 0) (fun _ => 0) = .ok (e, q))
    (hq : q.isValid = true) : ∃ t : Transmission S A,
      t ∈ (makeRequest (silence (H := H)) md5 request plainClient none).log ∧ t.secret = [] ∧
      t.encrypted = e ∧ t.pdu = q := by
  have hcopies : Sendable (silence (S := S) (A := A) (H := H)) md5 request plainClient := by
    intro i j secret hi
    cases (secretAt_plainClient i).symm.trans hi
    exact ⟨e, q, hcopy, hq⟩
  obtain ⟨t, hvisit, -, hid, hlog, -⟩ := visit_silent silent_unanswered hcopies
    (secretAt_plainClient 0) rfl Nat.one_pos (fun _ _ => rfl) ⟨none, none⟩ (by simp)
  have hmem : t ∈ (makeRequest (silence (H := H)) md5 request plainClient none).log := by
    rw [log_makeRequest hvalid]
    exact Exec.mem_log_bind_left hlog
  have hmade := made_of_mem hmem
  have hempty : t.secret = [] := Option.some.inj (hmade.secret.symm.trans (secretAt_plainClient _))
  have hsame := hmade.copy
  rw [hempty, hid] at hsame
  obtain ⟨he, hq'⟩ := Prod.mk.inj (Except.ok.inj (hcopy.symm.trans hsame))
  exact ⟨t, hmem, hempty, he.symm, hq'.symm⟩

/-- A request all of whose transmissions are signed is signable. -/
theorem signable_of_signed (hvalid : request.isValid = true)
    (hcode : request.getCode ≠ RadiusPDU.accountingRequest)
    (h : ∀ md5 (env : Environment S A H) c responsePdu,
      ∀ t ∈ (makeRequest env md5 request c responsePdu).log,
        RadiusPDU.Signed md5 t.secret t.encrypted t.pdu) : request.Signable := by
  obtain ⟨as, has⟩ := RadiusPDU.isValid_iff.mp hvalid
  refine has.signable hcode fun md5 e q hcopy hq => ?_
  obtain ⟨t, ht, hsecret, rfl, rfl⟩ := exists_sent (S := S) (A := A) (H := H) hvalid hcopy hq
  have hsigned := h md5 silence plainClient none t ht
  rwa [hsecret] at hsigned

/-- The transmissions of a request are signed exactly when it is signable. -/
theorem signed_iff_signable (hvalid : request.isValid = true)
    (hcode : request.getCode ≠ RadiusPDU.accountingRequest) :
    (∀ md5 (env : Environment S A H) c responsePdu,
      ∀ t ∈ (makeRequest env md5 request c responsePdu).log,
        RadiusPDU.Signed md5 t.secret t.encrypted t.pdu) ↔ request.Signable := by
  refine ⟨signable_of_signed hvalid hcode, fun hsignable md5 env c responsePdu t ht => ?_⟩
  obtain ⟨as, has⟩ := RadiusPDU.isValid_iff.mp hvalid
  obtain ⟨bs, hcopied⟩ := has.copied (made_of_mem ht).copy
  exact hcopied.signed_of_signable has hcode hsignable

end RadiusClient

/-- A request without attributes. -/
def bareRequest : RadiusPDU := .new (fun _ => 0) RadiusPDU.accessRequest 0

/-- A request with a name and a password. -/
def namedRequest : RadiusPDU :=
  bareRequest.build [.attrString RadiusAttr.userName (asciiBytes "alice"),
    .attrString RadiusAttr.userPassword (asciiBytes "secret")]

/-- The request with a name and a password is signable, so it is sent signed. -/
theorem signed_iff_signable_named : namedRequest.Signable ∧
    ((∀ md5 (env : Environment ℕ ℕ ℕ) c responsePdu,
      ∀ t ∈ (RadiusClient.makeRequest env md5 namedRequest c responsePdu).log,
        RadiusPDU.Signed md5 t.secret t.encrypted t.pdu) ↔ namedRequest.Signable) :=
  have hattrs : namedRequest.attributes = some
      [⟨RadiusAttr.userName, asciiBytes "alice"⟩, ⟨RadiusAttr.userPassword, asciiBytes "secret"⟩] := by
    decide +kernel
  ⟨Or.inr ⟨_, hattrs, Or.inl (by decide +kernel)⟩,
    RadiusClient.signed_iff_signable (by decide +kernel) (by decide +kernel)⟩

/-- A request with a message authenticator. -/
def authenticatedRequest : RadiusPDU :=
  ((RadiusPDU.new (fun _ => 0) RadiusPDU.accessRequest 0).appendAttrData
    RadiusAttr.messageAuthenticator RadiusPDU.zeroAuthenticator).2

/-- A request that carries a message authenticator is sent with two. -/
theorem not_signed_authenticatedRequest : ¬∀ md5 (env : Environment ℕ ℕ ℕ) c responsePdu,
    ∀ t ∈ (RadiusClient.makeRequest env md5 authenticatedRequest c responsePdu).log,
      RadiusPDU.Signed md5 t.secret t.encrypted t.pdu := by
  intro h
  have hcarries : authenticatedRequest.Carries [RadiusPDU.emptyAuthenticator] :=
    (RadiusPDU.carries_new (fun _ => 0) 0 (by decide)).extended.carries
  have hlength : authenticatedRequest.getLength = 38 := by decide +kernel
  rcases RadiusClient.signable_of_signed hcarries.isValid (by decide +kernel) h with
    hfull | ⟨as, has, hnone | ⟨-, hfull⟩⟩
  · refine hfull fun pwdAttr hattr => ?_
    have hfind : authenticatedRequest.findAttr RadiusAttr.userPassword = some none := by
      decide +kernel
    cases hfind.symm.trans hattr
  · cases hcarries.attributes.symm.trans has
    cases hnone
  · have hsame : authenticatedRequest.encryptedLength = 38 := by decide +kernel
    rw [hsame] at hfull
    exact absurd hfull (by decide)

end Dot1x.Radius
