import Dot1x.Base.Hmac
import Dot1x.Radius.AttributeStore

/-!
# Authenticators and passwords

What happens to a copy of a request before it is sent: the request authenticator is set, the
password is encrypted, and the message authenticator is put into its attribute. MD5 is an arbitrary
function.

An encrypted password is written behind the last attribute; then the attributes behind the old one
are moved over it.
-/

namespace Dot1x.Radius

open Dot1x.Base

/-- MD5 of the concatenation of all that was processed. -/
abbrev Md5 := List UInt8 → Vector UInt8 16

/-- `hmac_md5`; the pads have one byte more than they need. -/
def hmacMd5 (md5 : Md5) (text key : List UInt8) : List UInt8 :=
  let key := if 64 < key.length then (md5 key).toList else key
  let pad := key ++ List.replicate (65 - key.length) 0
  let k_ipad := (pad.take 64).map (· ^^^ 0x36)
  let k_opad := (pad.take 64).map (· ^^^ 0x5c)
  let digest := (md5 (k_ipad ++ text)).toList
  (md5 (k_opad ++ digest)).toList

/-- Encrypt 16 bytes in place. -/
def xorBlock (m : Mem) (buf : ℕ) (digest : Vector UInt8 16) : Mem :=
  write m buf (List.zipWith (· ^^^ ·) (slice m buf 16) digest.toList)

/-- Encrypt blocks, each with a digest of the one before it. -/
def encryptLoop (md5 : Md5) (secret : List UInt8) : ℕ → Mem → ℕ → Mem
  | 0, m, _ => m
  | n + 1, m, buf =>
    encryptLoop md5 secret n (xorBlock m buf (md5 (secret ++ slice m (buf - 16) 16))) (buf + 16)

namespace RadiusPDU

/-- `SetAuthenticator` with four random numbers. -/
def setRandomAuthenticator (p : RadiusPDU) (random : Fin 4 → UInt32) : RadiusPDU :=
  ⟨Base.write p.data authenticatorOffset
    ((List.finRange 4).flatMap fun k => leBytes 4 (random k).toNat)⟩

/-- `SetAuthenticator` with a secret. -/
def setAuthenticator (p : RadiusPDU) (md5 : Md5) (secret : List UInt8)
    (random : Fin 4 → UInt32) : RadiusPDU :=
  if p.getCode = accountingRequest then
    let pduLength := p.getLength
    let p : RadiusPDU :=
      ⟨Base.write p.data authenticatorOffset (List.replicate authenticatorLength 0)⟩
    ⟨Base.write p.data authenticatorOffset (md5 (slice p.data 0 pduLength ++ secret)).toList⟩
  else p.setRandomAuthenticator random

/-- The number of bytes of an encrypted password. -/
def encPwdLength (origPwdLength : ℕ) : ℕ :=
  if origPwdLength = 0 then 16 else (origPwdLength + 15) / 16 * 16

/-- The encrypted password, behind the last attribute. -/
def writeEncPwd (p : RadiusPDU) (md5 : Md5) (secret : List UInt8) (pwdAttr : ℕ) : Mem :=
  let digest := md5 (secret ++ p.getAuthenticator)
  let origPwdLength := RadiusAttr.getValueLength p.data pwdAttr
  let encPwdLength := encPwdLength origPwdLength
  let encPwdAttr := p.getLength
  let m := Base.write p.data encPwdAttr [RadiusAttr.userPassword,
    UInt8.ofNat (encPwdLength + RadiusAttr.fixedHeaderLength)]
  let m := Base.write m (encPwdAttr + 2) (List.replicate encPwdLength 0)
  let m := Base.write m (encPwdAttr + 2) (slice m (pwdAttr + 2) origPwdLength)
  let m := xorBlock m (encPwdAttr + 2) digest
  encryptLoop md5 secret (encPwdLength / 16 - 1) m (encPwdAttr + 2 + 16)

/-- Delete an attribute: what is behind it, and the attribute at the end, is moved over it. -/
def deleteAttr (p : RadiusPDU) (attr last : ℕ) : RadiusPDU :=
  let q := p.setLength (last + RadiusAttr.getLength p.data last - RadiusAttr.getLength p.data attr)
  ⟨Base.write q.data attr (slice q.data (attr + RadiusAttr.getLength p.data attr)
    (last - attr + RadiusAttr.getLength p.data last - RadiusAttr.getLength p.data attr))⟩

/-- `EncryptPasswords` -/
def encryptPasswords (p : RadiusPDU) (md5 : Md5) (secret : List UInt8) :
    Option (Bool × RadiusPDU) :=
  (p.findAttr RadiusAttr.userPassword).map fun
    | none => (true, p)
    | some pwdAttr =>
      let len := p.getLength
      if maxPduLength < len + encPwdLength (RadiusAttr.getValueLength p.data pwdAttr) +
          RadiusAttr.fixedHeaderLength then (false, p)
      else (true, (RadiusPDU.mk (p.writeEncPwd md5 secret pwdAttr)).deleteAttr pwdAttr len)

/-- `SetupMessageAuthenticator`; without an attribute to put it into there is nothing to write
to. -/
def setupMessageAuthenticator (p : RadiusPDU) (md5 : Md5) (secret : List UInt8) :
    Option RadiusPDU :=
  let p := (p.appendAttrData RadiusAttr.messageAuthenticator
    (List.replicate messageAuthenticatorLength 0)).2
  let buf := hmacMd5 md5 (slice p.data 0 p.getLength) secret
  match p.findAttr RadiusAttr.messageAuthenticator with
  | some (some msgAuthAttr) => some ⟨Base.write p.data (msgAuthAttr + 2) buf⟩
  | _ => none

/-- `VerifyResponseAuthenticator` -/
def verifyResponseAuthenticator (md5 : Md5) (request response : RadiusPDU)
    (secret : List UInt8) : Bool :=
  let len := response.getLength
  let digest := md5 (slice response.data 0 authenticatorOffset ++ request.getAuthenticator ++
    (if fixedHeaderLength < len then
      slice response.data fixedHeaderLength (len - fixedHeaderLength) else []) ++ secret)
  digest.toList = response.getAuthenticator

end RadiusPDU

/-- The code computes the keyed hash over blocks of 64 bytes. -/
theorem hmacMd5_eq (md5 : Md5) (text key : List UInt8) :
    hmacMd5 md5 text key = hmac (fun bytes => (md5 bytes).toList) 64 key text := by
  have hpad (key : List UInt8) (hkey : key.length ≤ 64) :
      (key ++ List.replicate (65 - key.length) 0).take 64 =
        key ++ List.replicate (64 - key.length) (0 : UInt8) := by
    rw [List.take_append, List.take_of_length_le hkey, List.take_replicate]
    congr 2
    omega
  simp only [hmacMd5, hmac, hmacKey]
  split
  · have hshort : (md5 key).toList.length ≤ 64 := by simp
    rw [hpad _ hshort]
  · rename_i hshort
    rw [hpad _ (Nat.not_lt.mp hshort)]

/-- A keyed hash takes 16 bytes. -/
@[simp] theorem hmacMd5_length (md5 : Md5) (text key : List UInt8) :
    (hmacMd5 md5 text key).length = 16 := by
  simp [hmacMd5]

namespace RadiusPDU

variable {p q : RadiusPDU} {as : List Tlv} {md5 : Md5} {secret : List UInt8} {i : ℕ}

/-- The identifier and the authenticator have no part in what a packet carries. -/
theorem Carries.of_header (h : p.Carries as)
    (hsame : ∀ i, i < p.getLength → i ≠ 1 → (i < 4 ∨ 20 ≤ i) → q.data i = p.data i) :
    q.Carries as := by
  have hlow : 20 ≤ p.getLength := h.stored.le
  have hlength : q.getLength = p.getLength := getLength_congr
    (hsame 2 (by omega) (by decide) (by decide)) (hsame 3 (by omega) (by decide) (by decide))
  have hcode : q.getCode = p.getCode := hsame 0 (by omega) (by decide) (by decide)
  refine ⟨hcode ▸ h.code, hlength ▸ h.bound, ?_, h.valid⟩
  rw [hlength]
  refine h.stored.congr fun i hi hi' => ?_
  have hi : 20 ≤ i := hi
  exact hsame i hi' (by omega) (by omega)

/-- A copy of a valid packet holds the same bytes. -/
theorem Carries.copyContents (h : p.Carries as) (old : RadiusPDU) (hi : i < p.getLength) :
    (old.copyContents p).data i = p.data i := by
  have hlow : 20 ≤ p.getLength := h.stored.le
  have hfirst (i : ℕ) (hi : i < 20) :
      Base.write old.data 0 (slice p.data 0 fixedHeaderLength) i = p.data i := by
    rw [write_of_inside (Nat.zero_le i) (by rw [slice_length, Nat.zero_add]; exact hi),
      Nat.sub_zero, List.getD_eq_getElem _ _ (by rw [slice_length]; exact hi), slice_getElem,
      Nat.zero_add]
  have hlength : (RadiusPDU.mk (Base.write old.data 0
      (slice p.data 0 fixedHeaderLength))).getLength = p.getLength :=
    getLength_congr (hfirst 2 (by decide)) (hfirst 3 (by decide))
  have hgood : ¬(p.getLength < minPduLength || maxPduLength < p.getLength) = true := by
    simp only [Bool.or_eq_true, decide_eq_true_eq, not_or, Nat.not_lt]
    exact ⟨hlow, h.bound⟩
  simp only [RadiusPDU.copyContents, hlength, if_neg hgood]
  split
  · by_cases hi' : i < 20
    · exact (write_of_outside (Or.inl hi')).trans (hfirst i hi')
    · have hplace : 20 + (i - 20) = i := by omega
      refine (write_of_inside (Nat.not_lt.mp hi') ?_).trans ?_
      · rw [slice_length]
        change i < 20 + (p.getLength - 20)
        omega
      · rw [List.getD_eq_getElem _ _ (by rw [slice_length]; change i - 20 < p.getLength - 20; omega),
          slice_getElem]
        exact congrArg p.data hplace
  · rename_i hshort
    have hshort : ¬20 < p.getLength := hshort
    exact hfirst i (by omega)

/-- Setting the identifier changes its byte only. -/
theorem setId_data {newId : UInt8} (hi : i ≠ 1) : (p.setId newId).data i = p.data i :=
  write_of_outside (by rw [List.length_singleton]; omega)

/-- An identifier that is set is read back. -/
@[simp] theorem getId_setId {newId : UInt8} : (p.setId newId).getId = newId :=
  write_singleton_self p.data 1 newId

/-- Setting the authenticator changes nothing else. -/
theorem setAuthenticator_data {random : Fin 4 → UInt32} (hi : i < 4 ∨ 20 ≤ i) :
    (p.setAuthenticator md5 secret random).data i = p.data i := by
  unfold setAuthenticator
  split
  · refine (write_of_outside ?_).trans (write_of_outside ?_)
    · simpa [authenticatorOffset] using hi
    · simpa [authenticatorOffset, authenticatorLength] using hi
  · refine write_of_outside ?_
    have hlength : ((List.finRange 4).flatMap fun k => leBytes 4 (random k).toNat).length = 16 := by
      simp [List.length_flatMap]
    rw [hlength]
    exact hi

/-- Deleting an attribute, when another one was written behind the last. -/
theorem carries_deleteAttr {m : Mem} {l r : List Tlv} {a e : Tlv} {last : ℕ}
    (hcode : m 0 ≠ invalid)
    (hl : Tlv.Stored m fixedHeaderLength l (fixedHeaderLength + (Tlv.bytesAll l).length))
    (ha : RadiusAttr.getLength m (fixedHeaderLength + (Tlv.bytesAll l).length) = a.length)
    (hr : Tlv.Stored m (fixedHeaderLength + (Tlv.bytesAll l).length + a.length) r last)
    (he : Tlv.Stored m last [e] (last + e.length)) (hlast : RadiusAttr.getLength m last = e.length)
    (hbound : last + e.length ≤ maxPduLength + a.length)
    (hvalid : ∀ x ∈ l ++ r ++ [e], RadiusAttr.Valid x) :
    ((RadiusPDU.mk m).deleteAttr (fixedHeaderLength + (Tlv.bytesAll l).length) last).Carries
        (l ++ r ++ [e]) ∧
      ((RadiusPDU.mk m).deleteAttr (fixedHeaderLength + (Tlv.bytesAll l).length) last).getLength =
        last + e.length - a.length ∧
      ∀ i, i < 20 → i ≠ 2 → i ≠ 3 → ((RadiusPDU.mk m).deleteAttr
        (fixedHeaderLength + (Tlv.bytesAll l).length) last).data i = m i := by
  generalize hattr : fixedHeaderLength + (Tlv.bytesAll l).length = attr at *
  have hlow : 20 ≤ attr := hl.le
  have hmid := hr.le
  have hbound : last + e.length ≤ 4096 + a.length := hbound
  rw [deleteAttr, hlast, ha]
  have hset (i : ℕ) (hi : i < 2 ∨ 4 ≤ i) :
      ((RadiusPDU.mk m).setLength (last + e.length - a.length)).data i = m i := setLength_data hi
  have hlength : ((RadiusPDU.mk m).setLength (last + e.length - a.length)).getLength =
      last + e.length - a.length := getLength_setLength (by omega)
  generalize (RadiusPDU.mk m).setLength (last + e.length - a.length) = q at hset hlength ⊢
  have hbefore (i : ℕ) (hi : i < attr) : Base.write q.data attr
      (slice q.data (attr + a.length) (last - attr + e.length - a.length)) i = q.data i :=
    write_of_outside (Or.inl hi)
  have hmoved (i : ℕ) (hi : i < last + e.length - (attr + a.length)) : Base.write q.data attr
      (slice q.data (attr + a.length) (last - attr + e.length - a.length)) (attr + i) =
        m (attr + a.length + i) := by
    rw [write_of_inside (by omega) (by rw [slice_length]; omega), Nat.add_sub_cancel_left,
      List.getD_eq_getElem _ _ (by rw [slice_length]; omega), slice_getElem, hset _ (by omega)]
  have hnew : (RadiusPDU.mk (Base.write q.data attr (slice q.data (attr + a.length)
      (last - attr + e.length - a.length)))).getLength = last + e.length - a.length := by
    rw [← hlength]
    exact getLength_congr (hbefore 2 (by omega)) (hbefore 3 (by omega))
  refine ⟨⟨?_, ?_, ?_, hvalid⟩, hnew, fun i hi h2 h3 => ?_⟩
  · have hsame : (RadiusPDU.mk (Base.write q.data attr (slice q.data (attr + a.length)
        (last - attr + e.length - a.length)))).getCode = m 0 :=
      (hbefore 0 (by omega)).trans (hset 0 (by omega))
    rwa [hsame]
  · rw [hnew]
    change _ ≤ 4096
    omega
  · have hend : attr + (last + e.length - (attr + a.length)) = last + e.length - a.length := by
      omega
    rw [hnew, ← hend, List.append_assoc]
    refine (hl.congr fun i hi hi' => ?_).append ((hr.append he).shift hmoved)
    have hi : 20 ≤ i := hi
    exact (hbefore i hi').trans (hset i (by omega))
  · exact (hbefore i (by omega)).trans (hset i (by omega))

/-- Before the block nothing changes. -/
theorem xorBlock_of_lt {m : Mem} {buf : ℕ} {digest : Vector UInt8 16} (hi : i < buf) :
    xorBlock m buf digest i = m i :=
  write_of_outside (Or.inl hi)

/-- Encrypting changes nothing before the password. -/
theorem encryptLoop_of_lt {n buf : ℕ} {m : Mem} (hi : i < buf) :
    encryptLoop md5 secret n m buf i = m i := by
  induction n generalizing m buf with
  | zero => rfl
  | succ n ih =>
    rw [encryptLoop, ih (by omega), xorBlock_of_lt hi]

/-- Up to the value of the encrypted password only its type and its length are written. -/
theorem writeEncPwd_data {pwdAttr : ℕ} (hi : i < p.getLength + 2) :
    p.writeEncPwd md5 secret pwdAttr i = Base.write p.data p.getLength [RadiusAttr.userPassword,
      UInt8.ofNat (encPwdLength (RadiusAttr.getValueLength p.data pwdAttr) +
        RadiusAttr.fixedHeaderLength)] i := by
  rw [writeEncPwd, encryptLoop_of_lt (by omega), xorBlock_of_lt hi, write_of_outside (Or.inl hi),
    write_of_outside (Or.inl hi)]

/-- The length of an encrypted password, as the byte for it holds it. -/
theorem two_le_encPwdLength_mod (n : ℕ) : 2 ≤ (encPwdLength n + 2) % 256 := by
  unfold encPwdLength
  split
  · decide
  · omega

/-- The attribute that is written behind the last one. -/
def encPwd (p : RadiusPDU) (md5 : Md5) (secret : List UInt8) (pwdAttr : ℕ) : Tlv :=
  Tlv.read (p.writeEncPwd md5 secret pwdAttr) p.getLength

/-- The length of the encrypted password is written as a byte. -/
theorem encPwd_length (p : RadiusPDU) (md5 : Md5) (secret : List UInt8) (pwdAttr : ℕ) :
    RadiusAttr.getLength (p.writeEncPwd md5 secret pwdAttr) p.getLength =
        (p.encPwd md5 secret pwdAttr).length ∧
      (p.encPwd md5 secret pwdAttr).length = (encPwdLength (RadiusAttr.getValueLength p.data pwdAttr) +
        RadiusAttr.fixedHeaderLength) % 256 := by
  have hlength : (p.writeEncPwd md5 secret pwdAttr (p.getLength + 1)).toNat =
      (encPwdLength (RadiusAttr.getValueLength p.data pwdAttr) +
        RadiusAttr.fixedHeaderLength) % 256 := by
    rw [writeEncPwd_data (by omega), write_of_inside (by omega) (by simp),
      Nat.add_sub_cancel_left]
    exact UInt8.toNat_ofNat'
  have hread : (p.encPwd md5 secret pwdAttr).length =
      (p.writeEncPwd md5 secret pwdAttr (p.getLength + 1)).toNat :=
    Tlv.length_read (hlength ▸ two_le_encPwdLength_mod _)
  exact ⟨hread.symm, hread.trans hlength⟩

/-- The encrypted password is an attribute behind the last one. -/
theorem encPwd_stored (p : RadiusPDU) (md5 : Md5) (secret : List UInt8) (pwdAttr : ℕ) :
    Tlv.Stored (p.writeEncPwd md5 secret pwdAttr) p.getLength [p.encPwd md5 secret pwdAttr]
        (p.getLength + (p.encPwd md5 secret pwdAttr).length) ∧
      (p.encPwd md5 secret pwdAttr).type = RadiusAttr.userPassword ∧
      ∀ i, i < p.getLength → p.writeEncPwd md5 secret pwdAttr i = p.data i := by
  have htype : p.writeEncPwd md5 secret pwdAttr p.getLength = RadiusAttr.userPassword := by
    rw [writeEncPwd_data (by omega), write_of_inside (by omega) (by simp), Nat.sub_self]
    rfl
  obtain ⟨hread, hlength⟩ := encPwd_length p md5 secret pwdAttr
  refine ⟨?_, htype, fun i hi => ?_⟩
  · have hlong : 2 ≤ RadiusAttr.getLength (p.writeEncPwd md5 secret pwdAttr) p.getLength := by
      rw [hread, hlength]
      exact two_le_encPwdLength_mod _
    rw [← hread]
    exact .cons hlong (.nil _)
  · rw [writeEncPwd_data (by omega), write_of_outside (Or.inl hi)]

/-- The first password, if there is one, is replaced by one at the end. -/
def PasswordReplaced (as bs : List Tlv) : Prop :=
  ((∀ a ∈ as, a.type ≠ RadiusAttr.userPassword) ∧ bs = as) ∨
    ∃ l a r e, as = l ++ a :: r ∧ a.type = RadiusAttr.userPassword ∧
      (∀ x ∈ l, x.type ≠ RadiusAttr.userPassword) ∧ e.type = RadiusAttr.userPassword ∧
      bs = l ++ r ++ [e]

/-- The length of a packet when its password is encrypted. -/
def encryptedLength (p : RadiusPDU) : ℕ :=
  match p.findAttr RadiusAttr.userPassword with
  | some (some pwdAttr) => p.getLength + (encPwdLength (RadiusAttr.getValueLength p.data pwdAttr) +
      RadiusAttr.fixedHeaderLength) % 256 - RadiusAttr.getLength p.data pwdAttr
  | _ => p.getLength

/-- What encrypting passwords makes of a packet. -/
structure EncryptedAs (p : RadiusPDU) (as : List Tlv) (q : RadiusPDU) (bs : List Tlv) : Prop where
  carries : q.Carries bs
  replaced : PasswordReplaced as bs
  length : q.getLength = p.encryptedLength
  header : ∀ i, i < 20 → i ≠ 2 → i ≠ 3 → q.data i = p.data i

/-- Encrypting a password for which there is room moves it to the end. -/
theorem Carries.encryptPasswords_of_found {l r : List Tlv} {a : Tlv}
    (h : p.Carries (l ++ a :: r)) (hfind : p.findAttr RadiusAttr.userPassword =
      some (some (fixedHeaderLength + (Tlv.bytesAll l).length)))
    (hroom : p.getLength + encPwdLength (RadiusAttr.getValueLength p.data
      (fixedHeaderLength + (Tlv.bytesAll l).length)) + RadiusAttr.fixedHeaderLength ≤ maxPduLength)
    (md5 : Md5) (secret : List UInt8) : ∃ q, p.encryptPasswords md5 secret = some (true, q) ∧
      q.Carries (l ++ r ++ [p.encPwd md5 secret (fixedHeaderLength + (Tlv.bytesAll l).length)]) ∧
      q.getLength = p.encryptedLength ∧ ∀ i, i < 20 → i ≠ 2 → i ≠ 3 → q.data i = p.data i := by
  obtain ⟨hl, -, ha, hr⟩ := h.split
  have hmid := hr.le
  have hlong : 2 ≤ a.length := Nat.le_add_left 2 _
  have hlength : p.encryptedLength = p.getLength + (encPwdLength (RadiusAttr.getValueLength
      p.data (fixedHeaderLength + (Tlv.bytesAll l).length)) +
        RadiusAttr.fixedHeaderLength) % 256 - a.length := by
    simp only [encryptedLength, hfind]
    rw [ha]
  obtain ⟨hlast, helength⟩ := encPwd_length p md5 secret
    (fixedHeaderLength + (Tlv.bytesAll l).length)
  obtain ⟨he, hetype, hsame⟩ := encPwd_stored p md5 secret
    (fixedHeaderLength + (Tlv.bytesAll l).length)
  have hfound : p.encryptPasswords md5 secret = some (true, (RadiusPDU.mk (p.writeEncPwd md5 secret
      (fixedHeaderLength + (Tlv.bytesAll l).length))).deleteAttr
        (fixedHeaderLength + (Tlv.bytesAll l).length) p.getLength) := by
    rw [RadiusPDU.encryptPasswords, hfind, Option.map_some]
    simp only [if_neg (Nat.not_lt.mpr hroom)]
  refine ⟨_, hfound, ?_⟩
  generalize p.encPwd md5 secret (fixedHeaderLength + (Tlv.bytesAll l).length) = e at *
  generalize p.writeEncPwd md5 secret (fixedHeaderLength + (Tlv.bytesAll l).length) = m at *
  have hlow : 20 ≤ fixedHeaderLength + (Tlv.bytesAll l).length := hl.le
  have hcode : m 0 ≠ invalid := (hsame 0 (by omega)).symm ▸ h.code
  have hshort := Nat.mod_le (encPwdLength (RadiusAttr.getValueLength p.data
    (fixedHeaderLength + (Tlv.bytesAll l).length)) + RadiusAttr.fixedHeaderLength) 256
  have hvalid : ∀ x ∈ l ++ r ++ [e], RadiusAttr.Valid x := by
    simp only [List.mem_append, List.mem_singleton]
    rintro x ((hx | hx) | rfl)
    · exact h.valid x (List.mem_append_left _ hx)
    · exact h.valid x (List.mem_append_right _ (List.mem_cons_of_mem _ hx))
    · intro hvsa
      cases hetype.symm.trans hvsa
  obtain ⟨hcarries, hnew, hheader⟩ := carries_deleteAttr (l := l) (r := r) (a := a) hcode
    (hl.congr fun i _ hi => hsame i (by omega))
    ((congrArg UInt8.toNat (hsame _ (by omega))).trans ha)
    (hr.congr fun i _ hi => hsame i hi) he hlast (by omega) hvalid
  exact ⟨hcarries, by rw [hnew, hlength, helength], fun i hi h2 h3 =>
    (hheader i hi h2 h3).trans (hsame i (by omega))⟩

/-- Encrypting passwords fails, or keeps the packet valid. -/
theorem Carries.encryptPasswords (h : p.Carries as) (md5 : Md5) (secret : List UInt8) :
    ∃ r, p.encryptPasswords md5 secret = some r ∧
      (r.1 = true → ∃ bs, p.EncryptedAs as r.2 bs) := by
  rcases h.findAttr_cases RadiusAttr.userPassword with
    ⟨hfind, hnone⟩ | ⟨l, a, r, rfl, htype, hfirst, hfind⟩
  · refine ⟨(true, p), by rw [RadiusPDU.encryptPasswords, hfind]; rfl, fun _ => ⟨as, h,
      Or.inl ⟨hnone, rfl⟩, ?_, fun _ _ _ _ => rfl⟩⟩
    simp only [encryptedLength, hfind]
  · by_cases hroom : p.getLength + encPwdLength (RadiusAttr.getValueLength p.data
        (fixedHeaderLength + (Tlv.bytesAll l).length)) + RadiusAttr.fixedHeaderLength ≤ maxPduLength
    · obtain ⟨q, hq, hcarries, hlength, hheader⟩ := h.encryptPasswords_of_found hfind hroom md5 secret
      have hetype := (encPwd_stored p md5 secret
        (fixedHeaderLength + (Tlv.bytesAll l).length)).2.1
      exact ⟨_, hq, fun _ => ⟨_, hcarries, Or.inr ⟨l, a, r, _, rfl, htype, hfirst, hetype, rfl⟩,
        hlength, hheader⟩⟩
    · refine ⟨(false, p), ?_, nofun⟩
      rw [RadiusPDU.encryptPasswords, hfind, Option.map_some]
      simp only [if_pos (Nat.not_le.mp hroom)]

end RadiusPDU

end Dot1x.Radius
