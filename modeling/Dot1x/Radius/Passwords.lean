import Dot1x.Base.Blocks
import Dot1x.Radius.Copies

/-!
# Hidden passwords

Encrypting the password of a packet, as the loops do it: blocks of 16 bytes are combined with
digests byte-wise or dword-wise, as their addresses require, and the attributes are moved byte by
byte. This is what the packet makes of itself whatever the addresses are.

A password is hidden in the sense of RFC 2865, and can be revealed with the secret, if it has at
most 240 bytes. The length of a longer one, with its header, does not fit the byte for it: the
attribute is said to have no value. All else in the packet stays as it was in either case.
-/

namespace Dot1x.Radius

open Dot1x.Base

/-- Where a packet is, and where its digests are. -/
structure Addresses where
  data : ℕ
  digest : ℕ → ℕ

/-- XOR 16 bytes with a digest, byte-wise. -/
def xorBytes (m : Mem) (buf : ℕ) (digest : Vector UInt8 16) : Mem :=
  mixLoop (List.zipWith (· ^^^ ·)) 1 16 m buf digest.toList

/-- XOR 16 bytes with a digest, dword-wise. -/
def xorDwords (m : Mem) (buf : ℕ) (digest : Vector UInt8 16) : Mem :=
  mixLoop (fun b k => leBytes 4 (leValue b ^^^ leValue k)) 4 4 m buf digest.toList

/-- XOR either byte-wise or dword-wise. -/
def xorAligned (bufAddress digestAddress : ℕ) (m : Mem) (buf : ℕ) (digest : Vector UInt8 16) :
    Mem :=
  if digestAddress &&& 3 ≠ 0 ∨ bufAddress &&& 3 ≠ 0 then xorBytes m buf digest
  else xorDwords m buf digest

/-- Encrypt the blocks from the `k`-th on, each with a digest of the one before it. -/
def encryptBlocks (addresses : Addresses) (md5 : Md5) (secret : List UInt8) :
    ℕ → ℕ → Mem → ℕ → Mem
  | 0, _, m, _ => m
  | n + 1, k, m, buf =>
    encryptBlocks addresses md5 secret n (k + 1) (xorAligned (addresses.data + buf)
      (addresses.digest k) m buf (md5 (secret ++ slice m (buf - 16) 16))) (buf + 16)

namespace RadiusPDU

/-- The encrypted password, behind the last attribute. -/
def placeEncPwd (p : RadiusPDU) (addresses : Addresses) (md5 : Md5) (secret : List UInt8)
    (pwdAttr : ℕ) : Mem :=
  let digest := md5 (secret ++ p.getAuthenticator)
  let origPwdLength := RadiusAttr.getValueLength p.data pwdAttr
  let encPwdLength := encPwdLength origPwdLength
  let encPwdAttr := p.getLength
  let m := Base.write p.data encPwdAttr [RadiusAttr.userPassword,
    UInt8.ofNat (encPwdLength + RadiusAttr.fixedHeaderLength)]
  let m := Base.write m (encPwdAttr + 2) (List.replicate encPwdLength 0)
  let m := Base.write m (encPwdAttr + 2) (slice m (pwdAttr + 2) origPwdLength)
  let m := xorAligned (addresses.data + (encPwdAttr + 2)) (addresses.digest 0) m (encPwdAttr + 2)
    digest
  encryptBlocks addresses md5 secret (encPwdLength / 16 - 1) 1 m (encPwdAttr + 2 + 16)

/-- What is behind an attribute, and the attribute at the end, is copied over it. -/
def moveOver (p : RadiusPDU) (attr last : ℕ) : RadiusPDU :=
  let q := p.setLength (last + RadiusAttr.getLength p.data last - RadiusAttr.getLength p.data attr)
  ⟨copyAscending q.data attr (attr + RadiusAttr.getLength p.data attr)
    (last - attr + RadiusAttr.getLength p.data last - RadiusAttr.getLength p.data attr)⟩

/-- `EncryptPasswords`, with the addresses that the alignment of the blocks depends on. -/
def encryptPasswordsAt (p : RadiusPDU) (addresses : Addresses) (md5 : Md5)
    (secret : List UInt8) : Option (Bool × RadiusPDU) :=
  (p.findAttr RadiusAttr.userPassword).map fun
    | none => (true, p)
    | some pwdAttr =>
      let len := p.getLength
      if maxPduLength < len + encPwdLength (RadiusAttr.getValueLength p.data pwdAttr) +
          RadiusAttr.fixedHeaderLength then (false, p)
      else (true, (RadiusPDU.mk (p.placeEncPwd addresses md5 secret pwdAttr)).moveOver pwdAttr len)

end RadiusPDU

/-- The bytewise branch is the XOR of a block. -/
private theorem xorBytes_eq (m : Mem) (buf : ℕ) (digest : Vector UInt8 16) :
    xorBytes m buf digest = xorBlock m buf digest :=
  mixLoop_eq (fun _ _ _ _ => rfl) digest.size_toArray

/-- The branch that goes by double words is the XOR of a block as well. -/
private theorem xorDwords_eq (m : Mem) (buf : ℕ) (digest : Vector UInt8 16) :
    xorDwords m buf digest = xorBlock m buf digest := by
  refine mixLoop_eq (fun b k hb hk => ?_) digest.size_toArray
  have hleft := leBytes_leValue b
  have hright := leBytes_leValue k
  rw [hb] at hleft
  rw [hk] at hright
  rw [leBytes_xor, hleft, hright]

/-- Both branches do the same. -/
theorem xorAligned_eq (bufAddress digestAddress : ℕ) (m : Mem) (buf : ℕ)
    (digest : Vector UInt8 16) :
    xorAligned bufAddress digestAddress m buf digest = xorBlock m buf digest := by
  unfold xorAligned
  split
  · exact xorBytes_eq m buf digest
  · exact xorDwords_eq m buf digest

/-- The blocks are encrypted alike wherever the buffers are aligned. -/
theorem encryptBlocks_eq (addresses : Addresses) (md5 : Md5) (secret : List UInt8) (n k : ℕ)
    (m : Mem) (buf : ℕ) :
    encryptBlocks addresses md5 secret n k m buf = encryptLoop md5 secret n m buf := by
  induction n generalizing k m buf with
  | zero => rfl
  | succ n ih => rw [encryptBlocks, encryptLoop, xorAligned_eq, ih]

/-- The password, with zero bytes behind it. -/
def padPassword (password : List UInt8) : List UInt8 :=
  password ++ List.replicate (RadiusPDU.encPwdLength password.length - password.length) 0

/-- What a block is combined with: the digest of the secret and the block before it. -/
def blockDigest (md5 : Md5) (secret previous : List UInt8) : List UInt8 :=
  (md5 (secret ++ previous)).toList

/-- The digest of a block takes 16 bytes. -/
theorem blockDigest_length (md5 : Md5) (secret previous : List UInt8) :
    (blockDigest md5 secret previous).length = 16 := Vector.length_toList

/-- How a password is hidden: every block is combined with the digest of the secret and the hidden
block before it, the first one with that of the secret and the authenticator. -/
def hidePassword (md5 : Md5) (secret authenticator password : List UInt8) : List UInt8 :=
  (hide (List.zipWith (· ^^^ ·)) (blockDigest md5 secret) authenticator
    (blocks 16 (RadiusPDU.encPwdLength password.length / 16) (padPassword password))).flatten

/-- How a hidden password is revealed. -/
def revealPassword (md5 : Md5) (secret authenticator value : List UInt8) : List UInt8 :=
  (reveal (List.zipWith (· ^^^ ·)) (blockDigest md5 secret) authenticator
    (blocks 16 (value.length / 16) value)).flatten

section Hiding

variable {md5 : Md5} {secret authenticator password : List UInt8}

/-- An encrypted password takes whole blocks, and one at least. -/
theorem encPwdLength_eq (n : ℕ) : RadiusPDU.encPwdLength n = 16 * max 1 ((n + 15) / 16) := by
  unfold RadiusPDU.encPwdLength
  split <;> omega

/-- The padded password is as long as the encrypted one. -/
theorem padPassword_length (password : List UInt8) :
    (padPassword password).length = RadiusPDU.encPwdLength password.length := by
  rw [padPassword, List.length_append, List.length_replicate, encPwdLength_eq]
  omega

/-- The blocks of the padded password take 16 bytes each. -/
theorem length_of_mem_padPassword {b : List UInt8} (hb : b ∈
    blocks 16 (RadiusPDU.encPwdLength password.length / 16) (padPassword password)) :
    b.length = 16 := by
  refine length_of_mem_blocks ?_ b hb
  rw [padPassword_length]
  exact Nat.mul_div_le _ 16

/-- The blocks of the padded password are all of it. -/
private theorem flatten_blocks_padPassword (password : List UInt8) :
    (blocks 16 (RadiusPDU.encPwdLength password.length / 16) (padPassword password)).flatten =
      padPassword password := by
  refine (flatten_blocks ..).trans (List.take_of_length_le ?_)
  rw [padPassword_length, encPwdLength_eq]
  omega

/-- The hidden blocks have 16 bytes, too. -/
theorem length_of_mem_hide (md5 : Md5) (secret authenticator password : List UInt8) :
    ∀ c ∈ hide (List.zipWith (· ^^^ ·)) (blockDigest md5 secret) authenticator
      (blocks 16 (RadiusPDU.encPwdLength password.length / 16) (padPassword password)),
      c.length = 16 := by
  apply forall_mem_hide
  intro b hb c
  rw [List.length_zipWith, length_of_mem_padPassword hb, blockDigest_length, Nat.min_self]

/-- The blocks of a hidden password. -/
private theorem blocks_hidePassword (md5 : Md5) (secret authenticator password : List UInt8) :
    blocks 16 (RadiusPDU.encPwdLength password.length / 16)
        (hidePassword md5 secret authenticator password) =
      hide (List.zipWith (· ^^^ ·)) (blockDigest md5 secret) authenticator
        (blocks 16 (RadiusPDU.encPwdLength password.length / 16) (padPassword password)) := by
  have hflatten := blocks_flatten (length_of_mem_hide md5 secret authenticator password)
  rwa [hide_length, blocks_length] at hflatten

/-- The hidden password is as long as the encrypted one. -/
theorem hidePassword_length (md5 : Md5) (secret authenticator password : List UInt8) :
    (hidePassword md5 secret authenticator password).length =
      RadiusPDU.encPwdLength password.length := by
  rw [hidePassword, flatten_length (length_of_mem_hide md5 secret authenticator password),
    hide_length, blocks_length, encPwdLength_eq]
  omega

/-- What is revealed is the password with zero bytes behind it. -/
theorem revealPassword_hidePassword (md5 : Md5) (secret authenticator password : List UInt8) :
    revealPassword md5 secret authenticator (hidePassword md5 secret authenticator password) =
      padPassword password := by
  rw [revealPassword, hidePassword_length, blocks_hidePassword, reveal_hide,
    flatten_blocks_padPassword]
  intro b hb c
  refine zipWith_xor_cancel ?_
  rw [length_of_mem_padPassword hb, blockDigest_length]

end Hiding

section InPlace

variable {md5 : Md5} {secret : List UInt8} {m : Mem} {buf : ℕ}

/-- The block is XORed with the digest. -/
private theorem slice_xorBlock (digest : Vector UInt8 16) : slice (xorBlock m buf digest) buf 16 =
    List.zipWith (· ^^^ ·) (slice m buf 16) digest.toList := by
  refine slice_write_eq ?_
  rw [List.length_zipWith, slice_length, Vector.length_toList, Nat.min_self]

/-- Behind the block nothing changes. -/
private theorem xorBlock_of_le {digest : Vector UInt8 16} {i : ℕ} (hi : buf + 16 ≤ i) :
    xorBlock m buf digest i = m i := by
  refine write_of_outside (Or.inr ?_)
  rw [List.length_zipWith, slice_length, Vector.length_toList, Nat.min_self]
  exact hi

/-- A block is hidden in place with any block before it, if the loop hides the blocks behind it. -/
theorem blocks_xorBlock (previous : List UInt8) (n : ℕ)
    (hloop : ∀ m' : Mem, blocks 16 n (slice (encryptLoop md5 secret n m' (buf + 16)) (buf + 16)
      (16 * n)) = hide (List.zipWith (· ^^^ ·)) (blockDigest md5 secret) (slice m' buf 16)
        (blocks 16 n (slice m' (buf + 16) (16 * n)))) :
    blocks 16 (n + 1) (slice (encryptLoop md5 secret n (xorBlock m buf (md5 (secret ++ previous)))
      (buf + 16)) buf (16 * (n + 1))) = hide (List.zipWith (· ^^^ ·)) (blockDigest md5 secret)
        previous (blocks 16 (n + 1) (slice m buf (16 * (n + 1)))) := by
  have hfirst : slice (encryptLoop md5 secret n (xorBlock m buf (md5 (secret ++ previous)))
      (buf + 16)) buf 16 = slice (xorBlock m buf (md5 (secret ++ previous))) buf 16 :=
    slice_congr fun i _ hi => RadiusPDU.encryptLoop_of_lt hi
  have hrest : slice (xorBlock m buf (md5 (secret ++ previous))) (buf + 16) (16 * n) =
      slice m (buf + 16) (16 * n) :=
    slice_congr fun i hi _ => xorBlock_of_le hi
  rw [blocks_slice, hloop, hfirst, slice_xorBlock, hrest, blocks_slice, hide]
  rfl

/-- The loop hides blocks in place. -/
private theorem blocks_encryptLoop (md5 : Md5) (secret : List UInt8) (n : ℕ) (m : Mem) (buf : ℕ) :
    blocks 16 n (slice (encryptLoop md5 secret n m (buf + 16)) (buf + 16) (16 * n)) =
      hide (List.zipWith (· ^^^ ·)) (blockDigest md5 secret) (slice m buf 16)
        (blocks 16 n (slice m (buf + 16) (16 * n))) := by
  induction n generalizing m buf with
  | zero => rfl
  | succ n ih =>
    rw [encryptLoop, Nat.add_sub_cancel]
    exact blocks_xorBlock (slice m buf 16) n fun m' => ih m' (buf + 16)

/-- Bytes are hidden in place. -/
private theorem slice_hidden (md5 : Md5) (secret previous : List UInt8) (n : ℕ) (m : Mem)
    (buf : ℕ) :
    slice (encryptLoop md5 secret n (xorBlock m buf (md5 (secret ++ previous))) (buf + 16)) buf
      (16 * (n + 1)) = (hide (List.zipWith (· ^^^ ·)) (blockDigest md5 secret) previous
        (blocks 16 (n + 1) (slice m buf (16 * (n + 1))))).flatten := by
  rw [← blocks_xorBlock previous n fun m' => blocks_encryptLoop md5 secret n m' buf,
    flatten_blocks, List.take_of_length_le (Nat.le_of_eq (slice_length ..))]

end InPlace

namespace RadiusPDU

variable {p q : RadiusPDU} {as l r : List Tlv} {a : Tlv} {md5 : Md5} {secret : List UInt8}
  {addresses : Addresses}

/-- Placing the password does not depend on the alignment. -/
theorem placeEncPwd_eq (p : RadiusPDU) (addresses : Addresses) (md5 : Md5) (secret : List UInt8)
    (pwdAttr : ℕ) :
    p.placeEncPwd addresses md5 secret pwdAttr = p.writeEncPwd md5 secret pwdAttr := by
  rw [placeEncPwd, writeEncPwd, encryptBlocks_eq, xorAligned_eq]

/-- Moving the attributes over the password is deleting it. -/
private theorem moveOver_eq (p : RadiusPDU) (attr last : ℕ) :
    p.moveOver attr last = p.deleteAttr attr last := by
  rw [moveOver, deleteAttr, copyAscending_eq (Nat.le_add_right attr _)]

/-- The addresses do not matter, nor does it that the attributes are moved byte by byte. -/
theorem encryptPasswordsAt_eq (p : RadiusPDU) (addresses : Addresses) (md5 : Md5)
    (secret : List UInt8) :
    p.encryptPasswordsAt addresses md5 secret = p.encryptPasswords md5 secret := by
  rw [encryptPasswordsAt, encryptPasswords]
  congr 1
  funext found
  cases found with
  | none => rfl
  | some pwdAttr => simp only [placeEncPwd_eq, moveOver_eq]

/-- What is behind the header of the new attribute before it is encrypted. -/
private theorem slice_padded (m : Mem) (start : ℕ) (password : List UInt8) :
    slice (Base.write (Base.write m start (List.replicate (encPwdLength password.length) 0)) start
      password) start (encPwdLength password.length) = padPassword password := by
  have hle : password.length ≤ encPwdLength password.length := by
    rw [encPwdLength_eq]
    omega
  exact slice_write_padded m start hle (Nat.le_refl _)

/-- What is encrypted in place is the password with zero bytes behind it. -/
private theorem slice_writeEncPwd {pwdAttr : ℕ} {password : List UInt8}
    (hlength : RadiusAttr.getValueLength p.data pwdAttr = password.length)
    (hpassword : slice p.data (pwdAttr + 2) password.length = password)
    (hend : pwdAttr + 2 + password.length ≤ p.getLength) :
    slice (p.writeEncPwd md5 secret pwdAttr) (p.getLength + 2) (encPwdLength password.length) =
      hidePassword md5 secret p.getAuthenticator password := by
  have hread : slice (Base.write (Base.write p.data p.getLength [RadiusAttr.userPassword,
      UInt8.ofNat (encPwdLength password.length + RadiusAttr.fixedHeaderLength)]) (p.getLength + 2)
        (List.replicate (encPwdLength password.length) 0)) (pwdAttr + 2) password.length =
      password := by
    rw [slice_write_disjoint (Or.inl (by omega)), slice_write_disjoint (Or.inl (by omega)),
      hpassword]
  obtain ⟨k, hk⟩ : ∃ k, encPwdLength password.length = 16 * (k + 1) := by
    refine ⟨max 1 ((password.length + 15) / 16) - 1, ?_⟩
    rw [encPwdLength_eq]
    omega
  have hcount : encPwdLength password.length / 16 = k + 1 := by omega
  rw [hidePassword, ← slice_padded (Base.write p.data p.getLength [RadiusAttr.userPassword,
    UInt8.ofNat (encPwdLength password.length + RadiusAttr.fixedHeaderLength)]) (p.getLength + 2),
    writeEncPwd, hlength]
  simp only [hread, hcount, Nat.add_sub_cancel]
  rw [hk]
  exact slice_hidden md5 secret p.getAuthenticator k _ (p.getLength + 2)

/-- The bytes of the value of an attribute, and where they end. -/
private theorem Carries.slice_value (h : p.Carries (l ++ a :: r)) :
    slice p.data (fixedHeaderLength + (Tlv.bytesAll l).length + 2) a.value.length = a.value ∧
      fixedHeaderLength + (Tlv.bytesAll l).length + 2 + a.value.length ≤ p.getLength := by
  obtain ⟨-, hread, hlength, hr⟩ := h.split
  have hlong : a.length = a.value.length + 2 := rfl
  have hend := hr.le
  refine ⟨?_, by omega⟩
  have hvalue : a.value = slice p.data (fixedHeaderLength + (Tlv.bytesAll l).length + 2)
      (RadiusAttr.getLength p.data (fixedHeaderLength + (Tlv.bytesAll l).length) - 2) :=
    congrArg Tlv.value hread
  rw [hlength, hlong, Nat.add_sub_cancel] at hvalue
  exact hvalue.symm

/-- The new attribute has as many bytes of the hidden password as its length says. -/
private theorem Carries.encPwd_value (h : p.Carries (l ++ a :: r))
    (htype : a.type = RadiusAttr.userPassword) (md5 : Md5) (secret : List UInt8) :
    (p.encPwd md5 secret (fixedHeaderLength + (Tlv.bytesAll l).length)).value =
      (hidePassword md5 secret p.getAuthenticator a.value).take
        ((encPwdLength a.value.length + 2) % 256 - 2) := by
  obtain ⟨hpassword, hend⟩ := h.slice_value
  have hlength := h.getValueLength_eq htype
  obtain ⟨hbyte, hencoded⟩ := p.encPwd_length md5 secret
    (fixedHeaderLength + (Tlv.bytesAll l).length)
  have hshort : (encPwdLength a.value.length + 2) % 256 - 2 ≤ encPwdLength a.value.length := by
    omega
  rw [hlength] at hencoded
  rw [← slice_writeEncPwd hlength hpassword hend, take_slice _ _ hshort]
  change slice _ _ (RadiusAttr.getLength _ _ - 2) = _
  rw [hbyte, hencoded]
  rfl

/-- What encrypting passwords does to a packet with attributes `as`. -/
inductive Encryption (p : RadiusPDU) (as : List Tlv) (md5 : Md5) (secret : List UInt8) :
    Bool × RadiusPDU → Prop
  | none (hnone : ∀ a ∈ as, a.type ≠ RadiusAttr.userPassword) : Encryption p as md5 secret (true, p)
  | refused {l r : List Tlv} {a : Tlv} (hattrs : as = l ++ a :: r)
      (htype : a.type = RadiusAttr.userPassword)
      (hfirst : ∀ x ∈ l, x.type ≠ RadiusAttr.userPassword)
      (hfull : maxPduLength < p.getLength + encPwdLength a.value.length + 2) :
      Encryption p as md5 secret (false, p)
  | replaced {l r : List Tlv} {a : Tlv} {q : RadiusPDU} (hattrs : as = l ++ a :: r)
      (htype : a.type = RadiusAttr.userPassword)
      (hfirst : ∀ x ∈ l, x.type ≠ RadiusAttr.userPassword)
      (hroom : p.getLength + encPwdLength a.value.length + 2 ≤ maxPduLength)
      (hcarries : q.Carries (l ++ r ++ [⟨RadiusAttr.userPassword,
        (hidePassword md5 secret p.getAuthenticator a.value).take
          ((encPwdLength a.value.length + 2) % 256 - 2)⟩]))
      (hheader : ∀ i, i < 20 → i ≠ 2 → i ≠ 3 → q.data i = p.data i) :
      Encryption p as md5 secret (true, q)

/-- Encrypting passwords has one of these outcomes, wherever the packet is. -/
theorem Carries.encryption (h : p.Carries as) (addresses : Addresses) (md5 : Md5)
    (secret : List UInt8) : ∃ outcome, p.encryptPasswordsAt addresses md5 secret = some outcome ∧
      p.Encryption as md5 secret outcome := by
  simp only [encryptPasswordsAt_eq]
  rcases h.findAttr_cases RadiusAttr.userPassword with
    ⟨hfind, hnone⟩ | ⟨l, a, r, rfl, htype, hfirst, hfind⟩
  · refine ⟨(true, p), ?_, .none hnone⟩
    rw [RadiusPDU.encryptPasswords, hfind]
    rfl
  · have hlength := h.getValueLength_eq htype
    by_cases hroom : p.getLength + encPwdLength a.value.length + 2 ≤ maxPduLength
    · obtain ⟨q, hq, hcarries, -, hheader⟩ :=
        h.encryptPasswords_of_found hfind (by rw [hlength]; exact hroom) md5 secret
      have hnew : p.encPwd md5 secret (fixedHeaderLength + (Tlv.bytesAll l).length) =
          ⟨RadiusAttr.userPassword, (hidePassword md5 secret p.getAuthenticator a.value).take
            ((encPwdLength a.value.length + 2) % 256 - 2)⟩ := by
        rw [← h.encPwd_value htype, ← (p.encPwd_stored md5 secret _).2.1]
      rw [hnew] at hcarries
      exact ⟨(true, q), hq, .replaced rfl htype hfirst hroom hcarries hheader⟩
    · refine ⟨(false, p), ?_, .refused rfl htype hfirst (Nat.not_le.mp hroom)⟩
      rw [RadiusPDU.encryptPasswords, hfind, Option.map_some]
      simp only [hlength, if_pos (Nat.not_le.mp hroom), RadiusAttr.fixedHeaderLength]

/-- The last attribute of a packet is a hidden password. -/
def PasswordHidden (md5 : Md5) (secret authenticator password : List UInt8) (q : RadiusPDU) :
    Prop :=
  ∃ as a, q.attributes = some (as ++ [a]) ∧ a.type = RadiusAttr.userPassword ∧
    a.value.length = 16 * max 1 ((password.length + 15) / 16) ∧
    revealPassword md5 secret authenticator a.value =
      password ++ List.replicate (a.value.length - password.length) 0

/-- The only password of some attributes is the one that is found. -/
theorem eq_of_filter_eq {t : UInt8} {b : Tlv} (hone : (l ++ a :: r).filter (·.type = t) = [b])
    (htype : a.type = t) (hfirst : ∀ x ∈ l, x.type ≠ t) : a = b := by
  have hnone : l.filter (·.type = t) = [] := List.filter_eq_nil_iff.mpr (by simpa using hfirst)
  rw [List.filter_append, hnone, List.nil_append,
    List.filter_cons_of_pos (by simpa using htype)] at hone
  exact (List.cons.inj hone).1

/-- No attribute of a valid packet has more than 253 bytes in its value. -/
theorem Carries.value_le (h : p.Carries (l ++ a :: r)) : a.value.length ≤ 253 := by
  obtain ⟨-, -, hlength, -⟩ := h.split
  have hbyte := (p.data (fixedHeaderLength + (Tlv.bytesAll l).length + 1)).toNat_lt
  change (p.data (fixedHeaderLength + (Tlv.bytesAll l).length + 1)).toNat = _ at hlength
  have hlong : a.length = a.value.length + 2 := rfl
  omega

/-- A password whose length fits its byte is hidden, and no other one is. -/
theorem passwordHidden_iff {as : List Tlv} {authenticator password : List UInt8}
    (hlong : password.length ≤ 253) (h : q.Carries (as ++ [⟨RadiusAttr.userPassword,
      (hidePassword md5 secret authenticator password).take
        ((encPwdLength password.length + 2) % 256 - 2)⟩])) :
    PasswordHidden md5 secret authenticator password q ↔ password.length ≤ 240 := by
  have hlength := encPwdLength_eq password.length
  constructor
  · rintro ⟨bs, b, hbs, -, hvalue, -⟩
    obtain ⟨-, hb⟩ := List.append_inj' (Option.some.inj (hbs.symm.trans h.attributes)) rfl
    cases hb
    rw [List.length_take, hidePassword_length] at hvalue
    omega
  · intro hshort
    have hwhole : (hidePassword md5 secret authenticator password).take
        ((encPwdLength password.length + 2) % 256 - 2) =
          hidePassword md5 secret authenticator password := by
      refine List.take_of_length_le ?_
      rw [hidePassword_length]
      omega
    rw [hwhole] at h
    refine ⟨as, _, h.attributes, rfl, ?_, ?_⟩
    · rw [hidePassword_length, hlength]
    · rw [revealPassword_hidePassword, hidePassword_length, padPassword]

/-- Passwords are hidden exactly when they are short enough, unless there is no room for them. -/
theorem Encryption.hidden_iff {outcome : Bool × RadiusPDU} (h : p.Carries as)
    (hone : as.filter (·.type = RadiusAttr.userPassword) = [a])
    (houtcome : p.Encryption as md5 secret outcome) :
    (outcome.1 = true → PasswordHidden md5 secret p.getAuthenticator a.value outcome.2) ↔
      a.value.length ≤ 240 ∨ maxPduLength < p.getLength + 258 := by
  cases houtcome with
  | none hnone =>
    have hempty : as.filter (·.type = RadiusAttr.userPassword) = [] :=
      List.filter_eq_nil_iff.mpr (by simpa using hnone)
    cases hempty.symm.trans hone
  | @refused l r b hattrs htype hfirst hfull =>
    subst hattrs
    obtain rfl := eq_of_filter_eq hone htype hfirst
    have hlong := h.value_le
    have hlength := encPwdLength_eq b.value.length
    exact iff_of_true (fun hfalse => by cases hfalse) (Or.inr (by omega))
  | @replaced l r b q hattrs htype hfirst hroom hcarries =>
    subst hattrs
    obtain rfl := eq_of_filter_eq hone htype hfirst
    have hlong := h.value_le
    have hlength := encPwdLength_eq b.value.length
    have hhidden := passwordHidden_iff hlong hcarries
    constructor
    · intro hall
      exact Or.inl (hhidden.mp (hall rfl))
    · rintro hwhen -
      refine hhidden.mpr (hwhen.elim id fun hfull => ?_)
      omega

/-- Encrypting passwords hides the only password of a valid packet in the sense of RFC 2865, and
does so whatever the addresses are, exactly when the password has at most 240 bytes or is refused
for want of room. -/
theorem encryptPasswords_hides_iff {as : List Tlv} (hvalid : p.isValid = true)
    (hattrs : p.attributes = some as)
    (hone : as.filter (·.type = RadiusAttr.userPassword) = [a]) (addresses : Addresses)
    (md5 : Md5) (secret : List UInt8) :
    (∀ q, p.encryptPasswordsAt addresses md5 secret = some (true, q) →
        PasswordHidden md5 secret p.getAuthenticator a.value q) ∧
      (∀ addresses' : Addresses, p.encryptPasswordsAt addresses' md5 secret =
        p.encryptPasswordsAt addresses md5 secret) ↔
    a.value.length ≤ 240 ∨ maxPduLength < p.getLength + 258 := by
  obtain ⟨bs, h⟩ := isValid_iff.mp hvalid
  obtain rfl := Option.some.inj (hattrs.symm.trans h.attributes)
  obtain ⟨outcome, hrun, houtcome⟩ := h.encryption addresses md5 secret
  have hsame (addresses' : Addresses) : p.encryptPasswordsAt addresses' md5 secret =
      p.encryptPasswordsAt addresses md5 secret := by
    rw [encryptPasswordsAt_eq, encryptPasswordsAt_eq]
  rw [← houtcome.hidden_iff h hone, hrun, and_iff_left (hrun ▸ hsame)]
  constructor
  · intro hall htrue
    obtain ⟨done, q⟩ := outcome
    cases htrue
    exact hall q rfl
  · rintro hall q hq
    cases hq
    exact hall rfl

/-- A request with a password only. -/
def withPassword (password : List UInt8) : RadiusPDU :=
  (new (fun _ => 0) accessRequest 0).build [.attrData RadiusAttr.userPassword password]

/-- The packet carries the password it was made with. -/
theorem carries_withPassword {password : List UInt8} (h : password.length ≤ 253) :
    (withPassword password).Carries [⟨RadiusAttr.userPassword, password⟩] := by
  have hnew := carries_new (fun _ => 0) 0 (show accessRequest ≠ invalid by decide)
  have hadmissible : ∀ op ∈ [AppendOp.attrData RadiusAttr.userPassword password],
      op.Admissible := by
    rintro op hop
    obtain rfl := List.mem_singleton.mp hop
    exact fun ht => by cases ht
  have hacceptable : (AppendOp.attrData RadiusAttr.userPassword password).Acceptable :=
    ⟨id, Nat.add_le_add_right h 2⟩
  have hlength : (new (fun _ => 0) accessRequest 0).getLength = 20 := hnew.stored.end_eq
  have hroom : 20 + 255 * 1 ≤ 4096 := by decide
  have hbuilt := hnew.build hadmissible (hlength.symm ▸ hroom)
  rw [AppendOp.appended, List.filter_cons_of_pos (by simpa using hacceptable)] at hbuilt
  exact hbuilt

/-- The password `abc` is hidden. -/
theorem encryptPasswords_hides_abc :
    ((withPassword [97, 98, 99]).encryptPasswordsAt ⟨0, fun _ => 1⟩
        (fun _ => Vector.replicate 16 7) [1]).map (·.1) = some true ∧
      ∀ q, (withPassword [97, 98, 99]).encryptPasswordsAt ⟨0, fun _ => 1⟩
        (fun _ => Vector.replicate 16 7) [1] = some (true, q) →
          PasswordHidden (fun _ => Vector.replicate 16 7) [1]
            (withPassword [97, 98, 99]).getAuthenticator [97, 98, 99] q :=
  ⟨by decide +kernel, ((encryptPasswords_hides_iff (a := ⟨RadiusAttr.userPassword, [97, 98, 99]⟩)
    (carries_withPassword (by decide)).isValid (carries_withPassword (by decide)).attributes
    (by decide) ⟨0, fun _ => 1⟩ (fun _ => Vector.replicate 16 7) [1]).mpr
      (Or.inl (by decide))).1⟩

/-- A password of 241 bytes is not: the length of the new attribute is 258, which its byte holds
as 2. -/
theorem not_encryptPasswords_hides_long : ¬∀ (p : RadiusPDU) (as : List Tlv) (a : Tlv)
    (addresses : Addresses) (md5 : Md5) (secret : List UInt8), p.isValid = true →
    p.attributes = some as → as.filter (·.type = RadiusAttr.userPassword) = [a] →
    (∀ q, p.encryptPasswordsAt addresses md5 secret = some (true, q) →
        PasswordHidden md5 secret p.getAuthenticator a.value q) ∧
      ∀ addresses' : Addresses, p.encryptPasswordsAt addresses' md5 secret =
        p.encryptPasswordsAt addresses md5 secret := by
  intro hall
  obtain ⟨password, hlong⟩ : ∃ password : List UInt8, password.length = 241 :=
    ⟨List.replicate 241 0, List.length_replicate⟩
  have h := carries_withPassword (hlong.trans_le (by decide))
  have hone : [(⟨RadiusAttr.userPassword, password⟩ : Tlv)].filter
      (·.type = RadiusAttr.userPassword) = [⟨RadiusAttr.userPassword, password⟩] := by
    simp
  obtain ⟨hhidden, -⟩ := hall _ _ _ ⟨0, fun _ => 0⟩ (fun _ => Vector.replicate 16 0) []
    h.isValid h.attributes hone
  obtain ⟨⟨done, q⟩, hrun, houtcome⟩ :=
    h.encryption ⟨0, fun _ => 0⟩ (fun _ => Vector.replicate 16 0) []
  have hlength : (withPassword password).getLength = 20 + (241 + 2) := by
    rw [h.stored.end_eq, ← hlong, Tlv.bytesAll, List.flatMap_singleton]
    rfl
  rcases (houtcome.hidden_iff h hone).mp fun hdone => by
      cases hdone
      exact hhidden q hrun with hshort | hfull
  · rw [hlong] at hshort
    exact absurd hshort (by decide)
  · rw [hlength] at hfull
    exact absurd hfull (by decide)

/-- What encrypting passwords leaves alone. -/
structure OthersKept (p : RadiusPDU) (as : List Tlv) (q : RadiusPDU) : Prop where
  valid : q.isValid = true
  code : q.getCode = p.getCode
  id : q.getId = p.getId
  authenticator : q.getAuthenticator = p.getAuthenticator
  attributes : ∃ new, q.attributes =
    some (as.eraseP (·.type = RadiusAttr.userPassword) ++ new) ∧ new.length ≤ 1

/-- Encrypting keeps everything else if it succeeds. -/
theorem Encryption.othersKept {as : List Tlv} {outcome : Bool × RadiusPDU} (h : p.Carries as)
    (houtcome : p.Encryption as md5 secret outcome) (hdone : outcome.1 = true) :
    p.OthersKept as outcome.2 := by
  cases houtcome with
  | none hnone =>
    refine ⟨h.isValid, rfl, rfl, rfl, [], ?_, Nat.zero_le 1⟩
    rw [List.append_nil, List.eraseP_of_forall_not (by simpa using hnone)]
    exact h.attributes
  | refused => cases hdone
  | @replaced l r a q hattrs htype hfirst _ hcarries hheader =>
    have herase : as.eraseP (·.type = RadiusAttr.userPassword) = l ++ r := by
      rw [hattrs, List.eraseP_append_right _ (by simpa using hfirst),
        List.eraseP_cons_of_pos (by simpa using htype)]
    have hnew := hcarries.attributes
    rw [← herase] at hnew
    refine ⟨hcarries.isValid, hheader 0 (by decide) (by decide) (by decide),
      hheader 1 (by decide) (by decide) (by decide), slice_congr fun i hi hi' => ?_,
      ⟨_, hnew, Nat.le_refl 1⟩⟩
    have hlow : 4 ≤ i := hi
    have hhigh : i < 4 + 16 := hi'
    exact hheader i (by omega) (by omega) (by omega)

/-- Encrypting passwords always returns. If it succeeds, the packet is valid and has all its other
attributes, in their order, and the same header but for the length; otherwise it is as it was. -/
theorem encryptPasswords_frame {as : List Tlv} (hvalid : p.isValid = true)
    (hattrs : p.attributes = some as) (addresses : Addresses) (md5 : Md5)
    (secret : List UInt8) : ∃ done q,
      p.encryptPasswordsAt addresses md5 secret = some (done, q) ∧
      (done = true → p.OthersKept as q) ∧
      (done = false → q.getLength = p.getLength ∧ ∀ i, i < p.getLength → q.data i = p.data i) := by
  obtain ⟨bs, h⟩ := isValid_iff.mp hvalid
  obtain rfl := Option.some.inj (hattrs.symm.trans h.attributes)
  obtain ⟨⟨done, q⟩, hrun, houtcome⟩ := h.encryption addresses md5 secret
  refine ⟨done, q, hrun, fun hdone => houtcome.othersKept h hdone, fun hdone => ?_⟩
  cases houtcome with
  | none => cases hdone
  | refused => exact ⟨rfl, fun _ _ => rfl⟩
  | replaced => cases hdone

/-- A request with a name, a password and a port. -/
def withNamePort (name password : List UInt8) (port : UInt32) : RadiusPDU :=
  (new (fun _ => 0) accessRequest 0).build [.attrString RadiusAttr.userName name,
    .attrString RadiusAttr.userPassword password, .attrInt RadiusAttr.nasPort port]

/-- The password between a name and a port is encrypted, and the two are kept. -/
theorem encryptPasswords_frame_between :
    ((withNamePort [97] [120, 121, 122] 3).encryptPasswordsAt ⟨0, fun _ => 1⟩
      (fun _ => Vector.replicate 16 7) [1]).map (·.1) = some true ∧
    ∃ done q, (withNamePort [97] [120, 121, 122] 3).encryptPasswordsAt ⟨0, fun _ => 1⟩
      (fun _ => Vector.replicate 16 7) [1] = some (done, q) ∧
    (done = true → (withNamePort [97] [120, 121, 122] 3).OthersKept
      [⟨RadiusAttr.userName, [97]⟩, ⟨RadiusAttr.userPassword, [120, 121, 122]⟩,
        ⟨RadiusAttr.nasPort, [0, 0, 0, 3]⟩] q) ∧
    (done = false → q.getLength = (withNamePort [97] [120, 121, 122] 3).getLength ∧
      ∀ i, i < (withNamePort [97] [120, 121, 122] 3).getLength →
        q.data i = (withNamePort [97] [120, 121, 122] 3).data i) :=
  ⟨by decide +kernel, encryptPasswords_frame (by decide +kernel) (by decide +kernel)
    ⟨0, fun _ => 1⟩ (fun _ => Vector.replicate 16 7) [1]⟩

end RadiusPDU

end Dot1x.Radius
