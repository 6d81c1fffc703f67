import Dot1x.Radius.FirstDatagram

/-!
# The authenticator of a request for accounting

The authenticator of a request for accounting is a digest over the packet and the secret. The code
computes it before the password is encrypted, so it is a digest over what is sent only if there is no
password to encrypt.
-/

namespace Dot1x.Radius

open Dot1x.Base

namespace RadiusPDU

variable {p q e request : RadiusPDU} {as bs : List Tlv} {md5 : Md5} {secret : List UInt8}
  {random : Fin 4 → UInt32}

/-- The packet with zeros in place of its authenticator. -/
def zeroed (p : RadiusPDU) : RadiusPDU :=
  ⟨Base.write p.data authenticatorOffset (List.replicate authenticatorLength 0)⟩

/-- The authenticator is the digest over the packet as it is sent, with zeros in its place, and the
secret. -/
def DigestOfSent (md5 : Md5) (secret : List UInt8) (p : RadiusPDU) : Prop :=
  p.getAuthenticator = (md5 (p.zeroed.datagram ++ secret)).toList

/-- A request without a password to encrypt: it has none, or it is not sent because there is no room
for it. -/
def NoPasswordSent (request : RadiusPDU) : Prop :=
  request.findAttr RadiusAttr.userPassword = some none ∨ ¬request.PasswordFits

/-- Clearing the authenticator changes nothing but the authenticator. -/
theorem zeroed_data {i : ℕ} (hi : i < 4 ∨ 20 ≤ i) : p.zeroed.data i = p.data i :=
  write_of_outside (by simpa [authenticatorOffset, authenticatorLength] using hi)

/-- The authenticator of a packet for accounting is the digest over it. -/
theorem digestOfSent_setAuthenticator (hcode : p.getCode = accountingRequest) (md5 : Md5)
    (secret : List UInt8) (random : Fin 4 → UInt32) :
    (p.setAuthenticator md5 secret random).zeroed.datagram = p.zeroed.datagram ∧
      DigestOfSent md5 secret (p.setAuthenticator md5 secret random) := by
  have hset : p.setAuthenticator md5 secret random =
      ⟨Base.write p.zeroed.data authenticatorOffset (md5 (p.zeroed.datagram ++ secret)).toList⟩ := by
    have hlength : p.zeroed.getLength = p.getLength :=
      getLength_congr (zeroed_data (by decide)) (zeroed_data (by decide))
    rw [setAuthenticator, if_pos hcode, datagram, hlength]
    rfl
  have hzeroed : (p.setAuthenticator md5 secret random).zeroed = p.zeroed := by
    have hlength : (md5 (p.zeroed.datagram ++ secret)).toList.length = 16 := Vector.length_toList
    rw [hset]
    refine congrArg RadiusPDU.mk (write_eq_write_of_outside fun i hi => ?_)
    exact (write_of_outside (by rw [hlength]; exact hi)).trans (write_of_outside hi)
  refine ⟨by rw [hzeroed], ?_⟩
  rw [DigestOfSent, hzeroed, hset]
  exact slice_write_eq (by rw [Vector.length_toList]; rfl)

/-- The first byte of the encrypted password. -/
private theorem writeEncPwd_first {pwdAttr : ℕ}
    (hpos : 0 < RadiusAttr.getValueLength p.data pwdAttr)
    (hbefore : pwdAttr + 2 < p.getLength) {b : UInt8}
    (hdigest : md5 (secret ++ p.getAuthenticator) = Vector.replicate 16 b) :
    p.writeEncPwd md5 secret pwdAttr (p.getLength + 2) = p.data (pwdAttr + 2) ^^^ b := by
  have hencrypt (m : Mem) (buf : ℕ) : xorBlock m buf (Vector.replicate 16 b) buf = m buf ^^^ b := by
    rw [xorBlock, write_of_inside (Nat.le_refl _) (by simp), Nat.sub_self, slice_succ,
      Vector.toList_replicate, List.replicate_succ, List.zipWith_cons_cons, List.getD_cons_zero]
  rw [writeEncPwd, encryptLoop_of_lt (by omega), hdigest, hencrypt,
    write_of_inside (Nat.le_refl _) (by rw [slice_length]; omega), Nat.sub_self,
    slice_getD _ _ hpos, Nat.add_zero, write_of_outside (Or.inl (by omega)),
    write_of_outside (Or.inl (by omega))]

/-- An encrypted password is not the password, if the digest is not zero. -/
private theorem Carries.encPwd_ne {l r : List Tlv} {a : Tlv} (h : p.Carries (l ++ a :: r))
    (ha : a.type = RadiusAttr.userPassword) {b : UInt8} (hb : b ≠ 0)
    (hdigest : md5 (secret ++ p.getAuthenticator) = Vector.replicate 16 b) :
    p.encPwd md5 secret (fixedHeaderLength + (Tlv.bytesAll l).length) ≠ a := by
  intro hsame
  have hvalue := h.getValueLength_eq ha
  have hold := h.value_eq
  obtain ⟨-, -, hbyte, hr⟩ := h.split
  have hend := hr.le
  have hlong : a.length = a.value.length + 2 := rfl
  have hshort : a.length < 256 := hbyte ▸ UInt8.toNat_lt _
  have hlength := (encPwd_length p md5 secret (fixedHeaderLength + (Tlv.bytesAll l).length)).2
  rw [hsame, hvalue] at hlength
  have hpos : 0 < a.value.length := by
    rw [Nat.pos_iff_ne_zero]
    intro hempty
    rw [hlong, hempty] at hlength
    cases hlength
  -- Both begin with the same byte, of which one is encrypted.
  have hfirst := writeEncPwd_first (by rwa [hvalue]) (by omega) hdigest
  have hnew : (p.encPwd md5 secret (fixedHeaderLength + (Tlv.bytesAll l).length)).value.getD 0 0 =
      p.writeEncPwd md5 secret (fixedHeaderLength + (Tlv.bytesAll l).length) (p.getLength + 2) := by
    have hpos' : 0 < (p.encPwd md5 secret
        (fixedHeaderLength + (Tlv.bytesAll l).length)).value.length := by
      rw [hsame]
      exact hpos
    rw [encPwd, Tlv.read, slice_length] at hpos'
    exact slice_getD _ _ hpos'
  have hbytes := congrArg (·.getD 0 0) hold
  rw [slice_getD _ _ hpos, Nat.add_zero] at hbytes
  rw [hsame, ← hbytes, hfirst] at hnew
  exact hb (UInt8.xor_right_inj _ |>.mp (hnew.symm.trans (UInt8.xor_zero).symm))

/-- Two lists that are one, with an element put before or behind it, begin with that element. -/
private theorem eq_of_cons_eq_append {α : Type} {a e : α} {r : List α} (h : a :: r = r ++ [e]) :
    a = e := by
  induction r generalizing a with
  | nil => exact (List.cons.inj h).1
  | cons b r ih =>
    obtain ⟨hab, hrest⟩ := List.cons.inj h
    exact hab.trans (ih hrest)

/-- Packets that are written as the same bytes carry the same attributes. -/
private theorem Carries.of_datagram (h : p.Carries as) (hsame : q.datagram = p.datagram) :
    q.Carries as :=
  h.congr fun _ hi => data_of_datagram hsame hi

/-- A hash function that tells one input from all others. -/
def apart (hashed : List UInt8) : Md5 := fun bytes =>
  Vector.replicate 16 (if bytes = hashed then 0 else 1)

/-- Under a hash function that tells it from all others, the digest over a request for accounting is
no digest over its encrypted copy. -/
theorem Carries.not_digestOfSent (h : request.Carries as)
    (hcode : request.getCode = accountingRequest) (hfits : request.PasswordFits)
    {pwdAttr : ℕ} (hfound : request.findAttr RadiusAttr.userPassword = some (some pwdAttr))
    (id : Id) (random : Fin 4 → UInt32) (fresh : Mem) :
    ∃ md5 e, (Radius.prepared md5 request [] id random fresh).encryptPasswords md5 [] =
      some (true, e) ∧ e.isValid = true ∧ ¬DigestOfSent md5 [] e := by
  let u : RadiusPDU := ((RadiusPDU.mk fresh).copyContents request).setId (UInt8.ofNat id)
  have hlow : 20 ≤ request.getLength := h.stored.le
  have hu : u.zeroed.Carries as :=
    h.of_header fun i hi h1 hout => (zeroed_data hout).trans (h.copied_data fresh _ hi h1)
  have hulong : 20 ≤ u.zeroed.getLength := hu.stored.le
  have hucode : u.getCode = accountingRequest := (h.copied_code fresh _).trans hcode
  let md5 := apart u.zeroed.datagram
  obtain ⟨hzeroed, hdigest⟩ := digestOfSent_setAuthenticator hucode md5 [] random
  have hp : (u.setAuthenticator md5 [] random).Carries as := (h.prepared md5 [] id random fresh).1
  have hfits' := (h.passwordFits_iff hp).mpr hfits
  have hfound' := (h.findAttr_eq hp RadiusAttr.userPassword).trans hfound
  rw [DigestOfSent, hzeroed, List.append_nil] at hdigest
  refine ⟨md5, ?_⟩
  change ∃ e, (u.setAuthenticator md5 [] random).encryptPasswords md5 [] = some (true, e) ∧ _
  generalize u.setAuthenticator md5 [] random = p at hp hfits' hfound' hdigest
  rcases hp.findAttr_cases RadiusAttr.userPassword with
    ⟨hnone, -⟩ | ⟨l, a, r, rfl, ha, -, hfind⟩
  · cases hnone.symm.trans hfound'
  · obtain ⟨e, he, hcarries, -, hheader⟩ := hp.encryptPasswords_of_found hfind (hfits' _ hfind) md5 []
    refine ⟨e, he, hcarries.isValid, fun hlawful => ?_⟩
    have hauth : e.getAuthenticator = p.getAuthenticator := slice_congr fun i hi hi' => by
      have hlow : 4 ≤ i := hi
      have hhigh : i < 4 + 16 := hi'
      exact hheader i (by omega) (by omega) (by omega)
    rw [DigestOfSent, hauth, hdigest, List.append_nil] at hlawful
    have hsame : e.zeroed.datagram = u.zeroed.datagram := by
      by_contra hne
      simp [md5, apart, hne] at hlawful
    have hboth := (hu.of_datagram hsame).unique (hcarries.of_header fun i _ _ hout => zeroed_data hout)
    rw [List.append_assoc] at hboth
    have hother : p.getAuthenticator ≠ u.zeroed.datagram := by
      intro hequal
      have hlength := congrArg List.length hequal
      rw [getAuthenticator, datagram, slice_length, slice_length] at hlength
      have hshort : authenticatorLength = 16 := rfl
      omega
    have hones : md5 ([] ++ p.getAuthenticator) = Vector.replicate 16 1 := by
      rw [List.nil_append]
      simp only [md5, apart, if_neg hother]
    exact hp.encPwd_ne ha (by decide) hones
      (eq_of_cons_eq_append (List.append_cancel_left hboth)).symm

/-- Without a password the authenticator is the digest over what is sent. -/
theorem digestOfSent_of_none (hcode : request.getCode = accountingRequest) (has : request.Carries as)
    (hnone : request.findAttr RadiusAttr.userPassword = some none) {id : Id} {fresh : Mem}
    (he : (Radius.prepared md5 request secret id random fresh).encryptPasswords md5 secret =
      some (true, e)) : DigestOfSent md5 secret e := by
  have hp := (has.prepared md5 secret id random fresh).1
  have hnone' := (has.findAttr_eq hp RadiusAttr.userPassword).trans hnone
  rw [encryptPasswords, hnone'] at he
  cases he
  have hucode := (has.copied_code fresh (UInt8.ofNat id)).trans hcode
  exact (digestOfSent_setAuthenticator hucode md5 secret random).2

end RadiusPDU

namespace RadiusClient

variable {S A H : Type} [DecidableEq A] {env : Environment S A H} {md5 : Md5}
  {request : RadiusPDU} {c : RadiusClient H}

/-- The authenticators of all transmissions are the digests over what is sent and the secrets of the
servers. -/
def DigestsOfSent (md5 : Md5) (c : RadiusClient H) (log : List (Transmission S A)) : Prop :=
  ∀ t ∈ log, ∀ secret ∈ c.secretAt t.visit, RadiusPDU.DigestOfSent md5 secret t.pdu

/-- What is true of every transmission of `SendRequest`. -/
structure Sent (env : Environment S A H) (md5 : Md5) (request : RadiusPDU) (c : RadiusClient H)
    (t : Transmission S A) : Prop where
  valid : request.isValid = true
  visit : t.visit = 0
  secret : c.secretAt 0 = some t.secret
  address : addressAt env.getHostAddress c 0 = some t.server.addr
  reserved : env.getSocket (0, 0) = some (t.reservation.socket, t.reservation.id)
  copy : (prepared md5 request t.secret t.reservation.id (env.random (0, 0))
    (env.memory (0, 0))).encryptPasswords md5 t.secret = some (true, t.pdu)

/-- The rule for `SendRequest`. -/
private theorem sat_sendFirst {written : Bool} {server : RadiusServer H}
    (hvalid : request.isValid = true)
    (hserver : c.server 0 = some server) : Exec.Sat (Sent env md5 request c) (fun _ => True)
      (sendFirst env md5 request c written server) := by
  unfold sendFirst
  split
  · rename_i address _ haddress _
    refine .bind (Q := fun r => env.getSocket (0, 0) = some (r.socket, r.id)) ?_ fun r hr => ?_
    · unfold getSocket
      split
      · exact .fail
      · rename_i hsocket
        exact .pure hsocket
    · split
      · exact .fail
      · exact .fail
      · rename_i pdu hcopy
        split
        · refine .tell ⟨hvalid, rfl, ?_, ?_, hr, hcopy⟩ trivial
          · rw [secretAt, hserver, Option.map_some]
          · rw [addressAt, hserver, Option.bind_some, haddress]
        · exact .fail
  · exact .fail

/-- What `SendRequest` logs was made from the request. -/
theorem sent_of_mem {written : Bool} {t : Transmission S A}
    (ht : t ∈ (sendRequest env md5 request c written).log) : Sent env md5 request c t := by
  unfold sendRequest at ht
  split at ht
  · cases ht
  · rename_i hvalid
    split at ht
    · cases ht
    · rename_i server hserver
      rw [← server_zero] at hserver
      exact (sat_sendFirst (by simpa using hvalid) hserver).effects t ht

/-- Without a password to encrypt, all authenticators are the digests over what is sent. -/
theorem digestsOfSent (hcode : request.getCode = RadiusPDU.accountingRequest)
    (hplain : request.NoPasswordSent) :
    (∀ responsePdu, DigestsOfSent md5 c (makeRequest env md5 request c responsePdu).log) ∧
      ∀ written, DigestsOfSent md5 c (sendRequest env md5 request c written).log := by
  have hlawful {secret : List UInt8} {id : Id} {random : Fin 4 → UInt32} {fresh : Mem}
      {e : RadiusPDU} (hvalid : request.isValid = true)
      (he : (prepared md5 request secret id random fresh).encryptPasswords md5 secret =
        some (true, e)) : RadiusPDU.DigestOfSent md5 secret e := by
    obtain ⟨as, has⟩ := RadiusPDU.isValid_iff.mp hvalid
    rcases hplain with hnone | hfull
    · exact RadiusPDU.digestOfSent_of_none hcode has hnone he
    · rcases has.encrypted_cases md5 secret id random fresh with ⟨-, e', he'⟩ | ⟨hfits, -⟩
      · cases he'.symm.trans he
      · exact absurd hfits hfull
  constructor
  · intro responsePdu t ht secret hsecret
    have hmade := made_of_mem ht
    have hvalid := valid_of_mem ht
    obtain ⟨as, has⟩ := RadiusPDU.isValid_iff.mp hvalid
    cases hmade.secret.symm.trans hsecret
    rcases has.copyFor_cases md5 t.secret t.reservation.id (env.random (t.visit, t.retry))
        (env.memory (t.visit, t.retry)) with ⟨-, herror⟩ | ⟨-, e, bs, he, -, hcopy⟩
    · cases herror.symm.trans hmade.copy
    · rw [if_neg (not_not.mpr hcode.symm)] at hcopy
      obtain ⟨-, hpdu⟩ := Prod.mk.inj (Except.ok.inj (hcopy.symm.trans hmade.copy))
      rw [← hpdu]
      exact hlawful hvalid he
  · intro written t ht secret hsecret
    have hsent := sent_of_mem ht
    rw [hsent.visit] at hsecret
    cases hsent.secret.symm.trans hsecret
    exact hlawful hsent.valid hsent.copy

/-- If all authenticators are the digests over what is sent, there is no password to encrypt. -/
theorem noPasswordSent_of_digestsOfSent [Inhabited S] [Inhabited A] [Inhabited H]
    (hvalid : request.isValid = true) (hcode : request.getCode = RadiusPDU.accountingRequest)
    (h : (∀ md5 (env : Environment S A H) c responsePdu,
        DigestsOfSent md5 c (makeRequest env md5 request c responsePdu).log) ∨
      ∀ md5 (env : Environment S A H) c written,
        DigestsOfSent md5 c (sendRequest env md5 request c written).log) :
    request.NoPasswordSent := by
  by_contra hnot
  rw [RadiusPDU.NoPasswordSent, not_or, not_not] at hnot
  obtain ⟨hpassword, hfits⟩ := hnot
  obtain ⟨as, has⟩ := RadiusPDU.isValid_iff.mp hvalid
  rcases has.findAttr_cases RadiusAttr.userPassword with ⟨hnone, -⟩ | ⟨_, _, _, _, _, _, hfind⟩
  · exact hpassword hnone
  · obtain ⟨md5, e, he, hevalid, hbad⟩ := has.not_digestOfSent hcode hfits hfind 0 (fun _ => 0)
      fun _ => 0
    rcases h with h | h
    · rcases has.copyFor_cases md5 [] 0 (fun _ => 0) (fun _ => 0) with
        ⟨hfull, -⟩ | ⟨-, e', bs, he', -, hcopy⟩
      · exact hfull hfits
      · rw [if_neg (not_not.mpr hcode.symm)] at hcopy
        cases he.symm.trans he'
        obtain ⟨t, ht, -, -, hpdu⟩ := exists_sent (S := S) (A := A) (H := H) hvalid hcopy hevalid
        exact hbad (hpdu ▸ h md5 silence plainClient none t ht [] (secretAt_plainClient _))
    · obtain ⟨t, ht, -⟩ := Option.map_eq_some_iff.mp
        (firstDatagram_silence (S := S) (A := A) (H := H) hvalid he hevalid)
      have hsent := sent_of_mem (List.mem_of_head? ht)
      have hempty : t.secret = [] :=
        Option.some.inj (hsent.secret.symm.trans (secretAt_plainClient _))
      have hid : t.reservation.id = 0 := (Prod.mk.inj (Option.some.inj hsent.reserved)).2.symm
      have hcopy := hsent.copy
      rw [hempty, hid] at hcopy
      cases he.symm.trans hcopy
      exact hbad (h md5 silence plainClient true t (List.mem_of_head? ht) []
        (secretAt_plainClient _))

/-- The authenticators of a request for accounting are the digests over what is sent exactly when
there is no password to encrypt, and so for `MakeRequest` and for `SendRequest`. -/
theorem digestsOfSent_iff [Inhabited S] [Inhabited A] [Inhabited H]
    (hvalid : request.isValid = true) (hcode : request.getCode = RadiusPDU.accountingRequest) :
    ((∀ md5 (env : Environment S A H) c responsePdu,
      DigestsOfSent md5 c (makeRequest env md5 request c responsePdu).log) ↔
        request.NoPasswordSent) ∧
    ((∀ md5 (env : Environment S A H) c written,
      DigestsOfSent md5 c (sendRequest env md5 request c written).log) ↔
        request.NoPasswordSent) :=
  ⟨⟨fun h => noPasswordSent_of_digestsOfSent hvalid hcode (Or.inl h),
      fun hplain _ _ _ responsePdu => (digestsOfSent hcode hplain).1 responsePdu⟩,
    ⟨fun h => noPasswordSent_of_digestsOfSent hvalid hcode (Or.inr h),
      fun hplain _ _ _ written => (digestsOfSent hcode hplain).2 written⟩⟩

end RadiusClient

/-- The request for accounting with a name and a port has no password. -/
theorem digestsOfSent_iff_named : namedAccounting.NoPasswordSent ∧
    ((∀ md5 (env : Environment ℕ ℕ ℕ) c responsePdu, RadiusClient.DigestsOfSent md5 c
      (RadiusClient.makeRequest env md5 namedAccounting c responsePdu).log) ↔
        namedAccounting.NoPasswordSent) ∧
    ((∀ md5 (env : Environment ℕ ℕ ℕ) c written, RadiusClient.DigestsOfSent md5 c
      (RadiusClient.sendRequest env md5 namedAccounting c written).log) ↔
        namedAccounting.NoPasswordSent) :=
  ⟨Or.inl (by decide +kernel),
    RadiusClient.digestsOfSent_iff (by decide +kernel) (by decide +kernel)⟩

/-- A request for accounting with a password. -/
def passwordAccounting : RadiusPDU :=
  (bareAccounting.appendAttrString RadiusAttr.userPassword (asciiBytes "secret")).2

/-- The authenticator of the request for accounting with a password is not the digest over what is
sent. -/
theorem not_digestsOfSent_password : ¬((∀ md5 (env : Environment ℕ ℕ ℕ) c responsePdu,
    RadiusClient.DigestsOfSent md5 c
      (RadiusClient.makeRequest env md5 passwordAccounting c responsePdu).log) ∧
    ∀ md5 (env : Environment ℕ ℕ ℕ) c written, RadiusClient.DigestsOfSent md5 c
      (RadiusClient.sendRequest env md5 passwordAccounting c written).log) := by
  intro h
  have hvalid : passwordAccounting.isValid = true := by decide +kernel
  rcases RadiusClient.noPasswordSent_of_digestsOfSent hvalid (by decide +kernel) (Or.inl h.1) with
    hnone | hfull
  · exact absurd hnone (by decide +kernel)
  · refine hfull fun pwdAttr hattr => ?_
    have hfind : passwordAccounting.findAttr RadiusAttr.userPassword = some (some 20) := by
      decide +kernel
    cases hfind.symm.trans hattr
    decide +kernel

end Dot1x.Radius
