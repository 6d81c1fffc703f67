import Dot1x.Radius.MessageAuthenticator

/-!
# The datagram of SendRequest

`SendRequest` and the first attempt of `MakeRequest` make the same copy of a request and encrypt its
password alike, but only `MakeRequest` puts a message authenticator into it. So the two send the same
datagram when the request is for accounting, when neither of them sends anything, and when the message
authenticator is written behind the end of the packet.
-/

namespace Dot1x.Radius

open Dot1x.Base

namespace RadiusPDU

variable {p q e request : RadiusPDU} {as bs : List Tlv} {md5 : Md5} {secret : List UInt8} {id : Id}
  {random : Fin 4 → UInt32} {fresh : Mem}

/-- The bytes of a packet that are written to a socket. -/
def datagram (p : RadiusPDU) : List UInt8 := slice p.data 0 p.getLength

/-- The message authenticator of the copies is written behind their end: there is no room for
another attribute, and the one for it is empty and the last one. -/
def SignedBehind (p : RadiusPDU) : Prop :=
  maxPduLength < p.getLength + 18 ∧ p.findAttr RadiusAttr.userPassword = some none ∧
    ∃ attr, p.findAttr RadiusAttr.messageAuthenticator = some (some attr) ∧
      attr + RadiusAttr.fixedHeaderLength = p.getLength

/-- A request whose copies are sent without a message authenticator, if at all. -/
def SentUnsigned (request : RadiusPDU) : Prop :=
  request.getCode = accountingRequest ∨ ¬request.PasswordFits ∨ request.SignedBehind

/-- The length of a packet can be read off its datagram. -/
theorem getLength_of_datagram (h : q.datagram = p.datagram) : q.getLength = p.getLength := by
  have hlength := congrArg List.length h
  rwa [datagram, datagram, slice_length, slice_length] at hlength

/-- The bytes of a packet can be read off its datagram. -/
theorem data_of_datagram (h : q.datagram = p.datagram) {i : ℕ} (hi : i < p.getLength) :
    q.data i = p.data i := by
  have hbyte := congrArg (·.getD i 0) h
  have hlength := getLength_of_datagram h
  simp only [datagram] at hbyte
  rwa [slice_getD _ _ (hlength ▸ hi), slice_getD _ _ hi, Nat.zero_add] at hbyte

/-- Packets with the same bytes are the same datagram. -/
private theorem datagram_congr (hsame : ∀ i, i < p.getLength → q.data i = p.data i)
    (hlength : q.getLength = p.getLength) : q.datagram = p.datagram := by
  rw [datagram, datagram, hlength]
  exact slice_congr fun i _ hi => hsame i (by omega)

/-- Where there is room for another attribute, the packet gets longer with its message
authenticator. -/
theorem Carries.getLength_setup (h : p.Carries as) (hroom : p.getLength + 18 ≤ maxPduLength)
    (hq : p.setupMessageAuthenticator md5 secret = some q) : q.getLength = p.getLength + 18 := by
  have hextended := h.extended
  rcases hextended.setup rfl with ⟨-, hnone⟩ | ⟨l, a, r, -, -, -, hsetup⟩
  · cases (hnone md5 secret).symm.trans hq
  · cases (hsetup md5 secret).symm.trans hq
    have hlow : 20 ≤ fixedHeaderLength + (Tlv.bytesAll l).length := Nat.le_add_right 20 _
    have hlonger := hextended.carries.stored.end_eq
    rw [if_pos hroom, Tlv.bytesAll_append, List.length_append, ← Nat.add_assoc,
      ← h.stored.end_eq] at hlonger
    exact (getLength_congr (write_of_outside (Or.inl (by omega)))
      (write_of_outside (Or.inl (by omega)))).trans hlonger

/-- Where there is no room, the message authenticator is written into the attribute that is there. -/
theorem setup_of_full (hfull : maxPduLength < p.getLength + 18) (md5 : Md5)
    (secret : List UInt8) : p.setupMessageAuthenticator md5 secret =
      match p.findAttr RadiusAttr.messageAuthenticator with
      | some (some msgAuthAttr) => some ⟨Base.write p.data (msgAuthAttr + 2)
          (hmacMd5 md5 (slice p.data 0 p.getLength) secret)⟩
      | _ => none := by
  have hrefused : (RadiusAttr.maxLength <
      RadiusAttr.fixedHeaderLength + (List.replicate messageAuthenticatorLength (0 : UInt8)).length
      || maxPduLength < p.getLength + (RadiusAttr.fixedHeaderLength +
        (List.replicate messageAuthenticatorLength (0 : UInt8)).length)) = true := by
    rw [Bool.or_eq_true]
    exact Or.inr (decide_eq_true hfull)
  have happend : (p.appendAttrData RadiusAttr.messageAuthenticator
      (List.replicate messageAuthenticatorLength 0)).2 = p := by
    rw [appendAttrData, appendValue, if_pos hrefused]
  unfold setupMessageAuthenticator
  generalize (p.appendAttrData RadiusAttr.messageAuthenticator _).2 = q at happend ⊢
  subst happend
  rfl

/-- A message authenticator that is written behind the end leaves the packet as it is. -/
theorem Carries.setup_of_signedBehind (h : p.Carries as) (hbehind : p.SignedBehind) (md5 : Md5)
    (secret : List UInt8) : ∃ q, p.setupMessageAuthenticator md5 secret = some q ∧
      q.isValid = true ∧ q.datagram = p.datagram := by
  obtain ⟨hfull, -, attr, hattr, hend⟩ := hbehind
  have hlow : 20 ≤ p.getLength := h.stored.le
  have hwrite (i : ℕ) (hi : i < p.getLength) :
      Base.write p.data (attr + 2) (hmacMd5 md5 (slice p.data 0 p.getLength) secret) i =
        p.data i :=
    write_of_outside (Or.inl (hend.symm ▸ hi))
  rw [setup_of_full hfull, hattr]
  exact ⟨_, rfl, (h.congr hwrite).isValid,
    datagram_congr hwrite (getLength_congr (hwrite 2 (by omega)) (hwrite 3 (by omega)))⟩

/-- If no message authenticator shows in the datagram of a packet without room, it is written behind
the end. -/
private theorem Carries.end_of_sameDatagram (h : p.Carries as)
    (hfull : maxPduLength < p.getLength + 18)
    (hsame : ∀ mac, ∃ q, p.setupMessageAuthenticator (hashBy mac) [] = some q ∧
      q.datagram = p.datagram) : ∃ l a, as = l ++ [a] ∧
        a.type = RadiusAttr.messageAuthenticator ∧ ∃ attr,
          p.findAttr RadiusAttr.messageAuthenticator = some (some attr) ∧
            attr + RadiusAttr.fixedHeaderLength = p.getLength := by
  rcases h.findAttr_cases RadiusAttr.messageAuthenticator with
    ⟨hnone, -⟩ | ⟨l, a, r, rfl, ha, -, hfind⟩
  · obtain ⟨q, hq, -⟩ := hsame fun _ => Vector.replicate 16 0
    rw [setup_of_full hfull, hnone] at hq
    cases hq
  · -- The byte that is written first differs from the one that is there.
    let b := p.data (fixedHeaderLength + (Tlv.bytesAll l).length + 2)
    obtain ⟨q, hq, hdatagram⟩ := hsame (constantMac (Vector.replicate 16 (b + 1)))
    rw [setup_of_full hfull, hfind] at hq
    cases hq
    have hbehind : p.getLength ≤ fixedHeaderLength + (Tlv.bytesAll l).length + 2 := by
      by_contra hinside
      have hbyte := data_of_datagram hdatagram (Nat.not_le.mp hinside)
      simp only [hmacMd5_constantMac, Vector.toList_replicate] at hbyte
      rw [write_of_inside (Nat.le_refl _) (by simp), Nat.sub_self] at hbyte
      have hnext : b + 1 = b := hbyte
      rw [UInt8.add_eq_left] at hnext
      cases hnext
    obtain ⟨-, -, -, hr⟩ := h.split
    have hlong : a.length = a.value.length + 2 := rfl
    have hle := hr.le
    cases r with
    | nil => exact ⟨l, a, rfl, ha, _, hfind, Nat.le_antisymm (by
        change fixedHeaderLength + (Tlv.bytesAll l).length + 2 ≤ p.getLength
        omega) hbehind⟩
    | cons x r =>
      obtain ⟨-, -, hx, hrest⟩ := attrFrom_of_stored_cons hr
      have hle := hrest.le
      omega

/-- An attribute that ends a packet whose password was encrypted, and that is none, ended the packet
before. -/
private theorem PasswordReplaced.eq_of_last (h : PasswordReplaced as bs) {l : List Tlv} {a : Tlv}
    (hbs : bs = l ++ [a]) (ha : a.type ≠ RadiusAttr.userPassword) :
    bs = as ∧ ∀ x ∈ as, x.type ≠ RadiusAttr.userPassword := by
  rcases h with ⟨hnone, rfl⟩ | ⟨l', a', r', e, -, -, -, he, rfl⟩
  · exact ⟨rfl, hnone⟩
  · have hlast : e = a := List.singleton_inj.mp (List.append_inj_right' hbs rfl)
    exact absurd (hlast ▸ he) ha

/-- Packets with the same attributes are searched with the same result. -/
theorem Carries.findAttr_eq (h : p.Carries as) (h' : q.Carries as) (t : UInt8) :
    q.findAttr t = p.findAttr t :=
  (h'.findAttr t).trans (h.findAttr t).symm

/-- If no message authenticator shows in the datagram of an encrypted copy, the copies of the request
are signed behind their end. -/
theorem EncryptedCopy.signedBehind {authenticator : List UInt8}
    (h : request.EncryptedCopy as id authenticator e bs) (has : request.Carries as)
    (hsame : ∀ mac, ∃ q, e.setupMessageAuthenticator (hashBy mac) [] = some q ∧
      q.datagram = e.datagram) : request.SignedBehind := by
  have hfull : maxPduLength < e.getLength + 18 := by
    by_contra hroom
    obtain ⟨q, hq, hdatagram⟩ := hsame fun _ => Vector.replicate 16 0
    have hlonger := h.carries.getLength_setup (Nat.not_lt.mp hroom) hq
    have hequal := getLength_of_datagram hdatagram
    omega
  obtain ⟨l, a, hbs, ha, attr, hattr, hend⟩ := h.carries.end_of_sameDatagram hfull hsame
  obtain ⟨rfl, hnone⟩ := h.replaced.eq_of_last hbs (by rw [ha]; decide)
  have hlength := has.getLength_eq h.carries
  refine ⟨hlength ▸ hfull, ?_, attr, ?_, by rw [hend, hlength]⟩
  · rcases has.findAttr_cases RadiusAttr.userPassword with
      ⟨hfind, -⟩ | ⟨l', a', r', hsplit, ha', -, -⟩
    · exact hfind
    · exact absurd ha' (hnone a' (by rw [hsplit]; simp))
  · rw [← has.findAttr_eq h.carries, hattr]

/-- Where the message authenticator is written depends on the attributes only. -/
theorem Carries.signedBehind (h : p.Carries as) (h' : q.Carries as) (hbehind : p.SignedBehind) :
    q.SignedBehind := by
  rw [SignedBehind, h.getLength_eq h', h.findAttr_eq h', h.findAttr_eq h']
  exact hbehind

/-- Without a password the encrypted copy has the attributes of the request. -/
theorem EncryptedCopy.carries_of_none {authenticator : List UInt8}
    (h : request.EncryptedCopy as id authenticator e bs) (has : request.Carries as)
    (hnone : request.findAttr RadiusAttr.userPassword = some none) : e.Carries as := by
  rcases h.replaced with ⟨-, rfl⟩ | ⟨l, a, r, -, rfl, ha, hl, -⟩
  · exact h.carries
  · rcases has.findAttr_cases RadiusAttr.userPassword with ⟨-, hnot⟩ | ⟨_, _, _, _, _, _, hsome⟩
    · exact absurd ha (hnot a (by simp))
    · cases hnone.symm.trans hsome

end RadiusPDU

namespace RadiusClient

variable {S A H : Type} [DecidableEq A] {env : Environment S A H} {md5 : Md5}
  {request : RadiusPDU} {c : RadiusClient H} {secret : List UInt8} {address : A} {socket : S}
  {id : Id}

/-- What the first transmission writes. -/
def firstDatagram (log : List (Transmission S A)) : Option (List UInt8) :=
  log.head?.map fun t => t.pdu.datagram

/-- The first server has an address, `MakeRequest` makes an attempt at it, and writing to the socket
succeeds there. -/
structure Attempts (env : Environment S A H) (c : RadiusClient H) : Prop where
  visits : 0 < c.visits
  retries : 0 < c.retries
  address : (addressAt env.getHostAddress c 0).isSome
  written : ∀ socket id, env.getSocket (0, 0) = some (socket, id) →
    (env.exchange (0, 0)).sends id = true

/-- The first pass is for the first server. -/
theorem server_zero (c : RadiusClient H) : c.server 0 = c.radiusServers.head? := by
  rw [server, Nat.zero_mod, List.head?_eq_getElem?]

/-- `MakeRequest` begins with an attempt at the first server. -/
theorem exists_attempt (hvalid : request.isValid = true) (h : Attempts env c)
    (hsecret : c.secretAt 0 = some secret)
    (haddress : addressAt env.getHostAddress c 0 = some address) (md5 : Md5)
    (responsePdu : Option RadiusPDU) :
    ∃ port, ∃ rest : Reservation S → Exec (Transmission S A) Exit (Progress S),
      (makeRequest env md5 request c responsePdu).log =
        (attempt env md5 request 0 0 secret ⟨address, port⟩ false none >>= rest).log := by
  obtain ⟨n, hn⟩ := Nat.exists_eq_succ_of_ne_zero (Nat.pos_iff_ne_zero.mp h.visits)
  obtain ⟨m, hm⟩ := Nat.exists_eq_succ_of_ne_zero (Nat.pos_iff_ne_zero.mp h.retries)
  obtain ⟨port, hvisit⟩ := visit_of_address haddress hsecret md5 request ⟨none, none⟩
  have hloops : visitLoop env md5 request c c.visits 0 ⟨none, none⟩ =
      attempt env md5 request 0 0 secret ⟨address, port⟩ false none >>= fun r =>
        attemptLoop env md5 request 0 secret ⟨address, port⟩ m 1 false (some r) >>= fun held =>
          visitLoop env md5 request c n 1 ⟨some secret, held⟩ := by
    rw [hn, visitLoop, hvisit, hm, attemptLoop]
    simp only [bind_assoc, pure_bind]
    rfl
  exact ⟨port, _, by rw [log_makeRequest hvalid, hloops]⟩

/-- Where the callback refuses, or no socket is available, nothing is sent. -/
theorem firstDatagram_of_refused (hvalid : request.isValid = true) (h : Attempts env c)
    (hrefused : env.onSendPdu (0, 0) = none ∨ env.getSocket (0, 0) = none) (md5 : Md5)
    (responsePdu : Option RadiusPDU) :
    firstDatagram (makeRequest env md5 request c responsePdu).log = none ∧
      firstDatagram (sendRequest env md5 request c true).log = none := by
  obtain ⟨secret, hsecret⟩ := secretAt_isSome h.visits
  obtain ⟨address, haddress⟩ := Option.isSome_iff_exists.mp h.address
  obtain ⟨port, rest, hlog⟩ := exists_attempt hvalid h hsecret haddress md5 responsePdu
  obtain ⟨server, hserver, hsome⟩ := Option.bind_eq_some_iff.mp haddress
  rw [server_zero] at hserver
  have hattempt : attempt env md5 request 0 0 secret ⟨address, port⟩ false none =
      Exec.fail (.returns none) := by
    rcases hrefused with hnone | hnone
    · simp only [attempt, hnone]
    · simp only [attempt, reserve, getSocket, hnone]
      cases env.onSendPdu (0, 0) <;> rfl
  have hsend : sendFirst env md5 request c true server = Exec.fail (.returns none) := by
    rcases hrefused with hnone | hnone
    · simp only [sendFirst, hsome, hnone]
    · simp only [sendFirst, hsome, getSocket, hnone]
      cases env.onSendPdu (0, 0) <;> rfl
  constructor
  · rw [hlog, hattempt]
    rfl
  · simp only [sendRequest, hvalid, hserver, hsend]
    rfl

/-- What `SendRequest` sends. -/
theorem firstDatagram_sendRequest (hvalid : request.isValid = true)
    (hsecret : c.secretAt 0 = some secret)
    (haddress : addressAt env.getHostAddress c 0 = some address) {requireNewId : Bool}
    (hcallback : env.onSendPdu (0, 0) = some requireNewId)
    (hsocket : env.getSocket (0, 0) = some (socket, id)) (md5 : Md5) :
    firstDatagram (sendRequest env md5 request c true).log =
      match (prepared md5 request secret id (env.random (0, 0))
        (env.memory (0, 0))).encryptPasswords md5 secret with
      | some (true, pdu) => if pdu.isValid then some pdu.datagram else none
      | _ => none := by
  obtain ⟨server, hserver, hsome⟩ := Option.bind_eq_some_iff.mp haddress
  rw [secretAt, hserver, Option.map_some, Option.some.injEq] at hsecret
  subst hsecret
  rw [server_zero] at hserver
  simp only [sendRequest, hvalid, hserver, sendFirst, hsome, hcallback, getSocket, hsocket, pure_bind]
  generalize (prepared md5 request (c.secretOf server) id (env.random (0, 0))
    (env.memory (0, 0))).encryptPasswords md5 (c.secretOf server) = encrypted
  rcases encrypted with _ | ⟨done, pdu⟩
  · rfl
  · cases done with
    | false => rfl
    | true =>
      simp only [Bool.not_true, Bool.false_eq_true, if_false, Bool.and_true]
      split <;> rfl

/-- What `MakeRequest` sends first, if its copy is valid, and that it sends nothing if there is no
copy. -/
private theorem firstDatagram_makeRequest (hvalid : request.isValid = true) (h : Attempts env c)
    (hsecret : c.secretAt 0 = some secret) {requireNewId : Bool}
    (hcallback : env.onSendPdu (0, 0) = some requireNewId)
    (hsocket : env.getSocket (0, 0) = some (socket, id)) (md5 : Md5)
    (responsePdu : Option RadiusPDU) :
    (∀ e, copyFor md5 request secret id (env.random (0, 0)) (env.memory (0, 0)) = .error e →
      firstDatagram (makeRequest env md5 request c responsePdu).log = none) ∧
    ∀ e q, copyFor md5 request secret id (env.random (0, 0)) (env.memory (0, 0)) = .ok (e, q) →
      q.isValid = true →
        firstDatagram (makeRequest env md5 request c responsePdu).log = some q.datagram := by
  obtain ⟨address, haddress⟩ := Option.isSome_iff_exists.mp h.address
  obtain ⟨port, rest, hlog⟩ := exists_attempt hvalid h hsecret haddress md5 responsePdu
  have hattempt : attempt env md5 request 0 0 secret ⟨address, port⟩ false none =
      transmit env md5 request 0 0 secret ⟨address, port⟩ ⟨socket, id, (0, 0)⟩ >>= fun _ =>
        pure ⟨socket, id, (0, 0)⟩ := by
    simp only [attempt, hcallback, reserve, getSocket, hsocket, pure_bind]
  rw [hlog, hattempt, bind_assoc]
  constructor
  · intro e herror
    simp only [transmit, herror]
    rfl
  · intro e q hcopy hq
    have hfirst : (transmit env md5 request 0 0 secret ⟨address, port⟩
        ⟨socket, id, (0, 0)⟩).log.head? =
          some ⟨0, 0, ⟨socket, id, (0, 0)⟩, ⟨address, port⟩, secret, e, q⟩ := by
      simp only [transmit, hcopy, hq, h.written socket id hsocket, Bool.and_self, if_true]
      exact Exec.head?_log_bind rfl
    rw [firstDatagram, Exec.head?_log_bind hfirst]
    rfl

/-- A request that is sent unsigned is sent by both as the same datagram, if at all. -/
theorem firstDatagram_eq (hvalid : request.isValid = true) (h : Attempts env c)
    (hunsigned : request.SentUnsigned) (md5 : Md5) (responsePdu : Option RadiusPDU) :
    firstDatagram (makeRequest env md5 request c responsePdu).log =
      firstDatagram (sendRequest env md5 request c true).log := by
  cases hcallback : env.onSendPdu (0, 0) with
  | none =>
    obtain ⟨hmake, hsend⟩ := firstDatagram_of_refused hvalid h (Or.inl hcallback) md5 responsePdu
    rw [hmake, hsend]
  | some requireNewId =>
    cases hsocket : env.getSocket (0, 0) with
    | none =>
      obtain ⟨hmake, hsend⟩ := firstDatagram_of_refused hvalid h (Or.inr hsocket) md5 responsePdu
      rw [hmake, hsend]
    | some taken =>
      obtain ⟨socket, id⟩ := taken
      obtain ⟨secret, hsecret⟩ := secretAt_isSome h.visits
      obtain ⟨address, haddress⟩ := Option.isSome_iff_exists.mp h.address
      obtain ⟨as, has⟩ := RadiusPDU.isValid_iff.mp hvalid
      have hsend := firstDatagram_sendRequest hvalid hsecret haddress hcallback hsocket md5
      obtain ⟨hnothing, hcopy⟩ := firstDatagram_makeRequest hvalid h hsecret hcallback hsocket md5
        responsePdu
      rcases has.encrypted_cases md5 secret id (env.random (0, 0)) (env.memory (0, 0)) with
        ⟨-, e, he⟩ | ⟨hfits, e, bs, he, hencrypted⟩
      · have herror : copyFor md5 request secret id (env.random (0, 0)) (env.memory (0, 0)) =
            .error (.returns none) := by
          rw [copyFor, he]
        rw [hsend, he, hnothing _ herror]
      · have hvalid' : e.isValid = true := hencrypted.carries.isValid
        rw [hsend, he]
        simp only [hvalid', if_true]
        rcases hunsigned with hcode | hfull | hbehind
        · have hcode' : RadiusPDU.accountingRequest = e.getCode := by
            rw [hencrypted.code, hcode]
          exact hcopy e e (by simp only [copyFor, he, ne_eq, hcode', not_true_eq_false, if_false])
            hvalid'
        · exact absurd hfits hfull
        · have hcarries := hencrypted.carries_of_none has hbehind.2.1
          obtain ⟨q, hq, hqvalid, hdatagram⟩ := hcarries.setup_of_signedBehind
            (has.signedBehind hcarries hbehind) md5 secret
          by_cases hcode : RadiusPDU.accountingRequest ≠ e.getCode
          · rw [← hdatagram]
            exact hcopy e q (by simp only [copyFor, he, if_pos hcode, hq]) hqvalid
          · exact hcopy e e (by simp only [copyFor, he, if_neg hcode]) hvalid'

section Silence

variable [Inhabited S] [Inhabited A] [Inhabited H] {e : RadiusPDU}

/-- There is an attempt in the silent environment. -/
private theorem attempts_silence : Attempts (silence : Environment S A H) plainClient := by
  refine ⟨Nat.one_pos, Nat.one_pos, rfl, fun socket id hsocket => ?_⟩
  cases hsocket
  rfl

/-- An encrypted copy is sent by `SendRequest`. -/
theorem firstDatagram_silence (hvalid : request.isValid = true)
    (he : (prepared md5 request [] 0 (fun _ => 0) (fun _ => 0)).encryptPasswords md5 [] =
      some (true, e)) (hevalid : e.isValid = true) :
    firstDatagram (sendRequest (silence : Environment S A H) md5 request plainClient true).log =
      some e.datagram := by
  have haddress : addressAt (silence : Environment S A H).getHostAddress plainClient 0 =
    some default := rfl
  have hfirst : (prepared md5 request [] 0 ((silence : Environment S A H).random (0, 0))
      ((silence : Environment S A H).memory (0, 0))).encryptPasswords md5 [] = some (true, e) := he
  rw [firstDatagram_sendRequest hvalid (secretAt_plainClient 0) haddress rfl rfl, hfirst]
  simp only [hevalid, if_true]

/-- A request that both send as the same datagram is sent unsigned. -/
theorem sentUnsigned_of_firstDatagram (hvalid : request.isValid = true)
    (h : ∀ md5 (env : Environment S A H) c responsePdu, Attempts env c →
      firstDatagram (makeRequest env md5 request c responsePdu).log =
        firstDatagram (sendRequest env md5 request c true).log) : request.SentUnsigned := by
  by_contra hnot
  simp only [RadiusPDU.SentUnsigned, not_or, not_not] at hnot
  obtain ⟨hcode, hfits, hbehind⟩ := hnot
  obtain ⟨as, has⟩ := RadiusPDU.isValid_iff.mp hvalid
  obtain ⟨e, bs, _, hencrypted, hcopy⟩ := has.exists_extended hcode hfits 0 (fun _ => 0)
    fun _ => 0
  refine hbehind (hencrypted.signedBehind has fun mac => ?_)
  obtain ⟨hencrypt, hsetup⟩ := hcopy mac
  -- What `MakeRequest` sends first is the copy with its message authenticator.
  have hmake := h (RadiusPDU.hashBy mac) silence plainClient none attempts_silence
  rw [firstDatagram_silence hvalid hencrypt hencrypted.carries.isValid] at hmake
  obtain ⟨t, ht, hdatagram⟩ := Option.map_eq_some_iff.mp hmake
  have hmade := made_of_mem (List.mem_of_head? ht)
  have hempty : t.secret = [] :=
    Option.some.inj (hmade.secret.symm.trans (secretAt_plainClient _))
  have hid : t.reservation.id = 0 := (Prod.mk.inj (Option.some.inj hmade.reserved)).2.symm
  have hsame := hmade.copy
  rw [hempty, hid] at hsame
  cases hsigned : e.setupMessageAuthenticator (RadiusPDU.hashBy mac) [] with
  | none =>
    rw [hsigned] at hsetup
    cases hsetup.symm.trans hsame
  | some q =>
    rw [hsigned] at hsetup
    cases hsetup.symm.trans hsame
    exact ⟨_, rfl, hdatagram⟩

/-- `SendRequest` and the first attempt of `MakeRequest` send the same datagram exactly when the
request is sent unsigned. -/
theorem firstDatagram_iff (hvalid : request.isValid = true) :
    (∀ md5 (env : Environment S A H) c responsePdu, Attempts env c →
      firstDatagram (makeRequest env md5 request c responsePdu).log =
        firstDatagram (sendRequest env md5 request c true).log) ↔ request.SentUnsigned :=
  ⟨sentUnsigned_of_firstDatagram hvalid, fun hunsigned md5 _ _ responsePdu h =>
    firstDatagram_eq hvalid h hunsigned md5 responsePdu⟩

end Silence

end RadiusClient

/-- A request for accounting without attributes. -/
def bareAccounting : RadiusPDU := .new (fun _ => 0) RadiusPDU.accountingRequest 0

/-- A request for accounting with a name and a port. -/
def namedAccounting : RadiusPDU :=
  bareAccounting.build
    [.attrString RadiusAttr.userName (asciiBytes "alice"), .attrInt RadiusAttr.nasPort 3]

/-- The request for accounting is sent by both as the same datagram. -/
theorem firstDatagram_iff_accounting : namedAccounting.SentUnsigned ∧
    ((∀ md5 (env : Environment ℕ ℕ ℕ) c responsePdu, RadiusClient.Attempts env c →
      RadiusClient.firstDatagram
          (RadiusClient.makeRequest env md5 namedAccounting c responsePdu).log =
        RadiusClient.firstDatagram
          (RadiusClient.sendRequest env md5 namedAccounting c true).log) ↔
      namedAccounting.SentUnsigned) :=
  ⟨Or.inl (by decide +kernel), RadiusClient.firstDatagram_iff (by decide +kernel)⟩

/-- A request without attributes is sent by the two as different datagrams. -/
theorem firstDatagram_ne_bare : ¬∀ md5 (env : Environment ℕ ℕ ℕ) c responsePdu,
    RadiusClient.Attempts env c →
      RadiusClient.firstDatagram (RadiusClient.makeRequest env md5 bareRequest c responsePdu).log =
        RadiusClient.firstDatagram (RadiusClient.sendRequest env md5 bareRequest c true).log := by
  intro h
  have hcarries : bareRequest.Carries [] := RadiusPDU.carries_new (fun _ => 0) 0 (by decide)
  rcases RadiusClient.sentUnsigned_of_firstDatagram hcarries.isValid h with
    hcode | hfull | ⟨-, -, attr, hattr, -⟩
  · exact absurd hcode (by decide +kernel)
  · refine hfull fun pwdAttr hattr => ?_
    cases (hcarries.findAttr RadiusAttr.userPassword).symm.trans hattr
  · cases (hcarries.findAttr RadiusAttr.messageAuthenticator).symm.trans hattr

end Dot1x.Radius
