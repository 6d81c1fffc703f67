import Dot1x.Eap.Md5Challenge
import Dot1x.System.Station

/-!
# What is said

Behind the packets in the buffers are messages: a code, an identifier, a type and data. A user with a
name and a password answers a message in a way that does not depend on buffers, lengths or what was
said before. The EAP layer of the station computes that answer, as long as the name leaves room for
the length field and no challenge is longer than the room in the buffer of the handler.
-/

namespace Dot1x.System

open Dot1x.Base Dot1x.Wire Dot1x.Eap Dot1x.Link Dot1x.Nas
open Dot1x.Client (Listener LoginCall Output transmit installHandlers)

/-- What is said in a packet. A packet that is too short for a type has type zero. -/
@[ext] structure Message where
  code : UInt8
  id : UInt8
  type : UInt8
  data : List UInt8
  deriving DecidableEq

namespace Message

/-- The message in a packet. -/
def ofPacket (p : EapPacket) : Message :=
  ⟨p.byte 0, p.byte 1, if 5 ≤ p.len then p.byte 4 else 0, p.bytes 5 (p.len - 5)⟩

/-- The bytes of a message. -/
def encode (m : Message) : List UInt8 :=
  m.code :: m.id :: ((leBytes 2 (5 + m.data.length)).reverse ++ m.type :: m.data)

/-- The answer of a user to a request. -/
def answer (digest : Digest) (user password : List UInt8) (m : Message) : Message :=
  if m.type = 1 then ⟨2, m.id, 1, user⟩
  else if m.type = 4 then
    ⟨2, m.id, 4, 16 :: ((digest (m.id :: (password ++ m.data.tail))).toList ++ user)⟩
  else if m.type = 2 then ⟨2, m.id, 2, []⟩
  else ⟨2, m.id, 3, [4]⟩

end Message

variable {p q : EapPacket} {input output o : EapPacket} {data : List UInt8}

/-- An answer repeats the identifier of its request. -/
theorem Message.answer_head (digest : Digest) (user password : List UInt8) (m : Message) :
    (m.answer digest user password).code = 2 ∧ (m.answer digest user password).id = m.id := by
  unfold answer
  split_ifs <;> exact ⟨rfl, rfl⟩

/-- The answer to a challenge is hashed from the identifier, the password and the challenge. -/
theorem Message.answer_of_challenge (digest : Digest) (user password : List UInt8) {m : Message}
    (htype : m.type = 4) : m.answer digest user password =
      ⟨2, m.id, 4, 16 :: ((digest (m.id :: (password ++ m.data.tail))).toList ++ user)⟩ := by
  rw [answer, if_neg (by rw [htype]; decide), if_pos htype]

/-- The bytes tell the message. -/
theorem Message.encode_injective : Function.Injective encode := by
  intro m m' h
  obtain ⟨hcode, hrest⟩ := List.cons.inj h
  obtain ⟨hid, hrest⟩ := List.cons.inj hrest
  obtain ⟨-, hrest⟩ := List.append_inj hrest rfl
  obtain ⟨htype, hdata⟩ := List.cons.inj hrest
  exact Message.ext hcode hid htype hdata

/-- Two users of one name give the same answer if and only if what is hashed has the same digest. -/
theorem Message.answer_eq_iff {digest : Digest} {user password secret : List UInt8} {m : Message}
    (htype : m.type = 4) : m.answer digest user password = m.answer digest user secret ↔
      digest (m.id :: (password ++ m.data.tail)) = digest (m.id :: (secret ++ m.data.tail)) := by
  rw [answer_of_challenge _ _ _ htype, answer_of_challenge _ _ _ htype]
  constructor
  · intro h
    obtain ⟨-, hdata⟩ := List.cons.inj (congrArg Message.data h)
    exact Vector.toList_inj.mp (List.append_inj_left hdata (by simp))
  · intro h
    rw [h]

/-- The data of an answer are a name at most, behind a value and its size. -/
theorem Message.answer_data_length (digest : Digest) (user password : List UInt8) (m : Message) :
    (m.answer digest user password).data.length ≤ 17 + user.length := by
  unfold answer
  split_ifs
  · exact Nat.le_add_left ..
  · simp only [List.length_cons, List.length_append, Vector.length_toList]
    omega
  · exact Nat.zero_le _
  · simp only [List.length_cons, List.length_nil]
    omega

/-- The message is in the contents. -/
theorem Message.ofPacket_congr (h : p.contents = q.contents) (hlen : 4 ≤ q.len) :
    ofPacket p = ofPacket q := by
  obtain ⟨hsame, hbyte⟩ := bytes_of_contents h
  have hdata : p.bytes 5 (p.len - 5) = q.bytes 5 (q.len - 5) := by
    have hdrop (r : EapPacket) : r.bytes 5 (r.len - 5) = r.contents.drop 5 := by
      by_cases hr : 5 ≤ r.len
      · exact (drop_slice r.mem r.data hr).symm
      · have hempty : r.len - 5 = 0 := by omega
        rw [hempty, List.drop_of_length_le (by rw [EapPacket.contents, Pointer.bytes_length]; omega)]
        rfl
    rw [hdrop, hdrop, h]
  rw [ofPacket, ofPacket, hbyte 0 (by omega), hbyte 1 (by omega), hdata, hsame]
  by_cases hq : 5 ≤ q.len
  · rw [if_pos hq, if_pos hq, hbyte 4 (by omega)]
  · rw [if_neg hq, if_neg hq]

/-- The message depends on the bytes of a packet only. -/
theorem ofPacket_of_bytes (h : ∀ i, p.byte i = q.byte i) : Message.ofPacket p = Message.ofPacket q := by
  have hlen : p.len = q.len := (fields_congr h).2.2.1
  have hdata : p.bytes 5 (q.len - 5) = q.bytes 5 (q.len - 5) := by
    refine List.ext_getElem (by simp) fun i hi _ => ?_
    simp only [Pointer.bytes, slice_getElem]
    have hbyte := h (5 + i)
    simpa only [Pointer.byte, Nat.add_assoc] using hbyte
  rw [Message.ofPacket, Message.ofPacket, hlen, h 0, h 1, h 4, hdata]

/-- A packet with a type consists of its message. -/
theorem Message.contents_eq (h : 5 ≤ p.len) : p.contents = (ofPacket p).encode := by
  have hlen : 5 + (p.len - 5) = p.len := by omega
  have hfield : (leBytes 2 p.len).reverse = [p.byte 2, p.byte 3] := by
    have hvalue : leValue [p.byte 3, p.byte 2] = p.len := by
      rw [EapPacket.len_eq]
      simp [leValue]
      omega
    rw [← hvalue]
    exact congrArg List.reverse (leBytes_leValue [p.byte 3, p.byte 2])
  rw [encode, ofPacket, Pointer.bytes_length, hlen, hfield, if_pos h]
  have hsplit : p.contents = p.bytes 0 5 ++ p.bytes 5 (p.len - 5) := by
    have happend := slice_append p.mem p.data 5 (p.len - 5)
    rw [hlen] at happend
    exact happend.symm
  rw [hsplit]
  rfl

section Answers

variable {digest : Digest} {E : Engine} {c : LoginCall} {e e' : EapState Handler} {heap : Heap}

/-- The handlers are those of a login, and the one for MD5 still holds the password. -/
def Loyal (c : LoginCall) (e : EapState Handler) : Prop :=
  ∃ t : TypeMd5, e.handlers = [.md5 t, .identity ⟨c.user.bytes⟩, .notification] ∧
    t.idBuf = c.user.bytes ∧ t.Holds c.password.bytes

/-- The name leaves room for the length of every answer. -/
def ShortName (c : LoginCall) : Prop := c.user.bytes.length ≤ 233

/-- The request is long enough to be read, and a challenge in it is short enough to be stored. -/
structure Benign (input : EapPacket) : Prop where
  typed : 5 ≤ input.len ∨ input.type = 0xa5
  challenge : input.type = md5 → 6 ≤ input.len ∧ input.len - 6 ≤ initialSize

/-- The EAP layer puts the header in front of the data that a handler has written. -/
theorem message_answer (e : EapState Handler) (input : EapPacket) (type : ℕ)
    (hcode : o.code = Eap.response) (hlen : o.len = data.length) (hsmall : data.length ≤ 250)
    (hdata : o.bytes 5 data.length = data) :
    (e.answer input type o).len = 5 + data.length ∧
      Message.ofPacket (e.answer input type o) =
        ⟨2, input.byte 1, UInt8.ofNat type, data⟩ := by
  have hlong : (e.answer input type o).len = 5 + data.length := by
    rw [EapState.answer_len, EapPacket.len_addLen _ _ (by decide), hlen]
    simp only [EapPacket.headerLen]
    omega
  refine ⟨hlong, ?_⟩
  have hfirst : (e.answer input type o).byte 0 = 2 := by
    rw [EapState.answer_byte _ _ _ _ (Or.inl rfl)]
    have hvalue : (o.byte 0).toNat = (2 : UInt8).toNat := hcode
    exact UInt8.toNat_inj.mp hvalue
  have hid : (e.answer input type o).byte 1 = input.byte 1 := by
    have hvalue : ((e.answer input type o).byte 1).toNat = (input.byte 1).toNat :=
      EapState.answer_id e input type o
    exact UInt8.toNat_inj.mp hvalue
  have htype : (e.answer input type o).byte 4 = UInt8.ofNat type := by
    rw [EapState.answer_eq, EapPacket.addLen_eq _ _ (by decide),
      Pointer.byte_store_of_outside (by simp), Pointer.byte_store_of_outside (by simp),
      Pointer.byte_store, if_pos (by simp)]
    rfl
  have hbytes : (e.answer input type o).bytes 5 data.length = data := by
    refine Eq.trans ?_ hdata
    rw [EapState.answer_eq, EapPacket.addLen_eq _ _ (by decide),
      Pointer.bytes_store_of_disjoint (by simp), Pointer.bytes_store_of_disjoint (by simp),
      Pointer.bytes_store_of_disjoint (by simp)]
  have hrest : 5 + data.length - 5 = data.length := by omega
  rw [Message.ofPacket, hlong, hfirst, hid, htype, hrest, hbytes, if_pos (by omega)]

/-- Handlers that have nothing to abort are not changed by a claim. -/
theorem claim_handlers_of_fixed {V : Vtable Handler} (h : ∀ hd ∈ e.handlers, V.abort hd = hd)
    (i : ℕ) (w : Want) (type : ℕ) : (e.claim V i w type).handlers = e.handlers := by
  have habort : (e.abort V).handlers = e.handlers := by
    unfold EapState.abort
    split
    · rename_i k _
      apply List.ext_getElem?
      intro j
      simp only [List.getElem?_modify]
      split
      · cases hget : e.handlers[j]? with
        | none => rfl
        | some hd => exact congrArg some (h hd (List.mem_of_getElem? hget))
      · exact congrFun Option.map_id _
    · rfl
  unfold EapState.claim
  split
  · split
    · exact habort
    · rfl
  · rfl

/-- The type data of a response to a challenge. -/
theorem bytes_respond (digest : Digest) (t : TypeMd5) (n : ℕ) (output : EapPacket) :
    (t.respond digest n output).bytes 5 (17 + t.idBuf.length) =
      16 :: ((digest (t.chapBuf.hashed n)).toList ++ t.idBuf) := by
  have hvalue := TypeMd5.value_respond digest t n output
  have hsize : (t.respond digest n output).bytes 5 1 = [16] := by
    simp only [TypeMd5.respond, EapPacket.setLen_eq, EapPacket.storeData_eq]
    rw [Pointer.bytes_store_of_disjoint (Or.inr (by simp)),
      Pointer.bytes_store_of_disjoint (Or.inl (by omega))]
    exact Pointer.bytes_store_self rfl
  have hname : (t.respond digest n output).bytes 22 t.idBuf.length = t.idBuf := by
    simp only [TypeMd5.respond, EapPacket.setLen_eq, EapPacket.storeData_eq]
    rw [Pointer.bytes_store_of_disjoint (Or.inr (by simp)), Pointer.bytes_store_self rfl]
  have hfront : (t.respond digest n output).bytes 5 17 =
      (t.respond digest n output).bytes 5 1 ++ (t.respond digest n output).bytes 6 16 :=
    (slice_append _ _ 1 16).symm
  have hall : (t.respond digest n output).bytes 5 (17 + t.idBuf.length) =
      (t.respond digest n output).bytes 5 17 ++
        (t.respond digest n output).bytes 22 t.idBuf.length := (slice_append _ _ 17 _).symm
  rw [hall, hfront, hsize, hvalue, hname]
  rfl

/-- A challenge for which there is room leaves the password where it is. -/
private theorem holds_granted {t : TypeMd5} {g : Growable} {secret : List UInt8}
    (h : t.Holds secret) (hroom : input.len - 6 ≤ initialSize)
    (hneed : (t.chapBuf.buf.need heap (input.len - 6 + t.chapBuf.slen + 1)).result = .ok g) :
    slice g.buf 1 t.chapBuf.slen = secret ∧ (t.stored g input).Holds secret := by
  obtain ⟨hlen, hkept⟩ := h
  by_cases hnil : secret = []
  · subst hnil
    have hzero : t.chapBuf.slen = 0 := hlen
    exact ⟨by rw [hzero, slice_zero], hlen, Or.inl rfl⟩
  · obtain ⟨hsecret, hsize⟩ := hkept.resolve_left hnil
    have hfits : toSize (input.len - 6 + t.chapBuf.slen + 1) ≤ t.chapBuf.buf.size := by
      have hsmall := t.chapBuf.buf.size_lt
      rw [toSize_of_lt (by omega)]
      omega
    have hsame : g = t.chapBuf.buf := by
      rw [Growable.need_result_of_le heap hfits] at hneed
      exact (Except.ok.inj hneed).symm
    subst hsame
    refine ⟨hsecret, hlen, Or.inr ⟨?_, hsize⟩⟩
    rw [TypeMd5.secret_stored]
    exact hsecret

/-- The type of a message is the one that the station reads, where a handler wants it. -/
theorem type_ofPacket (h : Benign input) {type : UInt8} (hzero : type ≠ 0) (hpadding : type ≠ 0xa5) :
    (Message.ofPacket input).type = type ↔ input.type = type.toNat := by
  rw [EapPacket.type_eq, UInt8.toNat_inj]
  by_cases hlen : 5 ≤ input.len
  · simp only [Message.ofPacket, if_pos hlen]
  · have hread : (input.byte 4).toNat = (0xa5 : UInt8).toNat := h.typed.resolve_left hlen
    simp only [Message.ofPacket, if_neg hlen]
    exact iff_of_false (Ne.symm hzero) fun hb => hpadding (hb.symm.trans (UInt8.toNat_inj.mp hread))

/-- What a handler wrote for a message: its type, the data and their length. -/
structure Wrote (o : EapPacket) (type : ℕ) (m : Message) : Prop where
  type : UInt8.ofNat type = m.type
  len : o.len = m.data.length
  data : o.bytes 5 m.data.length = m.data

/-- The answer to a challenge is hashed from the stored password. -/
theorem wrote_md5 {t t' : TypeMd5} {rc : Ret} (hid : t.idBuf = c.user.bytes)
    (hholds : t.Holds c.password.bytes) (hname : ShortName c) (hbenign : Benign input)
    (hwanted : input.type = md5)
    (hprocess : (t.process digest heap input output).result = .ok (rc, t', o)) :
    Wrote o input.type ((Message.ofPacket input).answer digest c.user.bytes c.password.bytes) ∧
      t'.idBuf = c.user.bytes ∧ t'.Holds c.password.bytes := by
  have hshort : c.user.bytes.length ≤ 233 := hname
  have htype : (Message.ofPacket input).type = 4 :=
    (type_ofPacket hbenign (by decide) (by decide)).mpr hwanted
  obtain ⟨hlong, hroom⟩ := hbenign.challenge hwanted
  obtain ⟨g, hneed, -, -, rfl, rfl⟩ := TypeMd5.process_result_eq_ok.mp hprocess
  rw [TypeMd5.vsize_eq hlong] at hneed
  obtain ⟨hsecret, hholds'⟩ := holds_granted hholds hroom hneed
  have htail : (Message.ofPacket input).data.tail = input.bytes 6 (input.len - 6) := by
    have hfirst : input.len - 5 = input.len - 6 + 1 := by omega
    change (slice input.mem (input.data + 5) (input.len - 5)).tail = _
    rw [hfirst, slice_succ]
    rfl
  have hanswer : (Message.ofPacket input).answer digest c.user.bytes c.password.bytes =
      ⟨2, input.byte 1, 4, 16 :: ((digest (input.byte 1 :: (c.password.bytes ++
        input.bytes 6 (input.len - 6)))).toList ++ c.user.bytes)⟩ := by
    rw [Message.answer_of_challenge _ _ _ htype, htail]
    rfl
  have hidBuf : (t.stored g input).idBuf = c.user.bytes := hid
  have hdata := bytes_respond digest (t.stored g input) (TypeMd5.vsize input) output
  rw [TypeMd5.hashed_stored, hsecret, TypeMd5.vsize_eq hlong, hidBuf] at hdata
  have hcount : (16 :: ((digest (input.byte 1 :: (c.password.bytes ++
      input.bytes 6 (input.len - 6)))).toList ++ c.user.bytes)).length =
      17 + c.user.bytes.length := by
    simp
    omega
  rw [hanswer]
  refine ⟨⟨by rw [hwanted]; rfl, ?_, ?_⟩, hidBuf, hholds'⟩
  · rw [TypeMd5.len_respond, hcount, hidBuf]
    omega
  · simp only [hcount]
    rw [TypeMd5.vsize_eq hlong]
    exact hdata

/-- The handler of identities writes the answer to a request. -/
theorem wrote_identity {t : TypeIdentity} {rc : Ret} (ht : t = ⟨c.user.bytes⟩) (hname : ShortName c)
    (hbenign : Benign input) (hwanted : input.type = identity)
    (hprocess : (t.process output).result = .ok (rc, o)) :
    Wrote o input.type
      ((Message.ofPacket input).answer digest c.user.bytes c.password.bytes) := by
  have hshort : c.user.bytes.length ≤ 233 := hname
  have htype : (Message.ofPacket input).type = 1 :=
    (type_ofPacket hbenign (by decide) (by decide)).mpr hwanted
  have hanswer : (Message.ofPacket input).answer digest c.user.bytes c.password.bytes =
      ⟨2, input.byte 1, 1, c.user.bytes⟩ := by
    rw [Message.answer, if_pos htype]
    rfl
  subst ht
  cases hprocess
  rw [hanswer]
  refine ⟨by rw [hwanted]; rfl, ?_, ?_⟩
  · rw [EapPacket.len_setLen]
    simp only
    omega
  · rw [EapPacket.setLen_eq, EapPacket.storeData_eq,
      Pointer.bytes_store_of_disjoint (Or.inr (by simp))]
    exact Pointer.bytes_store_self rfl

/-- So does the handler of notifications. -/
theorem wrote_notification {rc : Ret} (hbenign : Benign input)
    (hwanted : input.type = notification)
    (hprocess : (TypeNotification.process heap input output).result = .ok (rc, o)) :
    Wrote o input.type
      ((Message.ofPacket input).answer digest c.user.bytes c.password.bytes) := by
  have htype : (Message.ofPacket input).type = 2 :=
    (type_ofPacket hbenign (by decide) (by decide)).mpr hwanted
  have hanswer : (Message.ofPacket input).answer digest c.user.bytes c.password.bytes =
      ⟨2, input.byte 1, 2, []⟩ := by
    rw [Message.answer, if_neg (by rw [htype]; decide), if_neg (by rw [htype]; decide),
      if_pos htype]
    rfl
  obtain ⟨-, rfl⟩ := TypeNotification.process_result_eq_ok hprocess
  rw [hanswer]
  exact ⟨by rw [hwanted]; rfl, EapPacket.len_setLen _ _, rfl⟩

/-- Somebody offers MD5 for a request that nobody wants. -/
theorem wrote_nak (hbenign : Benign input)
    (hunwanted : input.type ≠ identity ∧ input.type ≠ md5 ∧ input.type ≠ notification) :
    Wrote (TypeMd5.nakIt output) nak
      ((Message.ofPacket input).answer digest c.user.bytes c.password.bytes) := by
  have hother (type : UInt8) (hzero : type ≠ 0) (hpadding : type ≠ 0xa5)
      (hne : input.type ≠ type.toNat) : (Message.ofPacket input).type ≠ type :=
    fun h => hne ((type_ofPacket hbenign hzero hpadding).mp h)
  have hanswer : (Message.ofPacket input).answer digest c.user.bytes c.password.bytes =
      ⟨2, input.byte 1, 3, [4]⟩ := by
    rw [Message.answer, if_neg (hother 1 (by decide) (by decide) hunwanted.1),
      if_neg (hother 4 (by decide) (by decide) hunwanted.2.1),
      if_neg (hother 2 (by decide) (by decide) hunwanted.2.2)]
    rfl
  rw [hanswer]
  refine ⟨rfl, EapPacket.len_setLen _ _, ?_⟩
  simp only [TypeMd5.nakIt, EapPacket.setLen_eq, EapPacket.storeData_eq]
  rw [Pointer.bytes_store_of_disjoint (Or.inr (by simp))]
  exact Pointer.bytes_store_self rfl

/-- The handler that wants a request writes the answer of the user, and the handlers stay those of the
login. -/
theorem wrote_of_process {i : ℕ} {hd hd' : Handler} {rc : Ret} (hloyal : Loyal c e)
    (hname : ShortName c) (hbenign : Benign input) (hget : e.handlers[i]? = some hd)
    (hwanted : hd.wantedType = input.type)
    (hprocess : (hd.process digest E heap input output).result = .ok (rc, hd', o)) :
    Wrote o input.type ((Message.ofPacket input).answer digest c.user.bytes c.password.bytes) ∧
      ∃ t : TypeMd5,
        e.handlers.set i hd' = [.md5 t, .identity ⟨c.user.bytes⟩, .notification] ∧
        t.idBuf = c.user.bytes ∧ t.Holds c.password.bytes := by
  obtain ⟨t, hhandlers, hid, hholds⟩ := hloyal
  rw [hhandlers] at hget ⊢
  have hmem : hd = .md5 t ∧ i = 0 ∨ hd = .identity ⟨c.user.bytes⟩ ∧ i = 1 ∨
      hd = .notification ∧ i = 2 := by
    rcases i with _ | _ | _ | i
    · simpa [eq_comm] using hget
    · simpa [eq_comm] using hget
    · simpa [eq_comm] using hget
    · simp at hget
  rcases hmem with ⟨rfl, rfl⟩ | ⟨rfl, rfl⟩ | ⟨rfl, rfl⟩
  · obtain ⟨⟨rc', t', o'⟩, ha, hr⟩ := Exec.result_bind_eq_ok.mp hprocess
    cases hr
    obtain ⟨hwrote, hid', hholds'⟩ := wrote_md5 hid hholds hname hbenign hwanted.symm ha
    exact ⟨hwrote, t', rfl, hid', hholds'⟩
  · obtain ⟨⟨rc', o'⟩, ha, hr⟩ := Exec.result_bind_eq_ok.mp hprocess
    cases hr
    exact ⟨wrote_identity rfl hname hbenign hwanted.symm ha, t, rfl, hid, hholds⟩
  · obtain ⟨⟨rc', o'⟩, ha, hr⟩ := Exec.result_bind_eq_ok.mp hprocess
    cases hr
    exact ⟨wrote_notification hbenign hwanted.symm ha, t, rfl, hid, hholds⟩

/-- What was written becomes the answer of the user. -/
theorem message_of_wrote {type : ℕ} {o : EapPacket} (hname : ShortName c) (e : EapState Handler)
    (hcode : o.code = Eap.response)
    (hwrote : Wrote o type ((Message.ofPacket input).answer digest c.user.bytes c.password.bytes)) :
    Message.ofPacket (e.answer input type o) =
      (Message.ofPacket input).answer digest c.user.bytes c.password.bytes ∧
      5 ≤ (e.answer input type o).len := by
  have hshort : c.user.bytes.length ≤ 233 := hname
  have hsize := (Message.ofPacket input).answer_data_length digest c.user.bytes c.password.bytes
  obtain ⟨hresponse, hid⟩ :=
    (Message.ofPacket input).answer_head digest c.user.bytes c.password.bytes
  obtain ⟨hlen, hmessage⟩ := message_answer e input type hcode hwrote.len (by omega) hwrote.data
  rw [hmessage, hwrote.type, hlen]
  exact ⟨Message.ext hresponse.symm hid.symm rfl rfl, Nat.le_add_right ..⟩

/-- An answered request is answered as the user would, and the handlers stay those of the login. -/
theorem answered_of_loyal (hloyal : Loyal c e) (hname : ShortName c) (hbenign : Benign input)
    (hcode : output.code = Eap.response)
    (hans : EapState.Answer (Handler.vtable digest E) e heap input output e' o) :
    Loyal c e' ∧ Message.ofPacket o =
      (Message.ofPacket input).answer digest c.user.bytes c.password.bytes ∧ 5 ≤ o.len := by
  obtain ⟨t, hhandlers, hid, hholds⟩ := hloyal
  cases hans with
  | @handler i w hd hd' o₁ _ _ hsearch hget hprocess hdone =>
    have hfixed : ∀ hd ∈ e.handlers, (Handler.vtable digest E).abort hd = hd := by
      rw [hhandlers]
      simp [Handler.vtable, Handler.abort]
    rw [claim_handlers_of_fixed hfixed] at hget hdone
    obtain ⟨hd₀, hget₀, hwanted⟩ := EapState.wantedType_of_search hsearch
    cases hget.symm.trans hget₀
    obtain ⟨hwrote, t', hset, hid', hholds'⟩ := wrote_of_process ⟨t, hhandlers, hid, hholds⟩ hname
      hbenign hget hwanted hprocess
    have hsame : o₁.code = Eap.response := by
      rw [(Handler.process_sameHead hprocess).code, hcode]
    obtain ⟨rfl, rfl⟩ := Prod.mk.inj hdone
    exact ⟨⟨t', hset, hid', hholds'⟩, message_of_wrote hname e hsame hwrote⟩
  | @nak o₁ _ _ hsearch hnak hdone =>
    have hoffer : o₁ = TypeMd5.nakIt output := by
      rw [hhandlers] at hnak
      simpa [Handler.vtable, Handler.nakIt, eq_comm] using hnak
    have hunwanted : input.type ≠ identity ∧ input.type ≠ md5 ∧ input.type ≠ notification := by
      have hnobody := EapState.search_eq_none.mp hsearch
      rw [hhandlers] at hnobody
      have hne {hd : Handler} (h : hd ∈ [Handler.md5 t, .identity ⟨c.user.bytes⟩, .notification]) :
          input.type ≠ hd.wantedType := Handler.wantThis_eq_notMe.mp (hnobody hd h)
      exact ⟨hne (by simp : Handler.identity ⟨c.user.bytes⟩ ∈ _),
        hne (by simp : Handler.md5 t ∈ _), hne (by simp : Handler.notification ∈ _)⟩
    subst hoffer
    have hsame : (TypeMd5.nakIt output).code = Eap.response :=
      ((EapPacket.SameHead.storeData output 0 _).trans (.setLen _ _)).code.trans hcode
    obtain ⟨rfl, rfl⟩ := Prod.mk.inj hdone
    exact ⟨⟨t, hhandlers, hid, hholds⟩,
      message_of_wrote hname e hsame (wrote_nak hbenign hunwanted)⟩

end Answers

end Dot1x.System
