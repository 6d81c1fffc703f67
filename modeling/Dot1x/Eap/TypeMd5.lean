import Dot1x.Eap.Process

/-!
# The MD5-Challenge handler

The handler keeps one growable buffer for all challenges: a byte for the identifier, the
secret, stored once by the constructor, and room for the challenge. A longer challenge makes
the buffer grow first.

The hash is a parameter: nothing here depends on what it computes.
-/

namespace Dot1x.Eap

open Dot1x.Base Dot1x.Wire

/-- The hash function over byte strings. -/
abbrev Digest := List UInt8 → Vector UInt8 16

/-- Room for a challenge before the buffer has to grow. -/
def initialSize : ℕ := 128

/-- The data members of `chap_buffer`. -/
structure ChapBuffer where
  buf : Growable
  slen : ℕ
  slen_lt : slen < 2 ^ 31

namespace ChapBuffer

/-- The constructor. -/
def new (heap : Heap) (secret : Block) : Call ChapBuffer := do
  let n := initialSize + secret.bytes.length + 1
  let m ← alloc heap n
  pure ⟨⟨n, write m 1 secret.bytes, by
    have hlen := secret.length_lt
    simp only [n, initialSize]
    omega⟩, secret.bytes.length, secret.length_lt⟩

/-- `chap_buffer::need`. -/
def need (c : ChapBuffer) (heap : Heap) (what : ℕ) : Call ChapBuffer := do
  let g ← c.buf.need heap (what + c.slen + 1)
  pure { c with buf := g }

/-- `hdr_len`. -/
def hdrLen (c : ChapBuffer) : ℕ := 1 + c.slen

/-- `copy_challenge`. -/
def copyChallenge (c : ChapBuffer) (id : ℕ) (input : Mem) (v len : ℕ) : Call ChapBuffer := do
  let m ← memcpyIn (write c.buf.buf 0 [UInt8.ofNat id]) c.buf.size (1 + c.slen) input v len
  pure { c with buf := { c.buf with buf := m } }

/-- The bytes that are hashed for a challenge of a given length. -/
def hashed (c : ChapBuffer) (len : ℕ) : List UInt8 := slice c.buf.buf 0 (c.hdrLen + len)

/-- The secret as the buffer holds it now. -/
def secret (c : ChapBuffer) : List UInt8 := slice c.buf.buf 1 c.slen

end ChapBuffer

/-- The data members of `type_md5`. -/
structure TypeMd5 where
  chapBuf : ChapBuffer
  idBuf : List UInt8

namespace TypeMd5

/-- The constructor. -/
def new (heap : Heap) (identity secret : Block) : Call TypeMd5 := do
  let chap ← ChapBuffer.new heap secret
  let _ ← alloc heap identity.bytes.length
  pure ⟨chap, identity.bytes⟩

def wantThis (input : EapPacket) : Want := if input.type = md5 then .iWillAuth else .notMe

/-- The type data of a response: the size byte, the digest and the user name. -/
def respond (digest : Digest) (t : TypeMd5) (vsize : ℕ) (output : EapPacket) : EapPacket :=
  let output := EapPacket.storeData output 1 (digest (t.chapBuf.hashed vsize)).toList
  let output := EapPacket.storeData output 0 [16]
  let output := EapPacket.storeData output 17 t.idBuf
  EapPacket.setLen output (17 + t.idBuf.length)

def process (digest : Digest) (t : TypeMd5) (heap : Heap) (input output : EapPacket) :
    Call (Ret × TypeMd5 × EapPacket) := do
  let n ← subSize input.len EapPacket.headerLen
  let vsize ← subSize n 1
  let chap ← t.chapBuf.need heap vsize
  let chap ← chap.copyChallenge input.id input.mem (input.eapData + 1) vsize
  let t := { t with chapBuf := chap }
  pure (.cont, t, t.respond digest vsize output)

/-- Offer MD5 in a Nak. -/
def nakIt (output : EapPacket) : EapPacket :=
  EapPacket.setLen (EapPacket.storeData output 0 [UInt8.ofNat md5]) 1

/-- The challenge length `process` computes: all of the packet behind the size byte. -/
def vsize (input : EapPacket) : ℕ := wrapSub (wrapSub input.len EapPacket.headerLen) 1

/-- The size of the value is taken from the length of the packet. -/
theorem vsize_eq {input : EapPacket} (h : 6 ≤ input.len) : vsize input = input.len - 6 := by
  have hfirst : wrapSub input.len EapPacket.headerLen = input.len - 5 :=
    wrapSub_of_le (by simp only [EapPacket.headerLen]; omega)
  rw [vsize, hfirst, wrapSub_of_le (by omega)]
  omega

/-- The handler after a challenge was stored in a granted buffer. -/
def stored (t : TypeMd5) (g : Growable) (input : EapPacket) : TypeMd5 :=
  { t with chapBuf := { t.chapBuf with buf := { g with
      buf := write (write g.buf 0 [UInt8.ofNat input.id]) (1 + t.chapBuf.slen)
        (slice input.mem (input.eapData + 1) (vsize input)) } } }

/-- Every return of `process` is an answer, computed from a granted buffer that has room. -/
theorem process_result_eq_ok {digest : Digest} {t t' : TypeMd5} {heap : Heap}
    {input output o : EapPacket} {rc : Ret} :
    (t.process digest heap input output).result = .ok (rc, t', o) ↔
      ∃ g, (t.chapBuf.buf.need heap (vsize input + t.chapBuf.slen + 1)).result = .ok g ∧
        1 + t.chapBuf.slen + vsize input ≤ g.size ∧ rc = .cont ∧ t' = t.stored g input ∧
        o = t'.respond digest (vsize input) output := by
  have hneed (c : ChapBuffer) : (t.chapBuf.need heap (vsize input)).result = .ok c ↔
      ∃ g, (t.chapBuf.buf.need heap (vsize input + t.chapBuf.slen + 1)).result = .ok g ∧
        c = { t.chapBuf with buf := g } := by
    rw [ChapBuffer.need, Exec.result_bind_eq_ok]
    simp only [Exec.result_pure, Except.ok.injEq, eq_comm]
  have hcopy (c c' : ChapBuffer) :
      (c.copyChallenge input.id input.mem (input.eapData + 1) (vsize input)).result = .ok c' ↔
        1 + c.slen + vsize input ≤ c.buf.size ∧ c' = { c with buf := { c.buf with
          buf := write (write c.buf.buf 0 [UInt8.ofNat input.id]) (1 + c.slen)
            (slice input.mem (input.eapData + 1) (vsize input)) } } := by
    rw [ChapBuffer.copyChallenge, Exec.result_bind_eq_ok]
    simp only [memcpyIn_result_eq_ok, Exec.result_pure, Except.ok.injEq, and_assoc,
      exists_and_left, exists_eq_left, eq_comm]
  rw [process, Exec.result_bind_of_ok (subSize_result _ _),
    Exec.result_bind_of_ok (subSize_result _ _), Exec.result_bind_eq_ok]
  constructor
  · rintro ⟨c, hc, h⟩
    obtain ⟨g, hg, rfl⟩ := (hneed c).mp hc
    obtain ⟨c', hc', h⟩ := Exec.result_bind_eq_ok.mp h
    obtain ⟨hroom, rfl⟩ := (hcopy _ c').mp hc'
    simp only [Exec.result_pure, Except.ok.injEq, Prod.mk.injEq] at h
    obtain ⟨hrc, ht, ho⟩ := h
    exact ⟨g, hg, hroom, hrc.symm, ht.symm, by rw [← ho, ← ht]; rfl⟩
  · rintro ⟨g, hg, hroom, rfl, rfl, rfl⟩
    refine ⟨_, (hneed _).mpr ⟨g, hg, rfl⟩, ?_⟩
    exact Exec.result_bind_eq_ok.mpr ⟨_, (hcopy _ _).mpr ⟨hroom, rfl⟩, rfl⟩

/-- What is hashed: the identifier, the secret the buffer holds, and the challenge. -/
theorem hashed_stored (t : TypeMd5) (g : Growable) (input : EapPacket) :
    (t.stored g input).chapBuf.hashed (vsize input) =
      input.byte 1 :: (slice g.buf 1 t.chapBuf.slen ++ input.bytes 6 (vsize input)) := by
  have hid : UInt8.ofNat input.id = input.byte 1 := UInt8.ofNat_toNat
  have hlen : (t.stored g input).chapBuf.hdrLen + vsize input =
      1 + t.chapBuf.slen + vsize input := rfl
  have hhead : slice (write g.buf 0 [UInt8.ofNat input.id]) 0 (1 + t.chapBuf.slen) =
      input.byte 1 :: slice g.buf 1 t.chapBuf.slen := by
    rw [Nat.add_comm 1, slice_succ, write_singleton_self, slice_write_disjoint (Or.inr (by simp)), hid]
  rw [ChapBuffer.hashed, hlen, ← slice_append]
  simp only [stored, Nat.zero_add]
  rw [slice_write_eq (slice_length ..), slice_write_disjoint (Or.inl (by omega)), hhead]
  rfl

/-- Storing a challenge leaves the secret of the granted buffer where it is. -/
theorem secret_stored (t : TypeMd5) (g : Growable) (input : EapPacket) :
    (t.stored g input).chapBuf.secret = slice g.buf 1 t.chapBuf.slen := by
  simp only [ChapBuffer.secret, stored]
  rw [slice_write_disjoint (Or.inl (by omega)), slice_write_disjoint (Or.inr (by simp))]

/-- The value field of a response is the digest. -/
theorem value_respond (digest : Digest) (t : TypeMd5) (vsize : ℕ) (output : EapPacket) :
    (t.respond digest vsize output).bytes 6 16 = (digest (t.chapBuf.hashed vsize)).toList := by
  simp only [respond, EapPacket.setLen_eq, EapPacket.storeData_eq]
  rw [Pointer.bytes_store_of_disjoint (Or.inr (by simp)),
    Pointer.bytes_store_of_disjoint (Or.inl (by omega)),
    Pointer.bytes_store_of_disjoint (Or.inr (by simp)),
    Pointer.bytes_store_self (by simp)]

/-- The length a response announces, before the header is counted. -/
theorem len_respond (digest : Digest) (t : TypeMd5) (vsize : ℕ) (output : EapPacket) :
    (t.respond digest vsize output).len = (17 + t.idBuf.length) % 2 ^ 16 :=
  EapPacket.len_setLen ..

end TypeMd5

end Dot1x.Eap
