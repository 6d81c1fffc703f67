import Dot1x.Eap.TypeMd5

/-!
# The secret under a sequence of challenges

One handler answers any number of MD5-Challenge requests. The secret is written once, by the
constructor, into the buffer that later grows; a buffer that grows is a fresh block, in which
the place of the secret holds whatever the allocator left there. So the responses are the
expected ones exactly as long as no challenge is longer than the room the constructor provided,
unless there is no secret to lose.
-/

namespace Dot1x.Eap

open Dot1x.Base Dot1x.Wire

/-- One request as the handler meets it: the packet, the contents of the block `realloc` returns
if it is called, and the output packet as earlier responses left it. -/
structure Challenge where
  input : EapPacket
  block : Mem
  output : EapPacket

/-- The value CHAP prescribes for a secret and a request. -/
def chapValue (digest : Digest) (secret : List UInt8) (input : EapPacket) : List UInt8 :=
  (digest (input.byte 1 :: (secret ++ input.bytes 6 (input.len - 6)))).toList

namespace TypeMd5

/-- The values one handler answers to successive requests. -/
def responses (digest : Digest) (t : TypeMd5) : List Challenge → Call (List (List UInt8))
  | [] => pure []
  | c :: rest => do
    let r ← t.process digest (fun _ => some c.block) c.input c.output
    let values ← responses digest r.2.1 rest
    pure (r.2.2.bytes 6 16 :: values)

/-- The buffer a request is granted when allocation succeeds. -/
def granted (t : TypeMd5) (c : Challenge) : Growable :=
  if t.chapBuf.buf.size < c.input.len - 6 + t.chapBuf.slen + 1 then
    .fresh (c.input.len - 6 + t.chapBuf.slen + 1) c.block
  else t.chapBuf.buf

/-- The size of a request is far from the end of the address space. -/
private theorem toSize_request (t : TypeMd5) (input : EapPacket) :
    toSize (input.len - 6 + t.chapBuf.slen + 1) = input.len - 6 + t.chapBuf.slen + 1 := by
  have hlen := input.len_lt
  have hslen := t.chapBuf.slen_lt
  exact toSize_of_lt (by omega)

/-- A request of at least six bytes is always answered. -/
theorem process_answers (digest : Digest) (t : TypeMd5) (c : Challenge) (h : 6 ≤ c.input.len) :
    (t.process digest (fun _ => some c.block) c.input c.output).result =
      .ok (.cont, t.stored (t.granted c) c.input,
        (t.stored (t.granted c) c.input).respond digest (vsize c.input) c.output) := by
  refine process_result_eq_ok.mpr ⟨t.granted c, ?_, ?_, rfl, rfl, rfl⟩
  · rw [vsize_eq h, Growable.need_result_eq_ok, toSize_request, granted]
    split
    · exact ⟨c.block, rfl, rfl⟩
    · rfl
  · rw [vsize_eq h, granted]
    split
    · change _ ≤ toSize _
      rw [toSize_request]
      omega
    · omega

/-- The value answered to a request is the prescribed one for the secret of the granted buffer. -/
theorem responses_cons {digest : Digest} {t : TypeMd5} {c : Challenge} {rest : List Challenge}
    {values : List (List UInt8)} (h : 6 ≤ c.input.len) :
    (t.responses digest (c :: rest)).result = .ok values ↔
      ∃ vs, ((t.stored (t.granted c) c.input).responses digest rest).result = .ok vs ∧
        values = chapValue digest (slice (t.granted c).buf 1 t.chapBuf.slen) c.input :: vs := by
  have hvalue : ((t.stored (t.granted c) c.input).respond digest (vsize c.input) c.output).bytes 6 16 =
      chapValue digest (slice (t.granted c).buf 1 t.chapBuf.slen) c.input := by
    rw [value_respond, hashed_stored, vsize_eq h]
    rfl
  rw [responses, Exec.result_bind_of_ok (process_answers digest t c h), Exec.result_bind_eq_ok]
  simp only [Exec.result_pure, Except.ok.injEq, hvalue, eq_comm]

/-- Nothing was lost yet: there is no secret, or the buffer is still the one of the constructor. -/
def Holds (t : TypeMd5) (secret : List UInt8) : Prop :=
  t.chapBuf.slen = secret.length ∧
    (secret = [] ∨ (t.chapBuf.secret = secret ∧ t.chapBuf.buf.size = t.chapBuf.slen + (initialSize + 1)))

/-- A request the buffer has room for, or an empty secret, loses nothing. -/
theorem Holds.step {t : TypeMd5} {secret : List UInt8} {c : Challenge} (h : t.Holds secret)
    (hsmall : secret = [] ∨ c.input.len - 6 ≤ initialSize) :
    (t.stored (t.granted c) c.input).Holds secret ∧
      slice (t.granted c).buf 1 t.chapBuf.slen = secret := by
  obtain ⟨hlen, hkept⟩ := h
  by_cases hnil : secret = []
  · subst hnil
    have hzero : t.chapBuf.slen = 0 := hlen
    exact ⟨⟨hlen, Or.inl rfl⟩, by rw [hzero, slice_zero]⟩
  · obtain ⟨hsecret, hsize⟩ := hkept.resolve_left hnil
    have hroom : c.input.len - 6 ≤ initialSize := hsmall.resolve_left hnil
    have hsame : t.granted c = t.chapBuf.buf := by
      rw [granted, if_neg (by omega)]
    refine ⟨⟨hlen, Or.inr ⟨?_, ?_⟩⟩, ?_⟩
    · rw [secret_stored, hsame]
      exact hsecret
    · change (t.granted c).size = t.chapBuf.slen + (initialSize + 1)
      rw [hsame, hsize]
    · rw [hsame]
      exact hsecret

/-- As long as nothing is lost every response has the prescribed value. -/
theorem responses_of_holds (digest : Digest) {t : TypeMd5} {secret : List UInt8}
    (challenges : List Challenge) (h : t.Holds secret)
    (hlen : ∀ c ∈ challenges, 6 ≤ c.input.len)
    (hsmall : secret = [] ∨ ∀ c ∈ challenges, c.input.len - 6 ≤ initialSize) :
    (t.responses digest challenges).result =
      .ok (challenges.map fun c => chapValue digest secret c.input) := by
  induction challenges generalizing t with
  | nil => rfl
  | cons c rest ih =>
    have hc : secret = [] ∨ c.input.len - 6 ≤ initialSize :=
      hsmall.imp_right fun h => h c List.mem_cons_self
    obtain ⟨hnext, hsecret⟩ := h.step hc
    have hrest := ih hnext (fun d hd => hlen d (List.mem_cons_of_mem _ hd))
      (hsmall.imp_right fun h d hd => h d (List.mem_cons_of_mem _ hd))
    refine (responses_cons (hlen c List.mem_cons_self)).mpr ⟨_, hrest, ?_⟩
    rw [hsecret, List.map_cons]

/-- A hash that tells whether the second byte of its argument is a given one. -/
def secondByteDigest (b : UInt8) : Digest := fun l =>
  if l[1]? = some b then Vector.replicate 16 1 else Vector.replicate 16 0

/-- A secret with a different first byte gives a different value under that hash. -/
private theorem chapValue_ne {b b' : UInt8} (hne : b' ≠ b) (bs bs' : List UInt8)
    (input : EapPacket) :
    chapValue (secondByteDigest b) (b' :: bs') input ≠ chapValue (secondByteDigest b) (b :: bs) input := by
  simp [chapValue, secondByteDigest, hne]

/-- A challenge longer than the room of the constructor's buffer replaces the secret by what the
allocator left in the new block, and some response shows it. -/
private theorem responses_ne {t : TypeMd5} {b : UInt8} {bs : List UInt8}
    (challenges : List Challenge) (h : t.Holds (b :: bs)) (hlen : ∀ c ∈ challenges, 6 ≤ c.input.len)
    (hblock : ∀ c ∈ challenges, c.block 1 ≠ b)
    (hbig : ∃ c ∈ challenges, initialSize < c.input.len - 6) :
    (t.responses (secondByteDigest b) challenges).result ≠
      .ok (challenges.map fun c => chapValue (secondByteDigest b) (b :: bs) c.input) := by
  induction challenges generalizing t with
  | nil => obtain ⟨c, hc, -⟩ := hbig; cases hc
  | cons c rest ih =>
    intro heq
    obtain ⟨vs, hvs, hcons⟩ := (responses_cons (hlen c List.mem_cons_self)).mp heq
    rw [List.map_cons, List.cons.injEq] at hcons
    obtain ⟨hslen, hkept⟩ := h
    obtain ⟨-, hsize⟩ := hkept.resolve_left (List.cons_ne_nil _ _)
    by_cases hc : initialSize < c.input.len - 6
    · have hgrown : (t.granted c).buf = c.block := by
        rw [granted, if_pos (by omega)]
        rfl
      have hfirst : slice (t.granted c).buf 1 t.chapBuf.slen = c.block 1 :: slice c.block 2 bs.length := by
        rw [hgrown, hslen, List.length_cons, slice_succ]
      rw [hfirst] at hcons
      exact chapValue_ne (hblock c List.mem_cons_self) _ _ _ hcons.1.symm
    · have hnext := (Holds.step (c := c) ⟨hslen, hkept⟩ (Or.inr (by omega))).1
      obtain ⟨d, hd, hbigd⟩ := hbig
      have hd' : d ∈ rest := (List.mem_cons.mp hd).resolve_left fun hdc => hc (hdc ▸ hbigd)
      refine ih hnext (fun d hd => hlen d (List.mem_cons_of_mem _ hd))
        (fun d hd => hblock d (List.mem_cons_of_mem _ hd)) ⟨d, hd', hbigd⟩ ?_
      rw [hvs, ← hcons.2]

end TypeMd5

/-- A new handler, then the values it answers. Allocation always succeeds. -/
def md5Session (digest : Digest) (base : Mem) (identity secret : Block) (challenges : List Challenge) :
    Call (List (List UInt8)) := do
  let t ← TypeMd5.new (fun _ => some base) identity secret
  t.responses digest challenges

/-- Whatever the hash and whatever the allocator returns, every response has the value CHAP
prescribes for the secret of the constructor. -/
def SecretKept (identity secret : Block) (requests : List EapPacket) : Prop :=
  ∀ (digest : Digest) (base : Mem) (challenges : List Challenge),
    challenges.map Challenge.input = requests →
      (md5Session digest base identity secret challenges).result =
        .ok (requests.map (chapValue digest secret.bytes))

/-- The constructor returns a handler that holds its secret. -/
theorem TypeMd5.new_holds (base : Mem) (identity secret : Block) :
    ∃ t, (TypeMd5.new (fun _ => some base) identity secret).result = .ok t ∧ t.Holds secret.bytes := by
  refine ⟨_, rfl, rfl, Or.inr ⟨?_, ?_⟩⟩
  · exact slice_write_eq rfl
  · change initialSize + secret.bytes.length + 1 = secret.bytes.length + (initialSize + 1)
    omega

/-- A challenge that outgrows the buffer of the constructor loses a secret that is not empty. -/
theorem not_secretKept {identity secret : Block} {requests : List EapPacket}
    (hlen : ∀ p ∈ requests, 6 ≤ p.len) (hne : secret.bytes ≠ [])
    (hbig : ∃ p ∈ requests, initialSize < p.len - 6) : ¬SecretKept identity secret requests := by
  intro hkept
  obtain ⟨b, bs, hsecret⟩ := List.exists_cons_of_ne_nil hne
  let challenges := requests.map fun p => (⟨p, fun _ => b + 1, p⟩ : Challenge)
  have hinput : challenges.map Challenge.input = requests := by simp [challenges, Function.comp_def]
  obtain ⟨t, hnew, hholds⟩ := TypeMd5.new_holds (fun _ => 0) identity secret
  have hrun := hkept (TypeMd5.secondByteDigest b) (fun _ => 0) challenges hinput
  rw [md5Session, Exec.result_bind_of_ok hnew, hsecret] at hrun
  rw [hsecret] at hholds
  refine TypeMd5.responses_ne challenges hholds ?_ ?_ ?_ ?_
  · simpa [challenges] using hlen
  · simp [challenges]
  · obtain ⟨p, hp, hlong⟩ := hbig
    exact ⟨_, List.mem_map_of_mem hp, hlong⟩
  · simpa [challenges, Function.comp_def] using hrun

/-- Challenges the buffer of the constructor has room for keep the secret. -/
theorem secretKept_of_small {identity secret : Block} {requests : List EapPacket}
    (hlen : ∀ p ∈ requests, 6 ≤ p.len)
    (hsmall : secret.bytes = [] ∨ ∀ p ∈ requests, p.len - 6 ≤ initialSize) :
    SecretKept identity secret requests := by
  intro digest base challenges hinput
  obtain ⟨t, hnew, hholds⟩ := TypeMd5.new_holds base identity secret
  subst hinput
  rw [md5Session, Exec.result_bind_of_ok hnew, List.map_map]
  refine TypeMd5.responses_of_holds digest challenges hholds ?_ ?_
  · simpa using hlen
  · simpa using hsmall

/-- The secret survives a sequence of requests exactly when none of their challenges is longer
than the room the constructor provided, or when the secret is empty. -/
theorem secretKept_iff (identity secret : Block) (requests : List EapPacket)
    (hlen : ∀ p ∈ requests, 6 ≤ p.len) :
    SecretKept identity secret requests ↔
      secret.bytes = [] ∨ ∀ p ∈ requests, p.len - 6 ≤ initialSize := by
  constructor
  · intro hkept
    by_contra hbad
    obtain ⟨hne, hbig⟩ := not_or.mp hbad
    simp only [not_forall, Nat.not_le, exists_prop] at hbig
    exact not_secretKept hlen hne hbig hkept
  · exact secretKept_of_small hlen

/-- An MD5-Challenge request with identifier 7 whose size byte and length field announce `n` bytes. -/
def md5Request (n : UInt8) : EapPacket :=
  ⟨write (fun _ => 42) 0 [1, 7, 0, n + 6, 4, n], 0⟩

/-- Two short challenges in a row keep a secret of one byte. -/
theorem secretKept_short :
    SecretKept (.single 97) (.single 115) [md5Request 16, md5Request 128] :=
  (secretKept_iff _ _ _ (by decide)).mpr (Or.inr (by decide))

/-- One challenge of 129 bytes loses it. -/
theorem not_secretKept_long : ¬SecretKept (.single 97) (.single 115) [md5Request 129] :=
  not_secretKept (by decide) (by decide) (by decide)

end Dot1x.Eap
