import Dot1x.Eap.Md5Challenge

/-!
# The challenge of a request

A request says in a byte how long its challenge is; a name may follow. The handler takes all of the
request behind that byte for the challenge, so the name is hashed along with it.
-/

namespace Dot1x.Eap

open Dot1x.Base Dot1x.Wire

/-- The byte of a request that says how long the challenge is. -/
def valueSize (input : EapPacket) : ℕ := (input.byte 5).toNat

/-- The challenge, without the name behind it. -/
def challengeValue (input : EapPacket) : List UInt8 := input.bytes 6 (valueSize input)

/-- The value that CHAP prescribes for a secret and a request that may have a name. -/
def namedChapValue (digest : Digest) (secret : List UInt8) (input : EapPacket) : List UInt8 :=
  (digest (input.byte 1 :: (secret ++ challengeValue input))).toList

/-- Whatever the hash and whatever the allocator returns, every response has the value that CHAP
prescribes, with or without names in the requests. -/
def ChallengesHashed (identity secret : Block) (requests : List EapPacket) : Prop :=
  ∀ (digest : Digest) (base : Mem) (challenges : List Challenge),
    challenges.map Challenge.input = requests →
      (md5Session digest base identity secret challenges).result =
        .ok (requests.map (namedChapValue digest secret.bytes))

/-- A hash that tells how many bytes it was given. -/
def lengthDigest (n : ℕ) : Digest := fun l =>
  if l.length = n then Vector.replicate 16 1 else Vector.replicate 16 0

/-- An input that is hashed like one of the length in question has that length. -/
private theorem lengthDigest_inj {n : ℕ} {l : List UInt8} {l' : List UInt8} (hl' : l'.length = n)
    (h : (lengthDigest n l).toList = (lengthDigest n l').toList) : l.length = n := by
  by_contra hne
  rw [lengthDigest, lengthDigest, if_neg hne, if_pos hl'] at h
  cases h

/-- Under such a hash, what became of the secret does not matter. -/
private theorem TypeMd5.responses_lengthDigest (n : ℕ) {t : TypeMd5} {secret : List UInt8}
    (challenges : List Challenge) (hlen : ∀ c ∈ challenges, 6 ≤ c.input.len)
    (hsecret : t.chapBuf.slen = secret.length) :
    (t.responses (lengthDigest n) challenges).result =
      .ok (challenges.map fun c => chapValue (lengthDigest n) secret c.input) := by
  induction challenges generalizing t with
  | nil => rfl
  | cons c rest ih =>
    have hrest := ih (t := t.stored (t.granted c) c.input)
      (fun d hd => hlen d (List.mem_cons_of_mem c hd)) hsecret
    refine (responses_cons (hlen c List.mem_cons_self)).mpr ⟨_, hrest, ?_⟩
    have hvalue : chapValue (lengthDigest n) (slice (t.granted c).buf 1 t.chapBuf.slen) c.input =
        chapValue (lengthDigest n) secret c.input := by
      simp only [chapValue, lengthDigest, List.length_cons, List.length_append, slice_length,
        hsecret]
    rw [List.map_cons, hvalue]

/-- A request without a name is hashed as it should be. -/
theorem namedChapValue_eq {input : EapPacket} (h : valueSize input = input.len - 6)
    (digest : Digest) (secret : List UInt8) :
    namedChapValue digest secret input = chapValue digest secret input := by
  rw [namedChapValue, chapValue, challengeValue, h]

/-- A name that is hashed along with a challenge shows. -/
theorem ChallengesHashed.nameless {identity secret : Block} {requests : List EapPacket}
    (h : ChallengesHashed identity secret requests) (hlen : ∀ p ∈ requests, 6 ≤ p.len) :
    ∀ p ∈ requests, valueSize p = p.len - 6 := by
  intro p hp
  let challenges := requests.map fun q => (⟨q, fun _ => 0, q⟩ : Challenge)
  have hinput : challenges.map Challenge.input = requests := by simp [challenges, Function.comp_def]
  obtain ⟨t, hnew, hholds⟩ := TypeMd5.new_holds (fun _ => 0) identity secret
  have hrun := h (lengthDigest (secret.bytes.length + valueSize p + 1)) (fun _ => 0) challenges hinput
  rw [md5Session, Exec.result_bind_of_ok hnew,
    TypeMd5.responses_lengthDigest _ challenges (by simpa [challenges] using hlen) hholds.1,
    Except.ok.injEq] at hrun
  have hsame : chapValue (lengthDigest (secret.bytes.length + valueSize p + 1)) secret.bytes p =
      namedChapValue (lengthDigest (secret.bytes.length + valueSize p + 1)) secret.bytes p := by
    have hall := hrun
    simp only [challenges, List.map_map] at hall
    exact List.map_inj_left.mp hall p hp
  have hlength := lengthDigest_inj (by simp [challengeValue]) hsame
  simp only [List.length_cons, List.length_append, Pointer.bytes_length] at hlength
  omega

/-- **When the right challenge is hashed.** Every response to a sequence of requests has the value
that CHAP prescribes exactly when no request has a name, and the buffer of the constructor has room
for all challenges or there is no secret to lose. -/
theorem challengesHashed_iff (identity secret : Block) (requests : List EapPacket)
    (hsize : ∀ p ∈ requests, 1 ≤ valueSize p ∧ valueSize p ≤ p.len - 6) :
    ChallengesHashed identity secret requests ↔
      (∀ p ∈ requests, valueSize p = p.len - 6) ∧
        (secret.bytes = [] ∨ ∀ p ∈ requests, valueSize p ≤ initialSize) := by
  have hlen (p : EapPacket) (hp : p ∈ requests) : 6 ≤ p.len := by
    have hp := hsize p hp
    omega
  have hkept (hnameless : ∀ p ∈ requests, valueSize p = p.len - 6) :
      ChallengesHashed identity secret requests ↔ SecretKept identity secret requests := by
    have hsame (digest : Digest) : requests.map (namedChapValue digest secret.bytes) =
        requests.map (chapValue digest secret.bytes) :=
      List.map_congr_left fun p hp => namedChapValue_eq (hnameless p hp) digest secret.bytes
    simp only [ChallengesHashed, SecretKept, hsame]
  constructor
  · intro h
    have hnameless := h.nameless hlen
    refine ⟨hnameless, ?_⟩
    by_contra hbad
    obtain ⟨hne, hbig⟩ := not_or.mp hbad
    simp only [not_forall, Nat.not_le, exists_prop] at hbig
    obtain ⟨p, hp, hlong⟩ := hbig
    exact not_secretKept hlen hne ⟨p, hp, hnameless p hp ▸ hlong⟩ ((hkept hnameless).mp h)
  · rintro ⟨hnameless, hsmall⟩
    refine (hkept hnameless).mpr (secretKept_of_small hlen ?_)
    exact hsmall.imp_right fun hsmall p hp => hnameless p hp ▸ hsmall p hp

/-- A request with identifier 7, a challenge of one byte and a name of one byte. -/
def namedRequest (name : UInt8) : EapPacket :=
  ⟨write (fun _ => 0) 0 [1, 7, 0, 8, 4, 1, 42, name], 0⟩

/-- Two short challenges without names. -/
theorem challengesHashed_short :
    ChallengesHashed (.single 97) (.single 115) [md5Request 16, md5Request 128] :=
  (challengesHashed_iff _ _ _ (by decide)).mpr ⟨by decide, Or.inr (by decide)⟩

/-- A name of one byte makes a difference. -/
theorem not_challengesHashed : ¬∀ (identity secret : Block) (requests : List EapPacket),
    (∀ p ∈ requests, 1 ≤ valueSize p ∧ valueSize p ≤ p.len - 6) →
      ChallengesHashed identity secret requests := by
  intro hall
  have hnameless := (hall (.single 97) (.single 115) [namedRequest 65] (by decide)).nameless
    (by decide) (namedRequest 65) List.mem_cons_self
  revert hnameless
  decide

end Dot1x.Eap
