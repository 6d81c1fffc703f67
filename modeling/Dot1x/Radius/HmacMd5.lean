import Dot1x.Radius.Signing

/-!
# The keyed hash in memory

The keyed hash as the code computes it: with a hash object that is fed piece by piece, with arrays
for the pads, and with the caller's digest as the place of the inner hash. Nothing is known of what
the variables hold at first.
-/

namespace Dot1x.Radius

open Dot1x.Base

/-- A hash object. Starting it forgets what it was used for, and the result it writes is the hash of
all it was given since. -/
structure MessageDigest (σ : Type*) (md5 : Md5) where
  start : σ → σ
  process : σ → List UInt8 → σ
  completeDigest : σ → Vector UInt8 16 → σ × Vector UInt8 16
  completeDigest_eq : ∀ (context : σ) (chunks : List (List UInt8)) (result : Vector UInt8 16),
    (completeDigest (chunks.foldl process (start context)) result).2 = md5 chunks.flatten

/-- An object that keeps all it was given. -/
def MessageDigest.collecting (md5 : Md5) : MessageDigest (List UInt8) md5 where
  start _ := []
  process context bytes := context ++ bytes
  completeDigest context _ := (context, md5 context)
  completeDigest_eq _ chunks _ := by
    rw [List.foldl_append_eq_append, List.nil_append, List.map_id']

/-- The variables of `hmac_md5`; the block for a long key has an object and a result of its own. -/
structure HmacVariables (σ : Type*) where
  context : σ
  result : Vector UInt8 16
  tctx : σ
  tresult : Vector UInt8 16
  k_ipad : Mem
  k_opad : Mem
  tk : Mem

/-- XOR the first bytes of both pads. -/
def xorPads : ℕ → Mem → Mem → Mem × Mem
  | 0, k_ipad, k_opad => (k_ipad, k_opad)
  | i + 1, k_ipad, k_opad =>
    let (k_ipad, k_opad) := xorPads i k_ipad k_opad
    (write k_ipad i [k_ipad i ^^^ 0x36], write k_opad i [k_opad i ^^^ 0x5c])

section

variable {σ : Type*} {md5 : Md5} (H : MessageDigest σ md5)

/-- The key that is used, and where it is. -/
def shortenKey (vars : HmacVariables σ) (m : Mem) (key keyLen : ℕ) : Mem × ℕ × ℕ :=
  if 64 < keyLen then
    let tctx := H.start vars.tctx
    let tctx := H.process tctx (slice m key keyLen)
    let result := (H.completeDigest tctx vars.tresult).2
    (write vars.tk 0 result.toList, 0, 16)
  else (m, key, keyLen)

/-- `hmac_md5` -/
def hmacMd5Store (vars : HmacVariables σ) (m : Mem) (text textLen key keyLen digest : ℕ) : Mem :=
  let (from_, key, keyLen) := shortenKey H vars m key keyLen
  let k_ipad := write vars.k_ipad 0 (List.replicate 65 0)
  let k_opad := write vars.k_opad 0 (List.replicate 65 0)
  let k_ipad := write k_ipad 0 (slice from_ key keyLen)
  let k_opad := write k_opad 0 (slice from_ key keyLen)
  let (k_ipad, k_opad) := xorPads 64 k_ipad k_opad
  let context := H.start vars.context
  let context := H.process context (slice k_ipad 0 64)
  let context := H.process context (slice m text textLen)
  let (context, result) := H.completeDigest context vars.result
  let m := write m digest result.toList
  let context := H.start context
  let context := H.process context (slice k_opad 0 64)
  let context := H.process context (slice m digest 16)
  let result := (H.completeDigest context result).2
  write m digest result.toList

/-- Two pieces. -/
private theorem MessageDigest.completeDigest_two (context : σ) (first second : List UInt8)
    (result : Vector UInt8 16) :
    (H.completeDigest (H.process (H.process (H.start context) first) second) result).2 =
      md5 (first ++ second) := by
  have htwo := H.completeDigest_eq context [first, second] result
  rwa [List.flatten_cons, List.flatten_cons, List.flatten_nil, List.append_nil] at htwo

end

/-- XORing the pads byte by byte. -/
private theorem xorPads_apply (k_ipad k_opad : Mem) (n : ℕ) :
    (∀ i, (xorPads n k_ipad k_opad).1 i = if i < n then k_ipad i ^^^ 0x36 else k_ipad i) ∧
      ∀ i, (xorPads n k_ipad k_opad).2 i = if i < n then k_opad i ^^^ 0x5c else k_opad i := by
  induction n with
  | zero => exact ⟨fun i => rfl, fun i => rfl⟩
  | succ n ih =>
    have hstep (m m' : Mem) (b : UInt8) (h : ∀ i, m i = if i < n then m' i ^^^ b else m' i)
        (i : ℕ) : write m n [m n ^^^ b] i = if i < n + 1 then m' i ^^^ b else m' i := by
      by_cases hi : i = n
      · rw [hi, write_singleton_self, h n, if_neg (Nat.lt_irrefl n), if_pos (Nat.lt_succ_self n)]
      · rw [write_of_outside (by rw [List.length_singleton]; omega), h i]
        simp only [Nat.lt_succ_iff_lt_or_eq, hi, or_false]
    exact ⟨hstep _ _ _ ih.1, hstep _ _ _ ih.2⟩

/-- The first bytes of the pads. -/
theorem slice_xorPads (k_ipad k_opad : Mem) (n : ℕ) :
    slice (xorPads n k_ipad k_opad).1 0 n = (slice k_ipad 0 n).map (· ^^^ 0x36) ∧
      slice (xorPads n k_ipad k_opad).2 0 n = (slice k_opad 0 n).map (· ^^^ 0x5c) := by
  obtain ⟨hfirst, hsecond⟩ := xorPads_apply k_ipad k_opad n
  have hslice (m m' : Mem) (b : UInt8) (h : ∀ i, m i = if i < n then m' i ^^^ b else m' i) :
      slice m 0 n = (slice m' 0 n).map (· ^^^ b) := by
    rw [slice, slice, List.map_map]
    refine List.map_congr_left fun i hi => ?_
    rw [Nat.zero_add, h i, if_pos (List.mem_range.mp hi), Function.comp_apply, Nat.zero_add]
  exact ⟨hslice _ _ _ hfirst, hslice _ _ _ hsecond⟩

/-- The key that is used is that of the construction. -/
private theorem shortenKey_slice {σ : Type*} {md5 : Md5} (H : MessageDigest σ md5)
    (vars : HmacVariables σ) (m : Mem) (key keyLen : ℕ) :
    slice (shortenKey H vars m key keyLen).1 (shortenKey H vars m key keyLen).2.1
      (shortenKey H vars m key keyLen).2.2 =
      if 64 < keyLen then (md5 (slice m key keyLen)).toList else slice m key keyLen := by
  have hone := H.completeDigest_eq vars.tctx [slice m key keyLen] vars.tresult
  rw [List.flatten_cons, List.flatten_nil, List.append_nil] at hone
  unfold shortenKey
  split
  · rw [← hone]
    exact slice_write_eq (Vector.length_toList ..)
  · rfl

/-- The pads hold the key of the construction before they are XORed. -/
private theorem slice_pad {σ : Type*} {md5 : Md5} (H : MessageDigest σ md5) (vars : HmacVariables σ)
    (m : Mem) (key keyLen : ℕ) (pad : Mem) :
    slice (write (write pad 0 (List.replicate 65 0)) 0
      (slice (shortenKey H vars m key keyLen).1 (shortenKey H vars m key keyLen).2.1
        (shortenKey H vars m key keyLen).2.2)) 0 64 =
      hmacKey (fun bytes => (md5 bytes).toList) 64 (slice m key keyLen) := by
  have hshort : (shortenKey H vars m key keyLen).2.2 ≤ 64 := by
    unfold shortenKey
    split
    · exact Nat.le_of_ble_eq_true rfl
    · rename_i hshort
      exact Nat.not_lt.mp hshort
  rw [slice_write_padded _ 0 (by rwa [slice_length]) (Nat.le_succ 64), shortenKey_slice, hmacKey,
    slice_length]

/-- What is stored is the keyed hash with which requests are signed. -/
theorem hmacMd5Store_signing {σ : Type*} {md5 : Md5} (H : MessageDigest σ md5)
    (vars : HmacVariables σ) (m : Mem) (text textLen key keyLen digest : ℕ) :
    hmacMd5Store H vars m text textLen key keyLen digest =
      write m digest (hmacMd5 md5 (slice m text textLen) (slice m key keyLen)) := by
  unfold hmacMd5Store
  simp only [(slice_xorPads _ _ 64).1, (slice_xorPads _ _ 64).2, slice_pad, H.completeDigest_two]
  -- the inner hash is read back from the place where the outer one is written over it
  rw [slice_write_eq (Vector.length_toList ..), hmacMd5_eq, hmac]
  refine write_eq_write_of_outside fun i hi => write_of_outside ?_
  rwa [Vector.length_toList] at hi ⊢

/-- **The digest is the keyed hash of the text.** Whatever the variables hold, whatever the length of
the key, and wherever the digest is to go, though that be in the text or in the key. -/
theorem hmacMd5Store_eq {σ : Type*} {md5 : Md5} (H : MessageDigest σ md5) (vars : HmacVariables σ)
    (m : Mem) (text textLen key keyLen digest : ℕ) :
    hmacMd5Store H vars m text textLen key keyLen digest =
      write m digest (hmac (fun bytes => (md5 bytes).toList) 64 (slice m key keyLen)
        (slice m text textLen)) := by
  rw [hmacMd5Store_signing, hmacMd5_eq]

/-- With a key of 70 bytes, which is hashed first, and a digest that goes over the text. -/
theorem hmacMd5Store_eq_longKey :
    hmacMd5Store (.collecting fun bytes => Vector.replicate 16 (bytes.foldl (· + ·) 7))
        ⟨[1], Vector.replicate 16 2, [3], Vector.replicate 16 4, fun _ => 5, fun _ => 6, fun _ => 8⟩
        (fun i => UInt8.ofNat i) 0 10 100 70 5 =
      write (fun i => UInt8.ofNat i) 5
        (hmac (fun bytes => (Vector.replicate 16 (bytes.foldl (· + ·) 7)).toList) 64
          (slice (fun i => UInt8.ofNat i) 100 70) (slice (fun i => UInt8.ofNat i) 0 10)) :=
  hmacMd5Store_eq (.collecting fun bytes => Vector.replicate 16 (bytes.foldl (· + ·) 7))
    ⟨[1], Vector.replicate 16 2, [3], Vector.replicate 16 4, fun _ => 5, fun _ => 6, fun _ => 8⟩
    (fun i => UInt8.ofNat i) 0 10 100 70 5

end Dot1x.Radius
