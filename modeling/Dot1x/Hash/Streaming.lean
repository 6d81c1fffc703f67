import Dot1x.Hash.Constants

/-!
# Hashing in pieces

A text may be given to a context piece by piece, cut anywhere. What a context stands for is an
invariant: some blocks of the text were compressed, the rest is in the buffer, and the two words of
`total` count what was compressed. The last blocks are made up in the buffer too, so it is never
written behind its end.
-/

namespace Dot1x.Hash

open Dot1x.Base

namespace Md5Ctx

/-- Of a text, all but what is pending was processed and counted. -/
structure Pending (ctx : Md5Ctx) (text pending : List UInt8) : Prop where
  absorbed : Absorbed (compress constant) blockLen initialChain text ctx.chain pending
  total : wordsValue ctx.total = (text.length - pending.length) % 2 ^ 64

/-- A context stands for a text; behind its buffer is what was there before. -/
structure Represents (ctx : Md5Ctx) (buf : Mem) (text : List UInt8) : Prop where
  pending : ctx.Pending text (slice ctx.buffer 0 ctx.buflen)
  buflen_le : ctx.buflen ≤ 64
  behind : ∀ i, bufferSize ≤ i → ctx.buffer i = buf i

variable {ctx : Md5Ctx} {buf m : Mem} {text rest : List UInt8} {buffer len n : ℕ}

/-- More bytes arrive, and wait for their block to be complete. -/
theorem Pending.push {pending : List UInt8} (h : ctx.Pending text pending) (more : List UInt8) :
    ctx.Pending (text ++ more) (pending ++ more) where
  absorbed := h.absorbed.push more
  total := by
    rw [h.total, List.length_append, List.length_append]
    omega

/-- Processing blocks counts them. -/
theorem Pending.processBlock (h : ctx.Pending text (slice m buffer n ++ rest)) (hdvd : blockLen ∣ n)
    (hn : n < 2 ^ 32) : (processBlock m buffer n ctx).Pending text rest where
  absorbed := by
    rw [processBlock_chain m buffer hdvd]
    exact h.absorbed.flush (by decide) (by rwa [slice_length])
  total := by
    have hle := h.absorbed.length_le
    rw [List.length_append, slice_length] at hle
    have htotal := h.total
    rw [List.length_append, slice_length] at htotal
    change wordsValue (addCarry ctx.total n) = _
    rw [wordsValue_addCarry _ hn, htotal]
    omega

/-- A context that was initialised stands for the empty text. -/
theorem represents_initCtx (ctx : Md5Ctx) : (initCtx ctx).Represents ctx.buffer [] where
  pending := ⟨Absorbed.start initialChain, rfl⟩
  buflen_le := Nat.zero_le 64
  behind _ _ := rfl

/-- A store that ends in the buffer leaves what is behind it. -/
theorem write_behind {m : Mem} {start : ℕ} (bs : List UInt8)
    (h : ∀ i, bufferSize ≤ i → m i = buf i) (hend : start + bs.length ≤ bufferSize) (i : ℕ)
    (hi : bufferSize ≤ i) :
    write m start bs i = buf i := by
  rw [write_of_outside (Or.inr (Nat.le_trans hend hi)), h i hi]

/-- The buffer is not looked at. -/
theorem Pending.with_buffer {pending : List UInt8} (h : ctx.Pending text pending) (buflen : ℕ)
    (mem : Mem) : Pending { ctx with buflen := buflen, buffer := mem } text pending :=
  ⟨h.absorbed, h.total⟩

/-- What is pending is moved to the beginning of the buffer. -/
private theorem represents_moved {ctx : Md5Ctx} {mem : Mem}
    (h : ctx.Pending text (slice mem buffer len))
    (hlen : len ≤ 64) (hbehind : ∀ i, bufferSize ≤ i → ctx.buffer i = buf i) :
    Represents { ctx with buflen := len, buffer := write ctx.buffer 0 (slice mem buffer len) } buf
      text where
  pending := by
    change Pending _ text (slice (write ctx.buffer 0 (slice mem buffer len)) 0 len)
    rw [slice_write_eq (slice_length ..)]
    exact h.with_buffer _ _
  buflen_le := hlen
  behind := write_behind _ hbehind (by
    rw [slice_length, Nat.zero_add]
    exact Nat.le_trans hlen (by decide))

/-- What is left over is kept. -/
theorem represents_keepRemaining (h : ctx.Pending text (slice m buffer len)) (hlen : len ≤ 64)
    (hnone : len = 0 → ctx.buflen = 0) (hbehind : ∀ i, bufferSize ≤ i → ctx.buffer i = buf i) :
    (keepRemaining m buffer len ctx).Represents buf text := by
  unfold keepRemaining
  split
  · exact represents_moved h hlen hbehind
  · rename_i hzero
    have hlen0 : len = 0 := Nat.eq_zero_of_not_pos hzero
    refine ⟨?_, by rw [hnone hlen0]; exact Nat.zero_le 64, hbehind⟩
    rw [hnone hlen0, slice_zero]
    rwa [hlen0, slice_zero] at h

/-- A piece is taken in when nothing is pending. -/
theorem Represents.processComplete (h : ctx.Represents buf text) (hempty : ctx.buflen = 0)
    (m : Mem) (buffer : ℕ) {len : ℕ} (hlen : len < 2 ^ 32) :
    (processComplete m buffer len ctx).Represents buf (text ++ slice m buffer len) := by
  have hpending : ctx.Pending text [] := by
    have hall := h.pending
    rwa [hempty, slice_zero] at hall
  have hpush := hpending.push (slice m buffer len)
  unfold Hash.processComplete
  split
  · have hslice : slice m buffer (len / 64 * 64) ++
        slice m (buffer + len / 64 * 64) (len % 64) = slice m buffer len := by
      rw [slice_append]
      congr 1
      omega
    refine represents_keepRemaining (Pending.processBlock ?_ ⟨len / 64, Nat.mul_comm _ _⟩ (by omega))
      (by omega) (fun _ => hempty) h.behind
    rw [hslice]
    exact hpush
  · exact represents_keepRemaining hpush (by omega) (fun _ => hempty) h.behind

/-- What is taken from a piece. -/
theorem added_spec (hbuflen : ctx.buflen ≤ 64) (len : ℕ) : added ctx len ≤ len ∧
    ctx.buflen + added ctx len ≤ bufferSize ∧
    (added ctx len < len → ctx.buflen + added ctx len = bufferSize) := by
  have hsize : bufferSize = 128 := rfl
  unfold added
  split <;> omega

/-- What is in the buffer is processed if it is more than a block. A full buffer is empty then. -/
private theorem represents_processBuffer (h : ctx.Pending text (slice ctx.buffer 0 ctx.buflen))
    (hbuflen : ctx.buflen ≤ bufferSize) (hbehind : ∀ i, bufferSize ≤ i → ctx.buffer i = buf i) :
    (processBuffer ctx).Represents buf text ∧
      (ctx.buflen = bufferSize → (processBuffer ctx).buflen = 0) := by
  have hsize : bufferSize = 128 := rfl
  unfold processBuffer
  split
  · have hslice : slice ctx.buffer 0 (ctx.buflen / 64 * 64) ++
        slice ctx.buffer (ctx.buflen / 64 * 64) (ctx.buflen % 64) = slice ctx.buffer 0 ctx.buflen := by
      have happend := slice_append ctx.buffer 0 (ctx.buflen / 64 * 64) (ctx.buflen % 64)
      rw [Nat.zero_add] at happend
      rw [happend]
      congr 1
      omega
    rw [← hslice] at h
    have hdone := h.processBlock ⟨ctx.buflen / 64, Nat.mul_comm _ _⟩ (by omega)
    refine ⟨represents_moved hdone (by omega) hbehind, fun hfull => ?_⟩
    change ctx.buflen % 64 = 0
    rw [hfull, hsize]
  · exact ⟨⟨h, by omega, hbehind⟩, by omega⟩

/-- What is taken is put behind what is pending. If that is not all, nothing is pending any more. -/
theorem Represents.appendBuffer (h : ctx.Represents buf text) (m : Mem) (buffer len : ℕ) :
    (appendBuffer m buffer len ctx).Represents buf (text ++ slice m buffer (added ctx len)) ∧
      (added ctx len < len → (appendBuffer m buffer len ctx).buflen = 0) := by
  obtain ⟨-, hroom, hfull⟩ := added_spec h.buflen_le len
  have hpending := h.pending.push (slice m buffer (added ctx len))
  have hstored := slice_write_append ctx.buffer ctx.buflen (slice_length m buffer (added ctx len))
  rw [← hstored] at hpending
  have hbehind := write_behind (slice m buffer (added ctx len)) h.behind
    (by rw [slice_length]; exact hroom)
  have hpushed : (store m buffer (added ctx len) ctx).Pending (text ++ slice m buffer (added ctx len))
      (slice (store m buffer (added ctx len) ctx).buffer 0
        (store m buffer (added ctx len) ctx).buflen) := hpending.with_buffer _ _
  obtain ⟨hnow, hempty⟩ := represents_processBuffer hpushed hroom hbehind
  exact ⟨hnow, fun hlt => hempty (hfull hlt)⟩

/-- A context takes in a piece of any length. -/
theorem Represents.processBytes (h : ctx.Represents buf text) (m : Mem) (buffer : ℕ) {len : ℕ}
    (hlen : len < 2 ^ 32) :
    (processBytes m buffer len ctx).Represents buf (text ++ slice m buffer len) := by
  unfold Hash.processBytes
  split
  · obtain ⟨hadded, hrest⟩ := h.appendBuffer m buffer len
    obtain ⟨hle, -, -⟩ := added_spec h.buflen_le len
    have hslice : slice m buffer (added ctx len) ++
        slice m (buffer + added ctx len) (len - added ctx len) = slice m buffer len := by
      rw [slice_append, Nat.add_sub_cancel' hle]
    by_cases hall : added ctx len < len
    · have hshort : len - added ctx len < 2 ^ 32 := by omega
      have hdone := hadded.processComplete (hrest hall) m (buffer + added ctx len) hshort
      rwa [List.append_assoc, hslice] at hdone
    · have hnone : len - added ctx len = 0 := by omega
      rw [← hslice, hnone, slice_zero, List.append_nil]
      exact hadded
  · rename_i hempty
    exact h.processComplete (Decidable.not_not.mp hempty) m buffer hlen

/-- The last blocks: what is pending, and the padding of the text. -/
theorem Represents.slice_lastBuffer (h : ctx.Represents buf text) :
    slice (lastBuffer ctx) 0 (ctx.buflen + padLen ctx.buflen + 8) =
      slice ctx.buffer 0 ctx.buflen ++ padding text.length := by
  have hbuflen := h.buflen_le
  have hpad : 0 < padLen ctx.buflen ∧ padLen ctx.buflen ≤ 64 := by
    unfold padLen
    split <;> omega
  have hfill : (fillbuf.take (padLen ctx.buflen)) =
      0x80 :: List.replicate ((119 - text.length % 64) % 64) 0 := by
    have hmod := h.pending.absorbed.mod_eq
    rw [slice_length, blockLen] at hmod
    obtain ⟨k, hk⟩ := Nat.exists_eq_succ_of_ne_zero (Nat.pos_iff_ne_zero.mp hpad.1)
    have hzeros : min k 63 = (119 - text.length % 64) % 64 := by
      unfold padLen at hk
      split at hk <;> omega
    rw [hk, fillbuf, List.take_succ_cons, List.take_replicate, hzeros]
  have hbits : leBytes 4 (timesEight (addCarry ctx.total ctx.buflen)).1.toNat ++
      leBytes 4 (timesEight (addCarry ctx.total ctx.buflen)).2.toNat = leBytes 8 (8 * text.length) := by
    have htotal := h.pending.total
    have hle := h.pending.absorbed.length_le
    rw [slice_length] at htotal hle
    rw [leBytes_words, wordsValue_timesEight, wordsValue_addCarry _ (by omega), htotal,
      ← leBytes_mod 8 (8 * text.length)]
    congr 1
    omega
  have hfillLen : (fillbuf.take (padLen ctx.buflen)).length = padLen ctx.buflen := by
    rw [List.length_take]
    exact Nat.min_eq_left hpad.2
  calc slice (lastBuffer ctx) 0 (ctx.buflen + padLen ctx.buflen + 4 + 4)
      = slice ctx.buffer 0 ctx.buflen ++ fillbuf.take (padLen ctx.buflen) ++
          leBytes 4 (timesEight (addCarry ctx.total ctx.buflen)).1.toNat ++
          leBytes 4 (timesEight (addCarry ctx.total ctx.buflen)).2.toNat := by
        rw [lastBuffer, slice_write_append _ _ (leBytes_length ..),
          slice_write_append _ _ (leBytes_length ..),
          slice_write_append _ _ hfillLen]
    _ = _ := by
      rw [List.append_assoc, hbits, List.append_assoc, hfill]
      rfl

/-- The last blocks end where a block does. -/
private theorem blockLen_dvd_last (n : ℕ) (h : n ≤ 64) : blockLen ∣ n + padLen n + 8 := by
  unfold padLen blockLen
  split <;> omega

/-- The result is the hash of the text. -/
theorem Represents.finishCtx (h : ctx.Represents buf text) :
    (finishCtx ctx).2 = digest constant text ∧
      ∀ i, bufferSize ≤ i → (finishCtx ctx).1.buffer i = buf i := by
  have hbuflen := h.buflen_le
  have hpad : padLen ctx.buflen ≤ 64 ∧ ctx.buflen + padLen ctx.buflen + 8 ≤ 128 := by
    unfold padLen
    split <;> omega
  constructor
  · have habsorbed := h.pending.absorbed.push (padding text.length)
    rw [← h.slice_lastBuffer, ← List.append_nil (slice (lastBuffer ctx) _ _)] at habsorbed
    have hdvd := blockLen_dvd_last ctx.buflen hbuflen
    have hall := (habsorbed.flush (by decide) (by rwa [slice_length])).eq_absorb
    rw [digest, ← hall, ← processBlock_chain _ _ hdvd]
    rfl
  · have hsize : bufferSize = 128 := rfl
    refine write_behind _ (write_behind _ (write_behind _ h.behind ?_) ?_) ?_
    · rw [List.length_take]
      omega
    · rw [leBytes_length]
      omega
    · rw [leBytes_length]
      omega

end Md5Ctx

/-- What a call of `md5_process_bytes` is given. -/
structure Piece where
  mem : Mem
  buffer : ℕ
  len : ℕ
  len_lt : len < 2 ^ 32

def Piece.bytes (p : Piece) : List UInt8 := slice p.mem p.buffer p.len

/-- A context after some pieces. -/
def processPieces (ctx : Md5Ctx) (pieces : List Piece) : Md5Ctx :=
  pieces.foldl (fun ctx p => processBytes p.mem p.buffer p.len ctx) ctx

/-- Processing pieces represents the text with the pieces behind it. -/
theorem represents_processPieces {ctx : Md5Ctx} {buf : Mem} {text : List UInt8}
    (h : ctx.Represents buf text) (pieces : List Piece) :
    (processPieces ctx pieces).Represents buf (text ++ (pieces.map Piece.bytes).flatten) := by
  induction pieces generalizing ctx text with
  | nil =>
    rw [List.map_nil, List.flatten_nil, List.append_nil]
    exact h
  | cons p pieces ih =>
    have hrest := ih (h.processBytes p.mem p.buffer p.len_lt)
    rwa [List.append_assoc] at hrest

/-- However a text is cut into pieces, the result is the hash of the whole, and nothing is written
behind the buffer of the context. -/
theorem finish_processPieces (ctx : Md5Ctx) (pieces : List Piece) :
    let r := finishCtx (processPieces (initCtx ctx) pieces)
    r.2 = digest sine (pieces.map Piece.bytes).flatten ∧
      ∀ i, bufferSize ≤ i → r.1.buffer i = ctx.buffer i := by
  rw [← digest_constant]
  exact (represents_processPieces (Md5Ctx.represents_initCtx ctx) pieces).finishCtx

/-- `md5_buffer` computes the hash, whatever the context held. -/
theorem md5Buffer_eq (ctx : Md5Ctx) (m : Mem) (buffer : ℕ) {len : ℕ} (hlen : len < 2 ^ 32) :
    md5Buffer ctx m buffer len = digest sine (slice m buffer len) := by
  rw [← digest_constant]
  exact ((Md5Ctx.represents_initCtx ctx).processBytes m buffer hlen).finishCtx.1

end Dot1x.Hash
