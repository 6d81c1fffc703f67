import Dot1x.Base.Blocks
import Dot1x.Eap.Framing

/-!
# The loop of `frame_next`

The loop copies a byte, advances the cursor and stops where the cursor meets the end of the
fragment. It tests after it has copied, so a fragment of no bytes has no end for it: it copies what
is left and reads on. The fragment size comes unchecked from `-frags` or from the environment, and
`strtoul` makes zero of a text that does not begin with a number.
-/

namespace Dot1x.Eap

open Dot1x.Base Dot1x.Wire

/-- A byte was read at an offset of a block and stored at an offset of the packet's memory. -/
structure ByteCopy where
  src : ℕ
  dst : ℕ

/-- A run of the loop, with the bytes it copied. -/
abbrev Copying := Exec ByteCopy Failure

/-- The `n` copies from two offsets on. -/
def copiesFrom (src dst n : ℕ) : List ByteCopy := (List.range n).map fun i => ⟨src + i, dst + i⟩

/-- `strtoul` to the base 10 skips these. -/
def isSpace (b : UInt8) : Bool := b = 32 ∨ 9 ≤ b ∧ b ≤ 13

def isDigit (b : UInt8) : Bool := 48 ≤ b ∧ b ≤ 57

/-- The value of a string of digits. -/
def digitsValue (digits : List UInt8) : ℕ := digits.foldl (fun n b => 10 * n + (b.toNat - 48)) 0

/-- An optional sign and what stands behind it. -/
def splitSign : List UInt8 → Bool × List UInt8
  | 43 :: rest => (false, rest)
  | 45 :: rest => (true, rest)
  | text => (false, text)

/-- `strtoul(text, 0, 10)`. A number that is too large becomes `ULONG_MAX`, a negative one wraps. -/
def strtoul (ulongMax : ℕ) (text : List UInt8) : ℕ :=
  let signed := splitSign (text.dropWhile isSpace)
  let n := digitsValue (signed.2.takeWhile isDigit)
  if ulongMax < n then ulongMax else if signed.1 ∧ n ≠ 0 then ulongMax + 1 - n else n

example : strtoul 255 [32, 52, 50, 120] = 42 := by decide

/-- The fragment size where none is asked for. -/
def fragsDefault : ℕ := 200

/-- What `parse_arguments` makes of the arguments of `-frags`: the last one counts. -/
def parseFrags (ulongMax : ℕ) (args : List (List UInt8)) : ℕ :=
  args.foldl (fun _ arg => strtoul ulongMax arg) 0

/-- The fragment size that `do_enable_tls` hands to the handler. -/
def doEnableTlsFrags (ulongMax frags : ℕ) (env : Option (List UInt8)) : ℕ :=
  if frags = 0 then
    match env with
    | some p => strtoul ulongMax p
    | none => fragsDefault
  else frags

namespace TypeTls

/-- The loop of `frame_next`, over the bytes of the block from the cursor on. To read behind the
block is a fault. -/
def copyLoop (cend : ℕ) : List UInt8 → ℕ → ℕ → Mem → Copying (ℕ × Mem)
  | [], cur, dst, _ => do
    Exec.tell ⟨cur, dst⟩
    Exec.fail .fault
  | b :: bytes, cur, dst, m => do
    Exec.tell ⟨cur, dst⟩
    if cur + 1 = cend then pure (cur + 1, write m dst [b])
    else copyLoop cend bytes (cur + 1) (dst + 1) (write m dst [b])

/-- Where the fragment ends that begins at the cursor. -/
def fragmentEnd (fragmentSize cur stop : ℕ) : ℕ :=
  if wrapSub stop cur ≤ fragmentSize then stop else cur + fragmentSize

/-- `frame_next` for the output between `cur` and `stop` in a block. -/
def frameNextLoop (fragmentSize : ℕ) (block : List UInt8) (cur stop : ℕ) (output : TlsPacket) :
    Copying (ℕ × TlsPacket) := do
  let r ← copyLoop (fragmentEnd fragmentSize cur stop) (block.drop cur) cur output.tlsData output.mem
  let output := { output with mem := r.2 }
  let output := if r.1 ≠ stop then TlsPacket.orTlsFlags output TlsPacket.moreFrags else output
  pure (r.1, EapPacket.addLen output (r.1 - cur + 1))

/-- Exactly `n` bytes were copied, all of them between `cur` and `stop`, and the loop ended. -/
structure CopiesExactly (n : ℕ) (block : List UInt8) (cur stop : ℕ) (output : TlsPacket)
    (x : Copying (ℕ × TlsPacket)) : Prop where
  copies : x.log = copiesFrom cur output.tlsData n
  inside : ∀ c ∈ x.log, cur ≤ c.src ∧ c.src < stop
  terminates : ∃ o, x.result = .ok (cur + n, o) ∧
    slice o.mem output.tlsData n = (block.drop cur).take n

variable {cend cur stop dst fragmentSize n : ℕ} {block bytes : List UInt8} {m : Mem}
  {output : TlsPacket}

/-- The first copy and those behind it. -/
theorem copiesFrom_succ (src dst n : ℕ) :
    copiesFrom src dst (n + 1) = ⟨src, dst⟩ :: copiesFrom (src + 1) (dst + 1) n := by
  rw [copiesFrom, copiesFrom, List.range_succ_eq_map, List.map_cons, List.map_map]
  refine congrArg _ (List.map_congr_left fun i _ => ?_)
  simp only [Function.comp_apply, ByteCopy.mk.injEq]
  omega

/-- A range of copies has one copy for each byte. -/
theorem mem_copiesFrom {src : ℕ} {c : ByteCopy} :
    c ∈ copiesFrom src dst n ↔ ∃ i < n, c = ⟨src + i, dst + i⟩ := by
  simp [copiesFrom, eq_comm]

/-- The loop reaches an end that lies behind the cursor and not behind the block. -/
private theorem copyLoop_of_reached (bytes : List UInt8) (dst : ℕ) (m : Mem) (hlt : cur < cend)
    (hle : cend ≤ cur + bytes.length) :
    copyLoop cend bytes cur dst m =
      ⟨copiesFrom cur dst (cend - cur), .ok (cend, write m dst (bytes.take (cend - cur)))⟩ := by
  induction bytes generalizing cur dst m with
  | nil =>
    rw [List.length_nil] at hle
    omega
  | cons b bytes ih =>
    rw [List.length_cons] at hle
    rw [copyLoop]
    by_cases hend : cur + 1 = cend
    · rw [if_pos hend]
      subst hend
      simp only [Nat.add_sub_cancel_left, copiesFrom_succ, List.take_succ_cons, List.take_zero]
      rfl
    · have hnext : cend - cur = cend - (cur + 1) + 1 := by omega
      have hwrite : write (write m dst [b]) (dst + 1) (bytes.take (cend - (cur + 1))) =
          write m dst (b :: bytes.take (cend - (cur + 1))) := write_write_append m dst [b] _
      rw [if_neg hend, ih _ _ (by omega) (by omega), hnext, copiesFrom_succ, List.take_succ_cons, hwrite]
      rfl

/-- The loop runs past an end that does not lie behind the cursor, and leaves the block. -/
theorem copyLoop_of_missed (bytes : List UInt8) (dst : ℕ) (m : Mem) (h : cend ≤ cur ∨ cur + bytes.length < cend) :
    copyLoop cend bytes cur dst m = ⟨copiesFrom cur dst (bytes.length + 1), .error .fault⟩ := by
  induction bytes generalizing cur dst m with
  | nil => rfl
  | cons b bytes ih =>
    rw [List.length_cons] at h
    have hend : cur + 1 ≠ cend := by omega
    rw [copyLoop, if_neg hend, ih _ _ (by omega), List.length_cons, copiesFrom_succ cur]
    rfl

/-- The end of a fragment that has a size lies between the cursor and the end of the output. -/
theorem fragmentEnd_eq (fragmentSize : ℕ) (hcur : cur ≤ stop) :
    fragmentEnd fragmentSize cur stop = cur + min (stop - cur) fragmentSize := by
  rw [fragmentEnd, wrapSub_of_le hcur]
  split <;> omega

/-- The packet behind the loop: the part that was copied, the flag of fragments, the length. -/
def finished (part : List UInt8) (more : Bool) (output : TlsPacket) : TlsPacket :=
  let output := { output with mem := write output.mem output.tlsData part }
  let output := if more then TlsPacket.orTlsFlags output TlsPacket.moreFrags else output
  EapPacket.addLen output (part.length + 1)

/-- The flags and the length stand in front of the payload. -/
private theorem slice_finished (part : List UInt8) (more : Bool) (output : TlsPacket) :
    slice (finished part more output).mem output.tlsData part.length = part := by
  have hdata : output.data + 6 ≤ output.tlsData := by
    simp only [TlsPacket.tlsData, EapPacket.eapData, EapPacket.headerLen]
    split <;> omega
  have hlen (p : TlsPacket) (hp : p.data = output.data) :
      slice (EapPacket.addLen p (part.length + 1)).mem output.tlsData part.length =
        slice p.mem output.tlsData part.length := by
    refine slice_write_disjoint (Or.inr ?_)
    simp only [leBytes_length, hp, EapPacket.eapLen]
    omega
  have hcopy := slice_write_self output.mem output.tlsData part
  unfold finished
  cases more with
  | false => exact (hlen ⟨write output.mem output.tlsData part, output.data⟩ rfl).trans hcopy
  | true =>
    refine (hlen (TlsPacket.orTlsFlags ⟨write output.mem output.tlsData part, output.data⟩ _)
      rfl).trans (.trans (slice_write_disjoint (Or.inr ?_)) hcopy)
    simp only [EapPacket.eapData, EapPacket.headerLen, List.length_singleton]
    omega

/-- A fragment that has a size. -/
theorem frameNextLoop_of_pos (hcur : cur < stop) (hstop : stop ≤ block.length)
    (hsize : 0 < fragmentSize) (hn : n = min (stop - cur) fragmentSize) :
    frameNextLoop fragmentSize block cur stop output =
      ⟨copiesFrom cur output.tlsData n, .ok (cur + n,
        finished ((block.drop cur).take n) (decide (cur + n ≠ stop)) output)⟩ := by
  have hend := fragmentEnd_eq fragmentSize hcur.le
  have hafter : cur < fragmentEnd fragmentSize cur stop := by omega
  have hloop := copyLoop_of_reached (block.drop cur) output.tlsData output.mem hafter
    (by rw [List.length_drop]; omega)
  have hsub : fragmentEnd fragmentSize cur stop - cur = n := by omega
  have hlen : ((block.drop cur).take n).length = n := by
    rw [List.length_take, List.length_drop]
    omega
  rw [frameNextLoop, hloop, hsub, hend, ← hn, Exec.mk_ok_bind, finished, hlen]
  simp only [Exec.log_pure, Exec.result_pure, List.append_nil, Nat.add_sub_cancel_left,
    decide_eq_true_eq]

/-- A fragment that has a size is copied and nothing else. -/
private theorem copiesExactly_of_pos (hcur : cur < stop) (hstop : stop ≤ block.length)
    (hsize : 0 < fragmentSize) :
    CopiesExactly (min (stop - cur) fragmentSize) block cur stop output
      (frameNextLoop fragmentSize block cur stop output) := by
  have hlen : ((block.drop cur).take (min (stop - cur) fragmentSize)).length =
      min (stop - cur) fragmentSize := by
    rw [List.length_take, List.length_drop]
    omega
  rw [frameNextLoop_of_pos hcur hstop hsize rfl]
  refine ⟨rfl, fun c hc => ?_, _, rfl, ?_⟩
  · obtain ⟨i, hi, rfl⟩ := mem_copiesFrom.mp hc
    dsimp only
    omega
  · have hpart := slice_finished ((block.drop cur).take (min (stop - cur) fragmentSize))
      (decide (cur + min (stop - cur) fragmentSize ≠ stop)) output
    rwa [hlen] at hpart

/-- A fragment of no bytes is copied until the block is left. -/
theorem frameNextLoop_of_zero (hcur : cur < stop) :
    frameNextLoop 0 block cur stop output =
      ⟨copiesFrom cur output.tlsData (block.length - cur + 1), .error .fault⟩ := by
  have hend : fragmentEnd 0 cur stop = cur := by
    rw [fragmentEnd_eq 0 hcur.le]
    omega
  have hloop := copyLoop_of_missed (block.drop cur) output.tlsData output.mem (Or.inl hend.le)
  rw [frameNextLoop, hloop, List.length_drop]
  rfl

/-- The loop computes what `frameNext` says where the output ends with its block. -/
theorem frameNextLoop_result :
    (frameNextLoop fragmentSize block cur block.length output).result =
      (frameNext fragmentSize block cur output).result := by
  by_cases hcur : cur < block.length
  · rcases Nat.eq_zero_or_pos fragmentSize with rfl | hsize
    · have hnone : nextPart 0 block cur = [] := List.take_zero
      rw [frameNextLoop_of_zero hcur, frameNext_of_empty hnone]
    · have hn : chunkLen fragmentSize (block.length - cur) =
          min (block.length - cur) fragmentSize := by
        unfold chunkLen
        split <;> omega
      have hpos : chunkLen fragmentSize (block.length - cur) ≠ 0 := by omega
      have hlen : ((block.drop cur).take (chunkLen fragmentSize (block.length - cur))).length =
          chunkLen fragmentSize (block.length - cur) := by
        rw [take_chunkLen, nextPart_length]
      rw [frameNextLoop_of_pos hcur (Nat.le_refl _) hsize hn, frameNext, finished, hlen]
      dsimp only
      rw [if_neg hpos]
      simp only [Exec.result_pure, decide_eq_true_eq]
  · have hnone : block.drop cur = [] := List.drop_of_length_le (by omega)
    have hpart : nextPart fragmentSize block cur = [] := by rw [nextPart, hnone, List.take_nil]
    rw [frameNext_of_empty hpart, frameNextLoop, hnone]
    rfl

end TypeTls

/-- For every output that is not empty and every setting of `-frags` and of the environment,
`frame_next` copies exactly the fragment if and only if the size is not zero: it is where `-frags`
gives no number but zero and the variable is set to a text that gives zero, too. -/
theorem frameNext_copiesExactly_iff (ulongMax : ℕ) (args : List (List UInt8))
    (env : Option (List UInt8)) (block : List UInt8) (cur stop : ℕ) (output : TlsPacket)
    (hcur : cur < stop) (hstop : stop ≤ block.length) :
    TypeTls.CopiesExactly
        (min (stop - cur) (doEnableTlsFrags ulongMax (parseFrags ulongMax args) env)) block cur stop
        output
        (TypeTls.frameNextLoop (doEnableTlsFrags ulongMax (parseFrags ulongMax args) env) block cur
          stop output) ↔
      ¬(parseFrags ulongMax args = 0 ∧ ∃ p, env = some p ∧ strtoul ulongMax p = 0) := by
  have hzero : doEnableTlsFrags ulongMax (parseFrags ulongMax args) env = 0 ↔
      parseFrags ulongMax args = 0 ∧ ∃ p, env = some p ∧ strtoul ulongMax p = 0 := by
    unfold doEnableTlsFrags
    by_cases hfrags : parseFrags ulongMax args = 0
    · cases env <;> simp [hfrags, fragsDefault]
    · simp [hfrags]
  rw [← hzero]
  generalize doEnableTlsFrags ulongMax (parseFrags ulongMax args) env = fragmentSize
  constructor
  · rintro h rfl
    obtain ⟨o, hok, -⟩ := h.terminates
    rw [TypeTls.frameNextLoop_of_zero hcur] at hok
    cases hok
  · intro hsize
    exact TypeTls.copiesExactly_of_pos hcur hstop (Nat.pos_of_ne_zero hsize)

/-- Three bytes in packets of two, as `-frags 2` asks for it. -/
theorem frameNext_copiesExactly_two :
    TypeTls.CopiesExactly
      (min (3 - 0) (doEnableTlsFrags (2 ^ 32 - 1) (parseFrags (2 ^ 32 - 1) [[50]]) none))
      [1, 2, 3] 0 3 ⟨fun _ => 0, 0⟩
      (TypeTls.frameNextLoop (doEnableTlsFrags (2 ^ 32 - 1) (parseFrags (2 ^ 32 - 1) [[50]]) none)
        [1, 2, 3] 0 3 ⟨fun _ => 0, 0⟩) :=
  (frameNext_copiesExactly_iff (2 ^ 32 - 1) [[50]] none [1, 2, 3] 0 3 ⟨fun _ => 0, 0⟩ (by decide)
    (by decide)).mpr (by decide)

/-- With the variable set to `0` the loop copies both bytes of an output and reads on. -/
theorem frameNext_runs_away_zero :
    ¬TypeTls.CopiesExactly
      (min (2 - 0) (doEnableTlsFrags (2 ^ 32 - 1) (parseFrags (2 ^ 32 - 1) []) (some [48])))
      [1, 2] 0 2 ⟨fun _ => 0, 0⟩
      (TypeTls.frameNextLoop (doEnableTlsFrags (2 ^ 32 - 1) (parseFrags (2 ^ 32 - 1) []) (some [48]))
        [1, 2] 0 2 ⟨fun _ => 0, 0⟩) := by
  intro h
  obtain ⟨o, hok, -⟩ := h.terminates
  have hzero : doEnableTlsFrags (2 ^ 32 - 1) (parseFrags (2 ^ 32 - 1) []) (some [48]) = 0 := by decide
  rw [hzero, TypeTls.frameNextLoop_of_zero (by decide)] at hok
  cases hok

end Dot1x.Eap
