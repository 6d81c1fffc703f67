import Dot1x.Base.BlockHash

/-!
# The MD5 functions

A context holds the chaining variables, the number of bytes that were processed, and a buffer for
those that were not. The buffer has room for two blocks: what comes in is put behind what is there,
and processed when it is more than a block.

Words are read and written as a little-endian machine has them, so that `SWAP` does nothing, and a
length is a `size_t` of 32 bits.
-/

namespace Dot1x.Hash

open Dot1x.Base

/-- The chaining variables. -/
structure Chain where
  a : UInt32
  b : UInt32
  c : UInt32
  d : UInt32
  deriving DecidableEq, Repr

/-- `struct md5_ctx` -/
structure Md5Ctx where
  chain : Chain
  total : UInt32 × UInt32
  buflen : ℕ
  buffer : Mem

/-- Length of a block. -/
def blockLen : ℕ := 64

/-- Size of the buffer of a context. -/
def bufferSize : ℕ := 128

def fillbuf : List UInt8 := 0x80 :: List.replicate 63 0

/-- The chaining variables at first. -/
def initialChain : Chain := ⟨0x67452301, 0xefcdab89, 0x98badcfe, 0x10325476⟩

/-- `md5_init_ctx`; the buffer is left as it is. -/
def initCtx (ctx : Md5Ctx) : Md5Ctx := ⟨initialChain, (0, 0), 0, ctx.buffer⟩

/-- `md5_read_ctx` -/
def readCtx (ctx : Md5Ctx) : List UInt8 :=
  leBytes 4 ctx.chain.a.toNat ++ leBytes 4 ctx.chain.b.toNat ++ leBytes 4 ctx.chain.c.toNat ++
    leBytes 4 ctx.chain.d.toNat

def ff (b c d : UInt32) : UInt32 := d ^^^ (b &&& (c ^^^ d))

def fg (b c d : UInt32) : UInt32 := ff d b c

def fh (b c d : UInt32) : UInt32 := b ^^^ c ^^^ d

def fi (b c d : UInt32) : UInt32 := c ^^^ (b ||| ~~~d)

/-- `CYCLIC` -/
def cyclic (w : UInt32) (s : ℕ) : UInt32 := w <<< UInt32.ofNat s ||| w >>> UInt32.ofNat (32 - s)

/-- What differs between the operations of a round: the word, the shift and the constant. -/
structure Operand where
  k : ℕ
  s : ℕ
  t : UInt32
  deriving DecidableEq

section

variable (f : UInt32 → UInt32 → UInt32 → UInt32) (words : ℕ → UInt32)

/-- `OP` -/
def op (a b c d : UInt32) (o : Operand) : UInt32 := cyclic (a + (f b c d + words o.k + o.t)) o.s + b

/-- Four operations, after which every variable was assigned once. -/
def row (r : Chain) (o₁ o₂ o₃ o₄ : Operand) : Chain :=
  let a := op f words r.a r.b r.c r.d o₁
  let d := op f words r.d a r.b r.c o₂
  let c := op f words r.c d a r.b o₃
  let b := op f words r.b c d a o₄
  ⟨a, b, c, d⟩

end

/-- Round 1. -/
def round1 (words : ℕ → UInt32) (r : Chain) : Chain :=
  let r := row ff words r ⟨0, 7, 0xd76aa478⟩ ⟨1, 12, 0xe8c7b756⟩ ⟨2, 17, 0x242070db⟩
    ⟨3, 22, 0xc1bdceee⟩
  let r := row ff words r ⟨4, 7, 0xf57c0faf⟩ ⟨5, 12, 0x4787c62a⟩ ⟨6, 17, 0xa8304613⟩
    ⟨7, 22, 0xfd469501⟩
  let r := row ff words r ⟨8, 7, 0x698098d8⟩ ⟨9, 12, 0x8b44f7af⟩ ⟨10, 17, 0xffff5bb1⟩
    ⟨11, 22, 0x895cd7be⟩
  row ff words r ⟨12, 7, 0x6b901122⟩ ⟨13, 12, 0xfd987193⟩ ⟨14, 17, 0xa679438e⟩
    ⟨15, 22, 0x49b40821⟩

/-- Round 2. -/
def round2 (words : ℕ → UInt32) (r : Chain) : Chain :=
  let r := row fg words r ⟨1, 5, 0xf61e2562⟩ ⟨6, 9, 0xc040b340⟩ ⟨11, 14, 0x265e5a51⟩
    ⟨0, 20, 0xe9b6c7aa⟩
  let r := row fg words r ⟨5, 5, 0xd62f105d⟩ ⟨10, 9, 0x02441453⟩ ⟨15, 14, 0xd8a1e681⟩
    ⟨4, 20, 0xe7d3fbc8⟩
  let r := row fg words r ⟨9, 5, 0x21e1cde6⟩ ⟨14, 9, 0xc33707d6⟩ ⟨3, 14, 0xf4d50d87⟩
    ⟨8, 20, 0x455a14ed⟩
  row fg words r ⟨13, 5, 0xa9e3e905⟩ ⟨2, 9, 0xfcefa3f8⟩ ⟨7, 14, 0x676f02d9⟩
    ⟨12, 20, 0x8d2a4c8a⟩

/-- Round 3. -/
def round3 (words : ℕ → UInt32) (r : Chain) : Chain :=
  let r := row fh words r ⟨5, 4, 0xfffa3942⟩ ⟨8, 11, 0x8771f681⟩ ⟨11, 16, 0x6d9d6122⟩
    ⟨14, 23, 0xfde5380c⟩
  let r := row fh words r ⟨1, 4, 0xa4beea44⟩ ⟨4, 11, 0x4bdecfa9⟩ ⟨7, 16, 0xf6bb4b60⟩
    ⟨10, 23, 0xbebfbc70⟩
  let r := row fh words r ⟨13, 4, 0x289b7ec6⟩ ⟨0, 11, 0xeaa127fa⟩ ⟨3, 16, 0xd4ef3085⟩
    ⟨6, 23, 0x04881d05⟩
  row fh words r ⟨9, 4, 0xd9d4d039⟩ ⟨12, 11, 0xe6db99e5⟩ ⟨15, 16, 0x1fa27cf8⟩
    ⟨2, 23, 0xc4ac5665⟩

/-- Round 4. -/
def round4 (words : ℕ → UInt32) (r : Chain) : Chain :=
  let r := row fi words r ⟨0, 6, 0xf4292244⟩ ⟨7, 10, 0x432aff97⟩ ⟨14, 15, 0xab9423a7⟩
    ⟨5, 21, 0xfc93a039⟩
  let r := row fi words r ⟨12, 6, 0x655b59c3⟩ ⟨3, 10, 0x8f0ccc92⟩ ⟨10, 15, 0xffeff47d⟩
    ⟨1, 21, 0x85845dd1⟩
  let r := row fi words r ⟨8, 6, 0x6fa87e4f⟩ ⟨15, 10, 0xfe2ce6e0⟩ ⟨6, 15, 0xa3014314⟩
    ⟨13, 21, 0x4e0811a1⟩
  row fi words r ⟨4, 6, 0xf7537e82⟩ ⟨11, 10, 0xbd3af235⟩ ⟨2, 15, 0x2ad7d2bb⟩
    ⟨9, 21, 0xeb86d391⟩

/-- The words of a block in memory. -/
def correctWords (m : Mem) (words k : ℕ) : UInt32 := UInt32.ofNat (leValue (slice m (words + 4 * k) 4))

/-- One pass of the loop of `md5_process_block`. -/
def processWords (m : Mem) (words : ℕ) (save : Chain) : Chain :=
  let w := correctWords m words
  let r := round4 w (round3 w (round2 w (round1 w save)))
  ⟨r.a + save.a, r.b + save.b, r.c + save.c, r.d + save.d⟩

/-- The loop of `md5_process_block`, by the number of its passes. -/
def blockLoop (m : Mem) (words n : ℕ) (r : Chain) : Chain :=
  (List.range n).foldl (fun r i => processWords m (words + 64 * i) r) r

/-- `md5_process_block`; a pass takes sixteen words and there is one as long as there are words. -/
def processBlock (m : Mem) (buffer len : ℕ) (ctx : Md5Ctx) : Md5Ctx :=
  { ctx with
    total := addCarry ctx.total len
    chain := blockLoop m buffer ((len / 4 + 15) / 16) ctx.chain }

/-- How much of what comes in is put behind what is in the buffer. -/
def added (ctx : Md5Ctx) (len : ℕ) : ℕ :=
  if bufferSize - ctx.buflen > len then len else bufferSize - ctx.buflen

/-- Put bytes behind what is in the buffer. -/
def store (m : Mem) (buffer add : ℕ) (ctx : Md5Ctx) : Md5Ctx :=
  { ctx with
    buffer := write ctx.buffer ctx.buflen (slice m buffer add)
    buflen := ctx.buflen + add }

/-- Process what is in the buffer if it is more than a block, up to what is moved to its beginning. -/
def processBuffer (ctx : Md5Ctx) : Md5Ctx :=
  if ctx.buflen > 64 then
    let n := ctx.buflen / 64 * 64
    let ctx := processBlock ctx.buffer 0 n ctx
    { ctx with
      buffer := write ctx.buffer 0 (slice ctx.buffer n (ctx.buflen % 64))
      buflen := ctx.buflen % 64 }
  else ctx

/-- Put what comes in behind what is in the buffer. -/
def appendBuffer (m : Mem) (buffer len : ℕ) (ctx : Md5Ctx) : Md5Ctx :=
  processBuffer (store m buffer (added ctx len) ctx)

/-- Move what is left to the buffer. -/
def keepRemaining (m : Mem) (buffer len : ℕ) (ctx : Md5Ctx) : Md5Ctx :=
  if len > 0 then { ctx with buffer := write ctx.buffer 0 (slice m buffer len), buflen := len } else ctx

/-- Process the blocks that are complete and keep the rest. -/
def processComplete (m : Mem) (buffer len : ℕ) (ctx : Md5Ctx) : Md5Ctx :=
  if len > 64 then
    let n := len / 64 * 64
    keepRemaining m (buffer + n) (len % 64) (processBlock m buffer n ctx)
  else keepRemaining m buffer len ctx

/-- `md5_process_bytes` -/
def processBytes (m : Mem) (buffer len : ℕ) (ctx : Md5Ctx) : Md5Ctx :=
  if ctx.buflen ≠ 0 then
    processComplete m (buffer + added ctx len) (len - added ctx len) (appendBuffer m buffer len ctx)
  else processComplete m buffer len ctx

/-- How many bytes of `fillbuf` are put behind the text. -/
def padLen (bytes : ℕ) : ℕ := if bytes ≥ 56 then 64 + 56 - bytes else 56 - bytes

/-- The buffer before its last blocks are processed. -/
def lastBuffer (ctx : Md5Ctx) : Mem :=
  let bytes := ctx.buflen
  let bits := timesEight (addCarry ctx.total bytes)
  let pad := padLen bytes
  let buffer := write ctx.buffer bytes (fillbuf.take pad)
  let buffer := write buffer (bytes + pad) (leBytes 4 bits.1.toNat)
  write buffer (bytes + pad + 4) (leBytes 4 bits.2.toNat)

/-- `md5_finish_ctx`: the context, and what is written to the result. -/
def finishCtx (ctx : Md5Ctx) : Md5Ctx × List UInt8 :=
  let bytes := ctx.buflen
  let buffer := lastBuffer ctx
  let ctx := { ctx with total := addCarry ctx.total bytes, buffer := buffer }
  let ctx := processBlock buffer 0 (bytes + padLen bytes + 8) ctx
  (ctx, readCtx ctx)

/-- `md5_buffer`; nothing is known of the context at first. -/
def md5Buffer (ctx : Md5Ctx) (m : Mem) (buffer len : ℕ) : List UInt8 :=
  (finishCtx (processBytes m buffer len (initCtx ctx))).2

end Dot1x.Hash
