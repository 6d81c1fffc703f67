import Dot1x.Base.Blocks
import Dot1x.Eap.Buffer

/-!
# Messages to the user

A message is formatted into a growable buffer, which grows until the text fits, and is printed from
there. The conversion for the text of an error is replaced by a marker in the format; when the rest is
formatted, the error text is put in the place of the marker. A buffer that grows gets another block
and loses what it held, so the error text comes too late where the buffer grows for it. What is
printed ends with a zero, in the place where the end of the line was once.
-/

namespace Dot1x.Eap

open Dot1x.Base

/-- What a call does. -/
inductive LogEffect
  /-- Bytes of the buffer were written, from an offset on. -/
  | wrote (off n size : ℕ)
  /-- Bytes were written through a pointer that does not point into the buffer. -/
  | stray
  /-- A text was printed. -/
  | output (text : List UInt8)
  deriving DecidableEq

/-- How a call can end without returning. -/
inductive LogFault
  | outOfMem
  | fault
  /-- The loop goes on for ever. -/
  | endless

/-- A call of a method of `out`. -/
abbrev LogCall := Exec LogEffect LogFault

/-- What is under the program: the heap, the functions that format and the error. -/
structure Libc where
  heap : Heap
  /-- The text that the arguments make of a format. -/
  text : List UInt8 → List UInt8
  /-- What `vsnprintf` returns for a text and the size of the buffer. -/
  returned : List UInt8 → ℕ → ℤ
  /-- What `printf` prints for a format without arguments. -/
  printed : List UInt8 → List UInt8
  strerror : List UInt8

/-- The two branches of the source. -/
inductive Platform
  | win32
  | unix
  deriving DecidableEq

/-- The event stays in the buffer. -/
def LogEffect.Inside : LogEffect → Prop
  | .wrote off n size => off + n ≤ size
  | .stray => False
  | .output _ => True

/-- What an event prints. -/
def LogEffect.printed : LogEffect → List UInt8
  | .output text => text
  | _ => []

/-- What is printed. -/
def printedText (log : List LogEffect) : List UInt8 := log.flatMap LogEffect.printed

/-- The place of two characters in a text. -/
def findPair (a b : UInt8) : List UInt8 → Option ℕ
  | x :: y :: rest => if x = a ∧ y = b then some 0 else (findPair a b (y :: rest)).map (· + 1)
  | _ => none

/-- `find_m` looks for `%m`. -/
def findM (s : List UInt8) : Option ℕ := findPair 37 109 s

/-- `find_marker` looks for the characters 1 and 2. -/
def findMarker (s : List UInt8) : Option ℕ := findPair 1 2 s

/-- `growable::expand` -/
def Growable.expand (g : Growable) (heap : Heap) : LogCall Growable :=
  if toSize (g.size * 2) < g.size then Exec.fail .outOfMem
  else
    match (g.need heap (g.size * 2)).result with
    | .ok g' => pure g'
    | .error _ => Exec.fail .outOfMem

namespace Libc

/-- The size doubles, so a loop that expands the buffer ends. -/
def rounds : ℕ := 32

/-- The format with the marker in the place of the first `%m`. -/
def marked (fmt : List UInt8) : List UInt8 :=
  (findM fmt).elim fmt fun pm => (fmt.set pm 1).set (pm + 1) 2

/-- What `vsnprintf` returns, as `unsigned`. -/
def rc (c : Libc) (t : List UInt8) (size : ℕ) : ℕ := (c.returned t size % 2 ^ 32).toNat

/-- What `vsnprintf` leaves in the buffer: as much of the text and its terminating zero as there is
room for. -/
def filled (t : List UInt8) (g : Growable) : Growable :=
  { g with buf := write g.buf 0 ((t ++ [0]).take g.size) }

/-- The loop around `vsnprintf`: what it returned, and the buffer. -/
def formatLoop (c : Libc) (f : List UInt8) : ℕ → Growable → LogCall (ℕ × Growable)
  | 0, _ => Exec.fail .endless
  | n + 1, g => do
    Exec.tell (.wrote 0 (min ((c.text f).length + 1) g.size) g.size)
    if c.rc (c.text f) g.size < g.size then pure (c.rc (c.text f) g.size, filled (c.text f) g)
    else do
      let g ← (filled (c.text f) g).expand c.heap
      formatLoop c f n g

/-- The loop that makes room for the error text. -/
def roomLoop (c : Libc) (need : ℕ) : ℕ → Growable → LogCall Growable
  | 0, _ => Exec.fail .endless
  | n + 1, g =>
    if g.size < need then do
      let g ← g.expand c.heap
      roomLoop c need n g
    else pure g

/-- Bytes are moved through a pointer that does not point into the buffer. -/
def strayMove {α : Type} : LogCall α := do
  Exec.tell .stray
  Exec.fail .fault

/-- The buffer after the bytes behind the marker were moved and the error text was copied. -/
def placed (c : Libc) (pm count : ℕ) (g : Growable) : Growable :=
  let moved := write g.buf (pm + c.strerror.length) (slice g.buf (pm + 2) count)
  { g with buf := write moved pm c.strerror }

/-- Move what is behind the marker and copy the error text. -/
def moveIn (c : Libc) (rc need pm : ℕ) (g : Growable) : LogCall (ℕ × Growable) := do
  let elen := c.strerror.length
  let count := wrapSub (wrapSub rc 2) pm
  Exec.tell (.wrote (pm + elen) count g.size)
  if pm + elen + count ≤ g.size then do
    Exec.tell (.wrote pm elen g.size)
    pure (need, c.placed pm count g)
  else Exec.fail .fault

/-- Put the error text in the place of the marker. The pointer to the marker stays what it was when
the buffer grows. -/
def insertError (c : Libc) (rc : ℕ) (g : Growable) : LogCall (ℕ × Growable) := do
  let pm := findMarker (cstring (slice g.buf 0 g.size))
  let need := wrapSub (toSize (c.strerror.length + rc)) 2
  let grown ← c.roomLoop need rounds g
  if g.size < need then strayMove else pm.elim strayMove fun pm => c.moveIn rc need pm grown

/-- What is printed of the buffer. -/
def shown (c : Libc) (len : ℕ) (g : Growable) : Platform → List UInt8
  | .win32 => c.printed (cstring (slice g.buf 0 g.size))
  | .unix => slice g.buf 0 (len + 1)

/-- The text with a zero behind it. -/
def ended (g : Growable) (len : ℕ) : Growable := { g with buf := write g.buf len [0] }

/-- Store the zero and print. -/
def finish (c : Libc) (os : Platform) (len : ℕ) (g : Growable) : LogCall Growable := do
  Exec.tell (.wrote len 1 g.size)
  if len < g.size then do
    Exec.tell (.output (c.shown len (ended g len) os))
    pure (ended g len)
  else Exec.fail .fault

/-- Expand the buffer if nothing remains behind the text. -/
def ensureRemain (c : Libc) (len : ℕ) (g : Growable) : LogCall Growable :=
  if g.size = len then g.expand c.heap else pure g

/-- `printer::flush` -/
def flush (c : Libc) (os : Platform) (len : ℕ) (g : Growable) : LogCall Growable :=
  c.ensureRemain len g >>= c.finish os len

/-- The error text is put in its place if the format has one. -/
def replaceMarker (c : Libc) (fmt : List UInt8) (r : ℕ × Growable) : LogCall (ℕ × Growable) :=
  if (findM fmt).isSome then c.insertError r.1 r.2 else pure r

/-- `out::do_print` -/
def doPrint (c : Libc) (os : Platform) (fmt : List UInt8) (g : Growable) : LogCall Growable := do
  if (c.heap (toSize (fmt.length + 1))).isNone then Exec.fail .outOfMem
  else do
    let r ← c.formatLoop (marked fmt) rounds g
    let r ← c.replaceMarker fmt r
    c.flush os r.1 r.2

/-- The formatted text with the error text in the place of the first `%m`. -/
def expected (c : Libc) (fmt : List UInt8) : List UInt8 :=
  if (findM fmt).isSome then
    (findM (c.text fmt)).elim (c.text fmt) fun pm =>
      (c.text fmt).take pm ++ c.strerror ++ (c.text fmt).drop (pm + 2)
  else c.text fmt

/-- What is expected of a message. -/
structure LogsText (c : Libc) (fmt : List UInt8) (g : Growable) : Prop where
  output : ∀ os, printedText (c.doPrint os fmt g).log = c.expected fmt ++ [10]
  inside : ∀ os, ∀ ev ∈ (c.doPrint os fmt g).log, ev.Inside

/-- The C library behaves as it is documented. -/
structure Standard (c : Libc) : Prop where
  returns : ∀ t n, c.returned t n = t.length ∨ c.returned t n < 0
  isInt : ∀ t n, -2 ^ 31 ≤ c.returned t n ∧ c.returned t n < 2 ^ 31
  fits : ∀ t n, t.length < n → t.length < 2 ^ 31 → c.returned t n = t.length
  plain : ∀ s, 37 ∉ s → c.printed s = s

variable {c : Libc} {os : Platform} {fmt f t : List UInt8} {g g' : Growable} {n need len pm : ℕ}
  {ev : LogEffect} {heap : Heap}

/-- What is printed by two executions, one after the other. -/
theorem printedText_append (log log' : List LogEffect) :
    printedText (log ++ log') = printedText log ++ printedText log' := List.flatMap_append

/-- Events that print nothing leave no text. -/
theorem printedText_of_silent {log : List LogEffect} (h : ∀ ev ∈ log, ev.printed = []) :
    printedText log = [] := List.flatMap_eq_nil_iff.mpr h

/-- The buffer has doubled, and nothing else was done. -/
theorem expand_sat : Exec.Sat (fun _ => False) (fun g' => 0 < g.size → g'.size = 2 * g.size)
    (g.expand heap) := by
  unfold Growable.expand
  split
  · exact .fail
  · rename_i hle
    cases hneed : (g.need heap (g.size * 2)).result with
    | error e => exact .fail
    | ok g' =>
      refine .pure fun hg => ?_
      have hsize := g.size_lt
      have hdouble : g.size * 2 < 2 ^ 32 := by
        unfold toSize at hle
        omega
      rw [toSize_of_lt hdouble] at hle
      rw [Growable.need_result_eq_ok, toSize_of_lt hdouble, if_pos (by omega)] at hneed
      obtain ⟨p, -, rfl⟩ := hneed
      exact (toSize_of_lt hdouble).trans (Nat.mul_comm ..)

/-- To expand the buffer does not take for ever. -/
theorem expand_ne_endless : (g.expand heap).result ≠ .error .endless := by
  unfold Growable.expand
  split
  · exact fun h => by cases h
  · split <;> exact fun h => by cases h

/-- The size of the buffer is a power of two, as it is in the beginning. -/
def Doubled (g : Growable) : Prop := ∃ k, g.size = 2 ^ k

/-- A buffer with a power of two for its size is not empty. -/
theorem Doubled.pos (h : Doubled g) : 0 < g.size := by
  obtain ⟨k, hk⟩ := h
  rw [hk]
  exact Nat.two_pow_pos k

/-- The largest power of two that is a size. -/
theorem Doubled.size_le (h : Doubled g) : g.size ≤ 2 ^ 31 := by
  obtain ⟨k, hk⟩ := h
  have hlt := g.size_lt
  rw [hk] at hlt ⊢
  have hk32 : k < 32 := (Nat.pow_lt_pow_iff_right (by decide)).mp hlt
  exact Nat.pow_le_pow_right (by decide) (by omega)

/-- Doubling keeps the power of two. -/
theorem Doubled.double (h : Doubled g) (hg' : g'.size = 2 * g.size) : Doubled g' := by
  obtain ⟨k, hk⟩ := h
  exact ⟨k + 1, by rw [hg', hk, Nat.pow_succ, Nat.mul_comm]⟩

/-- A write to the buffer that stays in it. -/
def Filling (ev : LogEffect) : Prop := ∃ k size, k ≤ size ∧ ev = .wrote 0 k size

/-- The loop around `vsnprintf` writes within the buffer. What was returned in the end is less than
the size, and the text was written to a buffer of that size. -/
theorem formatLoop_sat : Exec.Sat Filling
    (fun r => ∃ g', (Doubled g → Doubled g') ∧ c.rc (c.text f) g'.size < g'.size ∧
      r = (c.rc (c.text f) g'.size, filled (c.text f) g')) (c.formatLoop f n g) := by
  induction n generalizing g with
  | zero => exact .fail
  | succ n ih =>
    refine .bind (.tell ⟨_, _, Nat.min_le_right .., rfl⟩ trivial) fun _ (_ : True) => ?_
    split
    · rename_i hlt
      exact .pure ⟨g, id, hlt, rfl⟩
    · refine .bind (expand_sat.mono (fun _ => False.elim) fun _ => id) fun g₁ hg₁ => ?_
      refine ih.mono (fun _ => id) fun r => Exists.imp fun g' hr => ⟨fun hg => hr.1 ?_, hr.2⟩
      exact hg.double (hg₁ hg.pos)

/-- To make room for the error text writes and prints nothing. -/
theorem roomLoop_sat : Exec.Sat (fun _ => False) (fun g' => need ≤ g.size → g' = g)
    (c.roomLoop need n g) := by
  induction n generalizing g with
  | zero => exact .fail
  | succ n ih =>
    rw [roomLoop]
    split
    · rename_i hlt
      exact .bind expand_sat fun g' _ => ih.mono (fun _ => id) fun _ _ hle => absurd hle (by omega)
    · exact .pure fun _ => rfl

/-- An event that prints nothing. -/
def Silent (ev : LogEffect) : Prop := ev.printed = []

/-- Filling the buffer prints nothing. -/
theorem Filling.silent (h : Filling ev) : Silent ev := by
  obtain ⟨k, size, -, rfl⟩ := h
  rfl

/-- Filling the buffer stays in it. -/
theorem Filling.inside (h : Filling ev) : ev.Inside := by
  obtain ⟨k, size, hle, rfl⟩ := h
  exact (Nat.zero_add k).le.trans hle

/-- A stray move prints nothing and does not return. -/
theorem strayMove_sat {α : Type} : Exec.Sat Silent (fun _ => False) (strayMove : LogCall α) :=
  .bind (.tell rfl trivial) fun _ (_ : True) => .fail

/-- To put the error text in its place prints nothing. -/
private theorem insertError_sat {rc : ℕ} : Exec.Sat Silent (fun _ => True) (c.insertError rc g)
    := by
  refine .bind (roomLoop_sat.mono (fun _ => False.elim) fun _ _ => trivial) fun grown (_ : True) => ?_
  split
  · exact strayMove_sat.mono (fun _ => id) fun _ => False.elim
  · cases findMarker (cstring (slice g.buf 0 g.size)) with
    | none => exact strayMove_sat.mono (fun _ => id) fun _ => False.elim
    | some pm =>
      refine .bind (.tell rfl trivial) fun _ (_ : True) => ?_
      split
      · exact .bind (.tell rfl trivial) fun _ (_ : True) => .pure trivial
      · exact .fail

/-- Replacing the marker prints nothing. -/
private theorem replaceMarker_sat {r : ℕ × Growable} :
    Exec.Sat Silent (fun _ => True) (c.replaceMarker fmt r) := by
  unfold replaceMarker
  split
  · exact insertError_sat
  · exact .pure trivial

/-- Expanding the buffer prints nothing. -/
private theorem ensureRemain_sat : Exec.Sat Silent (fun _ => True) (c.ensureRemain len g) := by
  unfold ensureRemain
  split
  · exact expand_sat.mono (fun _ => False.elim) fun _ _ => trivial
  · exact .pure trivial

/-- Where there is room for the zero, the buffer is printed as it is. -/
theorem finish_of_lt (h : len < g.size) : c.finish os len g =
    ⟨[.wrote len 1 g.size, .output (c.shown len (ended g len) os)], .ok (ended g len)⟩ := by
  rw [finish, if_pos h]
  rfl

/-- With room for the zero, it is stored and the text is printed. -/
theorem flush_of_lt (h : len < g.size) : c.flush os len g =
    ⟨[.wrote len 1 g.size, .output (c.shown len (ended g len) os)], .ok (ended g len)⟩ := by
  rw [flush, ensureRemain, if_neg (by omega), pure_bind, finish_of_lt h]

/-- What is printed of the buffer ends with a zero. -/
def EndsWithZero (text : List UInt8) : Prop := text = [] ∨ ∃ first, text = first ++ [0]

/-- What is printed behind calls that print nothing. -/
theorem EndsWithZero.bind {α : Type} {x : LogCall α} {k : α → LogCall Growable} {Q : α → Prop}
    (hx : Exec.Sat Silent Q x) (hk : ∀ a, EndsWithZero (printedText (k a).log)) :
    EndsWithZero (printedText (x >>= k).log) := by
  cases hres : x.result with
  | ok a =>
    rw [Exec.log_bind_of_ok hres, printedText_append, printedText_of_silent hx.effects]
    exact hk a
  | error e =>
    rw [Exec.log_bind_of_error hres, printedText_of_silent hx.effects]
    exact Or.inl rfl

/-- On Unix what is printed ends with the zero that was stored. -/
private theorem finish_unix (c : Libc) (len : ℕ) (g : Growable) :
    EndsWithZero (printedText (c.finish .unix len g).log) := by
  by_cases h : len < g.size
  · rw [finish_of_lt h]
    refine Or.inr ⟨slice g.buf 0 len, ?_⟩
    rw [← slice_write_concat]
    exact List.append_nil _
  · rw [finish, if_neg h]
    exact Or.inl rfl

/-- Whatever is printed ends with a zero in the place of the end of the line. -/
theorem doPrint_unix (c : Libc) (fmt : List UInt8) (g : Growable) :
    EndsWithZero (printedText (c.doPrint .unix fmt g).log) := by
  rw [doPrint]
  split
  · exact Or.inl rfl
  · refine .bind (formatLoop_sat.mono (fun _ => Filling.silent) fun _ => id) fun r => ?_
    refine .bind replaceMarker_sat fun r => ?_
    exact .bind ensureRemain_sat fun g => finish_unix c r.1 g

/-- What is printed of a text that needs no error text. -/
def plain (c : Libc) (t : List UInt8) : Platform → List UInt8
  | .win32 => c.printed (cstring t)
  | .unix => t ++ [0]

/-- What `vsnprintf` returned is the length of the text if it is less than the size. -/
theorem rc_eq_length (hc : c.Standard) (hg : Doubled g) (hlt : c.rc t g.size < g.size) :
    c.rc t g.size = t.length := by
  have hsize := hg.size_le
  obtain ⟨hlow, hhigh⟩ := hc.isInt t g.size
  unfold rc at hlt ⊢
  rcases hc.returns t g.size with hlength | hneg
  · rw [hlength] at hhigh ⊢
    rw [Int.emod_eq_of_lt (by omega) (by omega), Int.toNat_natCast]
  · omega

/-- A text that fits is in the buffer with its zero. -/
theorem slice_filled (h : t.length < g.size) :
    slice (filled t g).buf 0 (t.length + 1) = t ++ [0] := by
  have hlength : (t ++ [0]).length = t.length + 1 := List.length_append
  have htake : (t ++ [0]).take g.size = t ++ [0] := List.take_of_length_le (by omega)
  rw [filled, htake]
  exact slice_write_eq hlength

/-- A message is printed up to the end of its text. -/
private theorem shown_ended (c : Libc) (os : Platform) (hlt : t.length < g.size)
    (hslice : slice g.buf 0 t.length = t) :
    c.shown t.length (ended g t.length) os = c.plain t os := by
  have hended : slice (ended g t.length).buf 0 (t.length + 1) = t ++ [0] := by
    conv_rhs => rw [← hslice]
    exact slice_write_concat g.buf t.length 0
  cases os with
  | unix => exact hended
  | win32 => exact congrArg c.printed (cstring_slice hended hlt)

/-- A message whose text stands in the buffer with room for a zero behind it is printed. -/
theorem doPrint_shown {r : ℕ × Growable} {log : List LogEffect}
    (hheap : (c.heap (toSize (fmt.length + 1))).isSome)
    (hloop : (c.formatLoop (marked fmt) rounds g).result = .ok r)
    (hreplace : c.replaceMarker fmt r = ⟨log, .ok (len, g')⟩)
    (hlog : ∀ ev ∈ log, ev.Inside ∧ Silent ev) (hlen : len < g'.size)
    (hslice : slice g'.buf 0 len = t) :
    (∀ ev ∈ (c.doPrint os fmt g).log, ev.Inside) ∧
      printedText (c.doPrint os fmt g).log = c.plain t os := by
  obtain rfl : t.length = len := by rw [← hslice, slice_length]
  have hnone : ¬(c.heap (toSize (fmt.length + 1))).isNone = true := by
    rw [Option.isNone_iff_eq_none]
    exact fun h => absurd hheap (by simp [h])
  have hdone : (c.doPrint os fmt g).log = (c.formatLoop (marked fmt) rounds g).log ++
      (log ++ [.wrote t.length 1 g'.size, .output (c.shown t.length (ended g' t.length) os)]) := by
    rw [doPrint, if_neg hnone, Exec.log_bind_of_ok hloop, hreplace, Exec.mk_ok_bind,
      flush_of_lt hlen]
  rw [hdone]
  constructor
  · intro ev hev
    rcases List.mem_append.mp hev with hfirst | hrest
    · exact (formatLoop_sat.effects ev hfirst).inside
    · rcases List.mem_append.mp hrest with hreplaced | hlast
      · exact (hlog ev hreplaced).1
      · rcases List.mem_cons.mp hlast with rfl | houtput
        · exact hlen
        · rw [List.mem_singleton.mp houtput]
          trivial
  · rw [printedText_append, printedText_append,
      printedText_of_silent fun ev hev => (formatLoop_sat.effects ev hev).silent,
      printedText_of_silent fun ev hev => (hlog ev hev).2, ← shown_ended c os hlen hslice]
    exact List.append_nil _

/-- The loop around `vsnprintf` returned, so a message without an error text is printed. -/
theorem doPrint_of_loop {r : ℕ × Growable} (hc : c.Standard) (hg : Doubled g)
    (hfmt : findM fmt = none) (hheap : (c.heap (toSize (fmt.length + 1))).isSome)
    (hloop : (c.formatLoop (marked fmt) rounds g).result = .ok r) :
    (∀ ev ∈ (c.doPrint os fmt g).log, ev.Inside) ∧
      printedText (c.doPrint os fmt g).log = c.plain (c.text fmt) os := by
  have hmarked : marked fmt = fmt := by rw [marked, hfmt, Option.elim_none]
  obtain ⟨g', hdoubled, hlt, hr⟩ := formatLoop_sat.value r hloop
  rw [hmarked] at hlt hr
  have hlength := rc_eq_length hc (hdoubled hg) hlt
  rw [hlength] at hlt hr
  have hslice : slice (filled (c.text fmt) g').buf 0 (c.text fmt).length = c.text fmt := by
    rw [← take_slice _ _ (Nat.le_succ _), slice_filled hlt, List.take_left]
  have hreplace : c.replaceMarker fmt r = ⟨[], .ok r⟩ := if_neg (by simp [hfmt])
  rw [hr] at hloop hreplace
  exact doPrint_shown hheap hloop hreplace (by simp) hlt hslice

/-- A message without an error text stays in the buffer. What is printed is the text with a zero
behind it on Unix, and what `printf` makes of the text as a format on Windows. -/
theorem doPrint_plain (hc : c.Standard) (hg : Doubled g) (hfmt : findM fmt = none) :
    (∀ ev ∈ (c.doPrint os fmt g).log, ev.Inside) ∧
      (printedText (c.doPrint os fmt g).log = [] ∨
        printedText (c.doPrint os fmt g).log = c.plain (c.text fmt) os) := by
  by_cases hheap : (c.heap (toSize (fmt.length + 1))).isSome
  · cases hloop : (c.formatLoop (marked fmt) rounds g).result with
    | ok r => exact (doPrint_of_loop hc hg hfmt hheap hloop).imp_right Or.inr
    | error e =>
      have hlog : (c.doPrint os fmt g).log = (c.formatLoop (marked fmt) rounds g).log := by
        rw [doPrint, if_neg (by simpa using Option.ne_none_iff_isSome.mpr hheap),
          Exec.log_bind_of_error hloop]
      rw [hlog]
      exact ⟨fun ev hev => (formatLoop_sat.effects ev hev).inside,
        Or.inl (printedText_of_silent fun ev hev => (formatLoop_sat.effects ev hev).silent)⟩
  · have hlog : (c.doPrint os fmt g).log = [] := by
      rw [doPrint, if_pos (by simpa using hheap)]
      rfl
    rw [hlog]
    exact ⟨by simp, Or.inl rfl⟩

/-- One round less is left for a buffer that has doubled. -/
theorem rounds_double (h : 2 ^ 32 ≤ g.size * 2 ^ (n + 1)) (hg' : (g.expand heap).result = .ok g') :
    2 ^ 32 ≤ g'.size * 2 ^ n := by
  have hg : 0 < g.size := Nat.pos_of_ne_zero fun h0 => by simp [h0] at h
  rwa [expand_sat.value g' hg' hg, Nat.mul_comm 2, Nat.mul_assoc, ← Nat.pow_succ']

/-- Where the buffer is not empty, the rounds are enough for it to outgrow 32 bits. -/
theorem rounds_of_pos (h : 0 < g.size) : 2 ^ 32 ≤ g.size * 2 ^ rounds :=
  Nat.le_mul_of_pos_left _ h

/-- There is always memory. -/
def Grants (c : Libc) : Prop := ∀ n, (c.heap n).isSome

/-- The buffer doubles where a size can double and there is memory. -/
private theorem expand_of_grants (hgrants : c.Grants) (hg : 0 < g.size) (hlt : g.size < 2 ^ 31) :
    ∃ g', (g.expand c.heap).result = .ok g' ∧ g'.size = 2 * g.size := by
  have hdouble : g.size * 2 < 2 ^ 32 := by omega
  obtain ⟨p, hp⟩ := Option.isSome_iff_exists.mp (hgrants (g.size * 2))
  have hneed : (g.need c.heap (g.size * 2)).result = .ok (.fresh (g.size * 2) p) := by
    rw [Growable.need_result_eq_ok, toSize_of_lt hdouble, if_pos (by omega)]
    exact ⟨p, hp, rfl⟩
  have hexpand : g.expand c.heap = pure (.fresh (g.size * 2) p) := by
    rw [Growable.expand, if_neg (by rw [toSize_of_lt hdouble]; omega), hneed]
  have hresult : (g.expand c.heap).result = .ok (.fresh (g.size * 2) p) := by
    rw [hexpand]
    rfl
  exact ⟨_, hresult, expand_sat.value _ hresult hg⟩

/-- A text that `vsnprintf` can return the length of finds a buffer that it fits in. -/
private theorem formatLoop_returns (hc : c.Standard) (hgrants : c.Grants) (hg : Doubled g)
    (hlength : (c.text f).length < 2 ^ 31) (h : 2 ^ 32 ≤ g.size * 2 ^ n) :
    ∃ r, (c.formatLoop f n g).result = .ok r := by
  induction n generalizing g with
  | zero => exact absurd g.size_lt (by omega)
  | succ n ih =>
    rw [formatLoop, Exec.result_bind_of_ok rfl]
    split
    · exact ⟨_, rfl⟩
    · rename_i hlarge
      have hlong : g.size ≤ (c.text f).length := by
        by_contra hshort
        have hfits := hc.fits (c.text f) g.size (by omega) hlength
        unfold rc at hlarge
        rw [hfits] at hlarge
        omega
      obtain ⟨g', hg', hsize⟩ :=
        expand_of_grants (g := filled (c.text f) g) hgrants hg.pos (by exact hlong.trans_lt hlength)
      rw [Exec.result_bind_of_ok hg']
      exact ih (hg.double hsize) (rounds_double (g := filled (c.text f) g) h hg')

/-- With enough memory a message without an error text is printed, except for the end of its line. -/
theorem doPrint_of_grants (hc : c.Standard) (hgrants : c.Grants) (hg : Doubled g)
    (hfmt : findM fmt = none) (hlength : (c.text fmt).length < 2 ^ 31) :
    printedText (c.doPrint os fmt g).log = c.plain (c.text fmt) os := by
  have hmarked : marked fmt = fmt := by rw [marked, hfmt, Option.elim_none]
  obtain ⟨r, hloop⟩ := formatLoop_returns hc hgrants hg (hmarked ▸ hlength) (rounds_of_pos hg.pos)
  exact (doPrint_of_loop hc hg hfmt (hgrants _) hloop).2

/-- A text that says nothing to `printf` is printed as it is on Windows. -/
theorem plain_win32 (hc : c.Standard) (hzero : 0 ∉ t) (hpercent : 37 ∉ t) : c.plain t .win32 = t := by
  rw [plain, cstring_of_notMem hzero, hc.plain t hpercent]

/-- A pair of characters lies within the text. -/
theorem findPair_le {x y : UInt8} {s : List UInt8} {i : ℕ} (h : findPair x y s = some i) :
    i + 2 ≤ s.length := by
  induction s generalizing i with
  | nil => cases h
  | cons u s ih =>
    cases s with
    | nil => cases h
    | cons v s =>
      rw [findPair] at h
      split at h
      · cases h
        simp
      · obtain ⟨j, hj, rfl⟩ := Option.map_eq_some_iff.mp h
        have hle := ih hj
        rw [List.length_cons]
        omega

/-- Moving the end of the text and copying the error text. -/
private theorem slice_moved {m : Mem} {e : List UInt8} (ht : slice m 0 t.length = t)
    (hpm : pm + 2 ≤ t.length) :
    slice (write (write m (pm + e.length) (slice m (pm + 2) (t.length - 2 - pm))) pm e) 0
      (e.length + t.length - 2) = t.take pm ++ e ++ t.drop (pm + 2) := by
  have hlength : e.length + t.length - 2 = pm + e.length + (t.length - 2 - pm) := by omega
  have hfirst : slice m 0 pm = t.take pm := by
    rw [← take_slice m 0 (by omega : pm ≤ t.length), ht]
  have hrest : slice m (pm + 2) (t.length - 2 - pm) = t.drop (pm + 2) := by
    conv_rhs => rw [← ht]
    rw [drop_slice m 0 hpm, Nat.zero_add]
    congr 1
    omega
  rw [hlength, ← slice_append, ← slice_append, Nat.zero_add, Nat.zero_add, slice_write_self,
    slice_write_disjoint (Or.inl (by omega)), slice_write_disjoint (Or.inl (by omega)), hfirst,
    slice_write_disjoint (Or.inr (Nat.le_refl _)), slice_write_eq (slice_length ..), hrest]

/-- Where the text with the error text fits, the error text is put in the place of the marker. -/
private theorem insertError_of_lt (hg : Doubled g) (ht : slice g.buf 0 (t.length + 1) = t ++ [0])
    (hlt : t.length < g.size) (hzero : 0 ∉ t) (hpm : findMarker t = some pm)
    (hroom : c.strerror.length + t.length - 2 < g.size) :
    ∃ g', c.insertError t.length g =
        ⟨[.wrote (pm + c.strerror.length) (t.length - 2 - pm) g.size,
          .wrote pm c.strerror.length g.size], .ok (c.strerror.length + t.length - 2, g')⟩ ∧
      g'.size = g.size ∧ slice g'.buf 0 (c.strerror.length + t.length - 2) =
        t.take pm ++ c.strerror ++ t.drop (pm + 2) := by
  have hsize := hg.size_le
  have hpm' := findPair_le hpm
  have htext : cstring (slice g.buf 0 g.size) = t :=
    (cstring_slice ht hlt).trans (cstring_of_notMem hzero)
  have hneed : wrapSub (toSize (c.strerror.length + t.length)) 2 = c.strerror.length + t.length - 2 := by
    rw [toSize_of_lt (by omega), wrapSub_of_le (by omega)]
  have hroomLoop : c.roomLoop (c.strerror.length + t.length - 2) rounds g = pure g :=
    if_neg (by omega)
  have hcount : wrapSub (wrapSub t.length 2) pm = t.length - 2 - pm := by
    rw [wrapSub_of_le (by omega : 2 ≤ t.length), wrapSub_of_le (by omega)]
  have hbefore : slice g.buf 0 t.length = t := by
    rw [← take_slice _ _ (Nat.le_succ _), ht, List.take_left]
  refine ⟨c.placed pm (t.length - 2 - pm) g, ?_, rfl, slice_moved hbefore hpm'⟩
  rw [insertError, htext, hpm, hneed, hroomLoop, pure_bind, if_neg (by omega), Option.elim_some,
    moveIn, hcount, if_pos (by omega)]
  rfl

/-- A message with an error text that fits is printed with it. -/
theorem doPrint_error {r : ℕ × Growable} (hc : c.Standard) (hg : Doubled g)
    (hfmt : (findM fmt).isSome) (hheap : (c.heap (toSize (fmt.length + 1))).isSome)
    (hloop : (c.formatLoop (marked fmt) rounds g).result = .ok r) (ht : c.text (marked fmt) = t)
    (hzero : 0 ∉ t) (hpm : findMarker t = some pm)
    (hroom : c.strerror.length + t.length - 2 < r.2.size) :
    (∀ ev ∈ (c.doPrint os fmt g).log, ev.Inside) ∧
      printedText (c.doPrint os fmt g).log =
        c.plain (t.take pm ++ c.strerror ++ t.drop (pm + 2)) os := by
  obtain ⟨g', hdoubled, hlt, hr⟩ := formatLoop_sat.value r hloop
  rw [ht] at hlt hr
  have hlength := rc_eq_length hc (hdoubled hg) hlt
  rw [hlength] at hlt hr
  rw [hr] at hroom
  obtain ⟨placed, hinsert, hsize, hslice⟩ := insertError_of_lt (g := filled t g')
    (hdoubled hg) (slice_filled hlt) hlt hzero hpm hroom
  have hreplace : c.replaceMarker fmt r = c.insertError t.length (filled t g') := by
    rw [replaceMarker, if_pos hfmt, hr]
  have hpm' := findPair_le hpm
  refine doPrint_shown hheap hloop (hreplace.trans hinsert) (fun ev hev => ?_)
    (hsize ▸ hroom) hslice
  simp only [filled] at hev hroom
  rcases List.mem_cons.mp hev with rfl | hsecond
  · exact ⟨by simp only [LogEffect.Inside]; omega, rfl⟩
  · rw [List.mem_singleton.mp hsecond]
    exact ⟨by simp only [LogEffect.Inside]; omega, rfl⟩

/-- Where the buffer grows for the error text, the message is not printed. -/
theorem insertError_of_grown {rc : ℕ} (h : g.size < wrapSub (toSize (c.strerror.length + rc)) 2) :
    Exec.Sat Silent (fun _ => False) (c.insertError rc g) := by
  refine .bind (roomLoop_sat.mono (fun _ => False.elim) fun _ _ => trivial) fun grown (_ : True) => ?_
  rw [if_pos h]
  exact strayMove_sat

/-- The loop around `vsnprintf` ends. -/
theorem formatLoop_ends (h : 2 ^ 32 ≤ g.size * 2 ^ n) :
    (c.formatLoop f n g).result ≠ .error .endless := by
  induction n generalizing g with
  | zero => exact absurd g.size_lt (by omega)
  | succ n ih =>
    intro hend
    rw [formatLoop, Exec.result_bind_of_ok rfl] at hend
    split at hend
    · cases hend
    · rcases Exec.result_bind_eq_error.mp hend with hexpand | ⟨g', hg', hrest⟩
      · exact expand_ne_endless hexpand
      · exact ih (rounds_double (g := filled (c.text f) g) h hg') hrest

/-- The loop that makes room for the error text ends. -/
private theorem roomLoop_ends (h : 2 ^ 32 ≤ g.size * 2 ^ n) :
    (c.roomLoop need n g).result ≠ .error .endless := by
  induction n generalizing g with
  | zero => exact absurd g.size_lt (by omega)
  | succ n ih =>
    intro hend
    rw [roomLoop] at hend
    split at hend
    · rcases Exec.result_bind_eq_error.mp hend with hexpand | ⟨g', hg', hrest⟩
      · exact expand_ne_endless hexpand
      · exact ih (rounds_double h hg') hrest
    · cases hend

/-- Putting the error text in its place ends. -/
theorem insertError_ends {rc : ℕ} (h : 0 < g.size) :
    (c.insertError rc g).result ≠ .error .endless := by
  intro hend
  rcases Exec.result_bind_eq_error.mp hend with hroom | ⟨grown, -, hmove⟩
  · exact roomLoop_ends (rounds_of_pos h) hroom
  · split at hmove
    · cases hmove
    · cases hpm : findMarker (cstring (slice g.buf 0 g.size)) with
      | none =>
        rw [hpm] at hmove
        cases hmove
      | some pm =>
        rw [hpm, Option.elim_some, moveIn, Exec.result_bind_of_ok rfl] at hmove
        split at hmove
        · cases hmove
        · cases hmove

/-- Every message comes to an end. -/
theorem doPrint_ends (h : 0 < g.size) : (c.doPrint os fmt g).result ≠ .error .endless := by
  intro hend
  rw [doPrint] at hend
  split at hend
  · cases hend
  rcases Exec.result_bind_eq_error.mp hend with hformat | ⟨r, hr, hrest⟩
  · exact formatLoop_ends (rounds_of_pos h) hformat
  obtain ⟨g', -, hlt, rfl⟩ := formatLoop_sat.value r hr
  have hg' : 0 < (filled (c.text (marked fmt)) g').size := Nat.zero_lt_of_lt hlt
  rcases Exec.result_bind_eq_error.mp hrest with hreplace | ⟨r', -, hflush⟩
  · unfold replaceMarker at hreplace
    split at hreplace
    · exact insertError_ends hg' hreplace
    · cases hreplace
  · rcases Exec.result_bind_eq_error.mp hflush with hremain | ⟨g'', -, hfinish⟩
    · unfold ensureRemain at hremain
      split at hremain
      · exact expand_ne_endless hremain
      · cases hremain
    · rw [finish, Exec.result_bind_of_ok rfl] at hfinish
      split at hfinish
      · cases hfinish
      · cases hfinish

/-- No message is printed as it should be: on Unix the line never ends. -/
theorem not_logsText (c : Libc) (fmt : List UInt8) (g : Growable) : ¬LogsText c fmt g := by
  intro h
  have houtput := h.output .unix
  rcases doPrint_unix c fmt g with hnone | ⟨text, htext⟩
  · rw [hnone] at houtput
    exact List.append_ne_nil_of_right_ne_nil _ (List.cons_ne_nil 10 []) houtput.symm
  · rw [htext] at houtput
    obtain ⟨-, hlast⟩ := List.append_inj' houtput rfl
    exact absurd hlast (by decide)

/-- A C library that knows no conversions. -/
def literal : Libc where
  heap := fun _ => some fun _ => 0
  text := id
  returned := fun t n => if t.length < n ∧ t.length < 2 ^ 31 then t.length else -1
  printed := id
  strerror := [69]

/-- The C library without conversions behaves as it is documented. -/
theorem literal_standard : literal.Standard where
  returns t n := by
    dsimp only [literal]
    split
    · exact Or.inl rfl
    · exact Or.inr (by decide)
  isInt t n := by
    dsimp only [literal]
    split
    · omega
    · decide
  fits t n hlt hint := if_pos ⟨hlt, hint⟩
  plain _ _ := rfl

/-- The buffer of the printer, before the first message. -/
def fresh : Growable := ⟨128, fun _ => 0, by decide⟩

/-- The message `a` is printed with a zero instead of the end of the line. -/
theorem logsText_fails_a : ¬LogsText literal [97] fresh := by
  intro h
  have hprinted : printedText (literal.doPrint .unix [97] fresh).log = [97, 0] := by decide
  have houtput := h.output .unix
  rw [hprinted] at houtput
  exact absurd houtput (by decide)

end Libc

end Dot1x.Eap
