import Dot1x.Base.Exec
import Dot1x.Base.Memory
import Mathlib.Data.List.TakeDrop

/-!
# The settings in the registry

The program keeps its settings as integers, strings and blocks of bytes under a section and an
entry. The password is a block in which every byte is shifted by 128. It is shifted back in the
memory that the framework allocates for exactly that block, and the terminating zero is stored
behind its end; where nothing was ever stored there is no such memory, only a null pointer. The
default is never looked at.
-/

namespace Dot1x.Client

open Dot1x.Base

/-- A value of the registry. -/
inductive ProfileValue
  | int (n : ℤ)
  | string (text : List UInt8)
  | binary (bytes : List UInt8)
  deriving DecidableEq

/-- The settings, by section and entry. -/
abbrev Profile := String → String → Option ProfileValue

/-- What is done to memory and to the registry. -/
inductive ProfileEvent
  /-- An element of a buffer of that size was read or written. -/
  | index (i size : ℕ)
  /-- The first bytes of a buffer were written. -/
  | block (n size : ℕ)
  | stored (sect entry : String) (v : ProfileValue)
  deriving DecidableEq

/-- The event stays in its buffer. -/
def ProfileEvent.Inside : ProfileEvent → Prop
  | .index i size => i < size
  | .block n size => n ≤ size
  | .stored .. => True

/-- How a function of the settings ends without returning. -/
inductive ProfileFault
  | nullPointer

/-- A call of a function of the settings. -/
abbrev ProfileCall := Exec ProfileEvent ProfileFault

namespace Profile

def set (r : Profile) (sect entry : String) (v : ProfileValue) : Profile :=
  fun s e => if s = sect ∧ e = entry then some v else r s e

def write (r : Profile) (sect entry : String) (v : ProfileValue) : ProfileCall Profile := do
  Exec.tell (.stored sect entry v)
  pure (r.set sect entry v)

def writeInt (r : Profile) (sect entry : String) (n : ℤ) : ProfileCall Profile :=
  r.write sect entry (.int n)

def writeString (r : Profile) (sect entry : String) (text : List UInt8) : ProfileCall Profile :=
  r.write sect entry (.string text)

def writeBinary (r : Profile) (sect entry : String) (bytes : List UInt8) : ProfileCall Profile :=
  r.write sect entry (.binary bytes)

def getInt (r : Profile) (sect entry : String) (default : ℤ) : ℤ :=
  match r sect entry with
  | some (.int n) => n
  | _ => default

/-- The default is the empty text. -/
def getString (r : Profile) (sect entry : String) : List UInt8 :=
  match r sect entry with
  | some (.string text) => text
  | _ => []

/-- A block of exactly the stored length, or a null pointer. -/
def getBinary (r : Profile) (sect entry : String) : Option (List UInt8) :=
  match r sect entry with
  | some (.binary bytes) => some bytes
  | _ => none

/-- The loops over a buffer: change every byte. -/
def mapLoop (f : UInt8 → UInt8) (size : ℕ) : List UInt8 → ℕ → ProfileCall (List UInt8)
  | [], _ => pure []
  | b :: bytes, i => do
    Exec.tell (.index i size)
    let rest ← mapLoop f size bytes (i + 1)
    pure (f b :: rest)

/-- The buffer of `WriteProfileEncrypt`. -/
def encryptSize : ℕ := 512

/-- `GetProfileEncrypt`. The zero behind the block is written to memory of the heap that nobody reads
as a part of the text. -/
def getEncrypt (r : Profile) (sect entry : String) (_fallback : List UInt8) :
    ProfileCall (List UInt8) :=
  match r.getBinary sect entry with
  | some bytes => do
    let buf ← mapLoop (· - 128) bytes.length bytes 0
    Exec.tell (.index bytes.length bytes.length)
    pure (cstring (buf ++ [0]))
  | none => do
    Exec.tell (.index 0 0)
    Exec.fail .nullPointer

/-- `WriteProfileEncrypt`. -/
def writeEncrypt (r : Profile) (sect entry : String) (value : List UInt8) : ProfileCall Profile := do
  let buflen := min encryptSize (cstring value).length
  Exec.tell (.block buflen encryptSize)
  let buf ← mapLoop (· + 128) encryptSize (value.take buflen) 0
  r.writeBinary sect entry buf

/-- Store a password and load it again. -/
def storeAndLoad (r : Profile) (sect entry : String) (password fallback : List UInt8) :
    ProfileCall (List UInt8) := do
  let r ← r.writeEncrypt sect entry password
  r.getEncrypt sect entry fallback

/-- What is expected of a stored password. -/
structure KeepsPassword (r : Profile) (sect entry : String) (password fallback : List UInt8) :
    Prop where
  roundTrip : (r.storeAndLoad sect entry password fallback).result = .ok password
  unset : r sect entry = none → (r.getEncrypt sect entry fallback).result = .ok fallback
  inside : ∀ ev ∈ (r.storeAndLoad sect entry password fallback).log, ev.Inside
  unsetInside : r sect entry = none → ∀ ev ∈ (r.getEncrypt sect entry fallback).log, ev.Inside

variable {r : Profile} {sect entry : String} {bytes password : List UInt8} {f : UInt8 → UInt8}
  {size i : ℕ}

/-- An entry that is written is read back. -/
@[simp] theorem set_self (r : Profile) (sect entry : String) (v : ProfileValue) :
    r.set sect entry v sect entry = some v := if_pos ⟨rfl, rfl⟩

/-- The other entries stay as they are. -/
theorem set_of_ne {s e : String} {v : ProfileValue} (h : s ≠ sect ∨ e ≠ entry) :
    r.set sect entry v s e = r s e :=
  if_neg fun heq => h.elim (absurd heq.1) (absurd heq.2)

/-- The loop changes every byte and touches no others. -/
theorem mapLoop_eq (f : UInt8 → UInt8) (size : ℕ) (bytes : List UInt8) (i : ℕ) :
    mapLoop f size bytes i =
      ⟨(List.range bytes.length).map fun j => .index (i + j) size, .ok (bytes.map f)⟩ := by
  induction bytes generalizing i with
  | nil => rfl
  | cons b bytes ih =>
    have hrest : (List.range bytes.length).map (fun j => ProfileEvent.index (i + 1 + j) size) =
        (List.range bytes.length).map fun j => .index (i + (j + 1)) size :=
      List.map_congr_left fun j _ => by rw [Nat.add_assoc, Nat.add_comm 1 j]
    rw [mapLoop, ih, hrest, List.length_cons, List.range_succ_eq_map, List.map_cons, List.map_map]
    exact congrArg (fun log => (⟨.index i size :: log, .ok (f b :: bytes.map f)⟩ : ProfileCall _))
      (List.append_nil _)

/-- The loop over the bytes gives each of them mapped, whatever it logs. -/
theorem mapLoop_result (f : UInt8 → UInt8) (size : ℕ) (bytes : List UInt8) (i : ℕ) :
    (mapLoop f size bytes i).result = .ok (bytes.map f) := by rw [mapLoop_eq]

/-- The loop indexes the buffer once for each byte, in order. -/
theorem mem_mapLoop_log {ev : ProfileEvent} :
    ev ∈ (mapLoop f size bytes i).log ↔ ∃ j < bytes.length, ev = .index (i + j) size := by
  rw [mapLoop_eq]
  simp [eq_comm]

/-- What `WriteProfileEncrypt` stores. -/
theorem writeEncrypt_result (r : Profile) (sect entry : String) (value : List UInt8) :
    (r.writeEncrypt sect entry value).result = .ok (r.set sect entry
      (.binary ((value.take (min encryptSize (cstring value).length)).map (· + 128)))) := by
  rw [writeEncrypt, Exec.result_bind_of_ok rfl, Exec.result_bind_of_ok (mapLoop_result ..)]
  rfl

/-- What it stores of a text without zeros. -/
theorem writeEncrypt_text (h : 0 ∉ password) :
    (r.writeEncrypt sect entry password).result =
      .ok (r.set sect entry (.binary ((password.take encryptSize).map (· + 128)))) := by
  have htake : password.take (min encryptSize password.length) = password.take encryptSize := by
    rw [← List.take_take, List.take_length]
  rw [writeEncrypt_result, cstring_of_notMem h, htake]

/-- What `WriteProfileEncrypt` does to its buffer and to the registry. -/
theorem mem_writeEncrypt_log {value : List UInt8} {ev : ProfileEvent}
    (hev : ev ∈ (r.writeEncrypt sect entry value).log) :
    (∃ n ≤ encryptSize, ev = .block n encryptSize) ∨
      (∃ i < encryptSize, ev = .index i encryptSize) ∨ ∃ v, ev = .stored sect entry v := by
  rw [writeEncrypt, Exec.log_bind_of_ok rfl, Exec.log_bind_of_ok (mapLoop_result ..),
    List.mem_append, List.mem_append, mem_mapLoop_log] at hev
  rcases hev with hblock | ⟨j, hj, rfl⟩ | hstored
  · exact Or.inl ⟨_, Nat.min_le_left .., List.mem_singleton.mp hblock⟩
  · rw [List.length_take] at hj
    exact Or.inr (Or.inl ⟨0 + j, by omega, rfl⟩)
  · exact Or.inr (Or.inr ⟨_, List.mem_singleton.mp hstored⟩)

/-- `WriteProfileEncrypt` stays within its buffer. -/
theorem writeEncrypt_inside {value : List UInt8} {ev : ProfileEvent}
    (hev : ev ∈ (r.writeEncrypt sect entry value).log) : ev.Inside := by
  rcases mem_writeEncrypt_log hev with ⟨n, hn, rfl⟩ | ⟨i, hi, rfl⟩ | ⟨v, rfl⟩
  · exact hn
  · exact hi
  · trivial

/-- A stored block is shifted back up to its first zero, and a zero is written behind its end. -/
theorem getEncrypt_of_stored {fallback : List UInt8} (h : r.getBinary sect entry = some bytes) :
    r.getEncrypt sect entry fallback =
      ⟨(List.range (bytes.length + 1)).map fun i => .index i bytes.length,
        .ok (cstring (bytes.map (· - 128)))⟩ := by
  simp only [getEncrypt, h]
  rw [mapLoop_eq, Exec.mk_ok_bind, List.range_succ, List.map_append, cstring_append_zero]
  simp only [Nat.zero_add]
  rfl

/-- A block that was just stored. -/
theorem getBinary_set : (r.set sect entry (.binary bytes)).getBinary sect entry = some bytes := by
  rw [getBinary, set_self]

/-- The text in a block that was just stored. -/
theorem getEncrypt_set (fallback : List UInt8) :
    (r.set sect entry (.binary bytes)).getEncrypt sect entry fallback =
      ⟨(List.range (bytes.length + 1)).map fun i => .index i bytes.length,
        .ok (cstring (bytes.map (· - 128)))⟩ :=
  getEncrypt_of_stored getBinary_set

/-- Shifting back what was shifted. -/
private theorem map_shift (bytes : List UInt8) : (bytes.map (· + 128)).map (· - 128) = bytes := by
  rw [List.map_map]
  exact List.map_id'' (fun b => UInt8.add_sub_cancel b 128) bytes

/-- What is loaded is the beginning of what was stored. -/
theorem storeAndLoad_result {fallback : List UInt8} (h : 0 ∉ password) :
    (r.storeAndLoad sect entry password fallback).result = .ok (password.take encryptSize) := by
  rw [storeAndLoad, Exec.result_bind_of_ok (writeEncrypt_text h), getEncrypt_set, map_shift,
    cstring_of_notMem fun hmem => h (List.mem_of_mem_take hmem)]

/-- Loading what was stored writes a zero behind the end of the block. -/
private theorem storeAndLoad_behind {fallback : List UInt8} (h : 0 ∉ password) :
    .index (password.take encryptSize).length (password.take encryptSize).length ∈
      (r.storeAndLoad sect entry password fallback).log := by
  rw [storeAndLoad, Exec.log_bind_of_ok (writeEncrypt_text h), getEncrypt_set, List.length_map]
  exact List.mem_append_right _ (List.mem_map_of_mem (List.mem_range.mpr (Nat.lt_succ_self _)))

/-- Nothing was ever stored: the terminating zero goes to the null pointer. -/
theorem getEncrypt_of_unset {fallback : List UInt8} (h : r sect entry = none) :
    r.getEncrypt sect entry fallback = ⟨[.index 0 0], .error .nullPointer⟩ := by
  simp only [getEncrypt, getBinary, h]
  rfl

/-- The beginning is the whole when it fits in the buffer. -/
theorem storeAndLoad_roundTrip_iff {fallback : List UInt8} (h : 0 ∉ password) :
    (r.storeAndLoad sect entry password fallback).result = .ok password ↔
      password.length ≤ encryptSize := by
  rw [storeAndLoad_result h, ← List.take_eq_self_iff]
  constructor
  · intro heq
    injection heq
  · intro heq
    rw [heq]

/-- A stored password is not kept as it should be, whatever it is: the function that loads it writes
behind the end of its block. The function that stores it stays in its buffer, what comes back is the
password when it has no more than 512 bytes, and where nothing was stored there is no default. -/
theorem not_keepsPassword (r : Profile) (sect entry : String) (password fallback : List UInt8)
    (h : 0 ∉ password) :
    ¬KeepsPassword r sect entry password fallback ∧
      ((r.storeAndLoad sect entry password fallback).result = .ok password ↔
        password.length ≤ encryptSize) ∧
      (∀ ev ∈ (r.writeEncrypt sect entry password).log, ev.Inside) ∧
      (r sect entry = none →
        (r.getEncrypt sect entry fallback).result = .error .nullPointer) := by
  refine ⟨fun hkeeps => ?_, storeAndLoad_roundTrip_iff h, fun _ => writeEncrypt_inside,
    fun hunset => by rw [getEncrypt_of_unset hunset]⟩
  exact Nat.lt_irrefl _ (hkeeps.inside _ (storeAndLoad_behind h))

/-- No settings at all. -/
def empty : Profile := fun _ _ => none

/-- The password `a`. -/
theorem not_keepsPassword_a :
    ¬KeepsPassword empty "Main" "Password" [97] [] ∧
      ((empty.storeAndLoad "Main" "Password" [97] []).result = .ok [97] ↔
        [(97 : UInt8)].length ≤ encryptSize) ∧
      (∀ ev ∈ (empty.writeEncrypt "Main" "Password" [97]).log, ev.Inside) ∧
      (empty "Main" "Password" = none →
        (empty.getEncrypt "Main" "Password" []).result = .error .nullPointer) :=
  not_keepsPassword empty "Main" "Password" [97] [] (by decide)

/-- A password of one byte is not kept: the zero goes to index one of a block of one byte. -/
theorem keepsPassword_fails_short :
    ¬∀ (r : Profile) (sect entry : String) (password fallback : List UInt8), 0 ∉ password →
      KeepsPassword r sect entry password fallback := by
  intro hall
  have hkeeps := hall empty "Main" "Password" [97] [] (by decide)
  have hinside := hkeeps.inside (.index 1 1) (by decide)
  exact absurd hinside (by simp [ProfileEvent.Inside])

end Profile

end Dot1x.Client
