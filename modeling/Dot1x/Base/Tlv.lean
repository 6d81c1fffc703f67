import Dot1x.Base.Memory

/-!
# Records of a type, a length and a value

A record is stored as a byte for its type, a byte for the length of the whole record and the bytes
of its value. Records follow one another, so the bytes between two offsets determine whether records
are stored there and which ones.
-/

namespace Dot1x.Base

/-- A type and a value. -/
structure Tlv where
  type : UInt8
  value : List UInt8
  deriving DecidableEq

namespace Tlv

variable {m m' : Mem} {s e f n : ℕ} {a : Tlv} {as bs : List Tlv}

/-- The length of the record, with its type and its length. -/
def length (a : Tlv) : ℕ := a.value.length + 2

/-- The stored form. -/
def bytes (a : Tlv) : List UInt8 := a.type :: UInt8.ofNat a.length :: a.value

/-- An attribute takes as many bytes as its length byte says. -/
@[simp] theorem bytes_length (a : Tlv) : a.bytes.length = a.length := rfl

/-- The stored form of consecutive records. -/
def bytesAll (as : List Tlv) : List UInt8 := as.flatMap bytes

/-- The bytes of a list of attributes are those of its parts. -/
@[simp] theorem bytesAll_append : bytesAll (as ++ bs) = bytesAll as ++ bytesAll bs :=
  List.flatMap_append

/-- The record at an offset. -/
def read (m : Mem) (s : ℕ) : Tlv := ⟨m s, slice m (s + 2) ((m (s + 1)).toNat - 2)⟩

/-- Records are stored from `s` on, up to `e`. -/
inductive Stored (m : Mem) : ℕ → List Tlv → ℕ → Prop
  | nil (s : ℕ) : Stored m s [] s
  | cons {s e : ℕ} {as : List Tlv} (hlong : 2 ≤ (m (s + 1)).toNat)
      (hrest : Stored m (s + (m (s + 1)).toNat) as e) : Stored m s (read m s :: as) e

/-- An attribute that is read from memory is as long as its length byte says. -/
theorem length_read (h : 2 ≤ (m (s + 1)).toNat) : (read m s).length = (m (s + 1)).toNat := by
  rw [length, read, slice_length]
  omega

/-- An attribute that is read from memory has the bytes that are there. -/
theorem bytes_read (h : 2 ≤ (m (s + 1)).toNat) :
    (read m s).bytes = slice m s (m (s + 1)).toNat := by
  obtain ⟨k, hk⟩ := Nat.exists_eq_add_of_le' h
  rw [bytes, length_read h, UInt8.ofNat_toNat, hk, slice_succ, slice_succ, read, hk]
  rfl

/-- The record that was stored is read. -/
theorem read_eq (h : slice m s a.length = a.bytes) (hfits : a.length ≤ 255) :
    read m s = a ∧ (m (s + 1)).toNat = a.length := by
  rw [length, slice_succ, slice_succ, bytes, List.cons.injEq, List.cons.injEq] at h
  obtain ⟨htype, hlength, hvalue⟩ := h
  have hn : (m (s + 1)).toNat = a.length := by
    rw [hlength, UInt8.toNat_ofNat', Nat.mod_eq_of_lt (by omega)]
  refine ⟨?_, hn⟩
  rw [read, htype, hn, length, Nat.add_sub_cancel]
  exact congrArg (Tlv.mk a.type) hvalue

namespace Stored

/-- The records take the space between the offsets. -/
theorem end_eq (h : Stored m s as e) : e = s + (bytesAll as).length := by
  induction h with
  | nil => rfl
  | cons hlong _ ih =>
    rw [bytesAll, List.flatMap_cons, List.length_append, bytes_length, length_read hlong, ih,
      bytesAll]
    omega

/-- Attributes are stored upwards. -/
theorem le (h : Stored m s as e) : s ≤ e := by
  rw [h.end_eq]
  omega

/-- The length of an attribute is a byte. -/
theorem length_le (h : Stored m s as e) : (bytesAll as).length ≤ 255 * as.length := by
  induction h with
  | nil => exact Nat.zero_le _
  | @cons s e as hlong hrest ih =>
    have hbyte : (m (s + 1)).toNat < 256 := (m (s + 1)).toNat_lt
    have hcons : (bytesAll (read m s :: as)).length = (m (s + 1)).toNat + (bytesAll as).length := by
      rw [bytesAll, List.flatMap_cons, List.length_append, bytes_read hlong, slice_length]
      rfl
    rw [hcons, List.length_cons]
    omega

/-- The bytes between the offsets are those of the records. -/
theorem slice_eq (h : Stored m s as e) : slice m s (e - s) = bytesAll as := by
  induction h with
  | nil =>
    rw [Nat.sub_self]
    rfl
  | @cons s e as hlong hrest ih =>
    have hle := hrest.le
    have hsplit : e - s = (m (s + 1)).toNat + (e - (s + (m (s + 1)).toNat)) := by omega
    rw [hsplit, ← slice_append, ih, ← bytes_read hlong]
    rfl

/-- A record, and those after it. -/
theorem cons_of_slice (hbytes : slice m s a.length = a.bytes) (hfits : a.length ≤ 255)
    (hrest : Stored m (s + a.length) as e) : Stored m s (a :: as) e := by
  obtain ⟨hread, hlength⟩ := read_eq hbytes hfits
  have hlong : 2 ≤ (m (s + 1)).toNat := by
    rw [hlength]
    exact Nat.le_add_left 2 _
  rw [← hread]
  exact .cons hlong (by rwa [hlength])

/-- One record. -/
theorem single (hbytes : slice m s a.length = a.bytes) (hfits : a.length ≤ 255) :
    Stored m s [a] (s + a.length) :=
  cons_of_slice hbytes hfits (.nil _)

/-- Records that follow one another. -/
theorem append (h : Stored m s as e) (h' : Stored m e bs f) : Stored m s (as ++ bs) f := by
  induction h with
  | nil => exact h'
  | cons hlong _ ih => exact .cons hlong (ih h')

/-- Records before a point and from there on. -/
theorem append_iff : Stored m s (as ++ bs) f ↔ ∃ e, Stored m s as e ∧ Stored m e bs f := by
  constructor
  · intro h
    induction as generalizing s with
    | nil => exact ⟨s, .nil s, h⟩
    | cons a as ih =>
      cases h with
      | cons hlong hrest =>
        obtain ⟨e, hfirst, hsecond⟩ := ih hrest
        exact ⟨e, .cons hlong hfirst, hsecond⟩
  · rintro ⟨e, h, h'⟩
    exact h.append h'

/-- Only the bytes between the offsets matter. -/
theorem congr (h : Stored m s as e) (hsame : ∀ i, s ≤ i → i < e → m' i = m i) :
    Stored m' s as e := by
  induction h with
  | nil => exact .nil _
  | @cons s e as hlong hrest ih =>
    have hle := hrest.le
    have hlength : m' (s + 1) = m (s + 1) := hsame (s + 1) (by omega) (by omega)
    have hread : read m' s = read m s := by
      rw [read, read, hlength, hsame s (by omega) (by omega)]
      exact congrArg _ (slice_congr fun i _ _ => hsame i (by omega) (by omega))
    rw [← hread]
    refine .cons (by rwa [hlength]) ?_
    rw [hlength]
    exact ih fun i hi hi' => hsame i (by omega) hi'

/-- The same bytes at another place hold the same records. -/
theorem shift (h : Stored m s as e) {k : ℕ} (hsame : ∀ i, i < e - s → m' (k + i) = m (s + i)) :
    Stored m' k as (k + (e - s)) := by
  induction h generalizing k with
  | nil =>
    rw [Nat.sub_self]
    exact .nil _
  | @cons s e as hlong hrest ih =>
    have hle := hrest.le
    have hlength : m' (k + 1) = m (s + 1) := hsame 1 (by omega)
    have hread : read m' k = read m s := by
      have htype : m' k = m s := hsame 0 (by omega)
      rw [read, read, hlength, htype]
      refine congrArg _ (List.map_congr_left fun i hi => ?_)
      have hi' := List.mem_range.mp hi
      have hbyte := hsame (2 + i) (by omega)
      rwa [← Nat.add_assoc, ← Nat.add_assoc] at hbyte
    have hrest' := @ih (k + (m (s + 1)).toNat) fun i hi => by
      have hbyte := hsame ((m (s + 1)).toNat + i) (by omega)
      rwa [← Nat.add_assoc, ← Nat.add_assoc] at hbyte
    rw [← hread]
    refine .cons (by rwa [hlength]) ?_
    have hend : k + (e - s) = k + (m (s + 1)).toNat + (e - (s + (m (s + 1)).toNat)) := by omega
    rw [hlength, hend]
    exact hrest'

/-- The bytes determine the records. -/
theorem unique (h : Stored m s as e) (h' : Stored m s bs e) : as = bs := by
  induction h generalizing bs with
  | nil s =>
    generalize hs : s = e at h'
    cases h' with
    | nil => rfl
    | cons hlong hrest =>
      have hle := hrest.le
      omega
  | @cons s e as hlong hrest ih =>
    have hle := hrest.le
    cases h' with
    | nil => omega
    | cons _ hrest' => rw [ih hrest']

end Stored

end Tlv

end Dot1x.Base
