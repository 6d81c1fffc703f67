import Dot1x.Eap.Process

/-!
# The identity and notification handlers

Neither handler keeps anything between two packets. The identity handler answers with the user
name it was built with; the notification handler shows the text of the request, up to its first
null byte, and answers with no type data at all. The text is copied to a block of its own
size plus one, and both that sum and the length itself are formed without a check.
-/

namespace Dot1x.Eap

open Dot1x.Base Dot1x.Wire

/-- The data members of `type_identity`. -/
structure TypeIdentity where
  id : List UInt8

namespace TypeIdentity

/-- The constructor: the block has room for a terminating null byte. -/
def new (heap : Heap) (id : Block) : Call TypeIdentity := do
  let _ ← alloc heap (id.bytes.length + 1)
  pure ⟨id.bytes⟩

def wantThis (input : EapPacket) : Want := if input.type = identity then .iWillAuth else .notMe

def process (t : TypeIdentity) (output : EapPacket) : Call (Ret × EapPacket) :=
  pure (.cont, EapPacket.setLen (EapPacket.storeData output 0 t.id) t.id.length)

end TypeIdentity

namespace TypeNotification

def wantThis (input : EapPacket) : Want := if input.type = notification then .iWill else .notMe

/-- The text of the block as a C string. -/
def text (msg : Mem) (len : ℕ) : List UInt8 := (slice msg 0 len).takeWhile (· ≠ 0)

def process (heap : Heap) (input output : EapPacket) : Call (Ret × EapPacket) := do
  let len ← subSize input.len EapPacket.headerLen
  if len ≠ 0 then do
    let msg ← alloc heap (toSize (len + 1))
    let msg ← memcpyIn msg (toSize (len + 1)) 0 input.mem input.eapData len
    Exec.tell (.notice (text msg len))
    pure (.cont, EapPacket.setLen output 0)
  else pure (.cont, EapPacket.setLen output 0)

/-- Whatever the text, the answer is the empty one. -/
theorem process_result_eq_ok {heap : Heap} {input output o : EapPacket} {rc : Ret}
    (h : (process heap input output).result = .ok (rc, o)) :
    rc = .cont ∧ o = EapPacket.setLen output 0 := by
  obtain ⟨len, -, h⟩ := Exec.result_bind_eq_ok.mp h
  split at h
  · simp only [Exec.result_bind_eq_ok] at h
    obtain ⟨_, -, _, -, _, -, h⟩ := h
    simp only [Exec.result_pure, Except.ok.injEq, Prod.mk.injEq] at h
    exact ⟨h.1.symm, h.2.symm⟩
  · simp only [Exec.result_pure, Except.ok.injEq, Prod.mk.injEq] at h
    exact ⟨h.1.symm, h.2.symm⟩

end TypeNotification

end Dot1x.Eap
