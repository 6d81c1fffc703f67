import Dot1x.Eap.Dispatch
import Dot1x.Eap.TypeIdentity
import Dot1x.Eap.TypeMd5
import Dot1x.Eap.TypeTls
import Mathlib.Data.Set.Defs

/-!
# The installed handlers

The four handler classes behind the one table of methods. Both programs install a notification
and an identity handler first; the Windows program adds the MD5 handler, the daemon adds MD5 and
EAP-TLS on demand. As `add_handler` puts each in front, the list is in the opposite order.
-/

namespace Dot1x.Eap

open Dot1x.Base Dot1x.Wire

/-- An object of one of the handler classes. -/
inductive Handler
  | notification
  | identity (t : TypeIdentity)
  | md5 (t : TypeMd5)
  | tls (t : TypeTls)

namespace Handler

def wantThis : Handler → EapPacket → Want
  | .notification => TypeNotification.wantThis
  | .identity _ => TypeIdentity.wantThis
  | .md5 _ => TypeMd5.wantThis
  | .tls _ => TypeTls.wantThis

def process (digest : Digest) (E : Engine) (h : Handler) (heap : Heap) (input output : EapPacket) :
    Call (Ret × Handler × EapPacket) :=
  match h with
  | .notification => do
    let r ← TypeNotification.process heap input output
    pure (r.1, .notification, r.2)
  | .identity t => do
    let r ← t.process output
    pure (r.1, .identity t, r.2)
  | .md5 t => do
    let r ← t.process digest heap input output
    pure (r.1, .md5 r.2.1, r.2.2)
  | .tls t => do
    let r ← t.process E heap input output
    pure (r.1, .tls r.2.1, r.2.2)

/-- The default of the base class offers nothing. -/
def nakIt : Handler → EapPacket → Option EapPacket
  | .md5 _, output => some (TypeMd5.nakIt output)
  | .tls _, output => some (TypeTls.nakIt output)
  | _, _ => none

/-- The default of the base class does nothing. -/
def abort : Handler → Handler
  | .tls t => .tls t.abort
  | h => h

/-- The table of methods. -/
def vtable (digest : Digest) (E : Engine) : Vtable Handler := ⟨wantThis, process digest E, nakIt, abort⟩

/-- The type of the requests a handler wants. -/
def wantedType : Handler → ℕ
  | .notification => Eap.notification
  | .identity _ => Eap.identity
  | .md5 _ => Eap.md5
  | .tls _ => TlsPacket.eapType

/-- A handler wants the requests of its type. -/
theorem wantThis_eq_notMe {h : Handler} {input : EapPacket} :
    h.wantThis input = .notMe ↔ input.type ≠ h.wantedType := by
  cases h <;>
    simp only [wantThis, wantedType, TypeNotification.wantThis, TypeIdentity.wantThis,
      TypeMd5.wantThis, TypeTls.wantThis] <;> split <;> simp [*]

/-- Aborting a handler keeps the type it takes. -/
@[simp] theorem wantedType_abort (h : Handler) : h.abort.wantedType = h.wantedType := by
  cases h <;> rfl

/-- How many bytes of type data the answers of a handler have, where that does not depend on the
request. -/
def dataLen : Handler → Option ℕ
  | .notification => some 0
  | .identity t => some t.id.length
  | .md5 t => some (17 + t.idBuf.length)
  | .tls _ => none

/-- What distinguishes the handlers of a user from those of another. -/
def signature (h : Handler) : ℕ × Option ℕ := (h.wantedType, h.dataLen)

variable {digest : Digest} {E : Engine} {h h' : Handler} {heap : Heap}
  {input output o : EapPacket} {rc : Ret}

/-- Aborting a handler keeps its signature. -/
theorem signature_abort (h : Handler) : h.abort.signature = h.signature := by
  cases h <;> rfl

/-- What processing a packet returns, class by class. -/
theorem process_signature (h : Handler) {r : Ret × Handler × EapPacket}
    (hres : (h.process digest E heap input output).result = .ok r) :
    r.2.1.signature = h.signature := by
  cases h <;> obtain ⟨a, ha, hr⟩ := Exec.result_bind_eq_ok.mp hres <;> cases hr
  case md5 t =>
    obtain ⟨rc, t', o⟩ := a
    obtain ⟨g, -, -, -, rfl, -⟩ := TypeMd5.process_result_eq_ok.mp ha
    rfl
  all_goals rfl

/-- An answer has the length of the type data it carries, and stands where the output packet is. -/
theorem process_len {n : ℕ} (hn : h.dataLen = some n)
    (hres : (h.process digest E heap input output).result = .ok (rc, h', o)) :
    o.len = n % 2 ^ 16 ∧ o.data = output.data := by
  cases h with
  | notification =>
    cases hn
    obtain ⟨⟨rc', o'⟩, ha, hr⟩ := Exec.result_bind_eq_ok.mp hres
    obtain ⟨-, rfl⟩ := TypeNotification.process_result_eq_ok ha
    cases hr
    exact ⟨EapPacket.len_setLen _ _, rfl⟩
  | identity t =>
    cases hn
    cases hres
    exact ⟨EapPacket.len_setLen _ _, rfl⟩
  | md5 t =>
    cases hn
    obtain ⟨⟨rc', t', o'⟩, ha, hr⟩ := Exec.result_bind_eq_ok.mp hres
    obtain ⟨g, -, -, -, rfl, rfl⟩ := TypeMd5.process_result_eq_ok.mp ha
    cases hr
    exact ⟨TypeMd5.len_respond .., rfl⟩
  | tls t => cases hn

/-- The installed handlers write the length and the type data of the output only. -/
theorem process_sameHead {r : Ret × Handler × EapPacket}
    (hres : (h.process digest E heap input output).result = .ok r) : output.SameHead r.2.2 := by
  cases h with
  | notification =>
    obtain ⟨⟨rc, o⟩, ha, hr⟩ := Exec.result_bind_eq_ok.mp hres
    obtain ⟨-, rfl⟩ := TypeNotification.process_result_eq_ok ha
    cases hr
    exact .setLen _ _
  | identity t =>
    cases hres
    exact (EapPacket.SameHead.storeData _ _ _).trans (.setLen _ _)
  | md5 t =>
    obtain ⟨⟨rc, t', o⟩, ha, hr⟩ := Exec.result_bind_eq_ok.mp hres
    obtain ⟨g, -, -, -, rfl, rfl⟩ := TypeMd5.process_result_eq_ok.mp ha
    cases hr
    exact (((EapPacket.SameHead.storeData _ _ _).trans (.storeData _ _ _)).trans
      (.storeData _ _ _)).trans (.setLen _ _)
  | tls t =>
    obtain ⟨a, ha, hr⟩ := Exec.result_bind_eq_ok.mp hres
    cases hr
    exact TypeTls.sameHead_process ha

/-- A Nak keeps the head of the packet. -/
private theorem nakIt_sameHead (hnak : h.nakIt output = some o) : output.SameHead o := by
  cases h <;> cases hnak <;> exact (EapPacket.SameHead.storeData _ _ _).trans (.setLen _ _)

/-- The conduct the dispatcher relies on. -/
theorem disciplined (digest : Digest) (E : Engine) :
    (vtable digest E).Disciplined fun h => {h.wantedType} where
  wantThis_iff h input := wantThis_eq_notMe.not_left
  wants_process := by
    intro h heap input output r hres
    have htype : r.2.1.wantedType = h.wantedType := congrArg Prod.fst (process_signature h hres)
    rw [htype]
  wants_abort h := by
    change {h.abort.wantedType} = _
    rw [wantedType_abort]
  sameHead_process := process_sameHead
  sameHead_nakIt := nakIt_sameHead

/-- Handlers of different types exclude each other. -/
theorem exclusive_of_nodup {hs : List Handler} (hnodup : (hs.map wantedType).Nodup) :
    Exclusive (fun h : Handler => {h.wantedType}) hs where
  disjoint := by
    have hmap : hs.map (fun h : Handler => ({h.wantedType} : Set ℕ)) =
        (hs.map wantedType).map fun n => {n} := (List.map_map ..).symm
    rw [hmap, List.pairwise_map]
    refine hnodup.imp ?_
    intro a b hne n ha hb
    exact hne (ha.symm.trans hb)
  nonzero := by
    intro w hw
    obtain ⟨h, -, rfl⟩ := List.mem_map.mp hw
    have hpos : 0 ≠ h.wantedType := by
      cases h <;> exact Nat.zero_ne_add_one _
    exact hpos

/-- A Nak carries one byte of type data. -/
theorem nakIt_len (hnak : h.nakIt output = some o) : o.len = 1 ∧ o.data = output.data := by
  cases h <;> cases hnak <;> exact ⟨EapPacket.len_setLen _ _, rfl⟩

end Handler

/-- The handler that wins the search wants the type of the request. -/
theorem EapState.wantedType_of_search {digest : Digest} {E : Engine} {input : EapPacket}
    {hs : List Handler} {i : ℕ} {w : Want}
    (h : EapState.search (Handler.vtable digest E) input hs = some (i, w)) :
    ∃ hd, hs[i]? = some hd ∧ hd.wantedType = input.type := by
  obtain ⟨hd, hget, hwant, hne⟩ := EapState.search_eq_some h
  refine ⟨hd, hget, ?_⟩
  by_contra hother
  exact hne (hwant ▸ Handler.wantThis_eq_notMe.mpr (Ne.symm hother))

end Dot1x.Eap
