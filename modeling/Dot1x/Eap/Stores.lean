import Dot1x.Eap.Retransmission
import Dot1x.Eap.TlsResponse

/-!
# What the handlers write

Every handler writes its answer with a number of stores, whose places and bytes do not depend on the
output packet. The EAP layer finishes a response with three more: the type, the identifier and the
length, whose low byte it adds to.
-/

namespace Dot1x.Eap

open Dot1x.Base Dot1x.Wire

/-- A byte is stored. -/
def Covers (S : Stores) (j : ℕ) : Prop := ∃ s ∈ S, s.1 ≤ j ∧ j < s.1 + s.2.length

/-- What a handler writes when it returns. -/
inductive Handler.Writes (E : Engine) (heap : Heap) (input : EapPacket) :
    Handler → Ret → Stores → Prop
  | notification : Writes E heap input .notification .cont [lenStore 0]
  | identity (t : TypeIdentity) :
      Writes E heap input (.identity t) .cont [(5, t.id), lenStore t.id.length]
  | md5 (t : TypeMd5) (value : Vector UInt8 16) :
      Writes E heap input (.md5 t) .cont
        [(6, value.toList), (5, [16]), (22, t.idBuf), lenStore (17 + t.idBuf.length)]
  | tls {t : TypeTls} {a : TypeTls.Answer} (hanswer : t.answer E heap input = some a) :
      Writes E heap input (.tls t) a.1 a.2.2.stores

variable {digest : Digest} {E : Engine} {heap : Heap} {input output o : EapPacket}
  {hd hd' : Handler} {rc : Ret}

/-- The answer to a text that was shown. -/
theorem TypeNotification.process_output (h : (process heap input output).result = .ok (rc, o))
    (output' : EapPacket) :
    (process heap input output').result = .ok (.cont, EapPacket.setLen output' 0) := by
  obtain ⟨len, hlen, h⟩ := Exec.result_bind_eq_ok.mp h
  refine Exec.result_bind_eq_ok.mpr ⟨len, hlen, ?_⟩
  split at h
  · rename_i hne
    simp only [Exec.result_bind_eq_ok] at h
    obtain ⟨m, hm, m', hm', u, hu, -⟩ := h
    rw [if_pos hne]
    exact Exec.result_bind_eq_ok.mpr ⟨m, hm, Exec.result_bind_eq_ok.mpr
      ⟨m', hm', Exec.result_bind_eq_ok.mpr ⟨u, hu, rfl⟩⟩⟩
  · rename_i hzero
    rw [if_neg hzero]
    rfl

/-- Whatever the output packet, a handler writes the same. -/
theorem Handler.process_writes (h : (hd.process digest E heap input output).result = .ok (rc, hd', o)) :
    ∃ S, hd.Writes E heap input rc S ∧ ∀ output',
      (hd.process digest E heap input output').result = .ok (rc, hd', output'.storeAll S) := by
  cases hd with
  | notification =>
    obtain ⟨⟨rc', o'⟩, ha, hr⟩ := Exec.result_bind_eq_ok.mp h
    obtain ⟨rfl, rfl⟩ := TypeNotification.process_result_eq_ok ha
    cases hr
    refine ⟨_, .notification, fun output' => ?_⟩
    refine Exec.result_bind_eq_ok.mpr ⟨_, TypeNotification.process_output ha output', ?_⟩
    rw [EapPacket.setLen_eq]
    rfl
  | identity t =>
    cases h
    refine ⟨_, .identity t, fun output' => ?_⟩
    refine Exec.result_bind_eq_ok.mpr ⟨_, rfl, ?_⟩
    rw [EapPacket.setLen_eq, EapPacket.storeData_eq]
    rfl
  | md5 t =>
    obtain ⟨⟨rc', t', o'⟩, ha, hr⟩ := Exec.result_bind_eq_ok.mp h
    obtain ⟨g, hneed, hroom, rfl, rfl, rfl⟩ := TypeMd5.process_result_eq_ok.mp ha
    cases hr
    refine ⟨_, .md5 t (digest ((t.stored g input).chapBuf.hashed (TypeMd5.vsize input))),
      fun output' => ?_⟩
    refine Exec.result_bind_eq_ok.mpr
      ⟨_, TypeMd5.process_result_eq_ok.mpr ⟨g, hneed, hroom, rfl, rfl, rfl⟩, ?_⟩
    simp only [TypeMd5.respond, EapPacket.setLen_eq, EapPacket.storeData_eq]
    rfl
  | tls t =>
    obtain ⟨⟨rc', t', o'⟩, ha, hr⟩ := Exec.result_bind_eq_ok.mp h
    obtain ⟨a, hanswer, ha⟩ := TypeTls.process_eq_answer.mp ha
    cases ha
    cases hr
    refine ⟨_, .tls hanswer, fun output' => ?_⟩
    exact Exec.result_bind_eq_ok.mpr ⟨_, TypeTls.process_eq_answer.mpr ⟨a, hanswer, rfl⟩, rfl⟩

end Dot1x.Eap
