import Dot1x.Eap.Framing
import Dot1x.Eap.Handlers

/-!
# The responses of the EAP-TLS handler

What the handler returns for a packet, how it stands afterwards and what it writes depends on the
handler, the packet and the engine. The output packet is only written to: an acknowledgement, a part
of a message, or nothing at all.
-/

namespace Dot1x.Eap

open Dot1x.Base Dot1x.Wire

namespace TypeTls

/-- What the handler writes into the output packet. -/
inductive Reaction
  | nothing
  | ack
  /-- A part of a message, with the length of the message if that is the first part. -/
  | part (declared : Option ℕ) (more : Bool) (payload : List UInt8)

namespace Reaction

/-- What `frame_next` copies. -/
def payload : Reaction → List UInt8
  | .part _ _ payload => payload
  | _ => []

/-- The stores, in their order. -/
def stores : Reaction → List (ℕ × List UInt8)
  | .nothing => []
  | .ack => [(5, [0]), (2, [0, 1])]
  | .part declared more payload => partStores declared more payload

/-- Write into an output packet. -/
def apply (ρ : Reaction) (output : TlsPacket) : TlsPacket := output.storeAll ρ.stores

/-- No reaction leaves the packet as it is. -/
theorem apply_nothing (output : TlsPacket) : nothing.apply output = output := rfl

/-- An acknowledgement is written as `make_ack` does. -/
theorem apply_ack (output : TlsPacket) : ack.apply output = makeAck output := by
  change _ = EapPacket.setLen (output.setTlsFlags 0) 1
  rw [EapPacket.setLen_eq, TlsPacket.setTlsFlags_eq]
  rfl

/-- A part is written as `frame_next` does. -/
theorem apply_part (output : TlsPacket) (declared : Option ℕ) (more : Bool) (payload : List UInt8) :
    (part declared more payload).apply output = framed output declared more payload := rfl

end Reaction

/-- What is returned besides the output packet, and what is written into that. -/
abbrev Answer := Ret × TypeTls × Reaction

/-- The answer that sends the engine's output; there is none where the loop of `frame_next` runs
away. -/
def replying (t : TypeTls) (out : List UInt8) : Option Answer :=
  if out = [] then some (.cont, t, .nothing)
  else if nextPart t.fragmentSize out 0 = [] then none
  else some (.cont,
    { t with
      state :=
        if moreAfter t.fragmentSize out 0 then
          .fragSend out (nextPart t.fragmentSize out 0).length
        else t.state },
    .part (some out.length) (moreAfter t.fragmentSize out 0) (nextPart t.fragmentSize out 0))

/-- The answer to what a packet amounted to. -/
def outcome (E : Engine) (t : TypeTls) : Intake → Option Answer
  | .reject => some (.inv, t, .nothing)
  | .ack t' => some (.cont, t', .ack)
  | .resume msg cur =>
    if nextPart t.fragmentSize msg cur = [] then none
    else some (.cont,
      { t with
        state :=
          if moreAfter t.fragmentSize msg cur then
            .fragSend msg (cur + (nextPart t.fragmentSize msg cur).length)
          else .recv },
      .part none (moreAfter t.fragmentSize msg cur) (nextPart t.fragmentSize msg cur))
  | .ask t' =>
    match E.processMsg t'.calls with
    | none => none
    | some ⟨.success, _⟩ => some (.cont, { t' with state := .start }, .ack)
    | some ⟨.failed, out⟩ =>
      if t'.failedOnce then some (.abort, t', .nothing)
      else replying { t' with failedOnce := true, state := .recv } out
    | some ⟨.moreData, out⟩ => replying { t' with state := .recv } out

/-- The answer to a packet. -/
def answer (E : Engine) (t : TypeTls) (heap : Heap) (input : EapPacket) : Option Answer :=
  (t.intake E heap input).result.toOption.bind (t.outcome E)

variable {E : Engine} {t t' : TypeTls} {heap : Heap} {input output o : EapPacket} {x : Intake}
  {out : List UInt8} {rc : Ret} {ρ : Reaction}

/-- Sending output is the answer with it, written into the packet. -/
theorem sendOutput_eq_replying {r : Ret × TypeTls × EapPacket} :
    (t.sendOutput out output).result = .ok r ↔
      ∃ a, t.replying out = some a ∧ r = (a.1, a.2.1, a.2.2.apply output) := by
  rw [sendOutput_eq_ok, replying]
  by_cases hout : out = []
  · have hpart : nextPart t.fragmentSize out 0 = [] := nextPart_eq_nil.mpr (Or.inr (by simp [hout]))
    subst hout
    simp [hpart, Reaction.apply_nothing]
  · by_cases hpart : nextPart t.fragmentSize out 0 = []
    · simp [hout, hpart]
    · simp [hout, hpart, Reaction.apply_part]

/-- The rest of `process` is the answer, written into the packet. -/
theorem finish_eq_outcome {r : Ret × TypeTls × EapPacket} :
    (t.finish E output x).result = .ok r ↔
      ∃ a, t.outcome E x = some a ∧ r = (a.1, a.2.1, a.2.2.apply output) := by
  cases x with
  | reject => simp [finish, outcome, Reaction.apply_nothing, eq_comm]
  | ack t₁ => simp [finish, outcome, Reaction.apply_ack, eq_comm]
  | resume msg cur =>
    rw [finish, resume_eq_ok, outcome]
    by_cases hpart : nextPart t.fragmentSize msg cur = []
    · simp [hpart]
    · simp [hpart, Reaction.apply_part]
  | ask t₁ =>
    simp only [finish, outcome]
    generalize E.processMsg t₁.calls = reply
    cases reply with
    | none => simp [engineReplied]
    | some reply =>
      obtain ⟨rc, out⟩ := reply
      cases rc with
      | success => simp [engineReplied, Reaction.apply_ack, eq_comm]
      | failed =>
        simp only [engineReplied]
        split
        · simp [Reaction.apply_nothing, eq_comm]
        · exact sendOutput_eq_replying
      | moreData => exact sendOutput_eq_replying

/-- A packet is answered with what is written into the output packet. -/
theorem process_eq_answer {r : Ret × TypeTls × EapPacket} :
    (t.process E heap input output).result = .ok r ↔
      ∃ a, t.answer E heap input = some a ∧ r = (a.1, a.2.1, a.2.2.apply output) := by
  rw [process_eq_ok]
  simp only [finish_eq_outcome, answer, Option.bind_eq_some_iff]
  constructor
  · rintro ⟨x, hx, a, ha, hr⟩
    exact ⟨a, ⟨x, by rw [hx]; rfl, ha⟩, hr⟩
  · rintro ⟨a, ⟨x, hx, ha⟩, hr⟩
    exact ⟨x, Exec.result_of_toOption hx, a, ha, hr⟩

/-- Output that fits into one packet is sent at once. -/
theorem replying_of_le (hout : out ≠ []) (hfit : out.length ≤ t.fragmentSize) :
    t.replying out = some (.cont, t, .part (some out.length) false out) := by
  obtain ⟨hall, hmore⟩ := due_of_le (Nat.zero_le _) hfit
  rw [List.drop_zero] at hall
  rw [replying, if_neg hout, hall, hmore, if_neg hout, if_neg Bool.false_ne_true]

/-- No more is sent than the fragment size. -/
theorem replying_payload_le {a : Answer} (h : t.replying out = some a) :
    a.2.2.payload.length ≤ t.fragmentSize := by
  unfold replying at h
  split at h
  · cases h
    exact Nat.zero_le _
  · split at h
    · cases h
    · cases h
      exact List.length_take_le ..

/-- No packet carries more than the fragment size. -/
theorem payload_le {a : Answer} (h : t.answer E heap input = some a) :
    a.2.2.payload.length ≤ t.fragmentSize := by
  obtain ⟨x, hx, houtcome⟩ := Option.bind_eq_some_iff.mp h
  cases x with
  | reject | ack =>
    cases houtcome
    exact Nat.zero_le _
  | resume msg cur =>
    simp only [outcome] at houtcome
    split at houtcome
    · cases houtcome
    · cases houtcome
      exact List.length_take_le ..
  | ask t₁ =>
    have hsize := fragmentSize_of_ask (Exec.result_of_toOption hx)
    simp only [outcome] at houtcome
    split at houtcome
    · cases houtcome
    · cases houtcome
      exact Nat.zero_le _
    · split at houtcome
      · cases houtcome
        exact Nat.zero_le _
      · exact Nat.le_trans (replying_payload_le houtcome) (Nat.le_of_eq hsize)
    · exact Nat.le_trans (replying_payload_le houtcome) (Nat.le_of_eq hsize)

end TypeTls

namespace EapState

/-- A request is for an EAP-TLS handler, which is run in this state. -/
def ReachesTls (V : Vtable Handler) (e : EapState Handler) (input : EapPacket) (t : TypeTls) : Prop :=
  ∃ i w, search V input e.handlers = some (i, w) ∧
    (e.claim V i w input.type).handlers[i]? = some (.tls t)

variable {digest : Digest} {E : Engine} {e e' : EapState Handler} {heap : Heap}
  {input output o : EapPacket} {t : TypeTls}

/-- The response to a request for EAP-TLS. -/
theorem ReachesTls.response (h : e.ReachesTls (Handler.vtable digest E) input t)
    (hres : (process (Handler.vtable digest E) e heap input output).result = .ok (.cont, e', o)) :
    ∃ t' ρ, t.answer E heap input = some (.cont, t', ρ) ∧
      o = (e.straightReturn input (EapPacket.setType (ρ.apply output) input.type)).2 := by
  obtain ⟨i, w, hsearch, hget⟩ := h
  cases (process_cont.mp hres).2 with
  | nak hsearch' => cases hsearch.symm.trans hsearch'
  | handler hsearch' hget' hprocess hdone =>
    cases hsearch.symm.trans hsearch'
    cases hget.symm.trans hget'
    obtain ⟨⟨rc, t', o'⟩, hrun, hr⟩ := Exec.result_bind_eq_ok.mp hprocess
    cases hr
    obtain ⟨⟨_, _, ρ⟩, hanswer, ha⟩ := TypeTls.process_eq_answer.mp hrun
    cases ha
    exact ⟨_, ρ, hanswer, congrArg Prod.snd hdone⟩

end EapState

end Dot1x.Eap
