import Dot1x.Eap.TlsLength

/-!
# What becomes of the engine's output

In a session the engine is called again and again, and each time it may want bytes to be sent. What
was sent, what remains of the message that is being sent, and what was dropped make up all of the
output. Something is dropped in two places, where `process` returns before it looks at the output:
when the engine reports success, and when it fails for the second time. Both end the session.

What was sent is what the responses carry by their own lengths. That is the part of the output that
was due if the length was put together without a carry. Where the engine says nothing and the
session goes on, nothing is written, and the response carries what an earlier packet left behind.
-/

namespace Dot1x.Eap

open Dot1x.Base Dot1x.Wire

namespace TypeTls

/-- The output of the engine for the latest call. -/
def Engine.output (E : Engine) (calls : List EngineCall) : List UInt8 :=
  ((E.processMsg calls).map Reply.out).getD []

/-- The output of the engine in all calls since its last reset, newest call first. -/
def produced (E : Engine) : List EngineCall → List UInt8
  | [] => []
  | .processMsg msg :: calls => produced E calls ++ Engine.output E (.processMsg msg :: calls)
  | .resetSsl :: _ => []
  | .abort :: calls => produced E calls

/-- What remains of the message that is being sent. -/
def pending : TlsState → List UInt8
  | .fragSend msg cur => msg.drop cur
  | _ => []

/-- The payload of a packet as its receiver finds it. -/
def payloadIn (o : TlsPacket) : List UInt8 := slice o.mem o.tlsData (pduLen o)

/-- The response that is made of the output packet when the handler is done with it. -/
def response (input o : EapPacket) : EapPacket :=
  EapPacket.addLen (EapPacket.setId (EapPacket.setType o input.type) input.id) EapPacket.headerLen

/-- What is sent in answer to a packet: the payload of the response, if there is one. -/
def sentFor (rc : Ret) (input o : EapPacket) : List UInt8 :=
  if rc = .cont then payloadIn (response input o) else []

/-- A session has ended when the handler is back in its first state or gave up. -/
def Ended (rc : Ret) (t : TypeTls) : Prop := t.state = .start ∨ rc = .abort

/-- A session: a start packet that is accepted, then any packets until the session has ended. Listed
are the handler before each packet and the packet; `sent` is what was sent so far. -/
inductive Session (E : Engine) : List (TypeTls × Turn) → List UInt8 → Ret → TypeTls → Prop
  | start {t t' : TypeTls} {turn : Turn} {rc : Ret} {o : TlsPacket} (hstate : t.state = .start)
      (hstart : classifyPacket turn.input (pduLen turn.input) = .tlsStart)
      (hres : (t.process E turn.heap turn.input turn.output).result = .ok (rc, t', o)) :
      Session E [(t, turn)] (sentFor rc turn.input o) rc t'
  | next {t t' : TypeTls} {turn : Turn} {steps : List (TypeTls × Turn)} {sent : List UInt8}
      {rc rc' : Ret} {o : TlsPacket} (h : Session E steps sent rc t) (hgoing : ¬Ended rc t)
      (hres : (t.process E turn.heap turn.input turn.output).result = .ok (rc', t', o)) :
      Session E (steps ++ [(t, turn)]) (sent ++ sentFor rc' turn.input o) rc' t'

/-- The length of the part that is due in answer to what a packet amounted to. -/
def dueLen (E : Engine) (t : TypeTls) : Intake → ℕ
  | .reject | .ack _ => 0
  | .resume msg cur => chunkLen t.fragmentSize (msg.length - cur)
  | .ask t' =>
    match E.processMsg t'.calls with
    | none | some ⟨.success, _⟩ => 0
    | some ⟨.failed, out⟩ => if t'.failedOnce then 0 else chunkLen t'.fragmentSize out.length
    | some ⟨.moreData, out⟩ => chunkLen t'.fragmentSize out.length

/-- The length of the part that is due in answer to a packet fits its field. -/
def Short (E : Engine) (t : TypeTls) (heap : Heap) (input : EapPacket) : Prop :=
  ∀ x, (t.intake E heap input).result = .ok x → t.dueLen E x < 65535

/-- The response to a packet, if there is one, has the length of what is written for it. Where the
engine says nothing and nothing is written, the output packet has an empty payload already. -/
structure Whole (E : Engine) (t : TypeTls) (turn : Turn) : Prop where
  short : t.Short E turn.heap turn.input
  carryFree : t.CarryFree E turn.heap turn.input turn.output

/-- The engine has output in a reply that ends the session. -/
def DropsReply (E : Engine) (t : TypeTls) : Prop :=
  ∃ out, out ≠ [] ∧ (E.processMsg t.calls = some ⟨.success, out⟩ ∨
    E.processMsg t.calls = some ⟨.failed, out⟩ ∧ t.failedOnce)

/-- In this turn the engine is called and has output in a reply that ends the session. -/
def Drops (E : Engine) (t : TypeTls) (turn : Turn) : Prop :=
  ∃ t₀, (t.intake E turn.heap turn.input).result = .ok (.ask t₀) ∧ DropsReply E t₀

variable {E : Engine} {t t' t₀ : TypeTls} {turn : Turn} {steps : List (TypeTls × Turn)}
  {sent out : List UInt8} {rc : Ret} {ρ : Reaction} {a : Answer} {fragmentSize cur : ℕ}
  {msg : List UInt8}

/-- The part that is due and what is left behind it. -/
theorem nextPart_append_pending (fragmentSize : ℕ) (msg : List UInt8) (cur : ℕ) {s : TlsState}
    (hs : pending s = []) :
    nextPart fragmentSize msg cur ++ pending
      (if moreAfter fragmentSize msg cur then
        .fragSend msg (cur + (nextPart fragmentSize msg cur).length)
      else s) = msg.drop cur := by
  by_cases hlong : fragmentSize < msg.length - cur
  · obtain ⟨hlen, hmore⟩ := due_of_lt hlong
    rw [hmore, hlen, if_pos rfl, pending, ← List.drop_drop, nextPart, List.take_append_drop]
  · have hall : nextPart fragmentSize msg cur = msg.drop cur :=
      List.take_of_length_le (by rw [List.length_drop]; omega)
    rw [hall]
    split
    · rw [pending, ← List.drop_drop, List.drop_length, List.append_nil]
    · rw [hs, List.append_nil]

/-- What is sent of the output at once and what remains of it. -/
theorem replying_balance (h : t.replying out = some a) (hstate : t.state = .recv) :
    out = a.2.2.payload ++ pending a.2.1.state ∧ ¬Ended a.1 a.2.1 ∧ a.2.1.calls = t.calls := by
  unfold replying at h
  split at h
  · rename_i hout
    cases h
    exact ⟨by rw [hstate, hout]; rfl, by simp [Ended, hstate], rfl⟩
  · split at h
    · cases h
    · cases h
      have hsplit := nextPart_append_pending t.fragmentSize out 0 (s := t.state)
        (by rw [hstate]; rfl)
      rw [Nat.zero_add, List.drop_zero] at hsplit
      refine ⟨hsplit.symm, ?_, rfl⟩
      simp only [Ended, hstate]
      split <;> simp

/-- What becomes of the output of the engine for one call. -/
structure Balance (E : Engine) (t₀ : TypeTls) (a : Answer) (dropped : List UInt8) : Prop where
  calls : a.2.1.calls = t₀.calls
  total : Engine.output E t₀.calls = a.2.2.payload ++ (pending a.2.1.state ++ dropped)
  dropped_iff : dropped ≠ [] ↔ DropsReply E t₀
  ended : dropped ≠ [] → Ended a.1 a.2.1
  settled : Ended a.1 a.2.1 → pending a.2.1.state = []

/-- Whether a reply is one whose output is dropped. -/
private theorem dropsReply_iff {rc : EngineRet} (hreply : E.processMsg t.calls = some ⟨rc, out⟩) :
    DropsReply E t ↔ out ≠ [] ∧ (rc = .success ∨ rc = .failed ∧ t.failedOnce) := by
  simp only [DropsReply, hreply, Option.some.injEq, Reply.mk.injEq]
  constructor
  · rintro ⟨out', hne, ⟨rfl, rfl⟩ | ⟨⟨rfl, rfl⟩, hfailed⟩⟩
    · exact ⟨hne, Or.inl rfl⟩
    · exact ⟨hne, Or.inr ⟨rfl, hfailed⟩⟩
  · rintro ⟨hne, rfl | ⟨rfl, hfailed⟩⟩
    · exact ⟨out, hne, Or.inl ⟨rfl, rfl⟩⟩
    · exact ⟨out, hne, Or.inr ⟨⟨rfl, rfl⟩, hfailed⟩⟩

/-- What the engine returns is sent, kept or dropped. -/
theorem reply_balance (h : t.outcome E (.ask t₀) = some a) (hstate : pending t₀.state = []) :
    ∃ dropped, Balance E t₀ a dropped := by
  simp only [outcome] at h
  cases hreply : E.processMsg t₀.calls with
  | none => simp [hreply] at h
  | some reply =>
    obtain ⟨rc, out⟩ := reply
    have houtput : Engine.output E t₀.calls = out := by rw [Engine.output, hreply]; rfl
    have hdrops := dropsReply_iff hreply
    have hsent {t₁ : TypeTls} (h : t₁.replying out = some a) (hcalls : t₁.calls = t₀.calls)
        (hrecv : t₁.state = .recv) (hkept : ¬(rc = .success ∨ rc = .failed ∧ t₀.failedOnce)) :
        Balance E t₀ a [] := by
      obtain ⟨hout, hgoing, hsame⟩ := replying_balance h hrecv
      refine ⟨hsame.trans hcalls, ?_, ?_, ?_, fun hended => absurd hended hgoing⟩
      · rw [houtput, List.append_nil, ← hout]
      · exact iff_of_false (not_not.mpr rfl) fun hdropped => hkept (hdrops.mp hdropped).2
      · exact fun hne => absurd rfl hne
    rw [hreply] at h
    cases rc with
    | success =>
      cases h
      exact ⟨out, rfl, houtput, by simp [hdrops], fun _ => Or.inl rfl, fun _ => rfl⟩
    | failed =>
      dsimp only at h
      split at h
      · rename_i hfailed
        cases h
        refine ⟨out, rfl, ?_, by simp [hdrops, hfailed], fun _ => Or.inr rfl, fun _ => hstate⟩
        rw [houtput, hstate]
        rfl
      · rename_i hfailed
        exact ⟨[], hsent h rfl rfl (by simp [hfailed])⟩
    | moreData => exact ⟨[], hsent h rfl rfl (by simp)⟩

/-- What became of all output of a session so far. -/
structure Books (E : Engine) (steps : List (TypeTls × Turn)) (sent : List UInt8) (rc : Ret)
    (t : TypeTls) (dropped : List UInt8) : Prop where
  total : produced E t.calls = sent ++ (pending t.state ++ dropped)
  dropped_iff : dropped = [] ↔ ∀ step ∈ steps, ¬Drops E step.1 step.2
  ended : dropped ≠ [] → Ended rc t
  settled : Ended rc t → pending t.state = []

/-- While a message is received nothing is left to be sent. -/
theorem pending_of_receiving (h : t.state = .recv ∨ t.state.Receiving) : pending t.state = [] := by
  cases hstate : t.state with
  | fragSend msg cur =>
    rw [hstate] at h
    simp [TlsState.Receiving] at h
  | start | fragRecv | recv => rfl

/-- What goes out, or remains to go out, without a call of the engine. -/
theorem answer_balance {x : Intake} (hx : (t.intake E turn.heap turn.input).result = .ok x)
    (h : t.outcome E x = some a) (hask : ∀ t₀, x ≠ .ask t₀) (hstart : t.state ≠ .start) :
    a.2.1.calls = t.calls ∧ pending t.state = a.2.2.payload ++ pending a.2.1.state ∧
      ¬Ended a.1 a.2.1 := by
  cases intake_took hx with
  | reject =>
    cases h
    exact ⟨rfl, rfl, by simp [Ended, hstart]⟩
  | @ack t' hstate hrecv hcalls =>
    cases h
    refine ⟨hcalls, ?_, ?_⟩
    · rw [pending_of_receiving hstate, pending_of_receiving (Or.inr hrecv)]
      rfl
    · intro hended
      have hback : t'.state = .start := hended.resolve_right (by simp)
      rw [hback] at hrecv
      exact hrecv
  | @resume msg cur hstate =>
    simp only [outcome] at h
    split at h
    · cases h
    · cases h
      refine ⟨rfl, ?_, ?_⟩
      · rw [hstate]
        exact (nextPart_append_pending _ _ _ (s := .recv) rfl).symm
      · simp only [Ended]
        split <;> simp
  | started => exact absurd rfl (hask _)
  | received => exact absurd rfl (hask _)

/-- The reply of the engine in a turn, and the turns in which something is dropped. -/
theorem Balance.drops {dropped : List UInt8} (hbalance : Balance E t₀ a dropped)
    (hask : (t.intake E turn.heap turn.input).result = .ok (.ask t₀)) :
    dropped = [] ↔ ¬Drops E t turn := by
  rw [← not_iff_not, not_not, ← ne_eq, hbalance.dropped_iff]
  constructor
  · exact fun hdrops => ⟨t₀, hask, hdrops⟩
  · intro ⟨t₁, hask', hdrops⟩
    cases hask.symm.trans hask'
    exact hdrops

/-- Only an answered packet has something written for it. -/
theorem payload_of_ne_cont {x : Intake} (h : t.outcome E x = some (rc, t', ρ)) (hrc : rc ≠ .cont) :
    ρ.payload = [] := by
  have hreplying {t₁ : TypeTls} {out : List UInt8} (h : t₁.replying out = some (rc, t', ρ)) :
      ρ.payload = [] := by
    unfold replying at h
    split at h
    · cases h
      rfl
    · split at h
      · cases h
      · cases h
        exact absurd rfl hrc
  cases x with
  | reject | ack =>
    cases h
    rfl
  | resume msg cur =>
    simp only [outcome] at h
    split at h
    · cases h
    · cases h
      exact absurd rfl hrc
  | ask t₁ =>
    simp only [outcome] at h
    split at h
    · cases h
    · cases h
      rfl
    · split at h
      · cases h
        rfl
      · exact hreplying h
    · exact hreplying h

/-- What is written with the output of the engine is the part of it that is due. -/
theorem replying_payload_length (h : t.replying out = some a) :
    a.2.2.payload.length = chunkLen t.fragmentSize out.length := by
  unfold replying at h
  split at h
  · rename_i hout
    cases h
    rw [hout, List.length_nil, chunkLen, if_pos (Nat.zero_le _)]
    rfl
  · split at h
    · cases h
    · cases h
      exact nextPart_length

/-- What is written is the part that is due. -/
theorem payload_length {x : Intake} (h : t.outcome E x = some a) :
    a.2.2.payload.length = t.dueLen E x := by
  cases x with
  | reject | ack =>
    cases h
    rfl
  | resume msg cur =>
    simp only [outcome] at h
    split at h
    · cases h
    · cases h
      exact nextPart_length
  | ask t₁ =>
    simp only [outcome] at h
    cases hreply : E.processMsg t₁.calls with
    | none => simp [hreply] at h
    | some reply =>
      obtain ⟨rc, out⟩ := reply
      rw [hreply] at h
      simp only [dueLen, hreply]
      cases rc with
      | success =>
        cases h
        rfl
      | failed =>
        change _ = if t₁.failedOnce then 0 else chunkLen t₁.fragmentSize out.length
        dsimp only at h
        split at h
        · rename_i hfailed
          cases h
          rw [if_pos hfailed]
          rfl
        · rename_i hfailed
          have hlen := replying_payload_length h
          rwa [if_neg hfailed]
      | moreData =>
        change _ = chunkLen t₁.fragmentSize out.length
        exact (replying_payload_length h :)

/-- What is written for a packet is as short as what is due. -/
theorem Short.payload {heap : Heap} {input : EapPacket} (h : t.Short E heap input)
    (hanswer : t.answer E heap input = some a) : a.2.2.payload.length < 65535 := by
  obtain ⟨x, hx, houtcome⟩ := Option.bind_eq_some_iff.mp hanswer
  rw [payload_length houtcome]
  exact h x (Exec.result_of_toOption hx)

/-- With short fragments every part is short. -/
theorem short_of_lt {heap : Heap} {input : EapPacket} (hsize : t.fragmentSize < 65535) :
    t.Short E heap input := by
  have hchunk (m n : ℕ) (hm : m < 65535) : chunkLen m n < 65535 := by
    unfold chunkLen
    split <;> omega
  intro x hx
  cases x with
  | reject | ack => exact Nat.zero_lt_succ _
  | resume msg cur => exact hchunk _ _ hsize
  | ask t₀ =>
    have hsize' : t₀.fragmentSize < 65535 := fragmentSize_of_ask hx ▸ hsize
    simp only [dueLen]
    split
    · exact Nat.zero_lt_succ _
    · exact Nat.zero_lt_succ _
    · split
      · exact Nat.zero_lt_succ _
      · exact hchunk _ _ hsize'
    · exact hchunk _ _ hsize'

/-- The length that a receiver takes for that of the payload. -/
theorem pduLen_eq_iff {o : TlsPacket} {n : ℕ} (hn : n < 65535) :
    pduLen o = n ↔ LengthExact o n := by
  have htotal (k : ℕ) (hk : k < 65540) :
      wrapSub (wrapSub (EapPacket.len o) EapPacket.headerLen) 1 = k ↔
        EapPacket.len o = k + 1 + EapPacket.headerLen := by
    rw [wrapSub_eq_iff (by omega), wrapSub_eq_iff (by simp only [EapPacket.headerLen]; omega)]
  simp only [pduLen, LengthExact]
  split
  · rw [wrapSub_eq_iff (by omega), htotal _ (by omega)]
    omega
  · rw [htotal _ (by omega)]
    omega

/-- The response carries what was written for it exactly when its length was put together without a
carry. -/
theorem payloadIn_response_iff (hanswer : t.answer E turn.heap turn.input = some (.cont, t', ρ))
    (hshort : t.Short E turn.heap turn.input) :
    payloadIn (response turn.input (ρ.apply turn.output)) = ρ.payload ↔
      t.CarryFree E turn.heap turn.input turn.output := by
  have hshort : ρ.payload.length < 65535 := hshort.payload hanswer
  obtain ⟨hdata, hmem⟩ := EapState.straightReturn_mem (.init : EapState Handler) turn.input
    (ρ.apply turn.output) turn.input.type
  have hcopied : Copied turn.output (response turn.input (ρ.apply turn.output)) ρ.payload :=
    (ρ.copied turn.output).congr hdata hmem
  rw [← answer_fits hanswer,
    ← EapState.lengthExact_iff (.init : EapState Handler) turn.input turn.output ρ hshort,
    ← pduLen_eq_iff hshort]
  constructor
  · intro h
    rw [← congrArg List.length h, payloadIn, slice_length]
    rfl
  · intro h
    have hlen : pduLen (response turn.input (ρ.apply turn.output)) = ρ.payload.length := h
    rw [payloadIn, hlen]
    exact hcopied.inPlace

/-- What a packet amounted to, and what was sent, when it was processed. -/
theorem intake_of_process {o : TlsPacket} (hwhole : Whole E t turn)
    (hres : (t.process E turn.heap turn.input turn.output).result = .ok (rc, t', o)) :
    ∃ x ρ, (t.intake E turn.heap turn.input).result = .ok x ∧
      t.outcome E x = some (rc, t', ρ) ∧ sentFor rc turn.input o = ρ.payload := by
  obtain ⟨⟨_, _, ρ⟩, hanswer, hr⟩ := process_eq_answer.mp hres
  simp only [Prod.mk.injEq] at hr
  obtain ⟨rfl, rfl, rfl⟩ := hr
  obtain ⟨x, hx, houtcome⟩ := Option.bind_eq_some_iff.mp hanswer
  refine ⟨x, ρ, Exec.result_of_toOption hx, houtcome, ?_⟩
  unfold sentFor
  split
  · rename_i hcont
    rw [hcont] at hanswer
    exact (payloadIn_response_iff hanswer hwhole.short).mpr hwhole.carryFree
  · rename_i hcont
    exact (payload_of_ne_cont houtcome hcont).symm

/-- The books of a session balance if all its responses have the length of what they carry. -/
theorem Session.books (h : Session E steps sent rc t)
    (hwhole : ∀ step ∈ steps, Whole E step.1 step.2) :
    ∃ dropped, Books E steps sent rc t dropped := by
  induction h with
  | @start t t' turn rc o hstate hstart hres =>
    obtain ⟨x, ρ, hx, houtcome, hsent⟩ :=
      intake_of_process (hwhole _ (List.mem_singleton_self _)) hres
    obtain ⟨t₀, rfl⟩ := ask_of_tlsStart hstate hstart hx
    cases intake_took hx with
    | received hother =>
      rw [hstate] at hother
      simp [TlsState.Receiving] at hother
    | started _ _ hcalls _ _ hkeep =>
      obtain ⟨dropped, hbalance⟩ := reply_balance houtcome (by rw [hkeep]; rfl)
      refine ⟨dropped, ?_, ?_, hbalance.ended, hbalance.settled⟩
      · rw [hbalance.calls, hcalls, produced, ← hcalls, hbalance.total, hsent]
        rfl
      · rw [hbalance.drops hx]
        simp
  | @next t t' turn steps sent rc rc' o h hgoing hres ih =>
    rw [List.forall_mem_append, List.forall_mem_singleton] at hwhole
    obtain ⟨dropped, hbooks⟩ := ih hwhole.1
    have hnone : dropped = [] := by
      by_contra hne
      exact hgoing (hbooks.ended hne)
    subst hnone
    obtain ⟨x, ρ, hx, houtcome, hsent⟩ := intake_of_process hwhole.2 hres
    have hbefore := hbooks.total
    have hsteps := hbooks.dropped_iff.mp rfl
    have hnotStart : t.state ≠ .start := fun hstart => hgoing (Or.inl hstart)
    by_cases hask : ∃ t₀, x = .ask t₀
    · obtain ⟨t₀, rfl⟩ := hask
      cases intake_took hx with
      | started hstart => exact absurd hstart hnotStart
      | received hstate hcalls _ _ hkeep =>
        obtain ⟨dropped, hbalance⟩ := reply_balance houtcome (pending_of_receiving hkeep)
        refine ⟨dropped, ?_, ?_, hbalance.ended, hbalance.settled⟩
        · rw [pending_of_receiving hstate, List.nil_append, List.append_nil] at hbefore
          rw [hbalance.calls, hcalls, produced, ← hcalls, hbefore, hbalance.total, hsent,
            List.append_assoc]
        · rw [List.forall_mem_append, List.forall_mem_singleton, hbalance.drops hx]
          exact ⟨fun hlast => ⟨hsteps, hlast⟩, fun hall => hall.2⟩
    · have hask' : ∀ t₀, x ≠ .ask t₀ := fun t₀ hx => hask ⟨t₀, hx⟩
      obtain ⟨hcalls, hpending, hongoing⟩ := answer_balance hx houtcome hask' hnotStart
      refine ⟨[], ?_, ?_, fun hne => absurd rfl hne, fun hended => absurd hended hongoing⟩
      · rw [hcalls, hbefore, hsent, hpending]
        simp only [List.append_nil, List.append_assoc]
      · refine iff_of_true rfl ?_
        rw [List.forall_mem_append, List.forall_mem_singleton]
        refine ⟨hsteps, ?_⟩
        rintro ⟨t₀, hask', -⟩
        cases hx.symm.trans hask'
        exact hask ⟨t₀, rfl⟩

/-- At the end of a session whose responses all have the length of what is written for them, all
output of the engine was sent exactly when no reply that ended it had any. -/
theorem sent_eq_produced_iff (h : Session E steps sent rc t) (hended : Ended rc t)
    (hwhole : ∀ step ∈ steps, Whole E step.1 step.2) :
    sent = produced E t.calls ↔ ∀ step ∈ steps, ¬Drops E step.1 step.2 := by
  obtain ⟨dropped, hbooks⟩ := h.books hwhole
  rw [← hbooks.dropped_iff, hbooks.total, hbooks.settled hended, List.nil_append,
    List.self_eq_append_right]

/-- With fragments of at most 245 bytes and an engine that has something to say as long as it has not
succeeded, no length carries. -/
theorem carryFree_of_le (hsize : t.fragmentSize ≤ 245)
    (hspeaks : ∀ calls rc, E.processMsg calls = some ⟨rc, []⟩ → rc = .success) :
    t.CarryFree E turn.heap turn.input turn.output := by
  have hchunk {m : ℕ} (hm : m ≤ 245) (n : ℕ) : chunkLen m n ≤ 245 := by
    unfold chunkLen
    split <;> omega
  intro x hx
  cases x with
  | reject | ack => trivial
  | resume msg cur =>
    have hlen := hchunk hsize (msg.length - cur)
    simp only [IntakeCarryFree, EapPacket.headerLen]
    omega
  | ask t₀ =>
    have hout {rc : EngineRet} {out : List UInt8} (hreply : E.processMsg t₀.calls = some ⟨rc, out⟩)
        (hrc : rc ≠ .success) : OutputCarryFree turn.output t₀.fragmentSize out := by
      have hne : out ≠ [] := fun hnil => hrc (hspeaks _ rc (hnil ▸ hreply))
      have hlen := hchunk (fragmentSize_of_ask hx ▸ hsize) out.length
      simp only [OutputCarryFree, if_neg hne, EapPacket.headerLen]
      omega
    simp only [IntakeCarryFree]
    split
    · trivial
    · trivial
    · rename_i out hreply
      exact Or.inr (hout hreply (by decide))
    · rename_i out hreply
      exact hout hreply (by decide)

/-- An engine that begins with three bytes and then succeeds. -/
def briefEngine : Engine where
  resetSsl _ := true
  processMsg
    | .processMsg [] :: _ => some ⟨.moreData, [22, 3, 1]⟩
    | _ => some ⟨.success, []⟩

/-- A handler for parts of two bytes. -/
def narrowHandler : TypeTls := { blankHandler with fragmentSize := 2 }

/-- The packets of a session: a start packet, an acknowledgement and a message. -/
def briefTurns : Turn × Turn × Turn :=
  (fragmentTurn 6 0x20 [], fragmentTurn 6 0 [], fragmentTurn 7 0 [20])

/-- The beginning of a message, its end, and a message with which the engine succeeds. -/
theorem sent_eq_produced_brief : ∃ t₁ t₂ t,
    Session briefEngine [(narrowHandler, briefTurns.1), (t₁, briefTurns.2.1), (t₂, briefTurns.2.2)]
      [22, 3, 1] .cont t ∧ [22, 3, 1] = produced briefEngine t.calls := by
  have heval : ((narrowHandler.process briefEngine briefTurns.1.heap briefTurns.1.input
      briefTurns.1.output).result.toOption.bind fun r₁ =>
    (r₁.2.1.process briefEngine briefTurns.2.1.heap briefTurns.2.1.input
      briefTurns.2.1.output).result.toOption.bind fun r₂ =>
    (r₂.2.1.process briefEngine briefTurns.2.2.heap briefTurns.2.2.input
      briefTurns.2.2.output).result.toOption.map fun r₃ =>
        ([r₁.1, r₂.1, r₃.1], [r₁.2.1.state, r₂.2.1.state, r₃.2.1.state],
          [r₁.2.1.fragmentSize, r₂.2.1.fragmentSize],
          [sentFor r₁.1 briefTurns.1.input r₁.2.2, sentFor r₂.1 briefTurns.2.1.input r₂.2.2,
            sentFor r₃.1 briefTurns.2.2.input r₃.2.2])) =
      some ([.cont, .cont, .cont], [.fragSend [22, 3, 1] 2, .recv, .start], [2, 2],
        [[22, 3], [1], []]) := by
    decide +kernel
  obtain ⟨⟨rc₁, t₁, o₁⟩, hfirst, heval⟩ := Option.bind_eq_some_iff.mp heval
  obtain ⟨⟨rc₂, t₂, o₂⟩, hsecond, heval⟩ := Option.bind_eq_some_iff.mp heval
  obtain ⟨⟨rc₃, t₃, o₃⟩, hthird, heval⟩ := Option.map_eq_some_iff.mp heval
  simp only [Prod.mk.injEq, List.cons.injEq, and_true] at heval
  obtain ⟨⟨rfl, rfl, rfl⟩, ⟨hstate₁, hstate₂, hstate₃⟩, ⟨hsize₁, hsize₂⟩, hsent₁, hsent₂, hsent₃⟩ :=
    heval
  have first := Session.start (E := briefEngine) (t := narrowHandler) rfl
    (by decide +kernel) (Exec.result_of_toOption hfirst)
  have second := first.next (by simp [Ended, hstate₁])
    (Exec.result_of_toOption hsecond)
  have third := second.next (by simp [Ended, hstate₂])
    (Exec.result_of_toOption hthird)
  rw [hsent₁, hsent₂, hsent₃] at third
  have hwhole {t : TypeTls} (turn : Turn) (hsize : t.fragmentSize = 2) :
      Whole briefEngine t turn := by
    refine ⟨short_of_lt (by rw [hsize]; decide), carryFree_of_le (by rw [hsize]; decide) fun calls rc h => ?_⟩
    simp only [briefEngine] at h
    split at h
    · cases h
    · cases h
      rfl
  have hkeeps (t : TypeTls) (turn : Turn) : ¬Drops briefEngine t turn := by
    rintro ⟨t₀, -, out, hne, hreply | ⟨hreply, -⟩⟩
    · simp only [briefEngine] at hreply
      split at hreply
      · cases hreply
      · cases hreply
        exact hne rfl
    · simp only [briefEngine] at hreply
      split at hreply <;> cases hreply
  refine ⟨t₁, t₂, t₃, third, (sent_eq_produced_iff third (Or.inl hstate₃) ?_).mpr
    fun step _ => hkeeps step.1 step.2⟩
  simp only [List.cons_append, List.nil_append, List.forall_mem_cons]
  exact ⟨hwhole _ rfl, hwhole _ hsize₁, hwhole _ hsize₂, List.forall_mem_nil _⟩

/-- An engine that reports success at once and has something to be sent. -/
def hastyEngine (out : List UInt8) : Engine := ⟨fun _ => true, fun _ => some ⟨.success, out⟩⟩

/-- A session whose only output comes with success: it is over after the start packet. -/
theorem not_sent_eq_produced_hasty : ∃ t,
    Session (hastyEngine [20, 3, 1]) [(blankHandler, fragmentTurn 6 0x20 [])] [] .cont t ∧
      Ended .cont t ∧ [] ≠ produced (hastyEngine [20, 3, 1]) t.calls := by
  have hstart : classifyPacket (fragmentTurn 6 0x20 []).input
      (pduLen (fragmentTurn 6 0x20 []).input) = .tlsStart := by decide +kernel
  have hask := intake_tlsStart (E := hastyEngine [20, 3, 1]) (t := blankHandler)
    (fragmentTurn 6 0x20 []).heap rfl hstart rfl
  have hanswer : ∃ t, blankHandler.answer (hastyEngine [20, 3, 1]) (fragmentTurn 6 0x20 []).heap
      (fragmentTurn 6 0x20 []).input = some (.cont, t, .ack) ∧ t.state = .start ∧
        produced (hastyEngine [20, 3, 1]) t.calls = [20, 3, 1] := by
    rw [answer, hask]
    exact ⟨_, rfl, rfl, rfl⟩
  obtain ⟨t, hanswer, hstate, hproduced⟩ := hanswer
  have hsent : payloadIn (response (fragmentTurn 6 0x20 []).input
      (Reaction.ack.apply (fragmentTurn 6 0x20 []).output)) = [] :=
    (payloadIn_response_iff hanswer (short_of_lt (by decide))).mpr ((answer_fits hanswer).mp trivial)
  have hsession := Session.start rfl hstart (process_eq_answer.mpr
    ⟨_, hanswer, rfl⟩ : (blankHandler.process _ _ _ (fragmentTurn 6 0x20 []).output).result = _)
  rw [sentFor, if_pos rfl, hsent] at hsession
  refine ⟨t, hsession, Or.inl hstate, ?_⟩
  rw [hproduced]
  exact (List.cons_ne_nil _ _).symm

end TypeTls

end Dot1x.Eap
