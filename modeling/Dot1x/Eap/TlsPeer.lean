import Dot1x.Eap.EngineOutput

/-!
# The other end of EAP-TLS

The authenticator has a TLS engine too. It sends the messages of that engine in fragments, each after
the one before was acknowledged, and it acknowledges the fragments of an answer until it has all of
it. What it goes by are the flags and the lengths in the packets.

Between two exchanges the handler and the other end stand in one of a few pairs of states. In each of
them they agree on what was said and heard: the messages that the engine was called with are the ones
that were sent, and its replies are the ones that arrived, or will have when the last fragment has.
-/

namespace Dot1x.Eap

open Dot1x.Base Dot1x.Wire

namespace TypeTls

/-- Where the other end stands. -/
inductive PeerState
  /-- There is no session. -/
  | idle
  /-- The session has come to its end. -/
  | done
  /-- It is its turn to say something. -/
  | ready
  /-- It has said something and waits for the answer to begin. -/
  | asked
  /-- The first bytes of a message were sent. -/
  | saying (msg : List UInt8) (n : ℕ)
  /-- The first bytes of a message of a length have arrived. -/
  | hearing (total : ℕ) (got : List UInt8)
  deriving DecidableEq

/-- The other end, with what it has said and heard in the session, oldest first. -/
structure Peer where
  state : PeerState
  said : List (List UInt8)
  heard : List (List UInt8)
  deriving DecidableEq

namespace Peer

/-- The other end after a packet, if that makes sense to it. -/
def hears (p : Peer) (o : TlsPacket) : Option Peer :=
  match p.state, classifyPacket o (pduLen o) with
  | .saying _ _, .tlsAck => some p
  | .asked, .tlsAck => some { p with state := .done }
  | .asked, .tlsFrag =>
    if o.hasLength then some { p with state := .hearing o.tlsLen (payloadIn o) } else none
  | .asked, .tlsData => some { p with state := .ready, heard := p.heard ++ [payloadIn o] }
  | .hearing total got, .tlsFrag =>
    some { p with state := .hearing total (got ++ payloadIn o) }
  | .hearing total got, .tlsData =>
    if (got ++ payloadIn o).length = total then
      some { p with state := .ready, heard := p.heard ++ [got ++ payloadIn o] }
    else none
  | _, _ => none

/-- A packet that the other end may send, and how it waits for the answer. -/
inductive Asks (p : Peer) (input : EapPacket) : Peer → Prop
  | start (hstate : p.state = .idle ∨ p.state = .done)
      (hstart : classifyPacket input (pduLen input) = .tlsStart) : Asks p input ⟨.asked, [], []⟩
  | whole {declared : Option ℕ} {msg : List UInt8} (hstate : p.state = .ready)
      (hpart : IsFragment input false declared msg) :
      Asks p input ⟨.asked, p.said ++ [msg], p.heard⟩
  | first {msg : List UInt8} {n : ℕ} (hstate : p.state = .ready) (hn : n < msg.length)
      (hpart : IsFragment input true (some msg.length) (msg.take n)) :
      Asks p input { p with state := .saying msg n }
  | more {declared : Option ℕ} {msg : List UInt8} {n k : ℕ} (hstate : p.state = .saying msg n)
      (hk : n + k < msg.length) (hpart : IsFragment input true declared ((msg.drop n).take k)) :
      Asks p input { p with state := .saying msg (n + k) }
  | last {declared : Option ℕ} {msg : List UInt8} {n : ℕ} (hstate : p.state = .saying msg n)
      (hpart : IsFragment input false declared (msg.drop n)) :
      Asks p input ⟨.asked, p.said ++ [msg], p.heard⟩
  | ack {total : ℕ} {got : List UInt8} (hstate : p.state = .hearing total got)
      (hack : IsAck input) : Asks p input p

end Peer

/-- The messages that the engine was called with since its last reset, oldest first. -/
def delivered : List EngineCall → List (List UInt8)
  | [] => []
  | .processMsg msg :: calls => delivered calls ++ [msg]
  | .resetSsl :: _ => []
  | .abort :: calls => delivered calls

/-- What the engine replied to them. -/
def replies (E : Engine) : List EngineCall → List (List UInt8)
  | [] => []
  | .processMsg msg :: calls => replies E calls ++ [Engine.output E (.processMsg msg :: calls)]
  | .resetSsl :: _ => []
  | .abort :: calls => replies E calls

/-- The two ends agree on what was said and heard in the session. The handler itself begins it with an
empty message. -/
inductive Agrees (E : Engine) (calls : List EngineCall) (p : Peer) : Prop
  | idle (hstate : p.state = .idle)
  | settled (hstate : p.state = .ready ∨ ∃ msg n, p.state = .saying msg n)
      (hsaid : delivered calls = [] :: p.said) (hheard : replies E calls = p.heard)
  | hearing {out got : List UInt8} (hstate : p.state = .hearing out.length got) (hgot : got <+: out)
      (hsaid : delivered calls = [] :: p.said) (hheard : replies E calls = p.heard ++ [out])
  | done {out : List UInt8} (hstate : p.state = .done)
      (hsuccess : E.processMsg calls = some ⟨.success, out⟩)
      (hsaid : delivered calls = [] :: p.said) (hheard : replies E calls = p.heard ++ [out])

/-- An output whose parts have lengths that can be put together without a carry. -/
structure Legible (fragmentSize : ℕ) (out : List UInt8) : Prop where
  nonempty : out ≠ []
  short : out.length < 2 ^ 32
  first : (chunkLen fragmentSize out.length + 1) % 256 + 4 + EapPacket.headerLen < 256
  later : ∀ k, 0 < k → k * fragmentSize < out.length →
    (chunkLen fragmentSize (out.length - k * fragmentSize) + 1) % 256 + EapPacket.headerLen < 256

/-- The engine has something legible to say as long as it has not succeeded. -/
def Speaks (E : Engine) (fragmentSize : ℕ) : Prop :=
  ∀ calls r, E.processMsg calls = some r → r.rc ≠ .success → Legible fragmentSize r.out

/-- The handler and the other end between two exchanges. -/
inductive Linked (E : Engine) (t : TypeTls) (p : Peer) : Prop
  | idle (hp : p.state = .idle) (ht : t.state = .start)
  | done {out : List UInt8} (hp : p.state = .done) (ht : t.state = .start)
      (hsuccess : E.processMsg t.calls = some ⟨.success, out⟩)
      (hsaid : delivered t.calls = [] :: p.said) (hheard : replies E t.calls = p.heard ++ [out])
  | ready (hp : p.state = .ready) (ht : t.state = .recv)
      (hsaid : delivered t.calls = [] :: p.said) (hheard : replies E t.calls = p.heard)
  | saying {msg : List UInt8} {n : ℕ} (hp : p.state = .saying msg n) (hn : n < msg.length)
      (ht : t.Holding msg.length (msg.take n))
      (hsaid : delivered t.calls = [] :: p.said) (hheard : replies E t.calls = p.heard)
  | hearing {out : List UInt8} {k : ℕ}
      (hp : p.state = .hearing out.length (out.take (k * t.fragmentSize)))
      (ht : t.state = .fragSend out (k * t.fragmentSize)) (hk : 0 < k)
      (hlt : k * t.fragmentSize < out.length) (hlegible : Legible t.fragmentSize out)
      (hsaid : delivered t.calls = [] :: p.said) (hheard : replies E t.calls = p.heard ++ [out])

/-- What a packet of the other end amounts to when it waits for the answer. -/
inductive Due (E : Engine) (t : TypeTls) (q : Peer) : Intake → Prop
  | ack {t' : TypeTls} {msg : List UInt8} {n : ℕ} (hq : q.state = .saying msg n)
      (hn : n < msg.length) (ht : t'.Holding msg.length (msg.take n))
      (hsize : t'.fragmentSize = t.fragmentSize)
      (hsaid : delivered t'.calls = [] :: q.said) (hheard : replies E t'.calls = q.heard) :
      Due E t q (.ack t')
  | resume {out : List UInt8} {k : ℕ}
      (hq : q.state = .hearing out.length (out.take (k * t.fragmentSize))) (hk : 0 < k)
      (hlt : k * t.fragmentSize < out.length) (hlegible : Legible t.fragmentSize out)
      (hsaid : delivered t.calls = [] :: q.said) (hheard : replies E t.calls = q.heard ++ [out]) :
      Due E t q (.resume out (k * t.fragmentSize))
  | ask {t₀ : TypeTls} (hq : q.state = .asked) (hsize : t₀.fragmentSize = t.fragmentSize)
      (hsaid : delivered t₀.calls = [] :: q.said)
      (hheard : replies E t₀.calls = q.heard ++ [Engine.output E t₀.calls]) : Due E t q (.ask t₀)

/-- What is written makes sense to the receiver. -/
def Reaction.Legible (output : TlsPacket) : Reaction → Prop
  | .nothing => False
  | .ack => True
  | .part declared more payload =>
    payload ≠ [] ∧ (∀ n ∈ declared, n < 2 ^ 32) ∧
      (Reaction.part declared more payload).Fits output

/-- A packet says what was written. -/
def Reads (o : TlsPacket) : Reaction → Prop
  | .nothing => False
  | .ack => IsAck o
  | .part declared more payload => IsFragment o more declared payload

variable {E : Engine} {t t' t₀ : TypeTls} {heap : Heap} {input output o : EapPacket} {more : Bool}
  {declared : Option ℕ} {part received msg out : List UInt8} {n fragmentSize : ℕ} {p q : Peer}
  {x : Intake} {ρ : Reaction} {rc : Ret}

/-- The two ends agree wherever the handler is. -/
theorem Linked.agrees (h : Linked E t p) : Agrees E t.calls p := by
  cases h with
  | idle hp => exact .idle hp
  | done hp _ hsuccess hsaid hheard => exact .done hp hsuccess hsaid hheard
  | ready hp _ hsaid hheard => exact .settled (Or.inl hp) hsaid hheard
  | saying hp _ _ hsaid hheard => exact .settled (Or.inr ⟨_, _, hp⟩) hsaid hheard
  | hearing hp _ _ _ _ hsaid hheard => exact .hearing hp (List.take_prefix _ _) hsaid hheard

section Intake

/-! What the packets of the other end amount to. -/

/-- The engine is called with the first bytes of the receive buffer. -/
theorem asking_calls (t : TypeTls) (hn : n ≠ 0) :
    (t.asking n).calls = .processMsg (slice t.recvBuffer.buf 0 n) :: t.calls := by
  simp only [asking, if_neg hn]

/-- A further fragment is taken in. -/
theorem Holding.intake_more (h : t.Holding n received)
    (hpart : IsFragment input true declared part) (hfit : received.length + part.length ≤ n) :
    ∃ t', (t.intake E heap input).result = .ok (.ack t') ∧ t'.Holding n (received ++ part) ∧
      t'.calls = t.calls ∧ t'.fragmentSize = t.fragmentSize := by
  have hnext := recvNext_fragment (t := t) hpart (Nat.le_trans hfit h.room)
  have hremain : ¬wrapSub n received.length < part.length := by
    rw [wrapSub_of_le (by omega)]
    omega
  refine ⟨{ t.appended received.length part with
    state := .fragRecv (received.length + part.length) n }, ?_, ?_, rfl, rfl⟩
  · rw [intake, Exec.result_bind_of_ok (tlsPduLen_result _), hpart.classify, hpart.pduLen]
    simp only [intakeType, h.state, if_true, true_or, if_neg hremain]
    rw [Exec.result_bind_of_ok hnext]
    rfl
  · exact ⟨by rw [List.length_append], h.room, appended_buf t part h.buf⟩

/-- With the last fragment the engine is called with what was received. -/
theorem Holding.intake_last (h : t.Holding n received)
    (hpart : IsFragment input false declared part) (hfit : received.length + part.length ≤ n) :
    ∃ t₀, (t.intake E heap input).result = .ok (.ask t₀) ∧
      t₀.calls = .processMsg (received ++ part) :: t.calls ∧ t₀.fragmentSize = t.fragmentSize := by
  have hnext := recvNext_fragment (t := t) hpart (Nat.le_trans hfit h.room)
  have hremain : ¬wrapSub n received.length < part.length := by
    rw [wrapSub_of_le (by omega)]
    omega
  have hpos : received.length + part.length ≠ 0 := by
    have hpart' := List.length_pos_iff.mpr hpart.nonempty
    omega
  have hbuf := appended_buf t part h.buf
  rw [List.length_append] at hbuf
  refine ⟨{ t.appended received.length part with
    state := .fragRecv (received.length + part.length) n }.asking (received.length + part.length),
    ?_, ?_, rfl⟩
  · rw [intake, Exec.result_bind_of_ok (tlsPduLen_result _), hpart.classify, hpart.pduLen]
    simp only [intakeType, h.state, Bool.false_eq_true, if_false, or_true, if_true, if_neg hremain]
    rw [Exec.result_bind_of_ok hnext]
    rfl
  · rw [asking_calls _ hpos]
    exact congrArg (EngineCall.processMsg · :: t.calls) hbuf

/-- The first of several fragments begins a message. -/
theorem intake_first (hrecv : t.state = .recv) (hgrants : t.Grants heap n)
    (hpart : IsFragment input true (some n) part) (hfit : part.length ≤ n) :
    ∃ t', (t.intake E heap input).result = .ok (.ack t') ∧ t'.Holding n part ∧
      t'.calls = t.calls ∧ t'.fragmentSize = t.fragmentSize := by
  have htls : TlsPacket.tlsLen input = n := hpart.tlsLen n rfl
  have hlength : TlsPacket.hasLength input := hpart.hasLength
  obtain ⟨g, hsize, hfirst⟩ :=
    recvFirst_fragment hgrants (htls ▸ TlsPacket.tlsLen_lt input) hpart hfit
  refine ⟨{ { t with recvBuffer := g }.appended 0 part with state := .fragRecv part.length n },
    ?_, ⟨rfl, hsize, slice_write_self ..⟩, rfl, rfl⟩
  rw [intake, Exec.result_bind_of_ok (tlsPduLen_result _), hpart.classify, hpart.pduLen]
  simp only [intakeType, hrecv, if_true, hlength, not_true, if_false, htls]
  rw [Exec.result_bind_of_ok hfirst]
  rfl

/-- With a message in one packet the engine is called at once. -/
theorem intake_whole (hrecv : t.state = .recv) (hgrants : t.Grants heap msg.length)
    (hpart : IsFragment input false declared msg) :
    ∃ t₀, (t.intake E heap input).result = .ok (.ask t₀) ∧
      t₀.calls = .processMsg msg :: t.calls ∧ t₀.fragmentSize = t.fragmentSize := by
  have hpos : msg.length ≠ 0 := fun hzero => hpart.nonempty (List.length_eq_zero_iff.mp hzero)
  obtain ⟨g, -, hfirst⟩ := recvFirst_fragment hgrants hpart.length_lt hpart (Nat.le_refl _)
  have hbuf :
      slice ({ t with recvBuffer := g }.appended 0 msg).recvBuffer.buf 0 msg.length = msg :=
    slice_write_self ..
  refine ⟨({ t with recvBuffer := g }.appended 0 msg).asking msg.length, ?_, ?_, rfl⟩
  · rw [intake, Exec.result_bind_of_ok (tlsPduLen_result _), hpart.classify, hpart.pduLen]
    simp only [intakeType, hrecv, Bool.false_eq_true, if_false, reduceCtorEq, if_true]
    rw [Exec.result_bind_of_ok hfirst, ← hrecv]
    rfl
  · rw [asking_calls _ hpos]
    exact congrArg (EngineCall.processMsg · :: t.calls) hbuf

/-- Without room a message does not begin. -/
theorem intake_of_not_grants (hrecv : t.state = .recv) (hgrants : ¬t.Grants heap n)
    (hpart : IsFragment input more declared part)
    (hn : n = if more then TlsPacket.tlsLen input else part.length)
    (hdeclared : more → declared.isSome) :
    ∃ e, (t.intake E heap input).result = .error e := by
  have hlt : n < 2 ^ 32 := by
    rw [hn]
    split
    · exact TlsPacket.tlsLen_lt input
    · exact hpart.length_lt
  refine ⟨.outOfMem, ?_⟩
  have hfirst : (t.recvFirst heap input part.length n).result = .error .outOfMem :=
    recvFirst_of_not_grants hgrants hlt part.length
  rw [intake, Exec.result_bind_of_ok (tlsPduLen_result _), hpart.classify, hpart.pduLen]
  cases more with
  | true =>
    have hlength : TlsPacket.hasLength input := hpart.hasLength.trans (hdeclared rfl)
    simp only [if_true] at hn
    subst hn
    simp only [intakeType, hrecv, if_true, hlength, not_true, if_false]
    exact Exec.result_bind_eq_error.mpr (Or.inl hfirst)
  | false =>
    simp only [Bool.false_eq_true, if_false] at hn
    subst hn
    simp only [intakeType, hrecv, Bool.false_eq_true, if_false, reduceCtorEq, if_true]
    exact Exec.result_bind_eq_error.mpr (Or.inl hfirst)

/-- An acknowledgement makes the next part due. -/
theorem intake_ack {cur : ℕ} (hstate : t.state = .fragSend msg cur) (hack : IsAck input) :
    (t.intake E heap input).result = .ok (.resume msg cur) := by
  rw [intake, Exec.result_bind_of_ok (tlsPduLen_result _), hack]
  simp only [intakeType, hstate]
  rfl

/-- Without a reset there is no session. -/
theorem intake_of_not_reset (hstate : t.state = .start)
    (hstart : classifyPacket input (pduLen input) = .tlsStart)
    (hreset : ¬E.resetSsl (.resetSsl :: t.calls)) :
    ∃ e, (t.intake E heap input).result = .error e := by
  refine ⟨.tlsError, ?_⟩
  rw [intake, Exec.result_bind_of_ok (tlsPduLen_result _), hstart]
  simp only [intakeType, hstate, ne_eq, not_true, if_false]
  refine Exec.result_bind_eq_error.mpr (Or.inl ?_)
  simp only [resetSsl, if_neg hreset]
  rfl

end Intake

/-- There is not enough memory, or the engine cannot be reset. -/
def Lacks (E : Engine) (t : TypeTls) (heap : Heap) : Prop :=
  (∃ n, heap n = none) ∨ t.state = .start ∧ ¬E.resetSsl (.resetSsl :: t.calls)

/-- What is not granted is lacking. -/
theorem lacks_of_not_grants (hgrants : ¬t.Grants heap n) : Lacks E t heap := by
  obtain ⟨-, hnone⟩ : t.recvBuffer.size < n ∧ heap n = none := by simpa [Grants] using hgrants
  exact Or.inl ⟨n, hnone⟩

/-- A packet of the other end amounts to what it waits for, unless something is lacking. -/
theorem Linked.intake (h : Linked E t p) (hasks : p.Asks input q) (heap : Heap) :
    (∃ x, (t.intake E heap input).result = .ok x ∧ Due E t q x) ∨
      (∃ e, (t.intake E heap input).result = .error e) ∧ Lacks E t heap := by
  cases hasks with
  | start hstate hstart =>
    have ht : t.state = .start := by
      cases h with
      | idle _ ht | done _ ht => exact ht
      | ready hp | saying hp | hearing hp => rw [hp] at hstate; simp at hstate
    by_cases hreset : E.resetSsl (.resetSsl :: t.calls)
    · refine Or.inl ⟨_, intake_tlsStart heap ht hstart hreset, .ask rfl rfl ?_ ?_⟩
      · rfl
      · rfl
    · exact Or.inr ⟨intake_of_not_reset ht hstart hreset, Or.inr ⟨ht, hreset⟩⟩
  | @whole declared msg hstate hpart =>
    cases h with
    | ready _ ht hsaid hheard =>
      by_cases hgrants : t.Grants heap msg.length
      · obtain ⟨t₀, hintake, hcalls, hsize⟩ := intake_whole ht hgrants hpart
        refine Or.inl ⟨_, hintake, .ask rfl hsize ?_ ?_⟩
        · rw [hcalls, delivered, hsaid]
          rfl
        · rw [hcalls, replies, hheard]
      · exact Or.inr ⟨intake_of_not_grants ht hgrants hpart rfl (by simp),
          lacks_of_not_grants hgrants⟩
    | idle hp | done hp | saying hp | hearing hp => rw [hp] at hstate; cases hstate
  | @first msg n hstate hn hpart =>
    cases h with
    | ready _ ht hsaid hheard =>
      by_cases hgrants : t.Grants heap msg.length
      · obtain ⟨t', hintake, hholding, hcalls, hsize⟩ := intake_first ht hgrants hpart (by simp)
        exact Or.inl ⟨_, hintake, .ack rfl hn hholding hsize (hcalls ▸ hsaid) (hcalls ▸ hheard)⟩
      · exact Or.inr ⟨intake_of_not_grants ht hgrants hpart (hpart.tlsLen _ rfl).symm (by simp),
          lacks_of_not_grants hgrants⟩
    | idle hp | done hp | saying hp | hearing hp => rw [hp] at hstate; cases hstate
  | @more declared msg n k hstate hk hpart =>
    cases h with
    | @saying msg' n' hp hn ht hsaid hheard =>
      cases hp.symm.trans hstate
      obtain ⟨t', hintake, hholding, hcalls, hsize⟩ := ht.intake_more hpart (by simp; omega)
      rw [← List.take_add] at hholding
      exact Or.inl ⟨_, hintake, .ack rfl hk hholding hsize (hcalls ▸ hsaid) (hcalls ▸ hheard)⟩
    | idle hp | done hp | ready hp | hearing hp => rw [hp] at hstate; cases hstate
  | @last declared msg n hstate hpart =>
    cases h with
    | @saying msg' n' hp hn ht hsaid hheard =>
      cases hp.symm.trans hstate
      obtain ⟨t₀, hintake, hcalls, hsize⟩ := ht.intake_last hpart (by simp; omega)
      rw [List.take_append_drop] at hcalls
      refine Or.inl ⟨_, hintake, .ask rfl hsize ?_ ?_⟩
      · rw [hcalls, delivered, hsaid]
        rfl
      · rw [hcalls, replies, hheard]
    | idle hp | done hp | ready hp | hearing hp => rw [hp] at hstate; cases hstate
  | ack hstate hack =>
    cases h with
    | @hearing out k hp ht hk hlt hlegible hsaid hheard =>
      exact Or.inl ⟨_, intake_ack ht hack, .resume hp hk hlt hlegible hsaid hheard⟩
    | idle hp | done hp | ready hp | saying hp => rw [hp] at hstate; cases hstate

/-- The part that is due at an offset, as the other end finds it. -/
theorem hears_part (hq : q.state = .hearing out.length received)
    (hread : IsFragment o more none part) (hfit : more = false → received ++ part = out) :
    q.hears o = some (if more then { q with state := .hearing out.length (received ++ part) }
      else ⟨.ready, q.said, q.heard ++ [out]⟩) := by
  have hpayload : payloadIn o = part := by rw [payloadIn, hread.pduLen, hread.payload]
  simp only [Peer.hears, hq, hread.classify, hpayload]
  cases more with
  | true => rfl
  | false => simp [hfit rfl]

/-- The first part of an answer, as the other end finds it. -/
theorem hears_first (hq : q.state = .asked) (hread : IsFragment o more (some n) part) :
    q.hears o = some (if more then { q with state := .hearing n part }
      else ⟨.ready, q.said, q.heard ++ [part]⟩) := by
  have hpayload : payloadIn o = part := by rw [payloadIn, hread.pduLen, hread.payload]
  have hlength : TlsPacket.hasLength o := hread.hasLength
  simp only [Peer.hears, hq, hread.classify, hpayload]
  cases more with
  | true => simp [hlength, hread.tlsLen n rfl]
  | false => rfl

/-- A reaction that makes sense to the other end, and how the two stand behind it. -/
def Understood (E : Engine) (t : TypeTls) (q : Peer) (t' : TypeTls) (ρ : Reaction) : Prop :=
  t'.fragmentSize = t.fragmentSize ∧ (∀ output, ρ.Legible output) ∧
    ∃ p', (∀ o, Reads o ρ → q.hears o = some p') ∧ Linked E t' p'

/-- The answer of the engine begins, and may end, with the first part. -/
theorem replying_understood (hq : q.state = .asked) (hrecv : t.state = .recv)
    (hpos : 0 < t.fragmentSize) (hlegible : Legible t.fragmentSize out)
    (hsaid : delivered t.calls = [] :: q.said) (hheard : replies E t.calls = q.heard ++ [out]) :
    ∃ t' ρ, t.replying out = some (.cont, t', ρ) ∧ Understood E t q t' ρ := by
  have hout := hlegible.nonempty
  have hlength := List.length_pos_iff.mpr hout
  have hpart : nextPart t.fragmentSize out 0 ≠ [] := nextPart_eq_nil.not.mpr (by omega)
  have hchunk : (nextPart t.fragmentSize out 0).length = chunkLen t.fragmentSize out.length :=
    nextPart_length
  rw [replying, if_neg hout, if_neg hpart]
  refine ⟨_, _, rfl, rfl, fun output => ⟨hpart, ?_, ?_⟩, ?_⟩
  · rintro n ⟨⟩
    exact hlegible.short
  · simp only [Reaction.Fits, hchunk]
    exact hlegible.first
  · refine ⟨_, fun o hread => hears_first hq hread, ?_⟩
    by_cases hfit : out.length ≤ t.fragmentSize
    · obtain ⟨hall, hmore⟩ := due_of_le (Nat.zero_le _)
        (show out.length - 0 ≤ t.fragmentSize from hfit)
      rw [hmore, hall]
      exact .ready rfl hrecv hsaid hheard
    · obtain ⟨hlen, hmore⟩ := due_of_lt
        (show t.fragmentSize < out.length - 0 from not_le.mp hfit)
      rw [hmore, hlen]
      have hone : 1 * t.fragmentSize = t.fragmentSize := Nat.one_mul _
      refine .hearing (k := 1) ?_ ?_ Nat.one_pos ?_ hlegible hsaid hheard
      · simp only [if_true, hone]
        rfl
      · simp only [if_true, hone]
      · rw [hone]
        omega

/-- A further part of the answer, or the last one. -/
theorem resume_understood {k : ℕ} (hpos : 0 < t.fragmentSize)
    (hq : q.state = .hearing out.length (out.take (k * t.fragmentSize))) (hk : 0 < k)
    (hlt : k * t.fragmentSize < out.length) (hlegible : Legible t.fragmentSize out)
    (hsaid : delivered t.calls = [] :: q.said) (hheard : replies E t.calls = q.heard ++ [out]) :
    ∃ t' ρ, t.outcome E (.resume out (k * t.fragmentSize)) = some (.cont, t', ρ) ∧
      Understood E t q t' ρ := by
  have hpart : nextPart t.fragmentSize out (k * t.fragmentSize) ≠ [] :=
    nextPart_eq_nil.not.mpr (by omega)
  have hchunk : (nextPart t.fragmentSize out (k * t.fragmentSize)).length =
      chunkLen t.fragmentSize (out.length - k * t.fragmentSize) := nextPart_length
  have hfits := hlegible.later k hk hlt
  simp only [outcome, if_neg hpart]
  refine ⟨_, _, rfl, rfl, fun output => ⟨hpart, by simp, ?_⟩, ?_⟩
  · simp only [Reaction.Fits, hchunk]
    exact hfits
  · by_cases hfit : out.length - k * t.fragmentSize ≤ t.fragmentSize
    · obtain ⟨hall, hmore⟩ := due_of_le hlt.le hfit
      rw [hmore, hall]
      refine ⟨_, fun o hread => hears_part hq hread fun _ => List.take_append_drop _ _, ?_⟩
      exact .ready rfl rfl hsaid hheard
    · obtain ⟨hlen, hmore⟩ := due_of_lt (not_le.mp hfit)
      rw [hmore, hlen]
      refine ⟨_, fun o hread => hears_part hq hread (by simp), ?_⟩
      have hnext : k * t.fragmentSize + t.fragmentSize = (k + 1) * t.fragmentSize :=
        (Nat.succ_mul _ _).symm
      refine .hearing (k := k + 1) ?_ ?_ (Nat.succ_pos k) ?_ hlegible hsaid hheard
      · simp only [if_true, nextPart, ← List.take_add, hnext]
      · simp only [if_true, hnext]
      · rw [← hnext]
        omega

/-- The engine throws, or fails for the second time. -/
def GivesUp (E : Engine) : Intake → Prop
  | .ask t₀ => E.processMsg t₀.calls = none ∨
      ∃ out, E.processMsg t₀.calls = some ⟨.failed, out⟩ ∧ t₀.failedOnce
  | _ => False

/-- What the other end waits for is answered in a way that makes sense to it, unless the engine gives
up. -/
theorem Due.understood (h : Due E t q x) (hpos : 0 < t.fragmentSize)
    (hE : Speaks E t.fragmentSize) :
    (∃ t' ρ, t.outcome E x = some (.cont, t', ρ) ∧ Understood E t q t' ρ) ∨
      GivesUp E x ∧ ∀ a, t.outcome E x = some a → a.1 ≠ .cont := by
  cases h with
  | @ack t' msg n hq hn ht hsize hsaid hheard =>
    refine Or.inl ⟨_, _, rfl, hsize, fun _ => trivial, q, fun o hread => ?_, ?_⟩
    · simp only [Peer.hears, hq, show classifyPacket o (pduLen o) = .tlsAck from hread]
    · exact .saying hq hn ht hsaid hheard
  | resume hq hk hlt hlegible hsaid hheard =>
    exact Or.inl (resume_understood hpos hq hk hlt hlegible hsaid hheard)
  | @ask t₀ hq hsize hsaid hheard =>
    have hspoken {t₁ : TypeTls} {rc : EngineRet} {out : List UInt8}
        (hreply : E.processMsg t₀.calls = some ⟨rc, out⟩)
        (hrc : rc ≠ .success) (hrecv : t₁.state = .recv) (hcalls : t₁.calls = t₀.calls)
        (hsame : t₁.fragmentSize = t₀.fragmentSize) :
        ∃ t' ρ, t₁.replying out = some (.cont, t', ρ) ∧ Understood E t q t' ρ := by
      have houtput : Engine.output E t₀.calls = out := by rw [Engine.output, hreply]; rfl
      rw [houtput] at hheard
      have hlegible := hE _ _ hreply hrc
      rw [← hsize, ← hsame] at hpos hlegible
      obtain ⟨t', ρ, hreplying, hkept, hrest⟩ := replying_understood (E := E) hq hrecv hpos hlegible
        (hcalls ▸ hsaid) (hcalls ▸ hheard)
      exact ⟨t', ρ, hreplying, hkept.trans (hsame.trans hsize), hrest⟩
    cases hreply : E.processMsg t₀.calls with
    | none =>
      refine Or.inr ⟨Or.inl hreply, fun a ha => ?_⟩
      simp [outcome, hreply] at ha
    | some reply =>
      obtain ⟨rc, out⟩ := reply
      cases rc with
      | success =>
        refine Or.inl ⟨{ t₀ with state := .start }, .ack, by simp [outcome, hreply], hsize,
          fun _ => trivial, { q with state := .done }, fun o hread => ?_, ?_⟩
        · simp only [Peer.hears, hq, show classifyPacket o (pduLen o) = .tlsAck from hread]
        · have houtput : Engine.output E t₀.calls = out := by rw [Engine.output, hreply]; rfl
          rw [houtput] at hheard
          exact .done rfl rfl hreply hsaid hheard
      | moreData =>
        simp only [outcome, hreply]
        exact Or.inl (hspoken hreply (by simp) rfl rfl rfl)
      | failed =>
        simp only [outcome, hreply]
        by_cases hfailed : t₀.failedOnce
        · refine Or.inr ⟨Or.inr ⟨out, hreply, hfailed⟩, fun a ha => ?_⟩
          rw [if_pos hfailed] at ha
          cases ha
          simp
        · rw [if_neg hfailed]
          exact Or.inl (hspoken hreply (by simp) rfl rfl rfl)

end TypeTls

end Dot1x.Eap
