import Dot1x.Eap.Reassembly

/-!
# What a packet amounts to

`type_tls::process` deals with a packet in three parts. The first one looks at the state and at
the packet only; it rejects the packet, takes in a fragment, finds that the next part of a message
is due, or arrives at a call of the engine. The other two act on that and are the only ones that
look at the output packet.
-/

namespace Dot1x.Eap

open Dot1x.Base Dot1x.Wire

namespace TypeTls

/-- What the first part of `process` arrives at. -/
inductive Intake
  /-- The packet is invalid. -/
  | reject
  /-- A fragment was taken in. -/
  | ack (t : TypeTls)
  /-- The part of a message from an offset on is due. -/
  | resume (msg : List UInt8) (cur : ℕ)
  /-- The engine is called; the call is recorded. -/
  | ask (t : TypeTls)

/-- The handler when it calls the engine with the first bytes of its receive buffer. -/
def asking (t : TypeTls) (tlsLen : ℕ) : TypeTls :=
  let buf := if tlsLen = 0 then write t.recvBuffer.buf 0 [0] else t.recvBuffer.buf
  { t with recvBuffer := { t.recvBuffer with buf := buf },
           calls := .processMsg (slice buf 0 tlsLen) :: t.calls }

/-- The first part of `process`, for a packet that was classified. -/
def intakeType (E : Engine) (t : TypeTls) (heap : Heap) (input : EapPacket) (pduLen : ℕ) :
    PacketType → Call Intake
  | .tlsInvalid => pure .reject
  | type =>
    match t.state with
    | .start =>
      if type ≠ .tlsStart then pure .reject else do
        let t ← resetSsl E { t with failedOnce := false }
        pure (.ask (t.asking 0))
    | .fragSend msg cur =>
      if type ≠ .tlsAck then pure .reject else pure (.resume msg cur)
    | .fragRecv cur stop =>
      if type = .tlsFrag ∨ type = .tlsData then
        if wrapSub stop cur < pduLen then pure .reject else do
          let t ← recvNext t cur input pduLen
          let t := { t with state := .fragRecv (cur + pduLen) stop }
          if type = .tlsFrag then pure (.ack t) else pure (.ask (t.asking (cur + pduLen)))
      else pure .reject
    | .recv =>
      if type = .tlsFrag then
        if ¬TlsPacket.hasLength input then pure .reject else do
          let max := TlsPacket.tlsLen input
          let t ← recvFirst t heap input pduLen max
          pure (.ack { t with state := .fragRecv pduLen max })
      else if type = .tlsData then do
        let t ← recvFirst t heap input pduLen pduLen
        pure (.ask (t.asking pduLen))
      else pure .reject

/-- The first part of `process`. -/
def intake (E : Engine) (t : TypeTls) (heap : Heap) (input : EapPacket) : Call Intake := do
  let pduLen ← tlsPduLen input
  intakeType E t heap input pduLen (classifyPacket input pduLen)

/-- Send the part of a message from an offset on. -/
def resume (t : TypeTls) (msg : List UInt8) (cur : ℕ) (output : TlsPacket) :
    Call (Ret × TypeTls × EapPacket) := do
  let output := EapPacket.setLen (TlsPacket.setTlsFlags output 0) 0
  let r ← frameNext t.fragmentSize msg cur output
  let state := if r.2.moreFragments then .fragSend msg r.1 else .recv
  pure (.cont, { t with state := state }, r.2)

/-- The rest of `process`. -/
def finish (E : Engine) (t : TypeTls) (output : EapPacket) : Intake → Call (Ret × TypeTls × EapPacket)
  | .reject => pure (.inv, t, output)
  | .ack t' => pure (.cont, t', makeAck output)
  | .resume msg cur => t.resume msg cur output
  | .ask t' => t'.engineReplied output (E.processMsg t'.calls)

/-- Calling the engine is asking, and dealing with the reply. -/
theorem tlsProcessing_eq_engineReplied (E : Engine) (t : TypeTls) (n : ℕ) (output : TlsPacket) :
    tlsProcessing E t n output =
      (t.asking n).engineReplied output (E.processMsg (t.asking n).calls) := by
  simp only [tlsProcessing, asking, engineReplied]
  rfl

/-- Processing a classified packet is the intake, and the rest. -/
theorem processType_eq_intakeType (E : Engine) (t : TypeTls) (heap : Heap)
    (input output : EapPacket) (n : ℕ) (type : PacketType) :
    t.processType E heap input output n type =
      t.intakeType E heap input n type >>= t.finish E output := by
  unfold processType
  split
  · rfl
  rename_i hvalid
  rw [intakeType.eq_2 E t heap input n _ hvalid]
  cases t.state with
  | start =>
    dsimp only
    split
    · rfl
    · simp only [bind_assoc, pure_bind, finish, tlsProcessing_eq_engineReplied]
  | fragSend msg cur =>
    dsimp only
    split
    · rfl
    · rfl
  | fragRecv cur stop =>
    dsimp only
    split
    · split
      · rfl
      · rw [bind_assoc]
        refine congrArg _ (funext fun t' => ?_)
        split
        · rfl
        · rw [pure_bind, finish, tlsProcessing_eq_engineReplied]
    · rfl
  | recv =>
    dsimp only
    split
    · split
      · rfl
      · simp only [bind_assoc, pure_bind, finish]
    · split
      · simp only [bind_assoc, pure_bind, finish, tlsProcessing_eq_engineReplied]
      · rfl

/-- The first part of `process` does not look at the output packet. -/
theorem process_eq_intake (E : Engine) (t : TypeTls) (heap : Heap) (input output : EapPacket) :
    t.process E heap input output = t.intake E heap input >>= t.finish E output := by
  rw [process, intake, bind_assoc]
  exact congrArg _ (funext fun n => processType_eq_intakeType E t heap input output n _)

/-- What a packet can amount to, state by state. -/
inductive Took (E : Engine) (t : TypeTls) : Intake → Prop
  | reject : Took E t .reject
  | ack {t' : TypeTls} (hstate : t.state = .recv ∨ t.state.Receiving) (hrecv : t'.state.Receiving)
      (hcalls : t'.calls = t.calls) (hsize : t'.fragmentSize = t.fragmentSize)
      (hfailed : t'.failedOnce = t.failedOnce) : Took E t (.ack t')
  | resume {msg : List UInt8} {cur : ℕ} (hstate : t.state = .fragSend msg cur) :
      Took E t (.resume msg cur)
  | started {t' : TypeTls} {msg : List UInt8} (hstate : t.state = .start)
      (hreset : E.resetSsl (.resetSsl :: t.calls))
      (hcalls : t'.calls = .processMsg msg :: .resetSsl :: t.calls)
      (hsize : t'.fragmentSize = t.fragmentSize) (hfailed : t'.failedOnce = false)
      (hkeep : t'.state = .start) : Took E t (.ask t')
  | received {t' : TypeTls} {msg : List UInt8} (hstate : t.state = .recv ∨ t.state.Receiving)
      (hcalls : t'.calls = .processMsg msg :: t.calls)
      (hsize : t'.fragmentSize = t.fragmentSize) (hfailed : t'.failedOnce = t.failedOnce)
      (hkeep : t'.state = .recv ∨ t'.state.Receiving) : Took E t (.ask t')

variable {E : Engine} {t t' : TypeTls} {heap : Heap} {input output : EapPacket} {x : Intake}

/-- The intake of a classified packet, state by state. -/
theorem intakeType_took {n : ℕ} {type : PacketType}
    (h : (t.intakeType E heap input n type).result = .ok x) : Took E t x := by
  unfold intakeType at h
  split at h
  · cases h
    exact .reject
  split at h
  case h_1 hstate =>
    split at h
    · cases h
      exact .reject
    · obtain ⟨t₁, hreset, h⟩ := Exec.result_bind_eq_ok.mp h
      obtain ⟨hsound, rfl⟩ := resetSsl_result_eq_ok.mp hreset
      cases h
      exact .started hstate hsound rfl rfl rfl hstate
  case h_2 msg cur hstate =>
    split at h
    · cases h
      exact .reject
    · cases h
      exact .resume hstate
  case h_3 cur stop hstate =>
    have hrecv : t.state.Receiving := by
      rw [hstate]
      trivial
    split at h
    · split at h
      · cases h
        exact .reject
      · obtain ⟨t₁, hnext, h⟩ := Exec.result_bind_eq_ok.mp h
        obtain ⟨-, rfl⟩ := recvNext_result_eq_ok.mp hnext
        split at h
        · cases h
          exact .ack (Or.inr hrecv) trivial rfl rfl rfl
        · cases h
          exact .received (Or.inr hrecv) rfl rfl rfl (Or.inr trivial)
    · cases h
      exact .reject
  case h_4 hstate =>
    split at h
    · split at h
      · cases h
        exact .reject
      · obtain ⟨t₁, hfirst, h⟩ := Exec.result_bind_eq_ok.mp h
        obtain ⟨g, -, -, rfl⟩ := recvFirst_result_eq_ok.mp hfirst
        cases h
        exact .ack (Or.inl hstate) trivial rfl rfl rfl
    · split at h
      · obtain ⟨t₁, hfirst, h⟩ := Exec.result_bind_eq_ok.mp h
        obtain ⟨g, -, -, rfl⟩ := recvFirst_result_eq_ok.mp hfirst
        cases h
        exact .received (Or.inl hstate) rfl rfl rfl (Or.inl hstate)
      · cases h
        exact .reject

/-- The intake of a packet, state by state. -/
theorem intake_took (h : (t.intake E heap input).result = .ok x) : Took E t x := by
  obtain ⟨n, -, h⟩ := Exec.result_bind_eq_ok.mp h
  exact intakeType_took h

/-- A packet that was taken in is finished. -/
theorem process_of_intake (h : (t.intake E heap input).result = .ok x) :
    (t.process E heap input output).result = (t.finish E output x).result := by
  rw [process_eq_intake, Exec.result_bind_of_ok h]

/-- What was returned for a packet comes from what it amounted to. -/
theorem process_eq_ok {r : Ret × TypeTls × EapPacket} :
    (t.process E heap input output).result = .ok r ↔
      ∃ x, (t.intake E heap input).result = .ok x ∧ (t.finish E output x).result = .ok r := by
  rw [process_eq_intake, Exec.result_bind_eq_ok]

/-- The engine is called by a handler that sends in parts of the same size. -/
theorem fragmentSize_of_ask (h : (t.intake E heap input).result = .ok (.ask t')) :
    t'.fragmentSize = t.fragmentSize := by
  cases intake_took h with
  | started _ _ _ hsize => exact hsize
  | received _ _ hsize => exact hsize

/-- A start packet that was taken in the state `start` makes the handler call the engine. -/
theorem ask_of_tlsStart (hstate : t.state = .start)
    (hstart : classifyPacket input (pduLen input) = .tlsStart)
    (h : (t.intake E heap input).result = .ok x) : ∃ t₀, x = .ask t₀ := by
  rw [intake, Exec.result_bind_of_ok (tlsPduLen_result _), hstart] at h
  simp only [intakeType, hstate, ne_eq, not_true, if_false] at h
  obtain ⟨t₁, -, h⟩ := Exec.result_bind_eq_ok.mp h
  cases h
  exact ⟨_, rfl⟩

/-- A handler in the state `start` takes a start packet. -/
theorem intake_tlsStart (heap : Heap) (hstate : t.state = .start)
    (hstart : classifyPacket input (pduLen input) = .tlsStart)
    (hreset : E.resetSsl (.resetSsl :: t.calls)) :
    (t.intake E heap input).result = .ok (.ask
      ({ t with failedOnce := false, calls := .resetSsl :: t.calls }.asking 0)) := by
  rw [intake, Exec.result_bind_of_ok (tlsPduLen_result _), hstart]
  simp only [intakeType, hstate, ne_eq, not_true, if_false]
  exact Exec.result_bind_of_ok (resetSsl_result_eq_ok.mpr ⟨hreset, rfl⟩)

end TypeTls

end Dot1x.Eap
