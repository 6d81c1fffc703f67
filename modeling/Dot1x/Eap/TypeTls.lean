import Dot1x.Eap.Process
import Dot1x.Wire.TlsPacket

/-!
# The EAP-TLS handler

The handler reassembles the fragments of a TLS message in its receive buffer, hands the message
to the TLS engine and sends the engine's answer in fragments. The pointers `cur` and `end` are
live in the two fragment states only, so these states carry them: as offsets into the receive
buffer while a message is received, and into the engine's output while one is sent.

The engine is arbitrary. It sees nothing but the calls made to it, so its state is the list of
these calls and its answer to a call is a function of that list.
-/

namespace Dot1x.Eap

open Dot1x.Base Dot1x.Wire

/-- A call the handler makes to the TLS engine. -/
inductive EngineCall
  | resetSsl
  | processMsg (msg : List UInt8)
  | abort
  deriving DecidableEq

/-- Return codes of `tls::process_msg`. -/
inductive EngineRet
  | moreData | success | failed
  deriving DecidableEq

/-- What `tls::process_msg` returns: a code and the bytes to be sent. -/
structure Reply where
  rc : EngineRet
  out : List UInt8

/-- A TLS engine: how it answers the latest of the calls made to it, newest first, or that it
throws. -/
structure Engine where
  resetSsl : List EngineCall → Bool
  processMsg : List EngineCall → Option Reply

/-- Where the exchange of messages stands. -/
inductive TlsState
  | start
  | fragSend (msg : List UInt8) (cur : ℕ)
  | fragRecv (cur stop : ℕ)
  | recv
  deriving DecidableEq

/-- The handler is receiving the fragments of a message. -/
def TlsState.Receiving : TlsState → Prop
  | .fragRecv _ _ => True
  | _ => False

/-- The kinds of packets the handler tells apart. -/
inductive PacketType
  | tlsStart | tlsAck | tlsFrag | tlsData | tlsInvalid
  deriving DecidableEq

/-- The data members of `type_tls`, with the history of the engine. -/
structure TypeTls where
  recvBuffer : Growable
  calls : List EngineCall
  fragmentSize : ℕ
  state : TlsState
  failedOnce : Bool

namespace TypeTls

/-- Room for a message before the receive buffer has to grow. -/
def initialRecv : ℕ := 1024

/-- The constructor. -/
def new (heap : Heap) (frags : ℕ) : Call TypeTls := do
  let m ← alloc heap initialRecv
  pure ⟨⟨initialRecv, m, by decide⟩, [], frags, .start, false⟩

def wantThis (input : EapPacket) : Want :=
  if input.type = TlsPacket.eapType then .iWillAuth else .notMe

/-- Offer EAP-TLS in a Nak. -/
def nakIt (output : EapPacket) : EapPacket :=
  EapPacket.setLen (EapPacket.storeData output 0 [UInt8.ofNat TlsPacket.eapType]) 1

/-- `tls_packet::tls_pdu_len`. -/
def tlsPduLen (p : TlsPacket) : Call ℕ := do
  let n ← subSize p.len EapPacket.headerLen
  let total ← subSize n 1
  if p.hasLength then subSize total 4 else pure total

def classifyPacket (p : TlsPacket) (len : ℕ) : PacketType :=
  if p.tlsFlags = 0 then if len = 0 then .tlsAck else .tlsData
  else if p.tlsFlags = TlsPacket.eaptlsStart then if len = 0 then .tlsStart else .tlsInvalid
  else if p.tlsFlags = TlsPacket.moreFrags then .tlsFrag
  else if p.tlsFlags = TlsPacket.moreFrags + TlsPacket.lengthIncluded then .tlsFrag
  else if p.tlsFlags = TlsPacket.lengthIncluded then .tlsData
  else .tlsInvalid

/-- An answer without a payload. -/
def makeAck (output : TlsPacket) : TlsPacket := EapPacket.setLen (output.setTlsFlags 0) 1

/-- How much of what remains goes into the next fragment. -/
def chunkLen (fragmentSize remain : ℕ) : ℕ :=
  if remain ≤ fragmentSize then remain else fragmentSize

/-- Copy the next bytes of a message into an output packet that is complete but for its payload.
The loop of the source copies before it tests, so it runs away when there is nothing to copy. -/
def frameNext (fragmentSize : ℕ) (msg : List UInt8) (cur : ℕ) (output : TlsPacket) :
    Call (ℕ × TlsPacket) :=
  let n := chunkLen fragmentSize (msg.length - cur)
  if n = 0 then Exec.fail .fault else
  let output := { output with mem := write output.mem output.tlsData ((msg.drop cur).take n) }
  let output :=
    if cur + n ≠ msg.length then TlsPacket.orTlsFlags output TlsPacket.moreFrags else output
  pure (cur + n, EapPacket.addLen output (n + 1))

/-- Append a payload at an offset of the receive buffer. -/
def recvNext (t : TypeTls) (cur : ℕ) (p : TlsPacket) (len : ℕ) : Call TypeTls := do
  let m ← memcpyIn t.recvBuffer.buf t.recvBuffer.size cur p.mem p.tlsData len
  pure { t with recvBuffer := { t.recvBuffer with buf := m } }

/-- Begin a message of a given total length with a payload. -/
def recvFirst (t : TypeTls) (heap : Heap) (p : TlsPacket) (len max : ℕ) : Call TypeTls := do
  let g ← t.recvBuffer.need heap max
  recvNext { t with recvBuffer := g } 0 p len

/-- Send what the engine returned, in fragments where it is too long. -/
def sendOutput (t : TypeTls) (out : List UInt8) (output : TlsPacket) :
    Call (Ret × TypeTls × EapPacket) :=
  if out.length = 0 then pure (.cont, t, output) else do
    let output := output.setTlsFlags TlsPacket.lengthIncluded
    let output := EapPacket.setLen (output.setTlsLen out.length) 4
    let r ← frameNext t.fragmentSize out 0 output
    pure (.cont, if r.2.moreFragments then { t with state := .fragSend out r.1 } else t, r.2)

/-- Hand the first bytes of the receive buffer to the engine and act on its answer. -/
def tlsProcessing (E : Engine) (t : TypeTls) (tlsLen : ℕ) (output : TlsPacket) :
    Call (Ret × TypeTls × EapPacket) :=
  let buf := if tlsLen = 0 then write t.recvBuffer.buf 0 [0] else t.recvBuffer.buf
  let calls := .processMsg (slice buf 0 tlsLen) :: t.calls
  let t := { t with recvBuffer := { t.recvBuffer with buf := buf }, calls := calls }
  match E.processMsg calls with
  | none => Exec.fail .tlsError
  | some ⟨.success, _⟩ => pure (.cont, { t with state := .start }, makeAck output)
  | some ⟨.failed, out⟩ =>
    if t.failedOnce then pure (.abort, t, output)
    else sendOutput { t with failedOnce := true, state := .recv } out output
  | some ⟨.moreData, out⟩ => sendOutput { t with state := .recv } out output

/-- `tls::reset_ssl`. -/
def resetSsl (E : Engine) (t : TypeTls) : Call TypeTls :=
  let calls := .resetSsl :: t.calls
  if E.resetSsl calls then pure { t with calls := calls } else Exec.fail .tlsError

/-- `process` for a packet that was classified. -/
def processType (E : Engine) (t : TypeTls) (heap : Heap) (input output : EapPacket) (pduLen : ℕ) :
    PacketType → Call (Ret × TypeTls × EapPacket)
  | .tlsInvalid => pure (.inv, t, output)
  | type =>
    match t.state with
    | .start =>
      if type ≠ .tlsStart then pure (.inv, t, output) else do
        let t ← resetSsl E { t with failedOnce := false }
        tlsProcessing E t 0 output
    | .fragSend msg cur =>
      if type ≠ .tlsAck then pure (.inv, t, output) else do
        let output := EapPacket.setLen (TlsPacket.setTlsFlags output 0) 0
        let r ← frameNext t.fragmentSize msg cur output
        let state := if r.2.moreFragments then .fragSend msg r.1 else .recv
        pure (.cont, { t with state := state }, r.2)
    | .fragRecv cur stop =>
      if type = .tlsFrag ∨ type = .tlsData then
        if wrapSub stop cur < pduLen then pure (.inv, t, output) else do
          let t ← recvNext t cur input pduLen
          let t := { t with state := .fragRecv (cur + pduLen) stop }
          if type = .tlsFrag then pure (.cont, t, makeAck output)
          else tlsProcessing E t (cur + pduLen) output
      else pure (.inv, t, output)
    | .recv =>
      if type = .tlsFrag then
        if ¬TlsPacket.hasLength input then pure (.inv, t, output) else do
          let max := TlsPacket.tlsLen input
          let t ← recvFirst t heap input pduLen max
          pure (.cont, { t with state := .fragRecv pduLen max }, makeAck output)
      else if type = .tlsData then do
        let t ← recvFirst t heap input pduLen pduLen
        tlsProcessing E t pduLen output
      else pure (.inv, t, output)

def process (E : Engine) (t : TypeTls) (heap : Heap) (input output : EapPacket) :
    Call (Ret × TypeTls × EapPacket) := do
  let pduLen ← tlsPduLen input
  processType E t heap input output pduLen (classifyPacket input pduLen)

def abort (t : TypeTls) : TypeTls :=
  { t with state := .start, failedOnce := false, calls := .abort :: t.calls }

/-- The payload length of a packet as `tls_pdu_len` returns it. -/
def pduLen (p : TlsPacket) : ℕ :=
  let total := wrapSub (wrapSub p.len EapPacket.headerLen) 1
  if p.hasLength then wrapSub total 4 else total

/-- The length of the payload, as `tls_pdu_len` returns it. -/
@[simp] theorem tlsPduLen_result (p : TlsPacket) : (tlsPduLen p).result = .ok (pduLen p) := by
  rw [tlsPduLen, pduLen, Exec.result_bind_of_ok (subSize_result _ _),
    Exec.result_bind_of_ok (subSize_result _ _)]
  split <;> rfl

/-- The differences that `tls_pdu_len` takes: two or three, by the flag for a length. -/
theorem tlsPduLen_log (p : TlsPacket) :
    (tlsPduLen p).log =
      [.sub p.len EapPacket.headerLen, .sub (wrapSub p.len EapPacket.headerLen) 1] ++
      if p.hasLength then [.sub (wrapSub (wrapSub p.len EapPacket.headerLen) 1) 4] else [] := by
  rw [tlsPduLen, Exec.log_bind_of_ok (subSize_result _ _), Exec.log_bind_of_ok (subSize_result _ _)]
  split <;> rfl

/-- The length of a payload can be represented. -/
theorem pduLen_lt (p : TlsPacket) : pduLen p < 2 ^ 32 := by
  have hlt (a b : ℕ) (ha : a < 2 ^ 32) : wrapSub a b < 2 ^ 32 := by
    unfold wrapSub
    split <;> omega
  have hlen := p.len_lt
  have htotal := hlt _ 1 (hlt p.len EapPacket.headerLen (by omega))
  unfold pduLen
  split
  · exact hlt _ _ htotal
  · exact htotal

/-- Processing a packet is processing it as what it was classified. -/
theorem process_result {E : Engine} {t : TypeTls} {heap : Heap} {input output : EapPacket} :
    (t.process E heap input output).result =
      (t.processType E heap input output (pduLen input)
        (classifyPacket input (pduLen input))).result :=
  Exec.result_bind_of_ok (tlsPduLen_result input)

/-- What is logged is the length of the payload, and then what its kind brings. -/
theorem process_log {E : Engine} {t : TypeTls} {heap : Heap} {input output : EapPacket} :
    (t.process E heap input output).log = (tlsPduLen input).log ++
      (t.processType E heap input output (pduLen input)
        (classifyPacket input (pduLen input))).log :=
  Exec.log_bind_of_ok (tlsPduLen_result input)

/-- Framing logs nothing. -/
@[simp] theorem frameNext_log (fragmentSize : ℕ) (msg : List UInt8) (cur : ℕ)
    (output : TlsPacket) : (frameNext fragmentSize msg cur output).log = [] := by
  simp only [frameNext]
  split <;> rfl

/-- Sending output logs nothing. -/
@[simp] theorem sendOutput_log (t : TypeTls) (out : List UInt8) (output : TlsPacket) :
    (t.sendOutput out output).log = [] := by
  unfold sendOutput
  split
  · rfl
  · refine List.eq_nil_iff_forall_not_mem.mpr (Exec.forall_log_bind ?_ fun _ _ => ?_) <;> simp

/-- Calling the engine logs nothing. -/
@[simp] theorem tlsProcessing_log (E : Engine) (t : TypeTls) (tlsLen : ℕ) (output : TlsPacket) :
    (tlsProcessing E t tlsLen output).log = [] := by
  simp only [tlsProcessing]
  split
  · rfl
  · rfl
  · split
    · rfl
    · exact sendOutput_log ..
  · exact sendOutput_log ..

/-- Resetting logs nothing. -/
@[simp] theorem resetSsl_log (E : Engine) (t : TypeTls) : (resetSsl E t).log = [] := by
  simp only [resetSsl]
  split <;> rfl

/-- The handler is reset where the engine can be. -/
theorem resetSsl_result_eq_ok {E : Engine} {t t' : TypeTls} :
    (resetSsl E t).result = .ok t' ↔
      E.resetSsl (.resetSsl :: t.calls) ∧ t' = { t with calls := .resetSsl :: t.calls } := by
  simp only [resetSsl]
  split <;> simp [*, eq_comm]

/-- Receiving a payload logs the copy. -/
@[simp] theorem recvNext_log (t : TypeTls) (cur : ℕ) (p : TlsPacket) (len : ℕ) :
    (t.recvNext cur p len).log = [.copyIn len cur t.recvBuffer.size] := by
  rw [recvNext]
  cases h : (memcpyIn t.recvBuffer.buf t.recvBuffer.size cur p.mem p.tlsData len).result with
  | ok m => rw [Exec.log_bind_of_ok h, memcpyIn_log]; rfl
  | error e => rw [Exec.log_bind_of_error h, memcpyIn_log]

/-- A payload that was appended fits behind the offset. -/
theorem recvNext_result_eq_ok {t t' : TypeTls} {cur len : ℕ} {p : TlsPacket} :
    (t.recvNext cur p len).result = .ok t' ↔
      cur + len ≤ t.recvBuffer.size ∧ t' = { t with recvBuffer := { t.recvBuffer with
        buf := write t.recvBuffer.buf cur (slice p.mem p.tlsData len) } } := by
  rw [recvNext, Exec.result_bind_eq_ok]
  simp only [memcpyIn_result_eq_ok, Exec.result_pure, Except.ok.injEq, and_assoc, exists_and_left,
    exists_eq_left, eq_comm]

/-- A message was begun in a granted buffer that has room for its first payload. -/
theorem recvFirst_result_eq_ok {t t' : TypeTls} {heap : Heap} {p : TlsPacket} {len max : ℕ} :
    (t.recvFirst heap p len max).result = .ok t' ↔
      ∃ g, (t.recvBuffer.need heap max).result = .ok g ∧ len ≤ g.size ∧
        t' = { t with recvBuffer := { g with
          buf := write g.buf 0 (slice p.mem p.tlsData len) } } := by
  rw [recvFirst, Exec.result_bind_eq_ok]
  simp only [recvNext_result_eq_ok, Nat.zero_add]

/-- Sending the engine's output concerns neither the receive buffer nor the engine. -/
theorem sendOutput_result_eq_ok {t t' : TypeTls} {out : List UInt8} {output o : TlsPacket} {rc : Ret}
    (h : (t.sendOutput out output).result = .ok (rc, t', o)) :
    t'.recvBuffer = t.recvBuffer ∧ t'.calls = t.calls ∧
      (t'.state = t.state ∨ ¬t'.state.Receiving) := by
  unfold sendOutput at h
  split at h
  · cases h
    exact ⟨rfl, rfl, Or.inl rfl⟩
  · obtain ⟨r, -, h⟩ := Exec.result_bind_eq_ok.mp h
    cases h
    split
    · exact ⟨rfl, rfl, Or.inr id⟩
    · exact ⟨rfl, rfl, Or.inl rfl⟩

/-- Handing a message to the engine is one more call to it. Afterwards the handler is in another
state, which is not the one of receiving fragments, unless it gave up. -/
theorem tlsProcessing_result_eq_ok {E : Engine} {t t' : TypeTls} {n : ℕ} {output o : TlsPacket}
    {rc : Ret} (h : (tlsProcessing E t n output).result = .ok (rc, t', o)) :
    t'.recvBuffer.size = t.recvBuffer.size ∧ t'.calls.length = t.calls.length + 1 ∧
      (t'.state = t.state ∧ rc = .abort ∨ ¬t'.state.Receiving) := by
  simp only [tlsProcessing] at h
  split at h
  · cases h
  · cases h
    exact ⟨rfl, rfl, Or.inr id⟩
  · split at h
    · cases h
      exact ⟨rfl, rfl, Or.inl ⟨rfl, rfl⟩⟩
    · obtain ⟨hbuf, hcalls, hstate⟩ := sendOutput_result_eq_ok h
      refine ⟨by rw [hbuf], by rw [hcalls]; rfl, Or.inr ?_⟩
      rcases hstate with hsame | hother
      · rw [hsame]
        exact id
      · exact hother
  · obtain ⟨hbuf, hcalls, hstate⟩ := sendOutput_result_eq_ok h
    refine ⟨by rw [hbuf], by rw [hcalls]; rfl, Or.inr ?_⟩
    rcases hstate with hsame | hother
    · rw [hsame]
      exact id
    · exact hother

/-! What is written of the output packet. -/

/-- An acknowledgement keeps the head of the packet. -/
theorem sameHead_makeAck (output : TlsPacket) : output.SameHead (makeAck output) :=
  (output.sameHead_setTlsFlags 0).trans (.setLen _ _)

/-- Framing keeps the head of the packet. -/
theorem sameHead_frameNext {fragmentSize : ℕ} {msg : List UInt8} {cur : ℕ} {output : TlsPacket}
    {r : ℕ × TlsPacket} (h : (frameNext fragmentSize msg cur output).result = .ok r) :
    output.SameHead r.2 := by
  simp only [frameNext] at h
  split at h
  · cases h
  · cases h
    refine .trans ?_ (.addLen _ _)
    have hcopy (bs : List UInt8) :
        output.SameHead { output with mem := write output.mem output.tlsData bs } :=
      .write (Or.inr output.headerLen_le_tlsData)
    split
    · exact (hcopy _).trans (TlsPacket.sameHead_orTlsFlags _ _)
    · exact hcopy _

/-- Sending output keeps the head of the packet. -/
theorem sameHead_sendOutput {t : TypeTls} {out : List UInt8} {output : TlsPacket}
    {r : Ret × TypeTls × EapPacket} (h : (t.sendOutput out output).result = .ok r) :
    output.SameHead r.2.2 := by
  unfold sendOutput at h
  split at h
  · cases h
    exact .refl _
  · obtain ⟨p, hframe, h⟩ := Exec.result_bind_eq_ok.mp h
    cases h
    exact ((TlsPacket.sameHead_setTlsFlags _ _).trans
      ((TlsPacket.sameHead_setTlsLen _ _).trans (.setLen _ _))).trans (sameHead_frameNext hframe)

/-- Calling the engine keeps the head of the packet. -/
theorem sameHead_tlsProcessing {E : Engine} {t : TypeTls} {n : ℕ} {output : TlsPacket}
    {r : Ret × TypeTls × EapPacket} (h : (tlsProcessing E t n output).result = .ok r) :
    output.SameHead r.2.2 := by
  simp only [tlsProcessing] at h
  split at h
  · cases h
  · cases h
    exact sameHead_makeAck _
  · split at h
    · cases h
      exact .refl _
    · exact sameHead_sendOutput h
  · exact sameHead_sendOutput h

/-- Whatever kind of packet came, only the length and the type data are written. -/
theorem sameHead_processType (E : Engine) (t : TypeTls) (heap : Heap) (input output : EapPacket)
    (n : ℕ) (type : PacketType) :
    (t.processType E heap input output n type).Sat (fun _ => True)
      fun r => output.SameHead r.2.2 := by
  have hkeep (rc : Ret) (t' : TypeTls) : (pure (rc, t', output) : Call _).Sat (fun _ => True)
      fun r => output.SameHead r.2.2 := .pure (.refl output)
  have hack (rc : Ret) (t' : TypeTls) : (pure (rc, t', makeAck output) : Call _).Sat (fun _ => True)
      fun r => output.SameHead r.2.2 := .pure (sameHead_makeAck output)
  have hengine (t' : TypeTls) (k : ℕ) : (tlsProcessing E t' k output).Sat (fun _ => True)
      fun r => output.SameHead r.2.2 := ⟨fun _ _ => trivial, fun _ => sameHead_tlsProcessing⟩
  have hfirst {α : Type} (x : Call α) : x.Sat (fun _ => True) fun a => x.result = .ok a :=
    .of_effects fun _ _ => trivial
  unfold processType
  split
  · exact hkeep ..
  split
  · split
    · exact hkeep ..
    · exact (hfirst _).bind fun _ _ => hengine ..
  · split
    · exact hkeep ..
    · refine (hfirst _).bind fun r hr => .pure ?_
      exact ((TlsPacket.sameHead_setTlsFlags output 0).trans (.setLen _ _)).trans
        (sameHead_frameNext hr)
  · split
    · split
      · exact hkeep ..
      · refine (hfirst _).bind fun _ _ => ?_
        split
        · exact hack ..
        · exact hengine ..
    · exact hkeep ..
  · split
    · split
      · exact hkeep ..
      · exact (hfirst _).bind fun _ _ => hack ..
    · split
      · exact (hfirst _).bind fun _ _ => hengine ..
      · exact hkeep ..

/-- The handler keeps the head of the packet, which is written by the layer above. -/
theorem sameHead_process {E : Engine} {t : TypeTls} {heap : Heap} {input output : EapPacket}
    {r : Ret × TypeTls × EapPacket} (h : (t.process E heap input output).result = .ok r) :
    output.SameHead r.2.2 := by
  rw [process_result] at h
  exact (sameHead_processType ..).value r h

end TypeTls

end Dot1x.Eap
