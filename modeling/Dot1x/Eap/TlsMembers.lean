import Dot1x.Base.Simulation
import Dot1x.Eap.FrameLoop

/-!
# The EAP-TLS handler with its pointers

`TypeTls` carries `cur` and `end` in the two fragment states only and copies a fragment in one piece.
Here the handler has all the data members of the source: the two pointers exist in every state, and
`frame_next` is its loop. It simulates `TypeTls`. A packet it rejects has changed none of its
members and nothing of the output packet.
-/

namespace Dot1x.Eap

open Dot1x.Base Dot1x.Wire

/-- The memory a pointer of the handler points into. -/
inductive Target
  | recvBuffer
  /-- What the engine returned to be sent. -/
  | output (msg : List UInt8)

/-- A pointer of the handler. -/
structure Cursor where
  target : Target
  offset : ℕ

/-- The values of `state`. -/
inductive Phase
  | start | fragSend | fragRecv | recv
  deriving DecidableEq

/-- The data members of `type_tls`. The engine is the history of its calls. -/
structure TlsMembers where
  recvBuffer : Growable
  calls : List EngineCall
  fragmentSize : ℕ
  state : Phase
  failedOnce : Bool
  cur : Cursor
  stop : Cursor

namespace TlsMembers

/-- The receive buffer can be allocated at first. -/
theorem initialRecv_lt : TypeTls.initialRecv < 2 ^ 32 := by decide

/-- What the constructor makes of the memory it was given. It leaves the two pointers unset. -/
def fresh (m : Mem) (frags : ℕ) (cur stop : Cursor) : TlsMembers :=
  ⟨⟨TypeTls.initialRecv, m, initialRecv_lt⟩, [], frags, .start, false, cur, stop⟩

/-- The constructor. -/
def new (heap : Heap) (frags : ℕ) (cur stop : Cursor) : Call TlsMembers := do
  let m ← alloc heap TypeTls.initialRecv
  pure (fresh m frags cur stop)

/-- The bytes a pointer can reach. -/
def contents (p : TlsMembers) : Target → List UInt8
  | .recvBuffer => slice p.recvBuffer.buf 0 p.recvBuffer.size
  | .output msg => msg

def remain (p : TlsMembers) : ℕ := wrapSub p.stop.offset p.cur.offset

def frameNext (p : TlsMembers) (output : TlsPacket) : Call (TlsMembers × TlsPacket) := do
  let r ← (⟨[], (TypeTls.frameNextLoop p.fragmentSize (p.contents p.cur.target) p.cur.offset
    p.stop.offset output).result⟩ : Call (ℕ × TlsPacket))
  pure ({ p with cur := ⟨p.cur.target, r.1⟩ }, r.2)

/-- `recv_next`. The handler never writes to the memory of the engine. -/
def recvNext (p : TlsMembers) (input : TlsPacket) (len : ℕ) : Call TlsMembers :=
  match p.cur.target with
  | .recvBuffer => do
    let m ← memcpyIn p.recvBuffer.buf p.recvBuffer.size p.cur.offset input.mem input.tlsData len
    pure { p with recvBuffer := { p.recvBuffer with buf := m },
                  cur := ⟨.recvBuffer, p.cur.offset + len⟩ }
  | .output _ => Exec.fail .fault

def recvFirst (p : TlsMembers) (heap : Heap) (input : TlsPacket) (len max : ℕ) :
    Call TlsMembers := do
  let g ← p.recvBuffer.need heap max
  recvNext { p with recvBuffer := g, cur := ⟨.recvBuffer, 0⟩, stop := ⟨.recvBuffer, max⟩ } input len

/-- The output processing of `process`. -/
def sendOutput (p : TlsMembers) (out : List UInt8) (output : TlsPacket) :
    Call (Ret × TlsMembers × EapPacket) :=
  if out.length = 0 then pure (.cont, p, output) else do
    let output := output.setTlsFlags TlsPacket.lengthIncluded
    let output := EapPacket.setLen (output.setTlsLen out.length) 4
    let r ← frameNext { p with cur := ⟨.output out, 0⟩, stop := ⟨.output out, out.length⟩ } output
    pure (.cont, if r.2.moreFragments then { r.1 with state := .fragSend } else r.1, r.2)

/-- The TLS processing of `process`. -/
def tlsProcessing (E : Engine) (p : TlsMembers) (output : TlsPacket) :
    Call (Ret × TlsMembers × EapPacket) :=
  let tlsLen := p.cur.offset
  let buf := if tlsLen = 0 then write p.recvBuffer.buf 0 [0] else p.recvBuffer.buf
  let calls := .processMsg (slice buf 0 tlsLen) :: p.calls
  let p := { p with recvBuffer := { p.recvBuffer with buf := buf }, calls := calls }
  match E.processMsg calls with
  | none => Exec.fail .tlsError
  | some ⟨.success, _⟩ => pure (.cont, { p with state := .start }, TypeTls.makeAck output)
  | some ⟨.failed, out⟩ =>
    if p.failedOnce then pure (.abort, p, output)
    else sendOutput { p with failedOnce := true, state := .recv } out output
  | some ⟨.moreData, out⟩ => sendOutput { p with state := .recv } out output

/-- `tls::reset_ssl`. -/
def resetSsl (E : Engine) (p : TlsMembers) : Call TlsMembers :=
  let calls := .resetSsl :: p.calls
  if E.resetSsl calls then pure { p with calls := calls } else Exec.fail .tlsError

/-- `process` for a packet that was classified. -/
def processType (E : Engine) (p : TlsMembers) (heap : Heap) (input output : EapPacket)
    (pduLen : ℕ) : PacketType → Call (Ret × TlsMembers × EapPacket)
  | .tlsInvalid => pure (.inv, p, output)
  | type =>
    match p.state with
    | .start =>
      if type ≠ .tlsStart then pure (.inv, p, output) else do
        let p ← resetSsl E { p with failedOnce := false, cur := ⟨.recvBuffer, 0⟩,
                                    stop := ⟨.recvBuffer, 0⟩ }
        tlsProcessing E p output
    | .fragSend =>
      if type ≠ .tlsAck then pure (.inv, p, output) else do
        let output := EapPacket.setLen (TlsPacket.setTlsFlags output 0) 0
        let r ← frameNext p output
        pure (.cont, if r.2.moreFragments then r.1 else { r.1 with state := .recv }, r.2)
    | .fragRecv =>
      if type = .tlsFrag ∨ type = .tlsData then
        if p.remain < pduLen then pure (.inv, p, output) else do
          let p ← recvNext p input pduLen
          if type = .tlsFrag then pure (.cont, p, TypeTls.makeAck output)
          else tlsProcessing E p output
      else pure (.inv, p, output)
    | .recv =>
      if type = .tlsFrag then
        if ¬TlsPacket.hasLength input then pure (.inv, p, output) else do
          let p ← recvFirst p heap input pduLen (TlsPacket.tlsLen input)
          pure (.cont, { p with state := .fragRecv }, TypeTls.makeAck output)
      else if type = .tlsData then do
        let p ← recvFirst p heap input pduLen pduLen
        tlsProcessing E p output
      else pure (.inv, p, output)

/-- `type_tls::process`. -/
def process (E : Engine) (p : TlsMembers) (heap : Heap) (input output : EapPacket) :
    Call (Ret × TlsMembers × EapPacket) := do
  let pduLen ← TypeTls.tlsPduLen input
  processType E p heap input output pduLen (TypeTls.classifyPacket input pduLen)

/-- `type_tls::abort`. -/
def abort (p : TlsMembers) : TlsMembers :=
  { p with state := .start, failedOnce := false, calls := .abort :: p.calls }

variable {E : Engine} {p p' : TlsMembers} {t t' : TypeTls} {heap : Heap}
  {input output o : EapPacket} {out : List UInt8} {len max : ℕ} {type : PacketType}

/-- The two pointers are where the state of `TypeTls` has its offsets. -/
def Points (p : TlsMembers) : TlsState → Prop
  | .start => p.state = .start
  | .recv => p.state = .recv
  | .fragSend msg cur =>
    p.state = .fragSend ∧ p.cur = ⟨.output msg, cur⟩ ∧ p.stop = ⟨.output msg, msg.length⟩
  | .fragRecv cur stop =>
    p.state = .fragRecv ∧ p.cur = ⟨.recvBuffer, cur⟩ ∧ p.stop = ⟨.recvBuffer, stop⟩

/-- Only the state and the pointers matter. -/
theorem Points.congr {s : TlsState} (h : p.Points s) (hstate : p'.state = p.state)
    (hcur : p'.cur = p.cur) (hstop : p'.stop = p.stop) : p'.Points s := by
  cases s <;> simpa only [Points, hstate, hcur, hstop] using h

/-- The members other than the state and the pointers are the same. -/
structure SameData (p : TlsMembers) (t : TypeTls) : Prop where
  recvBuffer : p.recvBuffer = t.recvBuffer
  calls : p.calls = t.calls
  fragmentSize : p.fragmentSize = t.fragmentSize
  failedOnce : p.failedOnce = t.failedOnce

/-- The handler with its pointers stands for this handler. -/
structure Represents (p : TlsMembers) (t : TypeTls) : Prop extends SameData p t where
  points : p.Points t.state

/-- The same answer, and handlers that stand for each other. -/
def SameAnswer (r : Ret × TlsMembers × EapPacket) (r' : Ret × TypeTls × EapPacket) : Prop :=
  r.1 = r'.1 ∧ r.2.2 = r'.2.2 ∧ Represents r.2.1 r'.2.1

/-- Where the engine's output is what the pointers delimit, `frame_next` is `frameNext`. -/
theorem frameNext_simulates {msg : List UInt8} {cur : ℕ} {output : TlsPacket}
    (hcur : p.cur = ⟨.output msg, cur⟩) (hstop : p.stop = ⟨.output msg, msg.length⟩) :
    (frameNext p output).Simulates
      (fun r r' => r.1 = { p with cur := ⟨.output msg, r'.1⟩ } ∧ r.2 = r'.2)
      (TypeTls.frameNext p.fragmentSize msg cur output) := by
  rw [← bind_pure (TypeTls.frameNext p.fragmentSize msg cur output)]
  refine .bind (R := (· = ·)) (.of_result_eq ?_) fun r r' h => .pure ?_
  · simp only [hcur, hstop]
    exact TypeTls.frameNextLoop_result
  · subst h
    rw [hcur]
    exact ⟨rfl, rfl⟩

/-- A payload is received at an offset of the receive buffer. -/
structure Received (p p' : TlsMembers) (t t' : TypeTls) (n : ℕ) : Prop extends SameData p' t' where
  phase : p'.state = p.state
  state : t'.state = t.state
  cur : p'.cur = ⟨.recvBuffer, n⟩
  stop : p'.stop = p.stop

/-- Both receive a payload at the same offset. -/
theorem recvNext_simulates {n : ℕ} (input : EapPacket) (len : ℕ) (h : SameData p t) (hcur : p.cur = ⟨.recvBuffer, n⟩) :
    (recvNext p input len).Simulates (fun p' t' => Received p p' t t' (n + len))
      (t.recvNext n input len) := by
  rw [recvNext, hcur, TypeTls.recvNext]
  refine .bind (R := (· = ·)) (.of_result_eq (by rw [h.recvBuffer])) fun m m' hm => .pure ?_
  subst hm
  exact ⟨⟨by rw [h.recvBuffer], h.calls, h.fragmentSize, h.failedOnce⟩, rfl, rfl, rfl, rfl⟩

/-- Both receive the first payload. -/
theorem recvFirst_simulates (h : SameData p t) :
    (recvFirst p heap input len max).Simulates
      (fun p' t' => SameData p' t' ∧ (p'.state = p.state ∧ t'.state = t.state) ∧
        p'.cur = ⟨.recvBuffer, len⟩ ∧ p'.stop = ⟨.recvBuffer, max⟩)
      (t.recvFirst heap input len max) := by
  rw [recvFirst, TypeTls.recvFirst]
  refine .bind (R := (· = ·)) (.of_result_eq (by rw [h.recvBuffer])) fun g g' hg => ?_
  subst hg
  have hnext := recvNext_simulates input len
    (p := { p with recvBuffer := g, cur := ⟨.recvBuffer, 0⟩, stop := ⟨.recvBuffer, max⟩ })
    (t := { t with recvBuffer := g }) ⟨rfl, h.calls, h.fragmentSize, h.failedOnce⟩ rfl
  refine hnext.mono fun p' t' hr => ⟨hr.toSameData, ⟨hr.phase, hr.state⟩, ?_, hr.stop⟩
  rw [hr.cur, Nat.zero_add]

/-- Both send the engine's output. -/
theorem sendOutput_simulates (h : SameData p t) (hphase : p.state = .recv) (hstate : t.state = .recv) :
    (sendOutput p out output).Simulates SameAnswer (t.sendOutput out output) := by
  unfold sendOutput TypeTls.sendOutput
  split
  · exact .pure ⟨rfl, rfl, h, by rw [hstate]; exact hphase⟩
  · rw [← h.fragmentSize]
    refine .bind (frameNext_simulates rfl rfl) fun r r' hr => .pure ?_
    obtain ⟨hp, hpacket⟩ := hr
    rw [hp, ← hpacket]
    refine ⟨rfl, rfl, ?_⟩
    dsimp only
    split
    · exact ⟨⟨h.recvBuffer, h.calls, rfl, h.failedOnce⟩, rfl, rfl, rfl⟩
    · exact ⟨⟨h.recvBuffer, h.calls, h.fragmentSize, h.failedOnce⟩, by rw [hstate]; exact hphase⟩

/-- Both call the engine and deal with the reply. -/
theorem tlsProcessing_simulates {n : ℕ} (h : SameData p t) (hcur : p.cur = ⟨.recvBuffer, n⟩)
    (hpoints : p.Points t.state) :
    (tlsProcessing E p output).Simulates SameAnswer (TypeTls.tlsProcessing E t n output) := by
  simp only [tlsProcessing, TypeTls.tlsProcessing, hcur, h.recvBuffer, h.calls, h.failedOnce]
  generalize E.processMsg _ = reply
  rcases reply with _ | ⟨_ | _ | _, out⟩
  · exact .fail _
  · exact sendOutput_simulates ⟨rfl, rfl, h.fragmentSize, rfl⟩ rfl rfl
  · exact .pure ⟨rfl, rfl, ⟨rfl, rfl, h.fragmentSize, rfl⟩, rfl⟩
  · dsimp only
    split
    · exact .pure ⟨rfl, rfl, ⟨rfl, rfl, h.fragmentSize, rfl⟩, hpoints.congr rfl hcur.symm rfl⟩
    · exact sendOutput_simulates ⟨rfl, rfl, h.fragmentSize, rfl⟩ rfl rfl

/-- Both are reset. -/
private theorem resetSsl_simulates (h : SameData p t) :
    (resetSsl E p).Simulates
      (fun p' t' => SameData p' t' ∧ p'.state = p.state ∧ t'.state = t.state ∧ p'.cur = p.cur)
      (TypeTls.resetSsl E t) := by
  simp only [resetSsl, TypeTls.resetSsl, h.calls]
  split
  · exact .pure ⟨⟨h.recvBuffer, rfl, h.fragmentSize, h.failedOnce⟩, rfl, rfl, rfl⟩
  · exact .fail _

/-- A rejected packet in both. -/
theorem rejected_simulates (h : Represents p t) :
    (pure (.inv, p, output) : Call (Ret × TlsMembers × EapPacket)).Simulates SameAnswer
      (pure (.inv, t, output) : Call (Ret × TypeTls × EapPacket)) := .pure ⟨rfl, rfl, h⟩

/-- In `START` both are reset, and give the engine what is in the receive buffer. -/
private theorem processType_start (h : Represents p t) (hvalid : type ≠ .tlsInvalid)
    (hstate : t.state = .start) :
    (processType E p heap input output len type).Simulates SameAnswer
      (t.processType E heap input output len type) := by
  have hphase : p.state = .start := by
    have hpoints := h.points
    rwa [hstate] at hpoints
  rw [processType.eq_2 E p heap input output len type hvalid,
    TypeTls.processType.eq_2 E t heap input output len type hvalid, hstate, hphase]
  dsimp only
  split
  · exact rejected_simulates h
  · refine .bind (resetSsl_simulates ⟨h.recvBuffer, h.calls, h.fragmentSize, rfl⟩) fun p' t' hr => ?_
    obtain ⟨hdata, hp, ht, hcur⟩ := hr
    refine tlsProcessing_simulates hdata hcur ?_
    rw [ht]
    exact hp

/-- In `FRAG_SEND` both frame the next fragment. -/
private theorem processType_fragSend {msg : List UInt8} {cur : ℕ} (h : Represents p t)
    (hvalid : type ≠ .tlsInvalid) (hstate : t.state = .fragSend msg cur) :
    (processType E p heap input output len type).Simulates SameAnswer
      (t.processType E heap input output len type) := by
  obtain ⟨hphase, hcur, hstop⟩ : p.Points (.fragSend msg cur) := hstate ▸ h.points
  rw [processType.eq_2 E p heap input output len type hvalid,
    TypeTls.processType.eq_2 E t heap input output len type hvalid, hstate, hphase,
    ← h.fragmentSize]
  dsimp only
  split
  · exact rejected_simulates h
  · refine .bind (frameNext_simulates hcur hstop) fun r r' hr => .pure ?_
    obtain ⟨hp, hpacket⟩ := hr
    rw [hp, ← hpacket]
    refine ⟨rfl, rfl, ?_⟩
    dsimp only
    split
    · exact ⟨⟨h.recvBuffer, h.calls, rfl, h.failedOnce⟩, hphase, rfl, hstop⟩
    · exact ⟨⟨h.recvBuffer, h.calls, rfl, h.failedOnce⟩, rfl⟩

/-- In `FRAG_RECV` both receive the next fragment, and give the engine what they have when it is the
last one. -/
private theorem processType_fragRecv {cur stop : ℕ} (h : Represents p t)
    (hvalid : type ≠ .tlsInvalid) (hstate : t.state = .fragRecv cur stop) :
    (processType E p heap input output len type).Simulates SameAnswer
      (t.processType E heap input output len type) := by
  obtain ⟨hphase, hcur, hstop⟩ : p.Points (.fragRecv cur stop) := hstate ▸ h.points
  have hremain : p.remain = wrapSub stop cur := by rw [remain, hcur, hstop]
  rw [processType.eq_2 E p heap input output len type hvalid,
    TypeTls.processType.eq_2 E t heap input output len type hvalid, hstate, hphase, hremain]
  dsimp only
  split
  · split
    · exact rejected_simulates h
    · refine .bind (recvNext_simulates _ _ h.toSameData hcur) fun p' t' hr => ?_
      have hafter : p'.Points (.fragRecv (cur + len) stop) :=
        ⟨hr.phase.trans hphase, hr.cur, hr.stop.trans hstop⟩
      have hdata : SameData p' { t' with state := .fragRecv (cur + len) stop } :=
        ⟨hr.recvBuffer, hr.calls, hr.fragmentSize, hr.failedOnce⟩
      split
      · exact .pure ⟨rfl, rfl, hdata, hafter⟩
      · exact tlsProcessing_simulates hdata hr.cur hafter
  · exact rejected_simulates h

/-- In `RECV` both receive a whole message, or the first fragment of one. -/
private theorem processType_recv (h : Represents p t) (hvalid : type ≠ .tlsInvalid)
    (hstate : t.state = .recv) :
    (processType E p heap input output len type).Simulates SameAnswer
      (t.processType E heap input output len type) := by
  have hphase : p.state = .recv := by
    have hpoints := h.points
    rwa [hstate] at hpoints
  rw [processType.eq_2 E p heap input output len type hvalid,
    TypeTls.processType.eq_2 E t heap input output len type hvalid, hstate, hphase]
  dsimp only
  split
  · split
    · exact rejected_simulates h
    · refine .bind (recvFirst_simulates h.toSameData) fun p' t' hr => .pure ?_
      obtain ⟨hdata, -, hcur, hstop⟩ := hr
      exact ⟨rfl, rfl, ⟨hdata.recvBuffer, hdata.calls, hdata.fragmentSize, hdata.failedOnce⟩, rfl,
        hcur, hstop⟩
  · split
    · refine .bind (recvFirst_simulates h.toSameData) fun p' t' hr => ?_
      obtain ⟨hdata, ⟨hp, ht⟩, hcur, -⟩ := hr
      refine tlsProcessing_simulates hdata hcur ?_
      rw [ht, hstate]
      exact hp.trans hphase
    · exact rejected_simulates h

/-- Handlers that stand for each other do so after they have dealt with a packet, and answer alike. -/
theorem processType_simulates (h : Represents p t) :
    (processType E p heap input output len type).Simulates SameAnswer
      (t.processType E heap input output len type) := by
  by_cases hvalid : type = .tlsInvalid
  · subst hvalid
    exact rejected_simulates h
  cases hstate : t.state with
  | start => exact processType_start h hvalid hstate
  | fragSend => exact processType_fragSend h hvalid hstate
  | fragRecv => exact processType_fragRecv h hvalid hstate
  | recv => exact processType_recv h hvalid hstate

/-- The handler with its pointers answers as `TypeTls` does. -/
theorem process_simulates (h : Represents p t) :
    (p.process E heap input output).Simulates SameAnswer (t.process E heap input output) := by
  refine .bind (R := (· = ·)) (.of_result_eq rfl) fun n n' hn => ?_
  subst hn
  exact processType_simulates h

/-- So do the constructor and `abort`. -/
theorem new_simulates (heap : Heap) (frags : ℕ) (cur stop : Cursor) :
    (new heap frags cur stop).Simulates Represents (TypeTls.new heap frags) := by
  refine .bind (R := (· = ·)) (.of_result_eq rfl) fun m m' hm => .pure ?_
  subst hm
  exact ⟨⟨rfl, rfl, rfl, rfl⟩, rfl⟩

/-- Both are aborted. -/
theorem abort_represents (h : Represents p t) : Represents p.abort t.abort :=
  ⟨⟨h.recvBuffer, congrArg _ h.calls, h.fragmentSize, rfl⟩, rfl⟩

/-! A packet is rejected before anything was done with it. -/

/-- Whatever is returned with `ret_inv` is what the call began with. -/
def Harmless (p : TlsMembers) (output : EapPacket) (r : Ret × TlsMembers × EapPacket) : Prop :=
  r.1 = .inv → r.2 = (p, output)

/-- Sending output goes on. -/
theorem sendOutput_cont {r : Ret × TlsMembers × EapPacket}
    (h : (sendOutput p out output).result = .ok r) : r.1 = .cont := by
  unfold sendOutput at h
  split at h
  · cases h
    rfl
  · obtain ⟨_, -, hrest⟩ := Exec.result_bind_eq_ok.mp h
    cases hrest
    rfl

/-- Once the engine was asked the packet is not rejected. -/
private theorem tlsProcessing_ne_inv {r : Ret × TlsMembers × EapPacket}
    (h : (tlsProcessing E p output).result = .ok r) : r.1 ≠ .inv := by
  simp only [tlsProcessing] at h
  generalize E.processMsg _ = reply at h
  rcases reply with _ | ⟨_ | _ | _, sent⟩
  · cases h
  · simp [sendOutput_cont h]
  · cases h
    simp
  · dsimp only at h
    split at h
    · cases h
      simp
    · simp [sendOutput_cont h]

/-- A rejected packet changes nothing, in any state. -/
theorem harmless_processType : (processType E p heap input output len type).Sat (fun _ => True)
    (Harmless p output) := by
  have hrejected : (pure (.inv, p, output) : Call _).Sat (fun _ => True) (Harmless p output) :=
    .pure fun _ => rfl
  have hanswered (q : TlsMembers) (o : EapPacket) :
      (pure (.cont, q, o) : Call _).Sat (fun _ => True) (Harmless p output) := .pure (by simp [Harmless])
  have hasked (q : TlsMembers) : (tlsProcessing E q output).Sat (fun _ => True) (Harmless p output) :=
    ⟨fun _ _ => trivial, fun r hr hinv => absurd hinv (tlsProcessing_ne_inv hr)⟩
  have hfirst {α : Type} (x : Call α) : x.Sat (fun _ => True) fun _ => True :=
    ⟨fun _ _ => trivial, fun _ _ => trivial⟩
  by_cases hvalid : type = .tlsInvalid
  · subst hvalid
    exact hrejected
  rw [processType.eq_2 E p heap input output len type hvalid]
  cases p.state with
  | start =>
    dsimp only
    split
    · exact hrejected
    · exact (hfirst _).bind fun q _ => hasked q
  | fragSend =>
    dsimp only
    split
    · exact hrejected
    · exact (hfirst _).bind fun r _ => hanswered _ _
  | fragRecv =>
    dsimp only
    split
    · split
      · exact hrejected
      · refine (hfirst _).bind fun q _ => ?_
        split
        · exact hanswered _ _
        · exact hasked q
    · exact hrejected
  | recv =>
    dsimp only
    split
    · split
      · exact hrejected
      · exact (hfirst _).bind fun q _ => hanswered _ _
    · split
      · exact (hfirst _).bind fun q _ => hasked q
      · exact hrejected

end TlsMembers

/-- In every state and for every packet: what EAP-TLS rejects has changed none of the members of the
handler, was not shown to the engine, and has left the output packet alone. -/
theorem tls_rejected_harmless (E : Engine) (p p' : TlsMembers) (heap : Heap)
    (input output o : EapPacket) (h : (p.process E heap input output).result = .ok (.inv, p', o)) :
    p' = p ∧ o = output := by
  obtain ⟨n, -, hres⟩ := Exec.result_bind_eq_ok.mp h
  exact Prod.mk.inj (TlsMembers.harmless_processType.value _ hres rfl)

/-- A fresh handler is sent a packet with all the flags. -/
theorem tls_rejected_harmless_fresh :
    ∃ p' o, ((TlsMembers.fresh (fun _ => 0) 200 ⟨.recvBuffer, 0⟩ ⟨.output [], 0⟩).process
        ⟨fun _ => true, fun _ => none⟩ (fun _ => none) ⟨fun _ => 255, 0⟩ ⟨fun _ => 1, 0⟩).result =
          .ok (.inv, p', o) ∧
      p' = TlsMembers.fresh (fun _ => 0) 200 ⟨.recvBuffer, 0⟩ ⟨.output [], 0⟩ ∧
      o = ⟨fun _ => 1, 0⟩ :=
  ⟨_, _, rfl, tls_rejected_harmless ⟨fun _ => true, fun _ => none⟩ _ _ (fun _ => none)
    ⟨fun _ => 255, 0⟩ _ _ rfl⟩

end Dot1x.Eap
