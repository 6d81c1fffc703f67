import Dot1x.Eap.Handlers

/-!
# Short packets

Each handler subtracts the sizes of its own headers from the length of the packet, and no layer
states a minimum: the link layer compares two length fields, and the EAP layer chooses a handler
by a type byte that may lie behind the packet. So the computations of a handler stay in range
exactly when the packet is as long as its headers.
-/

namespace Dot1x.Eap

open Dot1x.Base Dot1x.Wire

/-- An effect is harmless for a packet of a given length: a difference does not go below zero, a
size that is asked for can be represented, and no more is copied than the packet has. -/
def Effect.Harmless (len : ℕ) : Effect → Prop
  | .sub a b => b ≤ a
  | .need n => n < 2 ^ 32
  | .copyIn n _ _ => n ≤ len
  | .notice _ => True

/-- All effects of a call are harmless. -/
def Harmless {α : Type} (len : ℕ) (x : Call α) : Prop := ∀ e ∈ x.log, e.Harmless len

/-- The least length with which a handler can deal. -/
def Handler.minimumLen : Handler → EapPacket → ℕ
  | .notification, _ => 5
  | .identity _, _ => 0
  | .md5 _, _ => 6
  | .tls _, input => if TlsPacket.hasLength input then 10 else 6

/-- Aborting a handler keeps the length it relies on. -/
theorem Handler.minimumLen_abort (h : Handler) : h.abort.minimumLen = h.minimumLen := by
  cases h <;> rfl

variable {α β : Type} {len : ℕ} {input output : EapPacket} {heap : Heap}

/-- A call that goes on is harmless when both parts are. -/
theorem Harmless.bind {x : Call α} {f : α → Call β} (hx : Harmless len x)
    (hf : ∀ a, x.result = .ok a → Harmless len (f a)) : Harmless len (x >>= f) :=
  Exec.forall_log_bind hx hf

/-- A call that goes on is harmless only when its first part is. -/
theorem Harmless.of_bind {x : Call α} {f : α → Call β} (h : Harmless len (x >>= f)) :
    Harmless len x :=
  fun e he => h e (Exec.mem_log_bind_left he)

/-- What comes after a part that returned is harmless as well. -/
theorem Harmless.of_bind_ok {x : Call α} {f : α → Call β} {a : α} (h : Harmless len (x >>= f))
    (hx : x.result = .ok a) : Harmless len (f a) := by
  intro e he
  exact h e (by rw [Exec.log_bind_of_ok hx]; exact List.mem_append_right _ he)

/-- A difference is harmless if it does not go below zero. -/
theorem harmless_subSize {a b : ℕ} : Harmless len (subSize a b) ↔ b ≤ a := by
  simp [Harmless, Effect.Harmless]

/-- One effect is harmless if it is. -/
private theorem harmless_tell {e : Effect} :
    Harmless len (Exec.tell e : Call Unit) ↔ e.Harmless len := by
  simp [Harmless]

/-- A copy is harmless if the packet has as many bytes. -/
theorem harmless_memcpyIn {block input : Mem} {size off src n : ℕ} :
    Harmless len (memcpyIn block size off input src n) ↔ n ≤ len := by
  simp [Harmless, Effect.Harmless]

/-- Asking for a size is harmless if it can be represented. -/
theorem harmless_need {g : Growable} {what : ℕ} :
    Harmless len (g.need heap what) ↔ what < 2 ^ 32 := by
  simp only [Harmless, Growable.need_log, List.mem_singleton, forall_eq, Effect.Harmless]

/-- A call without effects is harmless. -/
theorem harmless_of_log_nil {x : Call α} (h : x.log = []) : Harmless len x := by
  simp [Harmless, h]

namespace TypeNotification

/-- Identity and Notification read the header and the type. -/
theorem process_harmless_iff :
    Harmless input.len (process heap input output) ↔ 5 ≤ input.len := by
  constructor
  · exact fun h => harmless_subSize.mp h.of_bind
  · intro hlen
    refine Harmless.bind (harmless_subSize.mpr hlen) fun n hn => ?_
    cases hn
    have hcut : wrapSub input.len EapPacket.headerLen = input.len - 5 := wrapSub_of_le hlen
    rw [hcut]
    split
    · refine Harmless.bind (harmless_of_log_nil (alloc_log ..)) fun m _ => ?_
      refine Harmless.bind (harmless_memcpyIn.mpr (Nat.sub_le ..)) fun _ _ => ?_
      exact Harmless.bind (harmless_tell.mpr trivial) fun _ _ => harmless_of_log_nil rfl
    · exact harmless_of_log_nil rfl

end TypeNotification

namespace TypeMd5

/-- MD5 reads the size of the value as well. -/
theorem process_harmless_iff {digest : Digest} {t : TypeMd5} :
    Harmless input.len (t.process digest heap input output) ↔ 6 ≤ input.len := by
  constructor
  · intro h
    have hfirst := harmless_subSize.mp h.of_bind
    have hsecond := harmless_subSize.mp (h.of_bind_ok (subSize_result _ _)).of_bind
    rw [wrapSub_of_le hfirst] at hsecond
    simp only [EapPacket.headerLen] at hfirst hsecond
    omega
  · intro hlen
    have hbound := input.len_lt
    have hslen := t.chapBuf.slen_lt
    have hcut : wrapSub input.len EapPacket.headerLen = input.len - 5 :=
      wrapSub_of_le (by simp only [EapPacket.headerLen]; omega)
    refine Harmless.bind (harmless_subSize.mpr (by simp only [EapPacket.headerLen]; omega))
      fun n hn => ?_
    cases hn
    rw [hcut]
    refine Harmless.bind (harmless_subSize.mpr (by omega)) fun v hv => ?_
    cases hv
    rw [wrapSub_of_le (by omega)]
    refine Harmless.bind ?_ fun c _ => Harmless.bind ?_ fun _ _ => harmless_of_log_nil rfl
    · -- The request for the buffer: challenge, secret and identifier.
      exact Harmless.bind (harmless_need.mpr (by omega)) fun g _ => harmless_of_log_nil rfl
    · exact Harmless.bind (harmless_memcpyIn.mpr (by omega)) fun m _ => harmless_of_log_nil rfl

end TypeMd5

namespace TypeTls

/-- The payload length is computed without going below zero exactly when the packet has room for
the flags and for the length field, if there is one. -/
theorem tlsPduLen_harmless_iff :
    Harmless input.len (tlsPduLen input) ↔
      (if TlsPacket.hasLength input then 10 else 6) ≤ input.len := by
  simp only [Harmless, tlsPduLen_log, List.forall_mem_append, List.forall_mem_cons,
    EapPacket.headerLen]
  by_cases hfive : 5 ≤ input.len
  · rw [wrapSub_of_le hfive]
    by_cases hsix : 1 ≤ input.len - 5
    · rw [wrapSub_of_le hsix]
      split <;> simp [Effect.Harmless] <;> omega
    · split <;> simp [Effect.Harmless] <;> omega
  · split <;> simp [Effect.Harmless] <;> omega

/-- The payload is a part of the packet. -/
private theorem pduLen_le (h : Harmless input.len (tlsPduLen input)) :
    pduLen input ≤ input.len := by
  have hmin := tlsPduLen_harmless_iff.mp h
  have hfive : EapPacket.headerLen ≤ input.len := by
    simp only [EapPacket.headerLen]
    split at hmin <;> omega
  simp only [pduLen]
  rw [wrapSub_of_le hfive, wrapSub_of_le (a := input.len - EapPacket.headerLen) (b := 1)
    (by simp only [EapPacket.headerLen]; split at hmin <;> omega)]
  split
  · rename_i hlength
    rw [if_pos hlength] at hmin
    rw [wrapSub_of_le (by simp only [EapPacket.headerLen]; omega)]
    omega
  · omega

/-- Receiving a payload copies what the packet has. -/
theorem recvNext_harmless {t : TypeTls} {cur n : ℕ} (hn : n ≤ len) :
    Harmless len (t.recvNext cur input n) :=
  Harmless.bind (harmless_memcpyIn.mpr hn) fun _ _ => harmless_of_log_nil rfl

/-- Receiving the first payload asks for a size that can be represented. -/
theorem recvFirst_harmless {t : TypeTls} {n max : ℕ} (hn : n ≤ len) (hmax : max < 2 ^ 32) :
    Harmless len (t.recvFirst heap input n max) :=
  Harmless.bind (harmless_need.mpr hmax) fun _ _ => recvNext_harmless hn

/-- Processing a classified packet is harmless in every state. -/
theorem processType_harmless {E : Engine} {t : TypeTls} {n : ℕ} {type : PacketType} (hn : n ≤ len)
    (hsize : n < 2 ^ 32) : Harmless len (t.processType E heap input output n type) := by
  unfold processType
  split
  · exact harmless_of_log_nil rfl
  split
  · split
    · exact harmless_of_log_nil rfl
    · exact Harmless.bind (harmless_of_log_nil (resetSsl_log ..))
        fun _ _ => harmless_of_log_nil (tlsProcessing_log ..)
  · split
    · exact harmless_of_log_nil rfl
    · exact Harmless.bind (harmless_of_log_nil (frameNext_log ..)) fun _ _ => harmless_of_log_nil rfl
  · split
    · split
      · exact harmless_of_log_nil rfl
      · refine Harmless.bind (recvNext_harmless hn) fun _ _ => ?_
        split
        · exact harmless_of_log_nil rfl
        · exact harmless_of_log_nil (tlsProcessing_log ..)
    · exact harmless_of_log_nil rfl
  · split
    · split
      · exact harmless_of_log_nil rfl
      · exact Harmless.bind (recvFirst_harmless hn (TlsPacket.tlsLen_lt input))
          fun _ _ => harmless_of_log_nil rfl
    · split
      · exact Harmless.bind (recvFirst_harmless hn hsize)
          fun _ _ => harmless_of_log_nil (tlsProcessing_log ..)
      · exact harmless_of_log_nil rfl

/-- EAP-TLS reads the flags, and the length where the flags announce one. -/
theorem process_harmless_iff {E : Engine} {t : TypeTls} :
    Harmless input.len (t.process E heap input output) ↔
      (if TlsPacket.hasLength input then 10 else 6) ≤ input.len := by
  constructor
  · exact fun h => tlsPduLen_harmless_iff.mp h.of_bind
  · intro hlen
    have hpdu := tlsPduLen_harmless_iff.mpr hlen
    refine Harmless.bind hpdu fun n hn => ?_
    rw [tlsPduLen_result] at hn
    cases hn
    exact processType_harmless (pduLen_le hpdu) (pduLen_lt input)

end TypeTls

/-- Whatever its state, a handler stays in range exactly for packets of its minimum length. -/
theorem Handler.process_harmless_iff {digest : Digest} {E : Engine} {h : Handler} :
    Harmless input.len (h.process digest E heap input output) ↔
      h.minimumLen input ≤ input.len := by
  have hwrap {α β : Type} {x : Call α} {f : α → β} :
      Harmless input.len (do let r ← x; pure (f r)) ↔ Harmless input.len x :=
    ⟨Harmless.of_bind, fun hx => hx.bind fun _ _ => harmless_of_log_nil rfl⟩
  cases h with
  | notification => exact hwrap.trans TypeNotification.process_harmless_iff
  | identity t => exact iff_of_true (harmless_of_log_nil rfl) (Nat.zero_le _)
  | md5 t => exact hwrap.trans TypeMd5.process_harmless_iff
  | tls t => exact hwrap.trans TypeTls.process_harmless_iff

namespace EapState

variable {e : EapState Handler} {digest : Digest} {E : Engine}

/-- Running a handler performs what the handler performs. -/
private theorem runHandler_log {H : Type} {V : Vtable H} {e : EapState H} {i : ℕ} {hd : H}
    (hget : e.handlers[i]? = some hd) :
    (e.runHandler V i heap input output).log = (V.process hd heap input output).log := by
  unfold runHandler
  rw [hget]
  cases hres : (V.process hd heap input output).result with
  | error => exact Exec.log_bind_of_error hres
  | ok r =>
    refine (Exec.log_bind_of_ok hres).trans ?_
    obtain ⟨rc, hd', o⟩ := r
    cases rc with
    | inv =>
      dsimp only
      split <;> simp
    | _ => simp

/-- For a request the EAP layer stays in range exactly when the packet has the minimum length of
the handler that wins the search, if one does. -/
theorem process_harmless_iff (hcode : input.code = request) :
    Harmless input.len (e.process (Handler.vtable digest E) heap input output) ↔
      ∀ i w hd, search (Handler.vtable digest E) input e.handlers = some (i, w) →
        e.handlers[i]? = some hd → hd.minimumLen input ≤ input.len := by
  rw [process, if_pos hcode, processRequest]
  cases hsearch : search (Handler.vtable digest E) input e.handlers with
  | none =>
    refine iff_of_true (harmless_of_log_nil ?_) (by simp)
    dsimp only
    split <;> rfl
  | some r =>
    obtain ⟨i, w⟩ := r
    obtain ⟨hd, hget, -⟩ := search_eq_some hsearch
    obtain ⟨hd', hget', hmin⟩ := claim_getElem? (V := Handler.vtable digest E)
      Handler.minimumLen_abort hget w input.type
    have hlog : ((e.claim (Handler.vtable digest E) i w input.type).runHandler
        (Handler.vtable digest E) i heap input output).log =
        (hd'.process digest E heap input output).log := runHandler_log hget'
    have hiff : Harmless input.len (hd'.process digest E heap input output) ↔
        hd.minimumLen input ≤ input.len := hmin ▸ Handler.process_harmless_iff
    constructor
    · rintro hharmless i' w' hd₁ heq hget₁
      cases heq
      cases hget.symm.trans hget₁
      exact hiff.mp fun x hx => hharmless x (hlog ▸ hx)
    · intro hlong
      have hharmless := hiff.mpr (hlong i w hd rfl hget)
      exact fun x hx => hharmless x (hlog ▸ hx)

end EapState

end Dot1x.Eap
