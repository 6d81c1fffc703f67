import Dot1x.Base.Transition
import Dot1x.Eap.Handlers
import Dot1x.Eap.ReceiveBuffer

/-!
# Retransmitted requests

An authenticator that misses a response sends its request again. The check for a repeated
identifier is commented out, so the copy is processed like the original. For the handlers without
an exchange of several messages this does no harm: the copy gets the same response and changes
nothing. The EAP-TLS handler moves on with every packet it answers, with one exception: a fragment
without a payload.

The engine of the EAP-TLS handler counts as a part of it, and its state is the calls made to it: a
message that is handed over twice has been processed twice.
-/

namespace Dot1x.Eap

open Dot1x.Base Dot1x.Wire

/-- Blocks that are stored, with their distance from the beginning of the packet. -/
abbrev Stores := List (ℕ × List UInt8)

/-- The store of a length. -/
def lenStore (n : ℕ) : ℕ × List UInt8 := (2, [UInt8.ofNat (n / 256), UInt8.ofNat n])

/-- The stores with which the EAP layer finishes a response. -/
def finalStores (o : EapPacket) (type id : ℕ) : Stores :=
  [(4, [UInt8.ofNat type]), (1, [UInt8.ofNat id]),
   (2, [o.byte 2, UInt8.ofNat ((o.byte 3).toNat + 5)])]

/-- Storing one list of blocks after the other. -/
theorem storeAll_append (o : EapPacket) (S S' : Stores) :
    o.storeAll (S ++ S') = (o.storeAll S).storeAll S' := List.foldl_append

/-- Finishing a response is three stores. -/
theorem straightReturn_eq_storeAll {H : Type} (e : EapState H) (input o : EapPacket) (type : ℕ) :
    (e.straightReturn input (EapPacket.setType o type)).2 =
      o.storeAll (finalStores o type input.id) := by
  have hhigh : ((o.store 4 [UInt8.ofNat type]).store 1 [UInt8.ofNat input.id]).byte 2 = o.byte 2 := by
    rw [Pointer.byte_store_of_outside (by simp), Pointer.byte_store_of_outside (by simp)]
  have hlow : ((o.store 4 [UInt8.ofNat type]).store 1 [UInt8.ofNat input.id]).byte 3 = o.byte 3 := by
    rw [Pointer.byte_store_of_outside (by simp), Pointer.byte_store_of_outside (by simp)]
  change EapPacket.addLen (EapPacket.setId (EapPacket.setType o type) input.id) 5 = _
  rw [EapPacket.setId_eq, EapPacket.setType_eq, EapPacket.addLen_eq _ _ (by decide), hhigh, hlow]
  rfl

/-- An answer as a handler leaves it: some blocks of type data and an assigned length. -/
def answerWith (output : EapPacket) (stores : List (ℕ × List UInt8)) (n : ℕ) : EapPacket :=
  EapPacket.setLen (output.storeAll stores) n

/-- The finished response is a number of stores at fixed places. -/
theorem straightReturn_answerWith {H : Type} (e : EapState H) (input output : EapPacket)
    (stores : List (ℕ × List UInt8)) (n type : ℕ) :
    (e.straightReturn input (EapPacket.setType (answerWith output stores n) type)).2 =
      output.storeAll (stores ++ [(2, [UInt8.ofNat (n / 256), UInt8.ofNat n]),
        (4, [UInt8.ofNat type]), (1, [UInt8.ofNat input.id]),
        (2, [UInt8.ofNat (n / 256), UInt8.ofNat ((UInt8.ofNat n).toNat + 5)])]) := by
  have hhigh : (answerWith output stores n).byte 2 = UInt8.ofNat (n / 256) := by
    rw [answerWith, EapPacket.setLen_eq, Pointer.byte_store, if_pos (by simp)]
    rfl
  have hlow : (answerWith output stores n).byte 3 = UInt8.ofNat n := by
    rw [answerWith, EapPacket.setLen_eq, Pointer.byte_store, if_pos (by simp)]
    rfl
  rw [straightReturn_eq_storeAll, finalStores, hhigh, hlow, answerWith, EapPacket.setLen_eq,
    storeAll_append]
  rfl

/-- Finishing the same answer over a finished response gives the same response. -/
theorem straightReturn_again {H : Type} {e : EapState H} {input output o : EapPacket}
    {stores : List (ℕ × List UInt8)} {n type : ℕ}
    (ho : o = (e.straightReturn input (EapPacket.setType (answerWith output stores n) type)).2)
    (e' : EapState H) :
    (e'.straightReturn input (EapPacket.setType (answerWith o stores n) type)).2 = o := by
  rw [straightReturn_answerWith, ho, straightReturn_answerWith, Pointer.storeAll_storeAll]

variable {digest : Digest} {E : Engine} {heap heap' : Heap} {input output o : EapPacket}
  {h h' : Handler}

namespace TypeMd5

/-- A challenge that was stored is stored again without a change. -/
private theorem stored_stored (t : TypeMd5) (g : Growable) (input : EapPacket) :
    (t.stored g input).stored (t.stored g input).chapBuf.buf input = t.stored g input := by
  let blocks := [(0, [UInt8.ofNat input.id]),
    (1 + t.chapBuf.slen, slice input.mem (input.eapData + 1) (vsize input))]
  have hbuf (m : Mem) : write (write m 0 [UInt8.ofNat input.id]) (1 + t.chapBuf.slen)
      (slice input.mem (input.eapData + 1) (vsize input)) = (Pointer.storeAll ⟨m, 0⟩ blocks).mem := by
    simp [Pointer.storeAll, Pointer.store, blocks]
  have hagain := congrArg Pointer.mem (Pointer.storeAll_storeAll ⟨g.buf, 0⟩ blocks)
  simp only [stored, hbuf]
  exact congrArg (fun m => { t with chapBuf := { t.chapBuf with buf := { g with buf := m } } }) hagain

/-- A request that was answered leaves a buffer with room for the same request. -/
theorem process_again {t t' : TypeMd5} {rc : Ret}
    (hres : (t.process digest heap input output).result = .ok (rc, t', o)) :
    o = t'.respond digest (vsize input) output ∧ ∀ output',
      (t'.process digest heap' input output').result =
        .ok (.cont, t', t'.respond digest (vsize input) output') := by
  obtain ⟨g, hneed, hroom, -, rfl, rfl⟩ := process_result_eq_ok.mp hres
  refine ⟨rfl, fun output' => process_result_eq_ok.mpr ⟨(t.stored g input).chapBuf.buf, ?_, hroom,
    rfl, (stored_stored t g input).symm, rfl⟩⟩
  have hsize : toSize (vsize input + t.chapBuf.slen + 1) ≤ g.size := Growable.le_size_of_need hneed
  exact Growable.need_result_of_le heap' hsize

/-- The MD5 response is an answer of three blocks: the hash, its size and the name. -/
theorem respond_eq_answerWith (t : TypeMd5) (n : ℕ) (output : EapPacket) :
    t.respond digest n output = answerWith output
      [(6, (digest (t.chapBuf.hashed n)).toList), (5, [16]), (22, t.idBuf)]
      (17 + t.idBuf.length) := rfl

end TypeMd5

namespace TypeNotification

/-- There is memory for a copy of the text. -/
def HasRoom (heap : Heap) (input : EapPacket) : Prop :=
  wrapSub input.len EapPacket.headerLen ≠ 0 →
    (heap (toSize (wrapSub input.len EapPacket.headerLen + 1))).isSome

/-- A text that was shown is shown again exactly when there is memory for it again. -/
theorem process_again {rc : Ret} (hres : (process heap input output).result = .ok (rc, o))
    (output' : EapPacket) : (∃ r, (process heap' input output').result = .ok r) ↔
      HasRoom heap' input := by
  obtain ⟨len, hlen, hrest⟩ := Exec.result_bind_eq_ok.mp hres
  cases hlen
  rw [process, Exec.result_bind_of_ok (subSize_result _ _)]
  split at hrest
  · rename_i hne
    obtain ⟨m, -, hrest⟩ := Exec.result_bind_eq_ok.mp hrest
    obtain ⟨_, hcopy, -⟩ := Exec.result_bind_eq_ok.mp hrest
    have hfits := (memcpyIn_result_eq_ok.mp hcopy).1
    rw [if_pos hne]
    constructor
    · intro ⟨r, hagain⟩ _
      obtain ⟨m', hm', -⟩ := Exec.result_bind_eq_ok.mp hagain
      exact Option.isSome_iff_exists.mpr ⟨m', alloc_result_eq_ok.mp hm'⟩
    · intro hroom
      obtain ⟨m', hm'⟩ := Option.isSome_iff_exists.mp (hroom hne)
      refine ⟨(.cont, EapPacket.setLen output' 0),
        Exec.result_bind_eq_ok.mpr ⟨m', alloc_result_eq_ok.mpr hm', ?_⟩⟩
      exact Exec.result_bind_eq_ok.mpr ⟨_, memcpyIn_result_eq_ok.mpr ⟨hfits, rfl⟩, rfl⟩
  · rename_i hzero
    rw [if_neg hzero]
    exact iff_of_true ⟨_, rfl⟩ fun hne => absurd hne hzero

end TypeNotification

namespace TypeTls

/-- A packet is a fragment without a payload. -/
def EmptyFragment (input : EapPacket) : Prop :=
  classifyPacket input (pduLen input) = .tlsFrag ∧ pduLen input = 0

/-- A fragment without a payload is answered in two states, and leaves the handler receiving. -/
private theorem process_emptyFragment {E : Engine} {t t' : TypeTls} (hempty : EmptyFragment input)
    (hres : (t.process E heap input output).result = .ok (.cont, t', o)) :
    o = makeAck output ∧ ∃ cur stop, t'.state = .fragRecv cur stop ∧ cur ≤ t'.recvBuffer.size := by
  obtain ⟨htype, hzero⟩ := hempty
  rw [process_result, htype, hzero] at hres
  cases hstate : t.state with
  | start => simp [processType, hstate] at hres
  | fragSend msg cur => simp [processType, hstate] at hres
  | fragRecv cur stop =>
    simp only [processType, hstate, true_or, if_true, Nat.not_lt_zero, if_false] at hres
    obtain ⟨t₁, hnext, hres⟩ := Exec.result_bind_eq_ok.mp hres
    obtain ⟨hroom, rfl⟩ := recvNext_result_eq_ok.mp hnext
    cases hres
    exact ⟨rfl, cur + 0, stop, rfl, hroom⟩
  | recv =>
    simp only [processType, hstate, if_true] at hres
    split at hres
    · cases hres
    · obtain ⟨t₁, hfirst, hres⟩ := Exec.result_bind_eq_ok.mp hres
      cases hres
      exact ⟨rfl, 0, _, rfl, Nat.zero_le _⟩

/-- Whoever answered a fragment without a payload answers it again in the same way. -/
theorem process_again {E : Engine} {t t' : TypeTls} (hempty : EmptyFragment input)
    (hres : (t.process E heap input output).result = .ok (.cont, t', o)) :
    o = makeAck output ∧ ∀ output', (t'.process E heap' input output').result =
      .ok (.cont, t', makeAck output') := by
  obtain ⟨ho, cur, stop, hstate, hcur⟩ := process_emptyFragment hempty hres
  refine ⟨ho, fun output' => ?_⟩
  rw [process_result, hempty.1, hempty.2]
  simp only [processType, hstate, true_or, if_true, Nat.not_lt_zero, if_false]
  refine Exec.result_bind_eq_ok.mpr ⟨t', recvNext_result_eq_ok.mpr ⟨hcur, ?_⟩, ?_⟩
  · simp only [slice_zero, write_nil]
  · simp [← hstate]

/-- Framing moves on by at least one byte. -/
private theorem frameNext_moves {fragmentSize cur cur' : ℕ} {msg : List UInt8}
    (hres : (frameNext fragmentSize msg cur output).result = .ok (cur', o)) : cur < cur' := by
  simp only [frameNext] at hres
  split at hres
  · cases hres
  · cases hres
    omega

/-- Any other packet that is answered changes the handler. -/
theorem process_changes {E : Engine} {t t' : TypeTls} (hfull : ¬EmptyFragment input)
    (hres : (t.process E heap input output).result = .ok (.cont, t', o)) : t' ≠ t := by
  rw [process_result] at hres
  intro hsame
  subst hsame
  generalize htype : classifyPacket input (pduLen input) = type at hres
  have hengine {t₀ t : TypeTls} {n : ℕ} (h : (tlsProcessing E t₀ n output).result = .ok (.cont, t, o))
      (hle : t.calls.length ≤ t₀.calls.length) : False := by
    have hcalls := (tlsProcessing_result_eq_ok h).2.1
    omega
  unfold processType at hres
  split at hres
  · cases hres
  split at hres
  case h_1 =>
    split at hres
    · cases hres
    · obtain ⟨t₁, hreset, hres⟩ := Exec.result_bind_eq_ok.mp hres
      obtain ⟨-, rfl⟩ := resetSsl_result_eq_ok.mp hreset
      exact hengine hres (by simp)
  case h_2 msg cur hstate =>
    split at hres
    · cases hres
    · obtain ⟨r, hframe, hres⟩ := Exec.result_bind_eq_ok.mp hres
      have hmoves := frameNext_moves hframe
      have hsame := congrArg (fun r => r.2.1.state) (Except.ok.inj hres)
      simp only [hstate] at hsame
      split at hsame
      · cases hsame
        omega
      · cases hsame
  case h_3 cur stop hstate =>
    split at hres
    · split at hres
      · cases hres
      · obtain ⟨t₁, hnext, hres⟩ := Exec.result_bind_eq_ok.mp hres
        obtain ⟨-, rfl⟩ := recvNext_result_eq_ok.mp hnext
        split at hres
        · rename_i hfrag
          have hsame := congrArg (fun r => r.2.1.state) (Except.ok.inj hres)
          simp only [hstate, TlsState.fragRecv.injEq] at hsame
          exact hfull ⟨htype.trans hfrag, by omega⟩
        · exact hengine hres (Nat.le_refl _)
    · cases hres
  case h_4 hstate =>
    split at hres
    · split at hres
      · cases hres
      · obtain ⟨t₁, -, hres⟩ := Exec.result_bind_eq_ok.mp hres
        have hsame := congrArg (fun r => r.2.1.state) (Except.ok.inj hres)
        simp only [hstate] at hsame
        cases hsame
    · split at hres
      · obtain ⟨t₁, hfirst, hres⟩ := Exec.result_bind_eq_ok.mp hres
        obtain ⟨g, -, -, rfl⟩ := recvFirst_result_eq_ok.mp hfirst
        exact hengine hres (Nat.le_refl _)
      · cases hres

end TypeTls

/-- A request may be answered twice: one of type EAP-TLS has to be a fragment without a payload, and
a notification needs memory for its text. -/
structure Repeatable (heap' : Heap) (input : EapPacket) : Prop where
  tls : input.type = TlsPacket.eapType → TypeTls.EmptyFragment input
  notification : input.type = notification → TypeNotification.HasRoom heap' input

/-- A handler that answered such a request answers it again in the same way and stays as it is. -/
theorem Handler.process_again (hrep : Repeatable heap' input) (htype : input.type = h.wantedType)
    (hres : (h.process digest E heap input output).result = .ok (.cont, h', o)) :
    ∃ stores n, o = answerWith output stores n ∧ ∀ output',
      (h'.process digest E heap' input output').result =
        .ok (.cont, h', answerWith output' stores n) := by
  cases h with
  | notification =>
    obtain ⟨⟨rc, o'⟩, ha, hr⟩ := Exec.result_bind_eq_ok.mp hres
    obtain ⟨-, rfl⟩ := TypeNotification.process_result_eq_ok ha
    cases hr
    refine ⟨[], 0, rfl, fun output' => ?_⟩
    obtain ⟨⟨rc', o''⟩, hagain⟩ :=
      (TypeNotification.process_again ha output').mpr (hrep.notification htype)
    obtain ⟨rfl, rfl⟩ := TypeNotification.process_result_eq_ok hagain
    exact Exec.result_bind_eq_ok.mpr ⟨_, hagain, rfl⟩
  | identity t =>
    cases hres
    exact ⟨[(5, t.id)], t.id.length, rfl, fun output' => rfl⟩
  | md5 t =>
    obtain ⟨⟨rc, t', o'⟩, ha, hr⟩ := Exec.result_bind_eq_ok.mp hres
    obtain ⟨ho, hagain⟩ := TypeMd5.process_again ha
    cases hr
    refine ⟨_, _, ho.trans (TypeMd5.respond_eq_answerWith ..), fun output' => ?_⟩
    exact Exec.result_bind_eq_ok.mpr ⟨_, hagain output', rfl⟩
  | tls t =>
    obtain ⟨⟨rc, t', o'⟩, ha, hr⟩ := Exec.result_bind_eq_ok.mp hres
    cases hr
    obtain ⟨ho, hagain⟩ := TypeTls.process_again (hrep.tls htype) ha
    refine ⟨[(5, [0])], 1, ho, fun output' => ?_⟩
    exact Exec.result_bind_eq_ok.mpr ⟨_, hagain output', rfl⟩

/-- A handler that answered a request and stays as it is when it answers it again has shown that
this may be done. -/
theorem Handler.repeatable_of_again {output' o' : EapPacket} (htype : input.type = h.wantedType)
    (hres : (h.process digest E heap input output).result = .ok (.cont, h', o))
    (hagain : (h'.process digest E heap' input output').result = .ok (.cont, h', o')) :
    Repeatable heap' input := by
  refine ⟨fun htls => ?_, fun hnot => ?_⟩
  · cases h with
    | tls t =>
      obtain ⟨⟨rc, t', o₁⟩, -, hr⟩ := Exec.result_bind_eq_ok.mp hres
      cases hr
      obtain ⟨⟨rc', t'', o₂⟩, hsame, hr⟩ := Exec.result_bind_eq_ok.mp hagain
      cases hr
      by_contra hfull
      exact TypeTls.process_changes hfull hsame rfl
    | notification | identity | md5 => cases htls.symm.trans htype
  · cases h with
    | notification =>
      obtain ⟨⟨rc, o₁⟩, ha, hr⟩ := Exec.result_bind_eq_ok.mp hres
      cases hr
      obtain ⟨r, hr, -⟩ := Exec.result_bind_eq_ok.mp hagain
      exact (TypeNotification.process_again ha output').mp ⟨r, hr⟩
    | identity | md5 | tls => cases hnot.symm.trans htype

/-- The type a handler offers in a Nak. -/
def Handler.nakType : Handler → Option ℕ
  | .md5 _ => some Eap.md5
  | .tls _ => some TlsPacket.eapType
  | _ => none

/-- The Nak of the first handler that offers something. -/
theorem findSome?_nakIt (hs : List Handler) (output : EapPacket) :
    hs.findSome? (Handler.nakIt · output) =
      (hs.findSome? Handler.nakType).map fun type =>
        answerWith output [(5, [UInt8.ofNat type])] 1 := by
  have hnak : (Handler.nakIt · output) = Option.map (fun type =>
      answerWith output [(5, [UInt8.ofNat type])] 1) ∘ Handler.nakType := by
    funext h
    cases h <;> rfl
  rw [List.map_findSome?, hnak]

namespace EapState

variable {e e₁ e₂ : EapState Handler} {o₁ o₂ : EapPacket}

/-- The same request, processed again right after it was answered, gets the same response and
leaves the handlers as they are. -/
def Again (V : Vtable Handler) (e₁ : EapState Handler) (heap' : Heap) (input o₁ : EapPacket) : Prop :=
  ∃ e₂ o₂, (process V e₁ heap' input o₁).result = .ok (.cont, e₂, o₂) ∧
    o₂.contents = o₁.contents ∧ e₂.handlers = e₁.handlers

/-- Who wins the search does not change when a request is processed. -/
theorem search_again (hres : (process (Handler.vtable digest E) e heap input output).result =
    .ok (.cont, e₁, o₁)) :
    search (Handler.vtable digest E) input e₁.handlers =
      search (Handler.vtable digest E) input e.handlers := by
  have hwant := process_handlers_map (V := Handler.vtable digest E) (f := Handler.wantThis)
    (fun h => by cases h <;> rfl) (fun h heap input output r hres => ?_) hres
  · apply search_congr
    have hsame := congrArg (List.map fun want : EapPacket → Want => want input) hwant
    rwa [List.map_map, List.map_map] at hsame
  · cases h <;> obtain ⟨a, -, hr⟩ := Exec.result_bind_eq_ok.mp hres <;> cases hr <;> rfl

/-- After a Nak the same request gets the same Nak. -/
theorem again_of_nak (hcode : input.code = request)
    (hsearch : search (Handler.vtable digest E) input e.handlers = none)
    (hnak : e.handlers.findSome? (Handler.nakIt · output) = some o)
    (hdone : (e₁, o₁) = e.straightReturn input (EapPacket.setType o nak)) :
    Again (Handler.vtable digest E) e₁ heap' input o₁ := by
  rw [findSome?_nakIt, Option.map_eq_some_iff] at hnak
  obtain ⟨type, htype, rfl⟩ := hnak
  obtain ⟨rfl, ho⟩ := Prod.mk.inj hdone
  have hnak' : e.handlers.findSome? (Handler.nakIt · o₁) =
      some (answerWith o₁ [(5, [UInt8.ofNat type])] 1) := by
    rw [findSome?_nakIt, htype, Option.map_some]
  refine ⟨_, _, process_cont.mpr ⟨hcode, .nak hsearch hnak' rfl⟩, ?_, rfl⟩
  exact congrArg EapPacket.contents (straightReturn_again (e := e) ho e)

/-- The handler that answered is at its place, and is run when the request comes again. -/
private theorem answer_again {i : ℕ} {w : Want} {hd hd' : Handler}
    (hget : (e.claim (Handler.vtable digest E) i w input.type).handlers[i]? = some hd)
    (he₁ : e₁ = ({ e.claim (Handler.vtable digest E) i w input.type with
      handlers := (e.claim (Handler.vtable digest E) i w input.type).handlers.set i hd'
      }.straightReturn input o).1) :
    (e₁.claim (Handler.vtable digest E) i w input.type).handlers = e₁.handlers ∧
      e₁.handlers[i]? = some hd' := by
  subst he₁
  refine ⟨claim_claimed (e := e) rfl rfl, ?_⟩
  obtain ⟨hi, -⟩ := List.getElem?_eq_some_iff.mp hget
  exact List.getElem?_set_self hi

/-- The handler that wins the search wants the type of the request, before and after the claim. -/
private theorem wantedType_of_claim {i : ℕ} {w : Want} {hd : Handler}
    (hsearch : search (Handler.vtable digest E) input e.handlers = some (i, w))
    (hget : (e.claim (Handler.vtable digest E) i w input.type).handlers[i]? = some hd) :
    input.type = hd.wantedType := by
  obtain ⟨hd₀, hget₀, htype⟩ := wantedType_of_search hsearch
  obtain ⟨hd₁, hget₁, hsame⟩ := claim_getElem? (V := Handler.vtable digest E)
    Handler.wantedType_abort hget₀ w input.type
  cases hget.symm.trans hget₁
  exact htype.symm.trans hsame.symm

/-- A request that a handler answered gets the same response again and changes nothing, exactly
when it is repeatable. -/
theorem again_iff_of_handler {i : ℕ} {w : Want} {hd hd' : Handler} (hcode : input.code = request)
    (hsearch : search (Handler.vtable digest E) input e.handlers = some (i, w))
    (hget : (e.claim (Handler.vtable digest E) i w input.type).handlers[i]? = some hd)
    (hprocess : (hd.process digest E heap input output).result = .ok (.cont, hd', o))
    (hdone : (e₁, o₁) = { e.claim (Handler.vtable digest E) i w input.type with
      handlers := (e.claim (Handler.vtable digest E) i w input.type).handlers.set i hd'
      }.straightReturn input (EapPacket.setType o input.type))
    (hsame : search (Handler.vtable digest E) input e₁.handlers = some (i, w)) :
    Again (Handler.vtable digest E) e₁ heap' input o₁ ↔ Repeatable heap' input := by
  have he₁ := congrArg Prod.fst hdone
  have ho₁ := congrArg Prod.snd hdone
  have htype := wantedType_of_claim hsearch hget
  obtain ⟨hclaim, hget₁⟩ := answer_again hget he₁
  obtain ⟨hi, heq⟩ := List.getElem?_eq_some_iff.mp hget₁
  constructor
  · intro ⟨e₂, o₂, hagain, _, hhandlers⟩
    cases (process_cont.mp hagain).2 with
    | nak hsearch' => cases hsame.symm.trans hsearch'
    | @handler i₂ w₂ hd₂ hd₂' o₂' _ _ hsearch₂ hget₂ hprocess₂ hdone₂ =>
      cases hsame.symm.trans hsearch₂
      rw [hclaim] at hget₂
      cases hget₁.symm.trans hget₂
      have hset : e₂.handlers = (e₁.claim _ i w input.type).handlers.set i hd₂' :=
        congrArg (fun r => r.1.handlers) hdone₂
      have hlast : e₂.handlers[i]? = some hd₂' := by
        rw [hset, hclaim, List.getElem?_set_self hi]
      rw [hhandlers, hget₁] at hlast
      cases hlast
      exact Handler.repeatable_of_again htype hprocess hprocess₂
  · intro hrep
    obtain ⟨stores, n, rfl, hagain⟩ := Handler.process_again hrep htype hprocess
    have hget₂ : (e₁.claim (Handler.vtable digest E) i w input.type).handlers[i]? = some hd' := by
      rw [hclaim, hget₁]
    refine ⟨_, _, process_cont.mpr ⟨hcode, .handler hsame hget₂ (hagain o₁) rfl⟩, ?_, ?_⟩
    · exact congrArg EapPacket.contents (straightReturn_again ho₁ e₁)
    · change (e₁.claim (Handler.vtable digest E) i w input.type).handlers.set i hd' = e₁.handlers
      rw [hclaim, ← heq, List.set_getElem_self]

/-- What happens to the EAP layer. -/
inductive Occurrence
  | packet (heap : Heap) (input output : EapPacket)
  | abort

/-- The state after it, if the call returned. -/
def next {H : Type} (V : Vtable H) (e : EapState H) : Occurrence → Option (EapState H)
  | .packet heap input output =>
    match (e.process V heap input output).result with
    | .ok r => some r.2.1
    | .error _ => none
  | .abort => some (e.abort V)

/-- Notification, Identity, MD5 and EAP-TLS handlers are installed, in any order. -/
def AllInstalled (e : EapState Handler) : Prop :=
  (e.handlers.map Handler.wantedType).Perm [TlsPacket.eapType, md5, identity, notification]

/-- The handlers `parse_arguments` adds when both methods are enabled. -/
def install (heap : Heap) (id secret : Block) (frags : ℕ) : Call (EapState Handler) := do
  let e := init.addHandler .notification
  let t ← TypeIdentity.new heap id
  let e := e.addHandler (.identity t)
  let t ← TypeMd5.new heap id secret
  let e := e.addHandler (.md5 t)
  let t ← TypeTls.new heap frags
  pure (e.addHandler (.tls t))

/-- What `parse_arguments` installs is all that is installed. -/
theorem allInstalled_of_install {id secret : Block} {frags : ℕ}
    (h : (install heap id secret frags).result = .ok e) : e.AllInstalled := by
  obtain ⟨_, -, h⟩ := Exec.result_bind_eq_ok.mp h
  obtain ⟨_, -, h⟩ := Exec.result_bind_eq_ok.mp h
  obtain ⟨_, -, h⟩ := Exec.result_bind_eq_ok.mp h
  cases h
  exact List.Perm.refl _

/-- The handlers stay installed. -/
theorem AllInstalled.of_run {e₀ : EapState Handler} {as : List Occurrence} (h : e₀.AllInstalled)
    (run : Run (next (Handler.vtable digest E)) e₀ as e) : e.AllInstalled := by
  refine run.invariant h fun e a e' he _ hnext => ?_
  have hmap : e'.handlers.map Handler.wantedType = e.handlers.map Handler.wantedType := by
    cases a with
    | abort =>
      cases hnext
      exact abort_handlers_map Handler.wantedType_abort e
    | packet heap input output =>
      simp only [next] at hnext
      split at hnext
      · rename_i r hres
        cases hnext
        refine process_handlers_map (V := Handler.vtable digest E) Handler.wantedType_abort
          (fun h heap input output r hres => ?_) hres
        exact congrArg Prod.fst (Handler.process_signature h hres)
      · cases hnext
  rwa [AllInstalled, hmap]

/-- Some handler wants a request of type EAP-TLS, and some handler wants a notification. -/
theorem AllInstalled.search_ne_none (h : e.AllInstalled)
    (htype : input.type = TlsPacket.eapType ∨ input.type = notification) :
    search (Handler.vtable digest E) input e.handlers ≠ none := by
  intro hnone
  have hmem : input.type ∈ e.handlers.map Handler.wantedType := by
    rw [h.mem_iff]
    rcases htype with htype | htype <;> simp [htype]
  obtain ⟨hd, hhd, hwanted⟩ := List.mem_map.mp hmem
  exact Handler.wantThis_eq_notMe.mp (search_eq_none.mp hnone hd hhd) hwanted.symm

/-- With all four handlers, a request that was answered may be answered again without harm exactly
when it is repeatable. -/
theorem AllInstalled.again_iff (h : e.AllInstalled)
    (hres : (process (Handler.vtable digest E) e heap input output).result = .ok (.cont, e₁, o₁)) :
    Again (Handler.vtable digest E) e₁ heap' input o₁ ↔ Repeatable heap' input := by
  have hsame := search_again hres
  obtain ⟨hcode, hans⟩ := process_cont.mp hres
  cases hans with
  | handler hsearch hget hprocess hdone =>
    exact again_iff_of_handler hcode hsearch hget hprocess hdone (hsame.trans hsearch)
  | nak hsearch hnak hdone =>
    refine iff_of_true (again_of_nak hcode hsearch hnak hdone) ⟨fun htls => ?_, fun hnot => ?_⟩
    · exact absurd hsearch (h.search_ne_none (Or.inl htls))
    · exact absurd hsearch (h.search_ne_none (Or.inr hnot))

/-- In every reachable state a request that was answered may be retransmitted without harm exactly
when it is repeatable. -/
theorem retransmission_iff {e₀ : EapState Handler} {as : List Occurrence} (h : e₀.AllInstalled)
    (run : Run (next (Handler.vtable digest E)) e₀ as e)
    (hres : (process (Handler.vtable digest E) e heap input output).result = .ok (.cont, e₁, o₁)) :
    Again (Handler.vtable digest E) e₁ heap' input o₁ ↔ Repeatable heap' input :=
  (h.of_run run).again_iff hres

/-- The handlers of the user `a` with the secret `s`. -/
def plainInstall : Call (EapState Handler) :=
  install (fun _ => some fun _ => 0) (.single 97) (.single 115) 1024

/-- The methods of the handlers, where the TLS engine has nothing to say. -/
def silentVtable : Vtable Handler :=
  Handler.vtable (fun _ => Vector.replicate 16 0) TypeTls.silentEngine

/-- Hand over a packet where memory can be had and the output buffer is blank. -/
def plainProcess (e : EapState Handler) (input : EapPacket) :
    Call (Ret × EapState Handler × EapPacket) :=
  e.process silentVtable (fun _ => some fun _ => 0) input ⟨fun _ => 0, 0⟩

/-- A request for the identity. -/
def askIdentity : EapPacket := ⟨write (fun _ => 0) 0 [1, 5, 0, 5, 1], 0⟩

/-- A request for the identity may be retransmitted. -/
theorem retransmission_identity : ∃ e e₁ o₁, plainInstall.result = .ok e ∧
    (plainProcess e askIdentity).result = .ok (.cont, e₁, o₁) ∧
    Again silentVtable e₁ (fun _ => some fun _ => 0) askIdentity o₁ := by
  have heval : ∃ e, plainInstall.result = .ok e ∧
      (plainProcess e askIdentity).result.toOption.map Prod.fst = some .cont :=
    ⟨_, rfl, by decide +kernel⟩
  obtain ⟨e, hinst, hcont⟩ := heval
  obtain ⟨⟨rc, e₁, o₁⟩, hres, rfl⟩ := Option.map_eq_some_iff.mp hcont
  have hres := Exec.result_of_toOption hres
  refine ⟨e, e₁, o₁, hinst, hres, ?_⟩
  refine (retransmission_iff (allInstalled_of_install hinst) (.nil e) hres).mpr ⟨?_, ?_⟩
  · exact fun htype => absurd htype (by decide +kernel)
  · exact fun htype => absurd htype (by decide +kernel)

/-- A session of EAP-TLS is started, and the first five of twenty bytes of a message arrive. -/
def firstFive : List Occurrence :=
  [.packet (fun _ => some fun _ => 0) (TypeTls.tlsRequest 6 0x20 []) ⟨fun _ => 0, 0⟩,
   .packet (fun _ => some fun _ => 0) (TypeTls.tlsRequest 15 0xc0 [0, 0, 0, 20, 1, 2, 3, 4, 5])
    ⟨fun _ => 0, 0⟩]

/-- The next five bytes. -/
def nextFive : EapPacket := TypeTls.tlsRequest 11 0x40 [6, 7, 8, 9, 10]

/-- A fragment that is retransmitted is appended twice. -/
theorem not_retransmission_fragment : ∃ e₀ e e₁ o₁, plainInstall.result = .ok e₀ ∧
    Run (next silentVtable) e₀ firstFive e ∧
    (plainProcess e nextFive).result = .ok (.cont, e₁, o₁) ∧
    ¬Again silentVtable e₁ (fun _ => some fun _ => 0) nextFive o₁ := by
  have heval : ∃ e₀, plainInstall.result = .ok e₀ ∧
      ((runLabels (next silentVtable) e₀ firstFive).bind fun e =>
        (plainProcess e nextFive).result.toOption.map Prod.fst) = some .cont :=
    ⟨_, rfl, by decide +kernel⟩
  obtain ⟨e₀, hinst, hcont⟩ := heval
  obtain ⟨e, hrun, hcont⟩ := Option.bind_eq_some_iff.mp hcont
  obtain ⟨⟨rc, e₁, o₁⟩, hres, rfl⟩ := Option.map_eq_some_iff.mp hcont
  have hres := Exec.result_of_toOption hres
  have run := run_of_runLabels hrun
  refine ⟨e₀, e, e₁, o₁, hinst, run, hres, fun hagain => ?_⟩
  have hrep := (((allInstalled_of_install hinst).of_run run).again_iff hres).mp hagain
  exact absurd (hrep.tls (by decide +kernel)).2 (by decide +kernel)

end EapState

end Dot1x.Eap
