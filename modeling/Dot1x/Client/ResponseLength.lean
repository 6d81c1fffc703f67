import Dot1x.Client.Listener

/-!
# The lengths of a response

The length field of a response is written in two steps: a handler assigns the length of its type
data, and the EAP layer adds the length of the header with `operator +=`, which loses the carry
out of the low byte. The EAPOL length and the length of the frame are then derived from this
field. So the frame sent for a request is right exactly when the low byte of the type data length
leaves room for the header.
-/

namespace Dot1x.Client

open Dot1x.Base Dot1x.Wire Dot1x.Eap Dot1x.Link

/-- Bytes of type data the handlers of a user with a name of the given length set for a request. -/
def typeDataLen (user type : ℕ) : ℕ :=
  if type = identity then user
  else if type = md5 then 17 + user
  else if type = notification then 0
  else 1

/-- The signatures of the handlers `Login` installs. -/
def loginSignatures (user : ℕ) : List (ℕ × Option ℕ) :=
  [(md5, some (17 + user)), (identity, some user), (notification, some 0)]

/-- The EAP layer serves a user with a name of the given length. -/
def Serves (user : ℕ) (e : EapState Handler) : Prop :=
  e.handlers.map Handler.signature = loginSignatures user

/-- The packet in a frame that was sent. -/
def sentPacket (data : Mem) : EapolPacket := ⟨data, llHdrLen⟩

variable {digest : Digest} {E : Engine} {user : ℕ} {e e' : EapState Handler} {heap : Heap}
  {input output o : EapPacket}

/-- The handlers that serve a user answer with type data of the expected length. -/
theorem dataLen_of_mem {p : ℕ × Option ℕ} (h : p ∈ loginSignatures user) :
    p.2 = some (typeDataLen user p.1) := by
  simp only [loginSignatures, List.mem_cons, List.not_mem_nil, or_false] at h
  rcases h with rfl | rfl | rfl <;> rfl

/-- The type data of an answered request is as long as its type tells. -/
theorem Serves.answer_len (hserves : Serves user e) (huser : user ≤ 1460)
    (hans : EapState.Answer (Handler.vtable digest E) e heap input output e' o) :
    o.data = output.data ∧ typeDataLen user input.type < 2 ^ 16 ∧
      o.len = typeDataLen user input.type / 256 * 256 +
        (typeDataLen user input.type % 256 + 5) % 256 := by
  have hsmall : typeDataLen user input.type < 2 ^ 16 := by
    unfold typeDataLen
    split_ifs <;> omega
  cases hans with
  | @handler i w hd hd' o₁ _ _ hsearch hget hprocess hdone =>
    obtain ⟨hd₀, hget₀, htype⟩ := EapState.wantedType_of_search hsearch
    obtain ⟨hd₁, hget₁, hsig⟩ := EapState.claim_getElem? (V := Handler.vtable digest E)
      Handler.signature_abort hget₀ w input.type
    cases hget.symm.trans hget₁
    have hmem : hd₀.signature ∈ loginSignatures user := by
      rw [← hserves]
      exact List.mem_map_of_mem (List.mem_of_getElem? hget₀)
    have hlen : hd.dataLen = some (typeDataLen user input.type) := by
      have hwant : hd.wantedType = input.type := (congrArg Prod.fst hsig).trans htype
      exact hwant ▸ dataLen_of_mem (hsig ▸ hmem)
    obtain ⟨ho, hdata⟩ := Handler.process_len hlen hprocess
    have hout : o = (EapState.straightReturn _ input (EapPacket.setType o₁ input.type)).2 :=
      congrArg Prod.snd hdone
    refine ⟨hout ▸ hdata, hsmall, ?_⟩
    rw [hout, EapState.len_straightReturn, ho, Nat.mod_eq_of_lt hsmall]
  | @nak o₁ _ _ hsearch hnak hdone =>
    obtain ⟨hd, -, hd_nak⟩ := List.exists_of_findSome?_eq_some hnak
    obtain ⟨ho, hdata⟩ := Handler.nakIt_len hd_nak
    have hout : o = (EapState.straightReturn _ input (EapPacket.setType o₁ Eap.nak)).2 :=
      congrArg Prod.snd hdone
    have hunwanted : typeDataLen user input.type = 1 := by
      have hnobody := EapState.search_eq_none.mp hsearch
      have hne : ∀ p ∈ loginSignatures user, input.type ≠ p.1 := by
        rw [← hserves]
        intro p hp
        obtain ⟨hd, hmem, rfl⟩ := List.mem_map.mp hp
        exact Handler.wantThis_eq_notMe.mp (hnobody hd hmem)
      simp only [loginSignatures, List.mem_cons, List.not_mem_nil, or_false, forall_eq_or_imp,
        forall_eq] at hne
      rw [typeDataLen, if_neg hne.2.1, if_neg hne.1, if_neg hne.2.2]
    refine ⟨hout ▸ hdata, hsmall, ?_⟩
    rw [hout, EapState.len_straightReturn, ho, hunwanted]

/-- Processing a packet keeps serving the user. -/
theorem Serves.process (hserves : Serves user e) {r : Ret × EapState Handler × EapPacket}
    (h : (e.process (Handler.vtable digest E) heap input output).result = .ok r) :
    Serves user r.2.1 :=
  (EapState.process_handlers_map Handler.signature_abort
    (fun h _ _ _ _ hres => Handler.process_signature h hres) h).trans hserves

/-- The handlers of `Login` serve its user. -/
theorem serves_installHandlers {c : LoginCall} (h : (installHandlers c).2 = true) :
    Serves c.user.bytes.length (installHandlers c).1 := by
  unfold installHandlers at h ⊢
  split at h
  · cases h
  · rename_i t ht
    dsimp only at h ⊢
    split at h
    · cases h
    · rename_i t' ht'
      obtain ⟨_, -, heq⟩ := Exec.result_bind_eq_ok.mp ht
      cases heq
      obtain ⟨_, -, heq'⟩ := Exec.result_bind_eq_ok.mp ht'
      obtain ⟨_, -, heq'⟩ := Exec.result_bind_eq_ok.mp heq'
      cases heq'
      rfl

/-- While the thread runs the EAP layer serves the user who logged in. -/
def Ready (user : ℕ) (s : Listener) : Prop := s.thread = true → ∀ e, s.auth = some e → Serves user e

namespace Listener

variable {s s₀ s₁ s' : Listener} {c : LoginCall} {d : Delivery} {ds : List Delivery} {f : Frame}
  {outs : List Output}

/-- After a result is settled there are the same objects or none. -/
theorem settle_auth {l : Ll8023} {sends : Bool} {rc : Ret}
    (h : settle s l e sends rc = some (s', outs)) : s'.auth = some e ∨ s' = init := by
  cases rc with
  | cont | old =>
    simp only [settle] at h
    split at h
    · cases h
      exact Or.inl rfl
    · cases h
  | ok =>
    simp only [settle] at h
    split at h <;> cases h <;> exact Or.inl rfl
  | fail =>
    cases h
    exact Or.inr rfl
  | inv | abort =>
    cases h
    exact Or.inl rfl

/-- `Login` makes the listener ready for its user. -/
theorem ready_of_login (h : s₀.next (Handler.vtable digest E) (.login c) = some s₁) :
    Ready c.user.bytes.length s₁ := by
  obtain ⟨⟨t, outs⟩, hstep, rfl⟩ := Option.map_eq_some_iff.mp h
  simp only [step, login] at hstep
  split at hstep
  · cases hstep
  · rename_i hfree
    have hthread : s₀.thread ≠ true := fun h => hfree (Or.inr (Or.inr h))
    split at hstep
    · cases hstep
      exact fun h => absurd h hthread
    · split at hstep
      · rename_i hall
        cases hstep
        intro _ e he
        cases he
        exact serves_installHandlers hall
      · cases hstep
        exact fun h => absurd h hthread

/-- A step of the thread keeps it so. -/
theorem ready_deliver (hready : Ready user s)
    (h : s.step (Handler.vtable digest E) (.deliver d) = some (s', outs)) : Ready user s' := by
  cases delivers_of_deliver h with
  | waits => exact hready
  | settles hrunning hio hauth hframe hout hprocess hsettle =>
    intro hthread e he
    rcases settle_auth hsettle with hsame | rfl
    · cases hsame.symm.trans he
      exact (hready hrunning _ hauth).process hprocess
    · cases hthread

/-- What is sent for an answered request. -/
theorem sent_iff_of_settle_cont {l : Ll8023} {sends : Bool} {data : Mem} {len : ℕ}
    (h : settle s l e sends .cont = some (s', outs)) :
    .sent data len ∈ outs ↔ data = (transmit l EapolPacket.pckt).outData ∧
      len = (transmit l EapolPacket.pckt).outLen := by
  simp only [settle] at h
  split at h
  · cases h
    split <;> simp [transmitted]
  · cases h

/-- In every run after a login, the frame sent for a request has the right lengths exactly when the
low byte of the type data length leaves room for the header of five bytes. -/
theorem answered_length_iff
    (hlogin : s₀.next (Handler.vtable digest E) (.login c) = some s₁)
    (run : Run (next (Handler.vtable digest E)) s₁ (ds.map .deliver) s)
    (hstep : s.step (Handler.vtable digest E) (.deliver d) = some (s', outs))
    (hcont : .processed .cont ∈ outs) (hframe : d.frame = some f)
    (huser : 14 + 4 + 5 + 17 + c.user.bytes.length ≤ 1500) :
    ∃ data len, (∀ data' len', .sent data' len' ∈ outs ↔ data' = data ∧ len' = len) ∧
      (((sentPacket data).body.len =
            5 + typeDataLen c.user.bytes.length f.payload.body.type ∧
          (sentPacket data).bodyLen = (sentPacket data).body.len ∧
          len = 14 + 4 + (sentPacket data).body.len) ↔
        typeDataLen c.user.bytes.length f.payload.body.type % 256 < 251) := by
  have hready : Ready c.user.bytes.length s := by
    have hrun := run.labelled (P := fun a => ∃ d, a = .deliver d) (by simp)
    refine hrun.invariant (ready_of_login hlogin) fun s a t hs ha hnext => ?_
    obtain ⟨d, rfl⟩ := ha.2
    obtain ⟨⟨t, outs⟩, hstep, rfl⟩ := Option.map_eq_some_iff.mp hnext
    exact ready_deliver hs hstep
  cases delivers_of_deliver hstep with
  | waits => cases hcont
  | @settles f' l l' e r _ outs hrunning hio hauth hframe' hout hprocess hsettle =>
    cases hframe.symm.trans hframe'
    obtain ⟨rc, e', o⟩ := r
    have hrc : rc = .cont := by
      have hnot : .processed .cont ∉ outs := processed_notMem_settle hsettle
      simpa [hnot, eq_comm] using hcont
    subst hrc
    obtain ⟨-, hans⟩ := EapState.process_cont.mp hprocess
    obtain ⟨hdata, hsmall, hlen⟩ := (hready hrunning e hauth).answer_len (by omega) hans
    generalize hn : typeDataLen c.user.bytes.length f.payload.body.type = n at *
    -- The frame handed to the driver is the output buffer with its EAPOL header.
    let l₁ := transmit { l' with outData := o.mem } EapolPacket.pckt
    have hbody : (sentPacket l₁.outData).body.len = o.len := by
      have ho : o = ⟨o.mem, llHdrLen + 4⟩ := congrArg (Pointer.mk o.mem) hdata
      exact (Ll8023.makeEapol_body_len _ _).trans (congrArg EapPacket.len ho.symm)
    have hbodyLen : (sentPacket l₁.outData).bodyLen = o.len :=
      (Ll8023.makeEapol_bodyLen _).trans ((Ll8023.makeEapol_body_len _ _).symm.trans hbody)
    have hout : l₁.outLen = (sentPacket l₁.outData).bodyLen + 4 + 14 := rfl
    refine ⟨l₁.outData, l₁.outLen, fun data' len' => ?_, ?_⟩
    · simp [sent_iff_of_settle_cont hsettle, l₁]
    · rw [hout, hbodyLen, hbody, hlen]
      omega

/-- The EAP length of a frame that was sent. -/
def sentLen : Output → Option ℕ
  | .sent data _ => some (sentPacket data).body.len
  | _ => none

/-- A login as a user and what is sent for an identity request. -/
def identityAnswer (user : Block) : Option (Listener × Listener × List Output) :=
  (init.next plainVtable (.login (plainLogin user))).bind fun s =>
    (s.step plainVtable (.deliver identityRequest)).map fun r => (s, r)

/-- The answer of a user with a short name has the right lengths. -/
theorem answered_length_short : ∃ s s' outs data len,
    init.next plainVtable (.login (plainLogin (.single 97))) = some s ∧
      s.step plainVtable (.deliver identityRequest) = some (s', outs) ∧ .sent data len ∈ outs ∧
      (sentPacket data).body.len = 5 + 1 ∧ len = 24 := by
  have heval : (identityAnswer (.single 97)).map (fun r => reports .cont r.2.2) = some true := by
    decide +kernel
  obtain ⟨⟨s, s', outs⟩, hrun, hcont⟩ := Option.map_eq_some_iff.mp heval
  obtain ⟨s₁, hlogin, hstep⟩ := Option.bind_eq_some_iff.mp hrun
  obtain ⟨r, hstep, heq⟩ := Option.map_eq_some_iff.mp hstep
  cases heq
  have hrun : Run (next plainVtable) s (([] : List Delivery).map .deliver) s := .nil s
  obtain ⟨data, len, hsent, hiff⟩ := answered_length_iff hlogin hrun hstep
    (reports_iff.mp hcont) rfl (by decide)
  obtain ⟨hlen, -, htotal⟩ := hiff.mpr (by decide +kernel)
  have hone : typeDataLen 1 (plainFrame [1, 5, 0, 5, 1]).payload.body.type = 1 := by decide +kernel
  rw [show (plainLogin (.single 97)).user.bytes.length = 1 from rfl, hone] at hlen
  exact ⟨s, s', outs, data, len, hlogin, hstep, (hsent _ _).mpr ⟨rfl, rfl⟩, hlen, by omega⟩

/-- A user name of 251 bytes. -/
def longName : Block := ⟨List.replicate 251 97, by rw [List.length_replicate]; omega⟩

/-- The answer of a user with a name of 251 bytes announces a length of zero. -/
theorem not_answered_length_long : ∃ s s' outs data len,
    init.next plainVtable (.login (plainLogin longName)) = some s ∧
      s.step plainVtable (.deliver identityRequest) = some (s', outs) ∧
      .processed .cont ∈ outs ∧ .sent data len ∈ outs ∧ (sentPacket data).body.len ≠ 5 + 251 := by
  have heval : (identityAnswer longName).map
      (fun r => (reports .cont r.2.2, r.2.2.filterMap sentLen)) = some (true, [0]) := by
    decide +kernel
  obtain ⟨⟨s, s', outs⟩, hrun, heq⟩ := Option.map_eq_some_iff.mp heval
  obtain ⟨s₁, hlogin, hstep⟩ := Option.bind_eq_some_iff.mp hrun
  obtain ⟨r, hstep, hr⟩ := Option.map_eq_some_iff.mp hstep
  cases hr
  obtain ⟨hcont, hlens⟩ := Prod.mk.inj heq
  have hzero : 0 ∈ outs.filterMap sentLen := hlens ▸ List.mem_singleton_self 0
  obtain ⟨out, hout, hlen⟩ := List.mem_filterMap.mp hzero
  cases out with
  | sent data len =>
    refine ⟨s, s', outs, data, len, hlogin, hstep, reports_iff.mp hcont, hout, ?_⟩
    rw [Option.some.inj hlen]
    decide
  | processed | event => cases hlen

end Listener

end Dot1x.Client
