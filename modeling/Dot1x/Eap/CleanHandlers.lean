import Dot1x.Eap.TlsResponse
import Dot1x.Eap.Retransmission

/-!
# Handlers that are left behind

A handler that is no longer the authenticator should be back in its first state, for the next
authenticator begins with a start packet. `eap::abort` tells the handler, and so does a request of
another method. A Success clears `auth_handler` too, but tells nobody: the handler stays in the
middle of its exchange and rejects the start packets from then on.

A call that throws may leave the handler it ran in any state, which the label of the step names.
-/

namespace Dot1x.Eap

open Dot1x.Base Dot1x.Wire

namespace EapState

/-- What the owner of the layer does with it. -/
inductive Invocation
  | process (heap : Heap) (input output : EapPacket) (left : Handler)
  | abort

/-- The layer after a handler threw, which is left in some state. -/
def thrown (V : Vtable Handler) (e : EapState Handler) (input : EapPacket) (left : Handler) :
    Option (EapState Handler) :=
  match search V input e.handlers with
  | none => none
  | some r =>
    let e := e.claim V r.1 r.2 input.type
    if e.handlers[r.1]?.map Handler.wantedType = some left.wantedType then
      some { e with handlers := e.handlers.set r.1 left }
    else none

/-- The layer after a call. -/
def invoke (V : Vtable Handler) (e : EapState Handler) : Invocation → Option (EapState Handler)
  | .process heap input output left =>
    match (e.process V heap input output).result with
    | .ok r => some r.2.1
    | .error _ => e.thrown V input left
  | .abort => some (e.abort V)

/-- The handlers are of different types, and the books agree with them. -/
structure Orderly (e : EapState Handler) : Prop where
  types : (e.handlers.map Handler.wantedType).Nodup
  books : BooksAgree (fun h : Handler => {h.wantedType}) e

/-- An EAP-TLS handler that is not the authenticator is in its first state. -/
def Rests (e : EapState Handler) : Prop :=
  ∀ i t, e.handlers[i]? = some (.tls t) → e.authHandler ≠ some i → t.state = .start

/-- The handlers of a program that has not processed any packet. -/
structure Installed (e : EapState Handler) : Prop where
  types : (e.handlers.map Handler.wantedType).Nodup
  authHandler : e.authHandler = none
  authType : e.authType = 0
  rests : e.Rests

/-- An EAP-TLS handler that is not the authenticator is in its first state, and the start packet of
an authenticator is answered. -/
structure Clean (V : Vtable Handler) (e : EapState Handler) : Prop where
  rests : e.Rests
  accepts {i : ℕ} {t : TypeTls} (hget : e.handlers[i]? = some (.tls t))
    (hother : e.authHandler ≠ some i) {heap : Heap} {input output : EapPacket}
    (hreq : input.code = request) (htype : input.type = TlsPacket.eapType)
    (hstart : TypeTls.classifyPacket input (TypeTls.pduLen input) = .tlsStart)
    {r : Ret × EapState Handler × EapPacket}
    (hres : (e.process V heap input output).result = .ok r) : r.1 = .cont

/-- A Success arrives while the EAP-TLS handler is in the middle of an exchange. -/
def Forgets (e : EapState Handler) (input : EapPacket) : Prop :=
  input.code = success ∧ ∃ i t, e.authHandler = some i ∧ e.handlers[i]? = some (.tls t) ∧
    t.state ≠ .start

/-- No handler is forgotten in a call. -/
def Remembers (e : EapState Handler) : Invocation → Prop
  | .process _ input _ _ => ¬e.Forgets input
  | .abort => True

variable {digest : Digest} {E : Engine} {e e' e₀ : EapState Handler} {heap : Heap}
  {input output : EapPacket} {t : TypeTls} {i : ℕ}

/-- Handlers of different types exclude each other. -/
theorem Orderly.exclusive_wantedType (h : e.Orderly) :
    Exclusive (fun h : Handler => {h.wantedType}) e.handlers :=
  Handler.exclusive_of_nodup h.types

/-- A program that has not processed any packet is in order. -/
theorem Installed.orderly (h : e.Installed) : e.Orderly :=
  ⟨h.types, .of_none h.authHandler h.authType⟩

/-- A handler of EAP-TLS becomes the authenticator when it is found. -/
private theorem iWillAuth_of_search {w : Want}
    (h : search (Handler.vtable digest E) input e.handlers = some (i, w))
    (htls : (e.handlers[i]?).map Handler.wantedType = some TlsPacket.eapType) : w = .iWillAuth := by
  obtain ⟨hd, hget, hwant, hne⟩ := search_eq_some h
  rw [hget, Option.map_some, Option.some.injEq] at htls
  cases hd with
  | tls t =>
    have hwant : TypeTls.wantThis input = w := hwant
    unfold TypeTls.wantThis at hwant
    split at hwant
    · exact hwant.symm
    · exact absurd hwant.symm hne
  | notification | identity | md5 => simp [Handler.wantedType, Eap.notification, Eap.identity, md5, TlsPacket.eapType] at htls

/-- In a call of `process` the books are settled first, and then no EAP-TLS handler is touched but
the authenticator. -/
structure Settled (e e' : EapState Handler) : Prop where
  books : SameBooks Handler.wantedType e e'
  tls : ∀ j t, e.authHandler ≠ some j → (e'.handlers[j]? = some (.tls t) ↔ e.handlers[j]? = some (.tls t))

/-- Nothing has happened to the handlers yet. -/
theorem Settled.refl (e : EapState Handler) : e.Settled e := ⟨⟨rfl, rfl, rfl⟩, fun _ _ _ => Iff.rfl⟩

/-- The handler that was found is run. -/
theorem settled_of_run {w : Want} {hd hd' : Handler}
    (hsearch : search (Handler.vtable digest E) input e.handlers = some (i, w))
    (hget : (e.claim (Handler.vtable digest E) i w input.type).handlers[i]? = some hd)
    (hsame : hd'.wantedType = hd.wantedType)
    (hhandlers : e'.handlers = (e.claim (Handler.vtable digest E) i w input.type).handlers.set i hd')
    (hauth : e'.authHandler = (e.claim (Handler.vtable digest E) i w input.type).authHandler)
    (htype : e'.authType = (e.claim (Handler.vtable digest E) i w input.type).authType) :
    Settled (e.claim (Handler.vtable digest E) i w input.type) e' := by
  refine ⟨⟨hauth, htype, by rw [hhandlers, map_set_of_eq hget hsame]⟩, fun j t hother => ?_⟩
  rw [hhandlers]
  by_cases hij : i = j
  · subst hij
    have hbefore := congrArg (·[i]?)
      (claim_handlers_map (V := Handler.vtable digest E) (e := e) Handler.wantedType_abort i w input.type)
    simp only [List.getElem?_map, hget, Option.map_some] at hbefore
    -- Only the authenticator is run where an EAP-TLS handler is found.
    have hnot : hd.wantedType ≠ TlsPacket.eapType := by
      intro htls
      rw [htls] at hbefore
      cases iWillAuth_of_search hsearch hbefore.symm
      exact hother rfl
    have hlt := (List.getElem?_eq_some_iff.mp hget).1
    rw [hget, List.getElem?_set_self hlt]
    constructor
    · intro h
      cases h
      exact absurd hsame.symm hnot
    · intro h
      cases h
      exact absurd rfl hnot
  · rw [List.getElem?_set_ne hij]

/-- In a call of `process` the books are settled first, and the authenticator works alone then. -/
theorem invoke_process {left : Handler}
    (h : e.invoke (Handler.vtable digest E) (.process heap input output left) = some e') :
    Settled (e.booked (Handler.vtable digest E) input) e' := by
  simp only [invoke] at h
  split at h
  · rename_i r hres
    cases h
    unfold booked
    cases process_outcome hres with
    | handled hreq hsearch hrun =>
      obtain ⟨hd, rc, hd', o, hget, hproc, hhandlers, hauth, htype, -⟩ := runHandler_changes hrun
      rw [if_pos hreq, hsearch]
      have hsame : hd'.wantedType = hd.wantedType :=
        congrArg Prod.fst (Handler.process_signature hd hproc)
      exact settled_of_run hsearch hget hsame hhandlers hauth htype
    | nak hreq hsearch | unsupported hreq hsearch =>
      rw [if_pos hreq, hsearch]
      exact ⟨⟨rfl, rfl, rfl⟩, fun _ _ _ => Iff.rfl⟩
    | succeeded hcode =>
      rw [if_neg (by rw [hcode]; decide), if_pos hcode]
      exact ⟨⟨rfl, rfl, rfl⟩, fun _ _ _ => Iff.rfl⟩
    | passed hreq hsuccess =>
      rw [if_neg hreq, if_neg hsuccess]
      exact .refl e
  · rename_i err hres
    have hreq : input.code = request := by
      by_contra hreq
      unfold process at hres
      rw [if_neg hreq] at hres
      split at hres
      · cases hres
      · split at hres <;> cases hres
    unfold thrown at h
    split at h
    · cases h
    · rename_i r hsearch
      dsimp only at h
      split at h
      · rename_i hleft
        cases h
        obtain ⟨hd, hget, hsame⟩ := Option.map_eq_some_iff.mp hleft
        rw [booked, if_pos hreq, hsearch]
        exact settled_of_run hsearch hget hsame.symm rfl rfl rfl
      · cases h

/-- What is settled rests as before. -/
theorem Settled.rests_iff (h : e.Settled e') : e'.Rests ↔ e.Rests := by
  constructor
  · intro hrests j t hget hother
    exact hrests j t ((h.tls j t hother).mpr hget) (h.books.authHandler ▸ hother)
  · intro hrests j t hget hother
    have hother : e.authHandler ≠ some j := h.books.authHandler ▸ hother
    exact hrests j t ((h.tls j t hother).mp hget) hother

/-- What is settled is in order as before. -/
theorem Settled.orderly (h : e.Settled e') (horderly : e.Orderly) : e'.Orderly where
  types := h.books.handlers ▸ horderly.types
  books := horderly.books.congr
    ⟨h.books.authHandler, h.books.authType, by
      simpa [List.map_map, Function.comp_def] using
        congrArg (List.map fun n => ({n} : Set ℕ)) h.books.handlers⟩

/-- The handlers stay in order when the books are settled. -/
theorem Orderly.booked (h : e.Orderly) (input : EapPacket) :
    (e.booked (Handler.vtable digest E) input).Orderly where
  types := (booked_handlers_map (V := Handler.vtable digest E) Handler.wantedType_abort e input).symm ▸
    h.types
  books := h.books.booked (Handler.disciplined digest E) h.exclusive_wantedType input

/-- The handlers stay in order when the layer is aborted. -/
theorem Orderly.abort (h : e.Orderly) : (e.abort (Handler.vtable digest E)).Orderly where
  types := (abort_handlers_map (V := Handler.vtable digest E) Handler.wantedType_abort e).symm ▸ h.types
  books := h.books.abort

/-- Calls keep the layer in order. -/
theorem Orderly.invoke (h : e.Orderly) {a : Invocation}
    (hinvoke : e.invoke (Handler.vtable digest E) a = some e') : e'.Orderly := by
  cases a with
  | process heap input output left => exact (invoke_process hinvoke).orderly (h.booked input)
  | abort =>
    cases hinvoke
    exact h.abort

/-- The handler that `eap::abort` tells goes to its first state. -/
theorem Rests.abort_start (h : e.Rests) {j : ℕ}
    (hget : (e.abort (Handler.vtable digest E)).handlers[j]? = some (.tls t)) : t.state = .start := by
  rw [getElem?_abort, Option.map_eq_some_iff] at hget
  obtain ⟨hd, hget, hsame⟩ := hget
  split at hsame
  · cases hd with
    | tls t' =>
      cases hsame
      rfl
    | notification | identity | md5 => cases hsame
  · rename_i hother
    exact h j t (hsame ▸ hget) hother

/-- When the books are settled, an EAP-TLS handler is left behind in an exchange exactly if a Success
made the layer forget it. -/
theorem rests_booked_iff (horderly : e.Orderly) (h : e.Rests) :
    (e.booked (Handler.vtable digest E) input).Rests ↔ ¬e.Forgets input := by
  have hbooking := booking (Handler.disciplined digest E) horderly.exclusive_wantedType input
  generalize EapState.booked (Handler.vtable digest E) e input = e' at hbooking ⊢
  cases hbooking with
  | kept hcode => exact iff_of_true h fun hforgets => hcode hforgets.1
  | cleared hsuccess =>
    constructor
    · rintro hrests ⟨-, i, t, -, hget, hstate⟩
      exact hstate (hrests i t hget nofun)
    · intro hremembers j t hget _
      by_cases hauth : e.authHandler = some j
      · by_contra hstate
        exact hremembers ⟨hsuccess, j, t, hauth, hget, hstate⟩
      · exact h j t hget hauth
  | @claimed i hd hreq hget hauth =>
    refine iff_of_true (fun j t hgetj hother => ?_) fun hforgets => ?_
    · unfold claim at hgetj hother
      by_cases hchange : e.authHandler.isSome ∧ input.type ≠ e.authType
      · simp only [if_pos hchange] at hgetj
        exact h.abort_start hgetj
      · simp only [if_neg hchange] at hgetj hother
        refine h j t hgetj fun hj => ?_
        have htype : input.type = e.authType := by
          by_contra hne
          exact hchange ⟨by rw [hj]; rfl, hne⟩
        have hwants : input.type = hd.wantedType := by
          by_contra hne
          exact absurd (hauth.symm.trans (Handler.wantThis_eq_notMe.mpr hne)) nofun
        have hij := (horderly.books.taker hj i).mp ⟨hd, hget, htype.symm.trans hwants⟩
        exact hother (congrArg some hij)
    · rw [hforgets.1] at hreq
      exact absurd hreq (by decide)

/-- The engine's first reply in a session is answered. -/
private theorem cont_of_tlsStart {a : TypeTls.Answer} (hstate : t.state = .start)
    (hstart : TypeTls.classifyPacket input (TypeTls.pduLen input) = .tlsStart)
    (h : t.answer E heap input = some a) : a.1 = .cont := by
  obtain ⟨x, hx, houtcome⟩ := Option.bind_eq_some_iff.mp h
  have hx := Exec.result_of_toOption hx
  obtain ⟨t₀, rfl⟩ := TypeTls.ask_of_tlsStart hstate hstart hx
  have hreply {t₁ : TypeTls} {out : List UInt8} (h : t₁.replying out = some a) : a.1 = .cont := by
    unfold TypeTls.replying at h
    split at h
    · cases h
      rfl
    · split at h
      · cases h
      · cases h
        rfl
  have hfirst : t₀.failedOnce = false := by
    cases TypeTls.intake_took hx with
    | started _ _ _ _ hfailed => exact hfailed
    | received hrecv =>
      rw [hstate] at hrecv
      exact hrecv.elim nofun False.elim
  simp only [TypeTls.outcome, hfirst] at houtcome
  split at houtcome
  · cases houtcome
  · cases houtcome
    rfl
  · exact hreply houtcome
  · exact hreply houtcome

/-- In an orderly layer whose handlers rest, start packets are answered. -/
theorem clean_iff_rests (horderly : e.Orderly) : e.Clean (Handler.vtable digest E) ↔ e.Rests := by
  refine ⟨Clean.rests, fun h => ⟨h, ?_⟩⟩
  intro i t hget hother heap input output hreq htype hstart r hres
  have hsearch : search (Handler.vtable digest E) input e.handlers =
      some (i, (Handler.vtable digest E).wantThis (.tls t) input) :=
    search_of_wants (Handler.disciplined digest E) horderly.exclusive_wantedType hget htype
  have hauth : (Handler.vtable digest E).wantThis (.tls t) input = .iWillAuth := if_pos htype
  rw [hauth] at hsearch
  cases process_outcome hres with
  | @handled i' w r hreq hsearch' hrun =>
    cases hsearch.symm.trans hsearch'
    have hclaimed : (e.claim (Handler.vtable digest E) i .iWillAuth input.type).handlers[i]? =
        some (.tls t) := by
      unfold claim
      dsimp only
      split
      · rw [getElem?_abort, hget, Option.map_some, if_neg hother]
      · exact hget
    obtain ⟨rc, e₁, o₁⟩ := r
    unfold runHandler at hrun
    simp only [hclaimed] at hrun
    obtain ⟨⟨rc', hd', o⟩, hproc, hrest⟩ := Exec.result_bind_eq_ok.mp hrun
    obtain ⟨⟨_, t', o'⟩, htls, heq⟩ := Exec.result_bind_eq_ok.mp hproc
    cases heq
    obtain ⟨a, hanswer, ha⟩ := TypeTls.process_eq_answer.mp htls
    have hcont := cont_of_tlsStart (h i t hget hother) hstart hanswer
    cases ha
    rw [hcont] at hrest
    cases hrest
    rfl
  | nak hreq' hsearch' => cases hsearch.symm.trans hsearch'
  | unsupported hreq' hsearch' => cases hsearch.symm.trans hsearch'
  | succeeded hcode =>
    rw [hcode] at hreq
    exact absurd hreq (by decide)
  | passed hnot => exact absurd hreq hnot

/-- Whether handlers rest after a call. -/
theorem Rests.invoke_iff (horderly : e.Orderly) (h : e.Rests) {a : Invocation}
    (hinvoke : e.invoke (Handler.vtable digest E) a = some e') : e'.Rests ↔ e.Remembers a := by
  cases a with
  | process heap input output left =>
    exact (invoke_process hinvoke).rests_iff.trans (rests_booked_iff horderly h)
  | abort =>
    cases hinvoke
    refine iff_of_true (fun j t hget _ => h.abort_start hget) trivial

/-- In every run, no EAP-TLS handler is ever left behind exactly when no Success arrived in the middle
of an exchange. -/
theorem clean_iff {as : List Invocation} (h : e₀.Installed)
    (run : Run (invoke (Handler.vtable digest E)) e₀ as e) :
    (∀ bs u, bs <+: as → Run (invoke (Handler.vtable digest E)) e₀ bs u →
        u.Clean (Handler.vtable digest E)) ↔
      Steps (invoke (Handler.vtable digest E)) Remembers e₀ as e := by
  refine run.forall_prefix_iff (I := Orderly) h.orderly ((clean_iff_rests h.orderly).mpr h.rests)
    (fun s a t hs hstep => hs.invoke hstep) fun s a t hs hclean hstep => ?_
  rw [clean_iff_rests (hs.invoke hstep)]
  exact hclean.rests.invoke_iff hs hstep

/-- The handlers `parse_arguments` adds. -/
private theorem installed_of_install {id secret : Block} {frags : ℕ}
    (h : (install heap id secret frags).result = .ok e) : e.Installed := by
  have htypes : (e.handlers.map Handler.wantedType).Nodup :=
    (allInstalled_of_install h).nodup_iff.mpr (by decide)
  obtain ⟨_, -, h⟩ := Exec.result_bind_eq_ok.mp h
  obtain ⟨_, -, h⟩ := Exec.result_bind_eq_ok.mp h
  obtain ⟨t, htls, h⟩ := Exec.result_bind_eq_ok.mp h
  obtain ⟨_, -, htls⟩ := Exec.result_bind_eq_ok.mp htls
  cases htls
  cases h
  refine ⟨htypes, rfl, rfl, fun i t hget _ => ?_⟩
  have hmem := List.mem_of_getElem? hget
  simp only [addHandler, init, List.mem_cons, reduceCtorEq, List.not_mem_nil, or_false,
    Handler.tls.injEq] at hmem
  rw [hmem]

/-- A packet that is processed where memory can be had; the handlers never throw. -/
def plainCall (input : EapPacket) : Invocation :=
  .process (fun _ => some fun _ => 0) input ⟨fun _ => 0, 0⟩ .notification

/-- The first packet of an EAP-TLS session. -/
def startSession : EapPacket := TypeTls.tlsRequest 6 0x20 []

/-- A session that was aborted leaves nothing behind. -/
theorem clean_aborted : ∃ e₀ e, plainInstall.result = .ok e₀ ∧
    Run (invoke silentVtable) e₀ [plainCall startSession, .abort] e ∧
    ((∀ bs u, bs <+: [plainCall startSession, .abort] → Run (invoke silentVtable) e₀ bs u →
        u.Clean silentVtable) ↔
      Steps (invoke silentVtable) Remembers e₀ [plainCall startSession, .abort] e) := by
  have heval : ∃ e₀, plainInstall.result = .ok e₀ ∧
      (runLabels (invoke silentVtable) e₀ [plainCall startSession, .abort]).isSome :=
    ⟨_, rfl, by decide +kernel⟩
  obtain ⟨e₀, hinst, hsome⟩ := heval
  obtain ⟨e, hrun⟩ := Option.isSome_iff_exists.mp hsome
  have run := run_of_runLabels hrun
  exact ⟨e₀, e, hinst, run, clean_iff (installed_of_install hinst) run⟩

/-- A handler is in the middle of an exchange. -/
def inSession : Handler → Bool
  | .tls t =>
    match t.state with
    | .start => false
    | _ => true
  | _ => false

/-- A Success after the first packet of a session. -/
def startThenSuccess : List Invocation :=
  [plainCall startSession, plainCall ⟨write (fun _ => 0) 0 [3, 6, 0, 4], 0⟩]

/-- The EAP-TLS handler is left behind by a Success, and the next session cannot start. -/
theorem not_clean_success : ∃ e₀ e, plainInstall.result = .ok e₀ ∧
    Run (invoke silentVtable) e₀ startThenSuccess e ∧ e.authHandler = none ∧
    (plainProcess e startSession).result.toOption.map Prod.fst = some .inv ∧
    ¬e.Clean silentVtable := by
  have heval : ∃ e₀, plainInstall.result = .ok e₀ ∧
      (runLabels (invoke silentVtable) e₀ startThenSuccess).map (fun e =>
        (e.authHandler, e.handlers[0]?.map inSession,
          (plainProcess e startSession).result.toOption.map Prod.fst)) =
        some (none, some true, some .inv) :=
    ⟨_, rfl, by decide +kernel⟩
  obtain ⟨e₀, hinst, hresult⟩ := heval
  obtain ⟨e, hrun, hresult⟩ := Option.map_eq_some_iff.mp hresult
  simp only [Prod.mk.injEq] at hresult
  obtain ⟨hauth, hsession, hinv⟩ := hresult
  refine ⟨e₀, e, hinst, run_of_runLabels hrun, hauth, hinv, fun hclean => ?_⟩
  obtain ⟨hd, hget, hin⟩ := Option.map_eq_some_iff.mp hsession
  cases hd with
  | tls t =>
    have hstart : t.state = .start := hclean.rests 0 t hget (by rw [hauth]; exact nofun)
    simp [inSession, hstart] at hin
  | notification | identity | md5 => cases hin

end EapState

end Dot1x.Eap
