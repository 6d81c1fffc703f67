import Dot1x.Eap.Buffer

/-!
# The EAP layer

`eap::process` reads the code of a packet, lets the handlers bid for a request in list order,
runs the winner or sends a Nak, and finishes the response. The handlers are an arbitrary type
with a table of methods, so the results here do not depend on which handlers are installed.

The pointer `auth_handler` is the position of the handler in the list. A method of a handler
may change that handler only.
-/

namespace Dot1x.Eap

open Dot1x.Base Dot1x.Wire

/-- Return codes of `process`. -/
inductive Ret
  | cont | inv | ok | fail | abort | old
  deriving DecidableEq, Repr

/-- Answers of `want_this`. -/
inductive Want
  | notMe | iWill | iWillAuth
  deriving DecidableEq, Repr

/-- The virtual methods of a handler. -/
structure Vtable (H : Type) where
  wantThis : H → EapPacket → Want
  process : H → Heap → EapPacket → EapPacket → Call (Ret × H × EapPacket)
  nakIt : H → EapPacket → Option EapPacket
  abort : H → H

/-- The data members of `eap::eap`. -/
structure EapState (H : Type) where
  handlers : List H
  authHandler : Option ℕ
  authType : ℕ
  lastRequest : Int
  ninvalid : ℕ

/-- EAP code of a request. -/
def request : ℕ := 1

def response : ℕ := 2

def success : ℕ := 3

def failure : ℕ := 4

/-- EAP type of an identity exchange. -/
def identity : ℕ := 1

def notification : ℕ := 2

def nak : ℕ := 3

def md5 : ℕ := 4

/-- Invalid packets tolerated in a row. -/
def nInvalidMax : ℕ := 5

namespace EapState

variable {H : Type} (V : Vtable H)

/-- The constructor, before any handler is added. -/
def init : EapState H := ⟨[], none, 0, 0, 0⟩

/-- `add_handler` puts the new handler first. -/
def addHandler (e : EapState H) (h : H) : EapState H := { e with handlers := h :: e.handlers }

/-- `eap::abort`. -/
def abort (e : EapState H) : EapState H :=
  match e.authHandler with
  | some k => { e with handlers := e.handlers.modify k V.abort, authHandler := none, authType := 0,
                       lastRequest := -1 }
  | none => { e with lastRequest := -1 }

/-- The first handler that does not answer `not_me`, with its position. -/
def search (input : EapPacket) : List H → Option (ℕ × Want)
  | [] => none
  | h :: hs =>
    match V.wantThis h input with
    | .notMe => (search input hs).map fun r => (r.1 + 1, r.2)
    | w => some (0, w)

/-- A handler that answered `i_will_auth` becomes the authenticator; another one that was at
work on a different type is aborted first. -/
def claim (e : EapState H) (i : ℕ) (w : Want) (type : ℕ) : EapState H :=
  match w with
  | .iWillAuth =>
    let e := if e.authHandler.isSome ∧ type ≠ e.authType then e.abort V else e
    { e with authType := type, authHandler := some i }
  | _ => e

/-- The common end of every answered request. -/
def straightReturn (e : EapState H) (input output : EapPacket) : EapState H × EapPacket :=
  ({ e with ninvalid := 0, lastRequest := input.id },
   EapPacket.addLen (EapPacket.setId output input.id) EapPacket.headerLen)

/-- Run the handler at a position and count its failures. -/
def runHandler (e : EapState H) (i : ℕ) (heap : Heap) (input output : EapPacket) :
    Call (Ret × EapState H × EapPacket) :=
  match e.handlers[i]? with
  | none => Exec.fail .fault
  | some h => do
    let r ← V.process h heap input output
    let e := { e with handlers := e.handlers.set i r.2.1 }
    match r.1 with
    | .cont => pure (.cont, e.straightReturn input (EapPacket.setType r.2.2 input.type))
    | .inv =>
      if nInvalidMax < e.ninvalid + 1 then pure (.abort, { e with ninvalid := 0 }, r.2.2)
      else pure (.inv, { e with ninvalid := e.ninvalid + 1 }, r.2.2)
    | rc => pure (rc, e, r.2.2)

/-- The branch of `eap::process` for requests. -/
def processRequest (e : EapState H) (heap : Heap) (input output : EapPacket) :
    Call (Ret × EapState H × EapPacket) :=
  match search V input e.handlers with
  | some r => runHandler V (e.claim V r.1 r.2 input.type) r.1 heap input output
  | none =>
    match e.handlers.findSome? (V.nakIt · output) with
    | some output => pure (.cont, e.straightReturn input (EapPacket.setType output nak))
    | none => pure (.inv, e, output)

/-- `eap::process`. The check for a repeated identifier is commented out in the source. -/
def process (e : EapState H) (heap : Heap) (input output : EapPacket) :
    Call (Ret × EapState H × EapPacket) :=
  if input.code = request then processRequest V e heap input output
  else if input.code = success then
    pure (.ok, { e with authType := 0, authHandler := none, lastRequest := -1 }, output)
  else if input.code = failure then pure (.fail, e, output)
  else pure (.inv, e, output)

variable {V} {e e' : EapState H} {heap : Heap} {input output output' : EapPacket}

/-- The header is counted by `operator +=`. -/
theorem len_straightReturn (e : EapState H) (input o : EapPacket) (type : ℕ) :
    (e.straightReturn input (EapPacket.setType o type)).2.len =
      o.len / 256 * 256 + (o.len % 256 + 5) % 256 := by
  change (EapPacket.addLen (EapPacket.setId (EapPacket.setType o type) input.id) 5).len = _
  rw [EapPacket.len_addLen _ _ (by decide), EapPacket.setId_eq, EapPacket.setType_eq,
    EapPacket.len_store_of_outside (Or.inl (by simp)), EapPacket.len_store_of_outside (Or.inr (by simp))]

/-- What a successful search found. -/
theorem search_eq_some {hs : List H} {i : ℕ} {w : Want} (h : search V input hs = some (i, w)) :
    ∃ hd, hs[i]? = some hd ∧ V.wantThis hd input = w ∧ w ≠ .notMe := by
  induction hs generalizing i with
  | nil => cases h
  | cons a as ih =>
    cases hw : V.wantThis a input with
    | notMe =>
      simp only [search, hw, Option.map_eq_some_iff, Prod.mk.injEq] at h
      obtain ⟨r, hr, hi, hv⟩ := h
      obtain ⟨hd, hget, hwant⟩ := ih (i := r.1) (by rw [hr, ← hv])
      exact ⟨hd, by rw [← hi, List.getElem?_cons_succ, hget], hwant⟩
    | iWill =>
      simp only [search, hw, Option.some.injEq, Prod.mk.injEq] at h
      exact ⟨a, by rw [← h.1]; rfl, hw.trans h.2, by simp [← h.2]⟩
    | iWillAuth =>
      simp only [search, hw, Option.some.injEq, Prod.mk.injEq] at h
      exact ⟨a, by rw [← h.1]; rfl, hw.trans h.2, by simp [← h.2]⟩

/-- A search that found nobody asked everybody. -/
theorem search_eq_none {hs : List H} :
    search V input hs = none ↔ ∀ hd ∈ hs, V.wantThis hd input = .notMe := by
  induction hs with
  | nil => simp [search]
  | cons a as ih =>
    cases hw : V.wantThis a input <;> simp [search, hw, ih]

/-- The search depends on what the handlers say only. -/
theorem search_congr {hs hs' : List H}
    (h : hs.map (V.wantThis · input) = hs'.map (V.wantThis · input)) :
    search V input hs = search V input hs' := by
  induction hs generalizing hs' with
  | nil => cases hs' with
    | nil => rfl
    | cons => cases h
  | cons a as ih => cases hs' with
    | nil => cases h
    | cons b bs =>
      rw [List.map_cons, List.map_cons, List.cons.injEq] at h
      simp only [search, h.1, ih h.2]

/-- A handler that has claimed a type and claims it again aborts nobody. -/
theorem claim_claimed {i : ℕ} {w : Want} {type : ℕ} {e₁ : EapState H}
    (hhandler : e₁.authHandler = (e.claim V i w type).authHandler)
    (htype : e₁.authType = (e.claim V i w type).authType) :
    (e₁.claim V i w type).handlers = e₁.handlers := by
  cases w with
  | iWillAuth =>
    have hsame : e₁.authType = type := htype
    simp [claim, hsame]
  | _ => rfl

/-- The ways in which a request is answered: by the handler that won the search, or by a Nak. -/
inductive Answer (V : Vtable H) (e : EapState H) (heap : Heap) (input output : EapPacket) :
    EapState H → EapPacket → Prop
  | handler {i : ℕ} {w : Want} {hd hd' : H} {o : EapPacket} {e' : EapState H} {output' : EapPacket}
      (hsearch : search V input e.handlers = some (i, w))
      (hget : (e.claim V i w input.type).handlers[i]? = some hd)
      (hprocess : (V.process hd heap input output).result = .ok (.cont, hd', o))
      (hdone : (e', output') =
        { e.claim V i w input.type with
          handlers := (e.claim V i w input.type).handlers.set i hd' }.straightReturn input
            (EapPacket.setType o input.type)) :
      Answer V e heap input output e' output'
  | nak {o : EapPacket} {e' : EapState H} {output' : EapPacket}
      (hsearch : search V input e.handlers = none)
      (hnak : e.handlers.findSome? (V.nakIt · output) = some o)
      (hdone : (e', output') = e.straightReturn input (EapPacket.setType o Eap.nak)) :
      Answer V e heap input output e' output'

/-- A handler position that returned `ret_cont` was occupied and its method said so. -/
theorem runHandler_cont {i : ℕ} :
    (runHandler V e i heap input output).result = .ok (.cont, e', output') ↔
      ∃ hd hd' o, e.handlers[i]? = some hd ∧
        (V.process hd heap input output).result = .ok (.cont, hd', o) ∧
        (e', output') = { e with handlers := e.handlers.set i hd' }.straightReturn input
          (EapPacket.setType o input.type) := by
  unfold runHandler
  cases hget : e.handlers[i]? with
  | none => simp
  | some hd =>
    rw [Exec.result_bind_eq_ok]
    constructor
    · rintro ⟨⟨rc, hd', o⟩, hproc, hrest⟩
      cases rc with
      | cont =>
        simp only [Exec.result_pure, Except.ok.injEq, Prod.mk.injEq, true_and] at hrest
        exact ⟨hd, hd', o, rfl, hproc, hrest.symm⟩
      | inv =>
        dsimp only at hrest
        split at hrest <;> simp at hrest
      | ok => simp at hrest
      | fail => simp at hrest
      | abort => simp at hrest
      | old => simp at hrest
    · rintro ⟨hd₁, hd', o, hsome, hproc, hdone⟩
      cases hsome
      exact ⟨(.cont, hd', o), hproc, by rw [hdone]; rfl⟩

/-- `process` returns `ret_cont` exactly for answered requests. -/
theorem process_cont :
    (process V e heap input output).result = .ok (.cont, e', output') ↔
      input.code = request ∧ Answer V e heap input output e' output' := by
  unfold process
  by_cases hreq : input.code = request
  · rw [if_pos hreq, processRequest]
    cases hs : search V input e.handlers with
    | some r =>
      obtain ⟨i, w⟩ := r
      dsimp only
      rw [runHandler_cont]
      constructor
      · rintro ⟨hd, hd', o, hget, hproc, hdone⟩
        exact ⟨hreq, .handler hs hget hproc hdone⟩
      · rintro ⟨-, hans⟩
        cases hans with
        | handler hs' hget hproc hdone =>
          cases hs.symm.trans hs'
          exact ⟨_, _, _, hget, hproc, hdone⟩
        | nak hs' => rw [hs] at hs'; cases hs'
    | none =>
      cases hn : e.handlers.findSome? (V.nakIt · output) with
      | some o =>
        constructor
        · intro h
          simp only [Exec.result_pure, Except.ok.injEq, Prod.mk.injEq, true_and] at h
          exact ⟨hreq, .nak hs hn h.symm⟩
        · rintro ⟨-, hans⟩
          cases hans with
          | handler hs' => rw [hs] at hs'; cases hs'
          | nak _ hn' hdone =>
            cases hn.symm.trans hn'
            simp only [← hdone, Exec.result_pure]
      | none =>
        constructor
        · intro h
          simp at h
        · rintro ⟨-, hans⟩
          cases hans with
          | handler hs' => rw [hs] at hs'; cases hs'
          | nak _ hn' => rw [hn] at hn'; cases hn'
  · rw [if_neg hreq]
    constructor
    · intro h
      split at h
      · simp at h
      · split at h <;> simp at h
    · exact fun h => absurd h.1 hreq

/-- What a handler that was run has changed, whatever it returned. -/
theorem runHandler_changes {i : ℕ} {r : Ret × EapState H × EapPacket}
    (h : (runHandler V e i heap input output).result = .ok r) :
    ∃ hd rc hd' o, e.handlers[i]? = some hd ∧
      (V.process hd heap input output).result = .ok (rc, hd', o) ∧
      r.2.1.handlers = e.handlers.set i hd' ∧ r.2.1.authHandler = e.authHandler ∧
      r.2.1.authType = e.authType ∧
      (r.2.2 = o ∨ r.2.2 = (e.straightReturn input (EapPacket.setType o input.type)).2) := by
  unfold runHandler at h
  cases hget : e.handlers[i]? with
  | none => simp [hget] at h
  | some hd =>
    simp only [hget] at h
    obtain ⟨⟨rc, hd', o⟩, hproc, hrest⟩ := Exec.result_bind_eq_ok.mp h
    refine ⟨hd, rc, hd', o, rfl, hproc, ?_⟩
    cases rc with
    | cont => cases hrest; exact ⟨rfl, rfl, rfl, Or.inr rfl⟩
    | inv =>
      dsimp only at hrest
      split at hrest <;> cases hrest <;> exact ⟨rfl, rfl, rfl, Or.inl rfl⟩
    | ok | fail | abort | old => cases hrest; exact ⟨rfl, rfl, rfl, Or.inl rfl⟩

/-- The ways in which `process` returns. -/
inductive Outcome (V : Vtable H) (e : EapState H) (heap : Heap) (input output : EapPacket) :
    Ret × EapState H × EapPacket → Prop
  | handled {i : ℕ} {w : Want} {r : Ret × EapState H × EapPacket} (hreq : input.code = request)
      (hsearch : search V input e.handlers = some (i, w))
      (hrun : (runHandler V (e.claim V i w input.type) i heap input output).result = .ok r) :
      Outcome V e heap input output r
  | nak {o : EapPacket} (hreq : input.code = request)
      (hsearch : search V input e.handlers = none)
      (hnak : e.handlers.findSome? (V.nakIt · output) = some o) :
      Outcome V e heap input output (.cont, e.straightReturn input (EapPacket.setType o Eap.nak))
  | unsupported (hreq : input.code = request) (hsearch : search V input e.handlers = none) :
      Outcome V e heap input output (.inv, e, output)
  | succeeded (hcode : input.code = success) :
      Outcome V e heap input output
        (.ok, { e with authType := 0, authHandler := none, lastRequest := -1 }, output)
  | passed {rc : Ret} (hreq : input.code ≠ request) (hsuccess : input.code ≠ success) :
      Outcome V e heap input output (rc, e, output)

/-- The outcome of a call that returns. -/
theorem process_outcome {r : Ret × EapState H × EapPacket}
    (h : (process V e heap input output).result = .ok r) : Outcome V e heap input output r := by
  unfold process at h
  split at h
  · rename_i hreq
    unfold processRequest at h
    split at h
    · rename_i p hsearch
      exact .handled hreq hsearch h
    · rename_i hsearch
      split at h
      · rename_i o hnak
        cases h
        exact .nak hreq hsearch hnak
      · cases h
        exact .unsupported hreq hsearch
  · rename_i hreq
    split at h
    · rename_i hsuccess
      cases h
      exact .succeeded hsuccess
    · rename_i hsuccess
      split at h <;> cases h <;> exact .passed hreq hsuccess

section Attributes

/-! An attribute of the handlers that no method changes is the same at every position after a
packet. -/

variable {β : Type} {f : H → β}

/-- Aborting keeps what the handlers keep of themselves. -/
theorem abort_handlers_map (habort : ∀ h, f (V.abort h) = f h) (e : EapState H) :
    (e.abort V).handlers.map f = e.handlers.map f := by
  unfold abort
  split
  · rename_i k _
    apply List.ext_getElem?
    intro j
    simp only [List.getElem?_map, List.getElem?_modify]
    split
    · cases e.handlers[j]? <;> simp [habort]
    · simp
  · rfl

/-- Claiming keeps what aborting keeps of each handler. -/
theorem claim_handlers_map (habort : ∀ h, f (V.abort h) = f h) (i : ℕ) (w : Want) (type : ℕ) :
    (e.claim V i w type).handlers.map f = e.handlers.map f := by
  unfold claim
  split
  · split
    · exact abort_handlers_map habort e
    · rfl
  · rfl

/-- Replacing an element by one with the same attribute. -/
theorem map_set_of_eq {hs : List H} {i : ℕ} {h h' : H} (hget : hs[i]? = some h) (hsame : f h' = f h) :
    (hs.set i h').map f = hs.map f := by
  obtain ⟨hi, rfl⟩ := List.getElem?_eq_some_iff.mp hget
  rw [List.map_set, hsame, ← List.map_set, List.set_getElem_self]

/-- The handler at a position has the attribute it had before the claim. -/
theorem claim_getElem? (habort : ∀ h, f (V.abort h) = f h) {i : ℕ} {hd : H}
    (hget : e.handlers[i]? = some hd) (w : Want) (type : ℕ) :
    ∃ hd', (e.claim V i w type).handlers[i]? = some hd' ∧ f hd' = f hd := by
  have hsame := congrArg (·[i]?) (claim_handlers_map (e := e) habort i w type)
  simp only [List.getElem?_map, hget, Option.map_some] at hsame
  exact Option.map_eq_some_iff.mp hsame

/-- Running a handler keeps what processing keeps of it. -/
private theorem runHandler_handlers_map
    (hprocess : ∀ h heap input output r, (V.process h heap input output).result = .ok r →
      f r.2.1 = f h)
    {i : ℕ} {r : Ret × EapState H × EapPacket}
    (h : (runHandler V e i heap input output).result = .ok r) :
    r.2.1.handlers.map f = e.handlers.map f := by
  obtain ⟨hd, rc, hd', o, hget, hproc, hhandlers, -⟩ := runHandler_changes h
  rw [hhandlers]
  exact map_set_of_eq hget (hprocess _ _ _ _ _ hproc)

/-- A call of `process` keeps what all methods keep of each handler. -/
theorem process_handlers_map (habort : ∀ h, f (V.abort h) = f h)
    (hprocess : ∀ h heap input output r, (V.process h heap input output).result = .ok r →
      f r.2.1 = f h)
    {r : Ret × EapState H × EapPacket} (h : (process V e heap input output).result = .ok r) :
    r.2.1.handlers.map f = e.handlers.map f := by
  cases process_outcome h with
  | handled _ _ hrun => rw [runHandler_handlers_map hprocess hrun, claim_handlers_map habort]
  | nak | unsupported | succeeded | passed => rfl

end Attributes

end EapState

end Dot1x.Eap
