import Dot1x.Base.History
import Dot1x.Base.Streak
import Dot1x.Eap.Handlers
import Dot1x.Eap.ReceiveBuffer

/-!
# The counter of invalid packets

A handler answers `ret_inv` when it cannot make sense of a packet, and after a number of such results
in a row `eap::process` returns `ret_abort` to allow for resynchronisation. The counter is cleared
where a response is sent and where it has run out, and nowhere else: a Success, a Failure, a call of
`abort` and the other results of a handler leave it as it is. Where one of these comes while the
counter stands at zero, nothing is left over and the counter holds the streak of invalid results.
-/

namespace Dot1x.Eap

open Dot1x.Base Dot1x.Wire

/-- What is seen of the calls of an `eap`, as far as resynchronisation is concerned. -/
inductive SyncEvent
  /-- A handler returned. -/
  | handled (rc : Ret)
  /-- A Nak was sent. -/
  | responded
  | succeeded
  | failed
  /-- `eap::abort`, from outside or because the type has changed. -/
  | aborted
  /-- `ret_abort` was returned where the handler had returned `ret_inv`. -/
  | gaveUp
  deriving DecidableEq

/-- A call of `eap`. -/
inductive SyncCall
  | process (heap : Heap) (input output : EapPacket)
  | abort

namespace EapState

variable {H : Type} (V : Vtable H)

/-- A handler was at work on another type than that of the request, which `i_will_auth` aborts. -/
def changesType (e : EapState H) (input : EapPacket) : Bool :=
  match search V input e.handlers with
  | some (_, .iWillAuth) => e.authHandler.isSome ∧ input.type ≠ e.authType
  | _ => false

/-- What the handler that wants a request returns, if there is one. -/
def handlerResult (e : EapState H) (heap : Heap) (input output : EapPacket) : Option Ret :=
  (search V input e.handlers).bind fun r =>
    ((e.claim V r.1 r.2 input.type).handlers[r.1]?).bind fun h =>
      (V.process h heap input output).result.toOption.map Prod.fst

/-- What is seen of a call of `process` that returned `rc`. -/
def observed (e : EapState H) (heap : Heap) (input output : EapPacket) (rc : Ret) : List SyncEvent :=
  if input.code = request then
    (if e.changesType V input then [.aborted] else []) ++
      match e.handlerResult V heap input output with
      | some res => .handled res :: if res = .inv ∧ rc = .abort then [.gaveUp] else []
      | none => if rc = .cont then [.responded] else []
  else if input.code = success then [.succeeded]
  else if input.code = failure then [.failed]
  else []

/-- A call, with what is seen of it. -/
def act (e : EapState H) : SyncCall → Exec SyncEvent Failure (EapState H)
  | .process heap input output =>
    match (process V e heap input output).result with
    | .ok r => ⟨e.observed V heap input output r.1, .ok r.2.1⟩
    | .error f => ⟨[], .error f⟩
  | .abort => ⟨[.aborted], .ok (e.abort V)⟩

/-- The call ends the row of invalid results without a response: a Success, a Failure, an abort, or
a result of a handler that is neither a response nor one more invalid packet of the same type. -/
def Disturbs (e : EapState H) : SyncCall → Prop
  | .process heap input output =>
    input.code = success ∨ input.code = failure ∨
      input.code = request ∧ ∃ res, e.handlerResult V heap input output = some res ∧ res ≠ .cont ∧
        (res = .inv → e.changesType V input)
  | .abort => True

/-- Nothing disturbs a counter that has counted. -/
def Undisturbed (_ : List SyncEvent) (e : EapState H) (a : SyncCall) : Prop :=
  e.ninvalid = 0 ∨ ¬e.Disturbs V a

/-- The last six events were invalid results of handlers. -/
def SixInvalid (past : List SyncEvent) : Prop := List.replicate 6 (.handled .inv) <:+ past

/-- This is the streak of invalid results, and the counter has not run out. -/
structure Counts (past : List SyncEvent) (n : ℕ) : Prop where
  streak : streak (fun x => x = .handled .inv) past = n
  le : n ≤ nInvalidMax

variable {V} {e e' : EapState H} {heap : Heap} {input output o : EapPacket} {rc : Ret}
  {past : List SyncEvent} {ev : SyncEvent} {n : ℕ}

/-- Aborting does not reset the counter. -/
@[simp] theorem ninvalid_abort (e : EapState H) : (e.abort V).ninvalid = e.ninvalid := by
  unfold abort
  split <;> rfl

/-- Claiming does not touch the counter. -/
@[simp] theorem ninvalid_claim (e : EapState H) (i : ℕ) (w : Want) (type : ℕ) :
    (e.claim V i w type).ninvalid = e.ninvalid := by
  unfold claim
  split
  · split
    · exact ninvalid_abort e
    · rfl
  · rfl

/-- What the counter does with the result of a handler. -/
inductive Settles (n : ℕ) : Ret → Ret → ℕ → Prop
  | cont : Settles n .cont .cont 0
  | gaveUp (h : nInvalidMax < n + 1) : Settles n .inv .abort 0
  | counted (h : ¬nInvalidMax < n + 1) : Settles n .inv .inv (n + 1)
  | other {res : Ret} (hcont : res ≠ .cont) (hinv : res ≠ .inv) : Settles n res res n

/-- A response clears the counter whatever it was. -/
theorem Settles.of_cont {m : ℕ} (h : Settles n .cont rc m) (k : ℕ) : Settles k .cont rc m := by
  cases h with
  | cont => exact .cont
  | other hcont => exact absurd rfl hcont

/-- The result of the handler settles the counter. -/
private theorem runHandler_settles {i : ℕ} {r : Ret × EapState H × EapPacket}
    (h : (runHandler V e i heap input output).result = .ok r) :
    ∃ hd res, e.handlers[i]? = some hd ∧
      (V.process hd heap input output).result.toOption.map Prod.fst = some res ∧
      Settles e.ninvalid res r.1 r.2.1.ninvalid := by
  unfold runHandler at h
  cases hget : e.handlers[i]? with
  | none => simp [hget] at h
  | some hd =>
    simp only [hget] at h
    obtain ⟨⟨res, hd', o⟩, hproc, hrest⟩ := Exec.result_bind_eq_ok.mp h
    refine ⟨hd, res, rfl, by rw [hproc]; rfl, ?_⟩
    cases res with
    | cont => cases hrest; exact .cont
    | inv =>
      dsimp only at hrest
      split at hrest
      · rename_i hmax
        cases hrest
        exact .gaveUp hmax
      · rename_i hmax
        cases hrest
        exact .counted hmax
    | ok | fail | abort | old => cases hrest; exact .other (by simp) (by simp)

/-- A request that a handler wanted: its result, and what the counter did with it. -/
private theorem settles_of_request {i : ℕ} {w : Want} {r : Ret × EapState H × EapPacket}
    (hsearch : search V input e.handlers = some (i, w))
    (hrun : (runHandler V (e.claim V i w input.type) i heap input output).result = .ok r) :
    ∃ res, e.handlerResult V heap input output = some res ∧
      Settles e.ninvalid res r.1 r.2.1.ninvalid := by
  obtain ⟨hd, res, hget, hproc, hsettles⟩ := runHandler_settles hrun
  rw [ninvalid_claim] at hsettles
  exact ⟨res, by rw [handlerResult, hsearch, Option.bind_some, hget, Option.bind_some, hproc],
    hsettles⟩

/-- The end of the row: `ret_abort` on behalf of the counter comes exactly behind the sixth result. -/
def OnTheSixth (past : List SyncEvent) (ev : SyncEvent) : Prop := ev = .gaveUp ↔ SixInvalid past

/-- The last six events are invalid results exactly if the streak is six. -/
theorem sixInvalid_iff : SixInvalid past ↔ 6 ≤ streak (fun x => x = .handled .inv) past :=
  replicate_suffix_iff

/-- While the counter counts, six have not been reached. -/
theorem Counts.not_six (h : Counts past n) : ¬SixInvalid past := by
  have hle := h.le
  rw [sixInvalid_iff, h.streak]
  unfold nInvalidMax at hle
  omega

/-- An event that is not the giving up of the counter, before six are reached. -/
theorem onTheSixth_of_ne (hne : ev ≠ .gaveUp) (h : Counts past n) : OnTheSixth past ev :=
  iff_of_false hne h.not_six

/-- An event that ends the row. -/
theorem counts_concat_of_ne (past : List SyncEvent) (hev : ev ≠ .handled .inv) : Counts (past ++ [ev]) 0 :=
  ⟨streak_concat_of_neg (by simpa using hev), Nat.zero_le _⟩

/-- What is seen of the result of a handler. -/
theorem counts_handled {res : Ret} {m : ℕ} (hpast : Counts past n) (hsettles : Settles n res rc m)
    (hquiet : res ≠ .cont → res ≠ .inv → n = 0) :
    Along OnTheSixth past (.handled res :: if res = .inv ∧ rc = .abort then [.gaveUp] else []) ∧
      Counts (past ++ .handled res :: if res = .inv ∧ rc = .abort then [.gaveUp] else []) m := by
  have hfirst : OnTheSixth past (.handled res) := onTheSixth_of_ne (by simp) hpast
  have hone (hres : res = .inv) :
      Base.streak (fun x => x = .handled .inv) (past ++ [.handled res]) = n + 1 := by
    rw [streak_concat_of_pos (by simpa using hres), hpast.streak]
  cases hsettles with
  | cont => exact ⟨.single hfirst, counts_concat_of_ne past (by simp)⟩
  | gaveUp h =>
    have hsix : SixInvalid (past ++ [.handled .inv]) := by
      rw [sixInvalid_iff, hone rfl]
      exact h
    rw [if_pos ⟨rfl, rfl⟩]
    refine ⟨.cons hfirst (.single (iff_of_true rfl hsix)), ?_⟩
    have hend := counts_concat_of_ne (past ++ [.handled .inv]) (by simp : SyncEvent.gaveUp ≠ .handled .inv)
    rwa [List.append_assoc] at hend
  | counted h =>
    rw [if_neg (by simp)]
    exact ⟨.single hfirst, hone rfl, by omega⟩
  | other hcont hinv =>
    rw [if_neg (by simp [hinv]), hquiet hcont hinv]
    exact ⟨.single hfirst, counts_concat_of_ne past (by simpa using hinv)⟩

/-- A request that nobody wants leaves no result and aborts nobody. -/
theorem unwanted (heap : Heap) (output : EapPacket) (hsearch : search V input e.handlers = none) :
    e.changesType V input = false ∧ e.handlerResult V heap input output = none := by
  simp [changesType, handlerResult, hsearch]

/-- What is seen of a packet, and the counter behind it. -/
theorem counts_observed {r : Ret × EapState H × EapPacket}
    (hres : (process V e heap input output).result = .ok r) (h : Counts past e.ninvalid)
    (hok : Undisturbed V past e (.process heap input output)) :
    Along OnTheSixth past (e.observed V heap input output r.1) ∧
      Counts (past ++ e.observed V heap input output r.1) r.2.1.ninvalid := by
  have hdisturbs (hd : e.Disturbs V (.process heap input output)) : e.ninvalid = 0 :=
    hok.resolve_right fun hnot => hnot hd
  have hzero {ev : SyncEvent} (hd : e.Disturbs V (.process heap input output))
      (hev : ev ≠ .handled .inv) : Counts (past ++ [ev]) e.ninvalid := by
    rw [hdisturbs hd]
    exact counts_concat_of_ne past hev
  unfold observed
  cases process_outcome hres with
  | @handled i w r hreq hsearch hrun =>
    obtain ⟨res, hresult, hsettles⟩ := settles_of_request hsearch hrun
    have hquiet (hcont : res ≠ .cont) (hchange : res = .inv → e.changesType V input) :
        e.ninvalid = 0 := hdisturbs (Or.inr (Or.inr ⟨hreq, res, hresult, hcont, hchange⟩))
    rw [if_pos hreq, hresult]
    by_cases hchange : e.changesType V input
    · have hfresh : Settles 0 res r.1 r.2.1.ninvalid := by
        by_cases hcont : res = .cont
        · subst hcont
          exact hsettles.of_cont 0
        · rwa [hquiet hcont fun _ => hchange] at hsettles
      have haborted : SyncEvent.aborted ≠ .handled .inv := by simp
      have hrest := counts_handled (counts_concat_of_ne past haborted) hfresh fun _ _ => rfl
      rw [if_pos hchange, ← List.append_assoc, Along.append_iff]
      exact ⟨⟨.single (onTheSixth_of_ne (by simp) h), hrest.1⟩, hrest.2⟩
    · rw [if_neg hchange, List.nil_append]
      exact counts_handled h hsettles fun hcont hinv => hquiet hcont fun h => absurd h hinv
  | nak hreq hsearch hnak =>
    obtain ⟨hchange, hresult⟩ := unwanted heap output hsearch
    rw [if_pos hreq, hchange, hresult]
    exact ⟨.single (onTheSixth_of_ne (by simp) h), counts_concat_of_ne past (by simp)⟩
  | unsupported hreq hsearch =>
    obtain ⟨hchange, hresult⟩ := unwanted heap output hsearch
    rw [if_pos hreq, hchange, hresult]
    exact ⟨.nil, by simpa using h⟩
  | succeeded hcode =>
    rw [if_neg (by rw [hcode]; decide), if_pos hcode]
    exact ⟨.single (onTheSixth_of_ne (by simp) h), hzero (Or.inl hcode) (by simp)⟩
  | passed hreq hsuccess =>
    rw [if_neg hreq, if_neg hsuccess]
    split
    · rename_i hfailure
      exact ⟨.single (onTheSixth_of_ne (by simp) h), hzero (Or.inr (Or.inl hfailure)) (by simp)⟩
    · exact ⟨.nil, by simpa using h⟩

/-- Every call that does not disturb the counter keeps it, and gives up on the sixth invalid packet. -/
theorem act_extends {a : SyncCall} (h : Counts past e.ninvalid) (hok : Undisturbed V past e a) :
    (e.act V a).Extends (fun past e => Counts past e.ninvalid) OnTheSixth past := by
  cases a with
  | abort =>
    have hzero : e.ninvalid = 0 := hok.resolve_right fun hnot => hnot trivial
    refine ⟨.single (onTheSixth_of_ne (by simp) h), fun t ht => ?_⟩
    cases ht
    rw [ninvalid_abort, hzero]
    exact counts_concat_of_ne past (by simp)
  | process heap input output =>
    cases hres : (process V e heap input output).result with
    | error f =>
      simp only [act, hres]
      exact ⟨.nil, fun t ht => by cases ht⟩
    | ok r =>
      obtain ⟨halong, hcounts⟩ := counts_observed hres h hok
      simp only [act, hres]
      exact ⟨halong, fun t ht => by cases ht; exact hcounts⟩

/-- In every run of calls that leave a counter alone that has counted: `ret_abort` on behalf of the
counter comes exactly behind the sixth invalid result in a row, with no response, Success, Failure
or abort in between, and what has been counted at the end is the row that stands there. -/
theorem resynchronises (V : Vtable H) (e : EapState H) (calls : List SyncCall)
    (hstart : e.ninvalid = 0) (h : Exec.Meets (act V) (Undisturbed V) [] e calls) :
    Along OnTheSixth [] (calls.foldlM (act V) e).log ∧
      ∀ t, (calls.foldlM (act V) e).result = .ok t →
        ¬SixInvalid (calls.foldlM (act V) e).log ∧
        t.ninvalid = Base.streak (fun x => x = .handled .inv) (calls.foldlM (act V) e).log := by
  have hrun := Exec.Extends.foldlM (I := fun past e => Counts past e.ninvalid) (P := OnTheSixth)
    (fun _ _ _ => act_extends) ⟨by rw [streak_nil, hstart], by rw [hstart]; exact Nat.zero_le _⟩ h
  refine ⟨hrun.along, fun t ht => ?_⟩
  have hcounts := hrun.invariant t ht
  exact ⟨hcounts.not_six, hcounts.streak.symm⟩

/-- The EAP layer with a new EAP-TLS handler. -/
def tlsEap : EapState Handler := init.addHandler (.tls TypeTls.blankHandler)

/-- The methods of the handlers with an engine that says nothing. -/
def tlsVtable : Vtable Handler := Handler.vtable (fun _ => .replicate 16 0) TypeTls.silentEngine

/-- An EAP-TLS request with all the flags. -/
def invalidRequest : SyncCall :=
  .process (fun _ => none) ⟨fun i => [1, 0, 0, 6, 13, 255].getD i 0, 0⟩ ⟨fun _ => 0, 0⟩

/-- A Success. -/
def successCall : SyncCall :=
  .process (fun _ => none) ⟨fun i => [3, 0, 0, 4].getD i 0, 0⟩ ⟨fun _ => 0, 0⟩

/-- In a row of such requests the handler returns `ret_inv` to each, and the type stays the same. -/
theorem invalidRequest_handled : ∀ i < 6,
    (((List.replicate 6 invalidRequest).take i).foldlM (act tlsVtable) tlsEap).result.toOption.map
      (fun t => (t.handlerResult tlsVtable (fun _ => none) ⟨fun i => [1, 0, 0, 6, 13, 255].getD i 0, 0⟩
        ⟨fun _ => 0, 0⟩,
        t.changesType tlsVtable ⟨fun i => [1, 0, 0, 6, 13, 255].getD i 0, 0⟩)) =
      some (some .inv, false) := by
  decide +kernel

/-- Six invalid requests in a row. -/
theorem resynchronises_six :
    Along OnTheSixth [] ((List.replicate 6 invalidRequest).foldlM (act tlsVtable) tlsEap).log ∧
      ∀ t, ((List.replicate 6 invalidRequest).foldlM (act tlsVtable) tlsEap).result = .ok t →
        ¬SixInvalid ((List.replicate 6 invalidRequest).foldlM (act tlsVtable) tlsEap).log ∧
        t.ninvalid = Base.streak (fun x => x = .handled .inv)
          ((List.replicate 6 invalidRequest).foldlM (act tlsVtable) tlsEap).log := by
  refine resynchronises tlsVtable tlsEap (List.replicate 6 invalidRequest) rfl
    (Exec.Meets.of_take fun i a ha t ht => Or.inr ?_)
  obtain ⟨hi, rfl⟩ := List.getElem?_eq_some_iff.mp ha
  have hhandled := invalidRequest_handled i (by simpa using hi)
  rw [ht] at hhandled
  obtain ⟨hresult, hchange⟩ := Prod.mk.inj (Option.some.inj hhandled)
  rw [List.getElem_replicate]
  rintro (hcode | hcode | ⟨-, res, hres, -, hsame⟩)
  · exact absurd hcode (by decide)
  · exact absurd hcode (by decide)
  · cases hresult.symm.trans hres
    exact absurd (hsame rfl) (by rw [hchange]; decide)

/-- Five invalid requests, a Success, and the first invalid request of the next session. -/
theorem gives_up_across_success :
    ¬Along OnTheSixth [] ((List.replicate 5 invalidRequest ++ [successCall, invalidRequest]).foldlM
      (act tlsVtable) tlsEap).log := by
  intro h
  have hlog : ((List.replicate 5 invalidRequest ++ [successCall, invalidRequest]).foldlM
      (act tlsVtable) tlsEap).log =
      List.replicate 5 (.handled .inv) ++ [.succeeded, .handled .inv, .gaveUp] := by
    decide +kernel
  rw [hlog] at h
  have hlast := (h.getElem? (i := 7) rfl).mp rfl
  rw [sixInvalid_iff] at hlast
  exact absurd hlast (by decide)

end EapState

end Dot1x.Eap
