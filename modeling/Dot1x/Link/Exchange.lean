import Dot1x.Eap.Handlers
import Dot1x.Link.Ethernet
import Mathlib.Logic.Relation

/-!
# The EAP layer behind its link

Both programs keep one EAP layer and one output buffer, prepare the buffer once with
`setup_output`, and from then on pass packets to `eap::process`, abort, and write EAPOL headers
in front of the answers. A call of a handler that throws leaves the books as they are at that
point, and of the handler and its half-written answer only what the handlers stand by.

The results describe `eap::process` as a function of the packet and the books, over every
sequence of such calls.
-/

namespace Dot1x.Link

open Dot1x.Base Dot1x.Wire Dot1x.Eap

/-- The layer, its handlers watched, and the link. -/
structure Exchange (H : Type) where
  auth : EapState (Watched H)
  io : Ll8023

/-- The calls that are made. -/
inductive EapCall
  | process (heap : Heap) (input : EapPacket)
  | abort
  | makeEapol (type : ℕ)

namespace Exchange

variable {H : Type} (V : Vtable H) (wants : H → Set ℕ)

/-- The layer with handlers added, the last of the list first, and a link. -/
def start (hs : List H) (l : Ll8023) : Exchange H :=
  ⟨hs.foldr (fun h e => e.addHandler ⟨h, 0⟩) .init, l⟩

/-- The packet that `eap::process` writes its answer into. -/
def output (s : Exchange H) : EapPacket := s.io.output.body

/-- The result of `eap::process` for a packet. -/
def processed (s : Exchange H) (heap : Heap) (input : EapPacket) :
    Except Failure (Ret × EapState (Watched H) × EapPacket) :=
  (s.auth.process V.watched heap input s.output).result

/-- Take over a layer and the memory of an output packet. -/
def put (s : Exchange H) (e : EapState (Watched H)) (o : EapPacket) : Exchange H :=
  ⟨e, { s.io with outData := o.mem }⟩

/-- What a call makes of the layer and the link. -/
inductive Step : Exchange H → EapCall → Exchange H → Prop
  | returned {s : Exchange H} {heap : Heap} {input : EapPacket}
      {r : Ret × EapState (Watched H) × EapPacket} (hres : s.processed V heap input = .ok r) :
      Step s (.process heap input) (s.put r.2.1 r.2.2)
  | thrown {s : Exchange H} {heap : Heap} {input o : EapPacket} {i : ℕ} {w : Want}
      {h : Watched H} {x : H} {f : Failure} (hreq : input.code = request)
      (hsearch : EapState.search V.watched input s.auth.handlers = some (i, w))
      (hget : (s.auth.claim V.watched i w input.type).handlers[i]? = some h)
      (hthrow : (V.process h.handler heap input s.output).result = .error f)
      (hleft : wants x = wants h.handler) (hwritten : s.output.SameHead o) :
      Step s (.process heap input)
        (s.put { s.auth.claim V.watched i w input.type with
          handlers :=
            (s.auth.claim V.watched i w input.type).handlers.set i { h with handler := x } } o)
  | abort {s : Exchange H} : Step s .abort { s with auth := s.auth.abort V.watched }
  | makeEapol {s : Exchange H} {type : ℕ} :
      Step s (.makeEapol type) { s with io := s.io.makeEapol type }

/-- What any sequence of calls leads to. -/
abbrev Reached : Exchange H → Exchange H → Prop :=
  Relation.ReflTransGen fun s s' => ∃ c, Step V wants s c s'

/-- A handler in the list wants the type of a packet. -/
def Wanted (s : Exchange H) (input : EapPacket) : Prop :=
  ∃ h ∈ s.auth.handlers, input.type ∈ wants h.handler

/-- What `eap::process` answers: the type of a request that a handler wants, otherwise a Nak with
the data of the first handler that offers some; without such a handler the request is invalid. -/
structure AnswersRequests (s : Exchange H) (heap : Heap) (input : EapPacket) : Prop where
  cont {e : EapState (Watched H)} {o : EapPacket} :
    s.processed V heap input = .ok (.cont, e, o) →
      o.id = input.id ∧ o.code = response ∧
        (s.Wanted wants input → o.type = input.type) ∧
        (¬s.Wanted wants input → o.type = nak ∧
          ∃ offer, s.auth.handlers.findSome? (V.nakIt ·.handler s.output) = some offer ∧
            o.len = (EapPacket.addLen offer EapPacket.headerLen).len ∧
            ∀ i, EapPacket.headerLen ≤ i → o.byte i = offer.byte i)
  nak : input.code = request → ¬s.Wanted wants input →
    (∃ h ∈ s.auth.handlers, V.nakIt h.handler s.output ≠ none) →
      ∃ e o, s.processed V heap input = .ok (.cont, e, o)
  inv : input.code = request → ¬s.Wanted wants input →
    (∀ h ∈ s.auth.handlers, V.nakIt h.handler s.output = none) →
      ∃ e o, s.processed V heap input = .ok (.inv, e, o)

/-- Requests that are taken without authentication, or by nobody, leave the two fields as they
are. -/
def KeepsBooks (s : Exchange H) : EapCall → Exchange H → Prop
  | .process _ input, s' =>
    input.code = request →
      (∃ h ∈ s.auth.handlers, V.wantThis h.handler input = .iWill) ∨ ¬s.Wanted wants input →
        s'.auth.authHandler = s.auth.authHandler ∧ s'.auth.authType = s.auth.authType
  | _, _ => True

/-- A call ends the session of the authenticator: `eap::abort`, or a request of a different
authenticating type. -/
def Interrupts (s : Exchange H) : EapCall → Prop
  | .process _ input =>
    input.code = request ∧ input.type ≠ s.auth.authType ∧
      ∃ h ∈ s.auth.handlers, V.wantThis h.handler input = .iWillAuth
  | .abort => True
  | .makeEapol _ => False

/-- During a call the authenticator is aborted once if its session ends, and nobody else is. -/
def AbortsAuthenticator (s : Exchange H) (c : EapCall) (s' : Exchange H) : Prop :=
  ∀ (j : ℕ) (h : Watched H), s.auth.handlers[j]? = some h →
    ∃ h', s'.auth.handlers[j]? = some h' ∧
      h.Counts (s.auth.authHandler = some j ∧ s.Interrupts V c) h'

/-- What holds between two calls. -/
structure Inv (s : Exchange H) : Prop where
  exclusive : Exclusive (fun h : Watched H => wants h.handler) s.auth.handlers
  books : s.auth.BooksAgree fun h => wants h.handler
  code : s.output.code = response

variable {V wants} {s s' : Exchange H} {heap : Heap} {input : EapPacket}

/-- The handlers are installed with their books at zero. -/
theorem start_handlers (hs : List H) (l : Ll8023) :
    (start hs l).auth = ⟨hs.map (⟨·, 0⟩), none, 0, 0, 0⟩ := by
  induction hs with
  | nil => rfl
  | cons h hs ih =>
    have hcons : (start (h :: hs) l).auth = (start hs l).auth.addHandler ⟨h, 0⟩ := rfl
    rw [hcons, ih]
    rfl

/-- The invariant holds at the start. -/
theorem start_inv {hs : List H} (hex : Exclusive wants hs) {l : Ll8023}
    (hcode : l.output.body.code = response) : Inv wants (start hs l) where
  exclusive := by
    refine hex.congr ?_
    rw [start_handlers, List.map_map]
    rfl
  books := .of_none (by rw [start_handlers]) (by rw [start_handlers])
  code := hcode

/-- Storing the answer changes the output packet to it. -/
theorem put_output {e : EapState (Watched H)} {o : EapPacket} (hdata : o.data = s.output.data) :
    (s.put e o).output = o := by
  obtain ⟨m, d⟩ := o
  cases hdata
  rfl

/-- What a call of `eap::process` does to the books, the counters and the code of the output. -/
theorem Step.process_books (hV : V.Disciplined wants)
    (h : Step V wants s (.process heap input) s') :
    EapState.SameBooks (fun h => (wants h.handler, h.aborts)) (s.auth.booked V.watched input)
        s'.auth ∧
      s'.output.code = s.output.code := by
  cases h with
  | returned hres =>
    obtain ⟨hdata, hcode⟩ := EapState.process_code hV.watched hres
    refine ⟨EapState.process_books (fun h heap input output r hr => ?_) hres, ?_⟩
    · rw [hV.watched.wants_process hr, Vtable.watched_aborts hr]
    · rw [put_output hdata, hcode]
  | thrown hreq hsearch hget hthrow hleft hwritten =>
    refine ⟨?_, by rw [put_output hwritten.data, hwritten.code]⟩
    rw [EapState.booked, if_pos hreq, hsearch]
    exact ⟨rfl, rfl, EapState.map_set_of_eq hget (by rw [hleft])⟩

/-- Calls keep the invariant. -/
theorem Inv.step (hV : V.Disciplined wants) (h : Inv wants s) {c : EapCall}
    (hstep : Step V wants s c s') : Inv wants s' := by
  cases c with
  | process heap input =>
    obtain ⟨hbooks, hcode⟩ := hstep.process_books hV
    have hwants : s'.auth.handlers.map (fun h => wants h.handler) =
        (s.auth.booked V.watched input).handlers.map fun h => wants h.handler := by
      have hpairs := congrArg (List.map Prod.fst) hbooks.handlers
      rwa [List.map_map, List.map_map] at hpairs
    have hbooked := h.books.booked hV.watched h.exclusive input
    have hsame : (s.auth.booked V.watched input).handlers.map (fun h => wants h.handler) =
        s.auth.handlers.map fun h => wants h.handler :=
      EapState.booked_handlers_map hV.watched.wants_abort s.auth input
    exact ⟨h.exclusive.congr (hwants.trans hsame),
      hbooked.congr ⟨hbooks.authHandler, hbooks.authType, hwants⟩, hcode.trans h.code⟩
  | abort =>
    cases hstep
    exact ⟨h.exclusive.congr (EapState.abort_handlers_map hV.watched.wants_abort s.auth),
      h.books.abort, h.code⟩
  | makeEapol type =>
    cases hstep
    exact ⟨h.exclusive, h.books, (s.io.makeEapol_body_code type).trans h.code⟩

/-- The invariant holds in every exchange that is reached. -/
theorem Reached.inv (hV : V.Disciplined wants) (h : Inv wants s) (hrun : Reached V wants s s') :
    Inv wants s' := by
  induction hrun with
  | refl => exact h
  | tail _ hstep ih =>
    obtain ⟨c, hc⟩ := hstep
    exact ih.step hV hc

/-- Who is aborted during a call. -/
theorem Step.abortsAuthenticator (hV : V.Disciplined wants) (h : Inv wants s) {c : EapCall}
    (hstep : Step V wants s c s') : s.AbortsAuthenticator V c s' := by
  intro j hd hget
  cases c with
  | process heap input =>
    obtain ⟨hbooks, -⟩ := hstep.process_books hV
    obtain ⟨hd₁, hget₁, hcounts⟩ := EapState.booked_counts hV h.exclusive input hget
    have hsame := congrArg (·[j]?) hbooks.handlers
    simp only [List.getElem?_map, hget₁, Option.map_some] at hsame
    obtain ⟨hd', hget', heq⟩ := Option.map_eq_some_iff.mp hsame
    have haborts : hd'.aborts = hd₁.aborts := congrArg Prod.snd heq
    refine ⟨hd', hget', ?_⟩
    rw [Watched.Counts, haborts]
    exact hcounts
  | abort =>
    cases hstep
    obtain ⟨hd', hget', hcounts⟩ := EapState.abort_counts (V := V) s.auth hget
    refine ⟨hd', hget', ?_⟩
    simpa only [Interrupts, and_true] using hcounts
  | makeEapol type =>
    cases hstep
    exact ⟨hd, hget, Or.inr ⟨fun hcond => hcond.2, rfl⟩⟩

/-- When the two fields stay. -/
theorem Step.keepsBooks (hV : V.Disciplined wants) (h : Inv wants s) {c : EapCall}
    (hstep : Step V wants s c s') : s.KeepsBooks V wants c s' := by
  cases c with
  | process heap input =>
    intro hreq htaken
    obtain ⟨hbooks, -⟩ := hstep.process_books hV
    have hnobody : ∀ g ∈ s.auth.handlers, V.wantThis g.handler input ≠ .iWillAuth := by
      intro g hmem hauth
      have hwants : input.type ∈ wants g.handler :=
        (hV.wantThis_iff g.handler input).mp (by rw [hauth]; decide)
      rcases htaken with ⟨hd, hmem', hwill⟩ | hunwanted
      · have hwants' : input.type ∈ wants hd.handler :=
          (hV.wantThis_iff hd.handler input).mp (by rw [hwill]; decide)
        obtain ⟨i, hgeti⟩ := List.getElem?_of_mem hmem
        obtain ⟨j, hgetj⟩ := List.getElem?_of_mem hmem'
        cases h.exclusive.eq_of_mem hgeti hgetj hwants hwants'
        cases hgeti.symm.trans hgetj
        rw [hauth] at hwill
        cases hwill
      · exact hunwanted ⟨g, hmem, hwants⟩
    have hbooking := EapState.booking hV.watched h.exclusive input
    have hkept : s.auth.booked V.watched input = s.auth := by
      generalize s.auth.booked V.watched input = e' at hbooking ⊢
      cases hbooking with
      | kept => rfl
      | cleared hsuccess => rw [hreq] at hsuccess; exact absurd hsuccess (by decide)
      | claimed _ hget hauth => exact absurd hauth (hnobody _ (List.mem_of_getElem? hget))
    rw [hkept] at hbooks
    exact ⟨hbooks.authHandler, hbooks.authType⟩
  | abort => trivial
  | makeEapol => trivial

/-- The search for a handler of an unwanted request. -/
theorem nobody (hV : V.Disciplined wants) (hunwanted : ¬s.Wanted wants input) :
    EapState.search V.watched input s.auth.handlers = none :=
  EapState.search_eq_none_of_wants hV.watched fun h hmem hwants => hunwanted ⟨h, hmem, hwants⟩

/-- The answer to a packet: its code, identifier and type. -/
theorem Inv.answersRequests (hV : V.Disciplined wants) (h : Inv wants s) (heap : Heap)
    (input : EapPacket) : s.AnswersRequests V wants heap input where
  cont := by
    intro e o hres
    obtain ⟨-, hcode⟩ := EapState.process_code hV.watched hres
    obtain ⟨-, hans⟩ := EapState.process_cont.mp hres
    cases hans with
    | handler hsearch hget hprocess hdone =>
      obtain rfl : o = EapState.answer _ input input.type _ := congrArg Prod.snd hdone
      obtain ⟨g, hgetg, rfl, hg⟩ := EapState.search_eq_some hsearch
      have hwanted : s.Wanted wants input :=
        ⟨g, List.mem_of_getElem? hgetg, (hV.wantThis_iff g.handler input).mp hg⟩
      have htype : input.type < 256 := (input.mem _).toNat_lt
      exact ⟨EapState.answer_id .., hcode.trans h.code,
        fun _ => EapState.answer_type _ input htype _, fun hnot => absurd hwanted hnot⟩
    | nak hsearch hnak hdone =>
      obtain rfl : o = EapState.answer _ input nak _ := congrArg Prod.snd hdone
      refine ⟨EapState.answer_id .., hcode.trans h.code, ?_, fun _ => ?_⟩
      · rintro ⟨g, hmem, hwants⟩
        have hnot := EapState.search_eq_none.mp hsearch g hmem
        exact absurd hnot ((hV.wantThis_iff g.handler input).mpr hwants)
      · exact ⟨EapState.answer_type _ input (by decide) _, _, hnak, EapState.answer_len ..,
          fun i hi => EapState.answer_byte _ input nak _ (Or.inr hi)⟩
  nak := by
    intro hreq hunwanted hoffers
    have hsearch := nobody hV hunwanted
    cases hoffer : s.auth.handlers.findSome? (V.watched.nakIt · s.output) with
    | none =>
      obtain ⟨g, hmem, hsome⟩ := hoffers
      exact absurd (List.findSome?_eq_none_iff.mp hoffer g hmem) hsome
    | some offer =>
      exact ⟨_, _, EapState.process_cont.mpr ⟨hreq, .nak hsearch hoffer rfl⟩⟩
  inv := by
    intro hreq hunwanted hnone
    have hsearch := nobody hV hunwanted
    have hoffer : s.auth.handlers.findSome? (V.watched.nakIt · s.output) = none :=
      List.findSome?_eq_none_iff.mpr hnone
    refine ⟨s.auth, s.output, ?_⟩
    rw [processed, EapState.process, if_pos hreq, EapState.processRequest]
    simp only [hsearch, hoffer, Exec.result_pure]

/-- Over every sequence of calls the two fields agree, requests are answered by the handler that
wants them or by a Nak, the fields change for requests of authenticating types only, and exactly the
authenticator whose session ends is aborted. -/
theorem process_reference (hV : V.Disciplined wants) {hs : List H} (hex : Exclusive wants hs)
    {l : Ll8023} (hcode : l.output.body.code = response) (hrun : Reached V wants (start hs l) s) :
    (s.auth.BooksAgree fun h => wants h.handler) ∧
      (∀ heap input, s.AnswersRequests V wants heap input) ∧
      ∀ c s', Step V wants s c s' → s.KeepsBooks V wants c s' ∧ s.AbortsAuthenticator V c s' := by
  have hinv : Inv wants s := hrun.inv hV (start_inv hex hcode)
  exact ⟨hinv.books, hinv.answersRequests hV, fun c s' hstep =>
    ⟨hstep.keepsBooks hV hinv, hstep.abortsAuthenticator hV hinv⟩⟩

/-- The handlers both programs install, with a notification and an identity handler only. -/
def installed : List Handler := [.identity ⟨[0x61]⟩, .notification]

/-- The link as `setup_output` leaves it. -/
def preparedLink : Ll8023 := (Ll8023.new [2, 0, 0, 0, 0, 1] fun _ => 0).setupOutput

/-- A request for the identity, with identifier 7. -/
def identityRequest : EapPacket := ⟨write (fun _ => 0) 0 [1, 7, 0, 5, 1], 0⟩

/-- The installed handlers process an identity request, the first step of an exchange. -/
theorem process_reference_installed :
    ∃ s : Exchange Handler,
      Step (Handler.vtable (fun _ => Vector.replicate 16 0) ⟨fun _ => true, fun _ => none⟩)
        (fun h => {h.wantedType}) (start installed preparedLink)
        (.process (fun _ => none) identityRequest) s ∧
      s.auth.authHandler = some 0 ∧ s.auth.authType = 1 ∧
      (s.auth.BooksAgree fun h => {h.handler.wantedType}) ∧
      (∀ heap input, s.AnswersRequests
        (Handler.vtable (fun _ => Vector.replicate 16 0) ⟨fun _ => true, fun _ => none⟩)
        (fun h => {h.wantedType}) heap input) := by
  have hstep : ∃ s : Exchange Handler,
      Step (Handler.vtable (fun _ => Vector.replicate 16 0) ⟨fun _ => true, fun _ => none⟩)
        (fun h => {h.wantedType}) (start installed preparedLink)
        (.process (fun _ => none) identityRequest) s ∧
      s.auth.authHandler = some 0 ∧ s.auth.authType = 1 :=
    ⟨_, .returned rfl, rfl, rfl⟩
  obtain ⟨s, hs, hhandler, htype⟩ := hstep
  obtain ⟨hagree, hanswers, -⟩ := process_reference (Handler.disciplined _ _)
    (Handler.exclusive_of_nodup (by decide : (installed.map Handler.wantedType).Nodup))
    (Ll8023.setupOutput_code rfl rfl : preparedLink.output.body.code = response) (.single ⟨_, hs⟩)
  exact ⟨s, hs, hhandler, htype, hagree, hanswers⟩

end Exchange

end Dot1x.Link
