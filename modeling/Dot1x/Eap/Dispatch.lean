import Dot1x.Eap.Process
import Mathlib.Data.Set.Defs

/-!
# The dispatcher and its bookkeeping

What `eap::process` does to `auth_handler` and `auth_type` is settled before a handler runs: by
the code of the packet and by the handler that won the search. `booked` is the layer at that
point, and whatever the handler then does, the two fields stay.

Handlers are told apart by the types they want. Where these are pairwise disjoint, a type has at
most one taker, and the search finds it wherever it stands in the list.

To see which handlers are aborted, the same dispatcher is run on watched handlers: each carries
a counter, and its `abort` counts. Forgetting the counters gives back the unwatched run.
-/

namespace Dot1x.Eap

open Dot1x.Base Dot1x.Wire

/-- The conduct of the handlers: which types one wants never changes, and into the output it
writes the length and the type data only. -/
structure Vtable.Disciplined {H : Type} (V : Vtable H) (wants : H → Set ℕ) : Prop where
  wantThis_iff (h : H) (input : EapPacket) : V.wantThis h input ≠ .notMe ↔ input.type ∈ wants h
  wants_process {h : H} {heap : Heap} {input output : EapPacket} {r : Ret × H × EapPacket} :
    (V.process h heap input output).result = .ok r → wants r.2.1 = wants h
  wants_abort (h : H) : wants (V.abort h) = wants h
  sameHead_process {h : H} {heap : Heap} {input output : EapPacket} {r : Ret × H × EapPacket} :
    (V.process h heap input output).result = .ok r → output.SameHead r.2.2
  sameHead_nakIt {h : H} {output o : EapPacket} : V.nakIt h output = some o → output.SameHead o

/-- No type has two takers, and 0 has none. -/
structure Exclusive {H : Type} (wants : H → Set ℕ) (hs : List H) : Prop where
  disjoint : (hs.map wants).Pairwise fun v w => ∀ n ∈ v, n ∉ w
  nonzero : ∀ w ∈ hs.map wants, 0 ∉ w

namespace Exclusive

variable {H : Type} {wants : H → Set ℕ}

/-- A type has one taker. -/
theorem eq_of_mem {hs : List H} (hex : Exclusive wants hs) {i j n : ℕ} {g h : H}
    (hg : hs[i]? = some g) (hh : hs[j]? = some h) (hgn : n ∈ wants g) (hhn : n ∈ wants h) :
    i = j := by
  have hordered {a b : ℕ} {x y : H} (hx : hs[a]? = some x) (hy : hs[b]? = some y)
      (hxn : n ∈ wants x) (hyn : n ∈ wants y) : ¬a < b := by
    intro hlt
    obtain ⟨ha, rfl⟩ := List.getElem?_eq_some_iff.mp hx
    obtain ⟨hb, rfl⟩ := List.getElem?_eq_some_iff.mp hy
    have hdisjoint := List.pairwise_iff_getElem.mp hex.disjoint a b (by simpa using ha)
      (by simpa using hb) hlt
    rw [List.getElem_map, List.getElem_map] at hdisjoint
    exact hdisjoint n hxn hyn
  exact Nat.le_antisymm (Nat.not_lt.mp (hordered hh hg hhn hgn))
    (Nat.not_lt.mp (hordered hg hh hgn hhn))

/-- No handler takes the type 0. -/
theorem ne_zero {hs : List H} (hex : Exclusive wants hs) {h : H} (hmem : h ∈ hs) {n : ℕ}
    (hn : n ∈ wants h) : n ≠ 0 := by
  rintro rfl
  exact hex.nonzero _ (List.mem_map_of_mem hmem) hn

/-- Only what the handlers want matters. -/
theorem congr {K : Type} {wants' : K → Set ℕ} {hs : List H} {ks : List K}
    (hex : Exclusive wants hs) (hsame : ks.map wants' = hs.map wants) : Exclusive wants' ks :=
  ⟨hsame ▸ hex.disjoint, hsame ▸ hex.nonzero⟩

end Exclusive

/-- A handler and how often its `abort` was called. -/
structure Watched (H : Type) where
  handler : H
  aborts : ℕ

/-- The counter moves by one if a condition holds, and stays if not. -/
def Watched.Counts {H : Type} (P : Prop) (h h' : Watched H) : Prop :=
  P ∧ h'.aborts = h.aborts + 1 ∨ ¬P ∧ h'.aborts = h.aborts

/-- The methods of watched handlers. -/
def Vtable.watched {H : Type} (V : Vtable H) : Vtable (Watched H) where
  wantThis h := V.wantThis h.handler
  process h heap input output := do
    let r ← V.process h.handler heap input output
    pure (r.1, { h with handler := r.2.1 }, r.2.2)
  nakIt h := V.nakIt h.handler
  abort h := ⟨V.abort h.handler, h.aborts + 1⟩

/-- The methods of two kinds of handlers agree along a map. -/
structure Vtable.Maps {H K : Type} (V : Vtable H) (W : Vtable K) (f : H → K) : Prop where
  wantThis (h : H) (input : EapPacket) : W.wantThis (f h) input = V.wantThis h input
  process (h : H) (heap : Heap) (input output : EapPacket) :
    W.process (f h) heap input output =
      (fun r => (r.1, f r.2.1, r.2.2)) <$> V.process h heap input output
  nakIt (h : H) (output : EapPacket) : W.nakIt (f h) output = V.nakIt h output
  abort (h : H) : W.abort (f h) = f (V.abort h)

namespace EapState

/-- The layer with every handler replaced. -/
def map {H K : Type} (f : H → K) (e : EapState H) : EapState K :=
  ⟨e.handlers.map f, e.authHandler, e.authType, e.lastRequest, e.ninvalid⟩

section Maps

variable {H K : Type} {V : Vtable H} {W : Vtable K} {f : H → K} {e : EapState H} {heap : Heap}
  {input output : EapPacket}

/-- Aborting commutes with the map. -/
theorem abort_map (hf : V.Maps W f) (e : EapState H) : (e.map f).abort W = (e.abort V).map f := by
  have hmodify (k : ℕ) :
      (e.handlers.map f).modify k W.abort = (e.handlers.modify k V.abort).map f := by
    apply List.ext_getElem?
    intro j
    simp only [List.getElem?_modify, List.getElem?_map]
    by_cases hk : k = j
    · cases e.handlers[j]? <;> simp [hk, hf.abort]
    · simp [hk]
  unfold abort
  cases hauth : e.authHandler with
  | none => simp [map, hauth]
  | some k => simp [map, hauth, hmodify]

/-- The same handler is found behind the map. -/
theorem search_map (hf : V.Maps W f) (hs : List H) :
    search W input (hs.map f) = search V input hs := by
  induction hs with
  | nil => rfl
  | cons h hs ih => simp only [List.map_cons, search, hf.wantThis, ih]

/-- Claiming commutes with the map. -/
theorem claim_map (hf : V.Maps W f) (e : EapState H) (i : ℕ) (w : Want) (type : ℕ) :
    (e.map f).claim W i w type = (e.claim V i w type).map f := by
  cases w with
  | iWillAuth =>
    simp only [claim]
    by_cases habort : e.authHandler.isSome ∧ type ≠ e.authType
    · rw [if_pos habort, if_pos (by exact habort), abort_map hf]
      rfl
    · rw [if_neg habort, if_neg (by exact habort)]
      rfl
  | notMe => rfl
  | iWill => rfl

/-- Running a handler commutes with the map. -/
theorem runHandler_map (hf : V.Maps W f) (e : EapState H) (i : ℕ) :
    runHandler W (e.map f) i heap input output =
      (fun r => (r.1, r.2.1.map f, r.2.2)) <$> runHandler V e i heap input output := by
  have hget : (e.map f).handlers[i]? = e.handlers[i]?.map f := List.getElem?_map
  have hset (h : H) : (e.map f).handlers.set i (f h) = (e.handlers.set i h).map f :=
    (List.map_set ..).symm
  unfold runHandler
  rw [hget]
  cases e.handlers[i]? with
  | none => rfl
  | some h =>
    simp only [Option.map_some, hf.process, bind_map_left, map_bind, hset]
    refine congrArg _ (funext fun r => ?_)
    obtain ⟨rc, h', o⟩ := r
    cases rc with
    | inv =>
      simp only
      change (if nInvalidMax < e.ninvalid + 1 then _ else _) = _
      split <;> rfl
    | cont | ok | fail | abort | old => rfl

/-- The dispatcher commutes with a replacement of the handlers that their methods respect. -/
theorem process_map (hf : V.Maps W f) (e : EapState H) (heap : Heap) (input output : EapPacket) :
    (e.map f).process W heap input output =
      (fun r => (r.1, r.2.1.map f, r.2.2)) <$> e.process V heap input output := by
  have hnak : (e.map f).handlers.findSome? (W.nakIt · output) =
      e.handlers.findSome? (V.nakIt · output) := by
    rw [map, List.findSome?_map]
    exact congrArg (List.findSome? · e.handlers) (funext (hf.nakIt · output))
  unfold process
  split
  · unfold processRequest
    rw [show search W input (e.map f).handlers = _ from search_map hf e.handlers, hnak]
    cases search V input e.handlers with
    | some r => simp only [claim_map hf, runHandler_map hf]
    | none => cases e.handlers.findSome? (V.nakIt · output) <;> rfl
  · split
    · rfl
    · split <;> rfl

/-- Watching the handlers changes nothing else. -/
theorem watched_maps (V : Vtable H) : V.watched.Maps V Watched.handler where
  wantThis _ _ := rfl
  process h heap input output := by
    simp only [Vtable.watched, map_bind, map_pure]
    exact (bind_pure _).symm
  nakIt _ _ := rfl
  abort _ := rfl

end Maps

section Bookkeeping

variable {H : Type} {V : Vtable H} {e : EapState H} {heap : Heap} {input output : EapPacket}

/-- The layer when a packet has been examined and no handler has run. -/
def booked (V : Vtable H) (e : EapState H) (input : EapPacket) : EapState H :=
  if input.code = request then
    match search V input e.handlers with
    | some r => e.claim V r.1 r.2 input.type
    | none => e
  else if input.code = success then { e with authType := 0, authHandler := none }
  else e

/-- Settling the books keeps what aborting keeps of each handler. -/
theorem booked_handlers_map {β : Type} {f : H → β} (habort : ∀ h, f (V.abort h) = f h)
    (e : EapState H) (input : EapPacket) :
    (e.booked V input).handlers.map f = e.handlers.map f := by
  unfold booked
  split
  · split
    · exact claim_handlers_map habort ..
    · rfl
  · split <;> rfl

/-- Two layers have the same authenticator, and their handlers the same attribute. -/
structure SameBooks {β : Type} (f : H → β) (e e' : EapState H) : Prop where
  authHandler : e'.authHandler = e.authHandler
  authType : e'.authType = e.authType
  handlers : e'.handlers.map f = e.handlers.map f

/-- What is booked before a handler runs is what the call leaves. -/
theorem process_books {β : Type} {f : H → β}
    (hprocess : ∀ h heap input output r, (V.process h heap input output).result = .ok r →
      f r.2.1 = f h)
    {r : Ret × EapState H × EapPacket} (h : (e.process V heap input output).result = .ok r) :
    SameBooks f (e.booked V input) r.2.1 := by
  unfold booked
  cases process_outcome h with
  | handled hreq hsearch hrun =>
    obtain ⟨hd, rc, hd', o, hget, hproc, hhandlers, hauth, htype, -⟩ := runHandler_changes hrun
    rw [if_pos hreq, hsearch]
    refine ⟨hauth, htype, ?_⟩
    rw [hhandlers]
    exact map_set_of_eq hget (hprocess _ _ _ _ _ hproc)
  | nak hreq hsearch | unsupported hreq hsearch =>
    rw [if_pos hreq, hsearch]
    exact ⟨rfl, rfl, rfl⟩
  | succeeded hcode =>
    rw [if_neg (by rw [hcode]; decide), if_pos hcode]
    exact ⟨rfl, rfl, rfl⟩
  | passed hreq hsuccess =>
    rw [if_neg hreq, if_neg hsuccess]
    exact ⟨rfl, rfl, rfl⟩

/-- The handlers after `eap::abort`: the authenticator was aborted. -/
theorem getElem?_abort (e : EapState H) (j : ℕ) :
    (e.abort V).handlers[j]? =
      e.handlers[j]?.map fun h => if e.authHandler = some j then V.abort h else h := by
  unfold abort
  cases hauth : e.authHandler with
  | none => simp
  | some k =>
    simp only [List.getElem?_modify, Option.some.injEq]
    by_cases hk : k = j
    · simp [hk]
    · simp [hk]

/-- After `abort` there is no authenticator. -/
theorem abort_authHandler (e : EapState H) : (e.abort V).authHandler = none := by
  unfold abort
  cases hauth : e.authHandler with
  | none => rfl
  | some k => rfl

end Bookkeeping

section Takers

variable {H : Type} {V : Vtable H} {wants : H → Set ℕ} {e : EapState H} {input : EapPacket}

/-- The search finds the taker. -/
theorem search_of_wants (hV : V.Disciplined wants) {hs : List H} (hex : Exclusive wants hs) {i : ℕ}
    {h : H} (hget : hs[i]? = some h) (hwants : input.type ∈ wants h) :
    search V input hs = some (i, V.wantThis h input) := by
  cases hs' : search V input hs with
  | none =>
    have hnot := search_eq_none.mp hs' h (List.mem_of_getElem? hget)
    exact absurd hnot ((hV.wantThis_iff h input).mpr hwants)
  | some r =>
    obtain ⟨j, w⟩ := r
    obtain ⟨g, hgetj, rfl, hw⟩ := search_eq_some hs'
    have hij := hex.eq_of_mem hget hgetj hwants ((hV.wantThis_iff g input).mp hw)
    subst hij
    cases hget.symm.trans hgetj
    rfl

/-- Nobody is found where nobody wants the type. -/
theorem search_eq_none_of_wants (hV : V.Disciplined wants) {hs : List H}
    (hnone : ∀ h ∈ hs, input.type ∉ wants h) : search V input hs = none := by
  apply search_eq_none.mpr
  intro h hmem
  by_contra hw
  exact hnone h hmem ((hV.wantThis_iff h input).mp hw)

/-- What the books of a layer become by a packet: the taker is entered, they are cleared, or they
stay as they are. -/
inductive Booking (V : Vtable H) (e : EapState H) (input : EapPacket) : EapState H → Prop
  | claimed {i : ℕ} {h : H} (hreq : input.code = request) (hget : e.handlers[i]? = some h)
      (hauth : V.wantThis h input = .iWillAuth) :
      Booking V e input (e.claim V i .iWillAuth input.type)
  | cleared (hsuccess : input.code = success) :
      Booking V e input { e with authType := 0, authHandler := none }
  | kept (hcode : input.code ≠ success)
      (hnone : input.code = request → ∀ h ∈ e.handlers, V.wantThis h input ≠ .iWillAuth) :
      Booking V e input e

/-- The books are settled by one of the bookings. -/
theorem booking (hV : V.Disciplined wants) (hex : Exclusive wants e.handlers) (input : EapPacket) :
    Booking V e input (e.booked V input) := by
  unfold booked
  by_cases hreq : input.code = request
  · rw [if_pos hreq]
    have hnot : input.code ≠ success := by
      rw [hreq]
      decide
    cases hs : search V input e.handlers with
    | none =>
      refine .kept hnot fun _ h hmem => ?_
      rw [search_eq_none.mp hs h hmem]
      decide
    | some r =>
      obtain ⟨i, w⟩ := r
      obtain ⟨h, hget, hwant, hw⟩ := search_eq_some hs
      cases w with
      | notMe => exact absurd rfl hw
      | iWillAuth => exact .claimed hreq hget hwant
      | iWill =>
        refine .kept hnot fun _ g hmem hauth => ?_
        obtain ⟨j, hgetj⟩ := List.getElem?_of_mem hmem
        have hg : input.type ∈ wants g := (hV.wantThis_iff g input).mp (by rw [hauth]; decide)
        have hfound := search_of_wants hV hex hgetj hg
        rw [hs, hauth] at hfound
        cases hfound
  · rw [if_neg hreq]
    by_cases hsuccess : input.code = success
    · rw [if_pos hsuccess]
      exact .cleared hsuccess
    · rw [if_neg hsuccess]
      exact .kept hsuccess fun h => absurd h hreq

/-- The two fields agree: there is no authenticator exactly if its type is 0, and the authenticator
is the one handler that wants the type. -/
structure BooksAgree (wants : H → Set ℕ) (e : EapState H) : Prop where
  none_iff : e.authHandler = none ↔ e.authType = 0
  taker {k : ℕ} : e.authHandler = some k →
    ∀ j, (∃ h, e.handlers[j]? = some h ∧ e.authType ∈ wants h) ↔ j = k

namespace BooksAgree

/-- Only the fields and what the handlers want matters. -/
theorem congr {e' : EapState H} (h : BooksAgree wants e) (hsame : SameBooks wants e e') :
    BooksAgree wants e' where
  none_iff := by
    rw [hsame.authHandler, hsame.authType]
    exact h.none_iff
  taker := by
    intro k hk j
    have hmap (hs : List H) : (∃ h, hs[j]? = some h ∧ e.authType ∈ wants h) ↔
        ∃ w, (hs.map wants)[j]? = some w ∧ e.authType ∈ w := by
      simp only [List.getElem?_map, Option.map_eq_some_iff]
      constructor
      · rintro ⟨h, hget, hw⟩
        exact ⟨_, ⟨h, hget, rfl⟩, hw⟩
      · rintro ⟨_, ⟨h, hget, rfl⟩, hw⟩
        exact ⟨h, hget, hw⟩
    rw [hsame.authType, hmap, hsame.handlers, ← hmap]
    exact h.taker (hsame.authHandler ▸ hk) j

/-- The books are empty when there is no authenticator and no type. -/
theorem of_none (hhandler : e.authHandler = none) (htype : e.authType = 0) : BooksAgree wants e :=
  ⟨iff_of_true hhandler htype, fun hk => by rw [hhandler] at hk; cases hk⟩

/-- The books agree after `abort`, which clears them. -/
theorem abort (h : BooksAgree wants e) : BooksAgree wants (e.abort V) := by
  refine of_none (abort_authHandler e) ?_
  unfold EapState.abort
  cases hauth : e.authHandler with
  | none => exact h.none_iff.mp hauth
  | some k => rfl

/-- A request leaves the books in agreement, whoever takes it. -/
theorem booked (hV : V.Disciplined wants) (hex : Exclusive wants e.handlers)
    (h : BooksAgree wants e) (input : EapPacket) : BooksAgree wants (e.booked V input) := by
  have hbooking := booking hV hex input
  generalize EapState.booked V e input = e' at hbooking ⊢
  cases hbooking with
  | kept => exact h
  | cleared => exact of_none rfl rfl
  | @claimed i hd hreq hget hauth =>
    have hclaimed : (e.claim V i .iWillAuth input.type).handlers.map wants = e.handlers.map wants :=
      claim_handlers_map hV.wants_abort i .iWillAuth input.type
    have hwants : input.type ∈ wants hd := (hV.wantThis_iff hd input).mp (by rw [hauth]; decide)
    obtain ⟨hd', hget', hsame⟩ := claim_getElem? hV.wants_abort hget .iWillAuth input.type
    have hex' : Exclusive wants (e.claim V i .iWillAuth input.type).handlers := hex.congr hclaimed
    constructor
    · exact iff_of_false nofun (hex.ne_zero (List.mem_of_getElem? hget) hwants)
    · intro k hk j
      cases hk
      constructor
      · rintro ⟨g, hgetj, hg⟩
        exact hex'.eq_of_mem hgetj hget' hg (hsame ▸ hwants)
      · rintro rfl
        exact ⟨hd', hget', hsame ▸ hwants⟩

end BooksAgree

end Takers

section Output

variable {H : Type} {V : Vtable H} {wants : H → Set ℕ} {e : EapState H} {heap : Heap}
  {input output : EapPacket}

/-- The packet that is sent as an answer of a type, made from what a handler has written. -/
def answer (e : EapState H) (input : EapPacket) (type : ℕ) (o : EapPacket) : EapPacket :=
  (e.straightReturn input (EapPacket.setType o type)).2

/-- The answer stores its header and has the length of the header added. -/
theorem answer_eq (e : EapState H) (input : EapPacket) (type : ℕ) (o : EapPacket) :
    e.answer input type o =
      EapPacket.addLen ((o.store 4 [UInt8.ofNat type]).store 1 [UInt8.ofNat input.id])
        EapPacket.headerLen := rfl

/-- The bytes of an answer outside its identifier, length and type. -/
theorem answer_byte (e : EapState H) (input : EapPacket) (type : ℕ) (o : EapPacket) {i : ℕ}
    (hi : i = 0 ∨ 5 ≤ i) : (e.answer input type o).byte i = o.byte i := by
  rw [answer_eq, EapPacket.addLen_eq _ _ (by decide), Pointer.byte_store_of_outside (by simp; omega),
    Pointer.byte_store_of_outside (by simp; omega), Pointer.byte_store_of_outside (by simp; omega)]

/-- The answer keeps the code that `setup_output` has written. -/
theorem answer_code (e : EapState H) (input : EapPacket) (type : ℕ) (o : EapPacket) :
    (e.answer input type o).code = o.code := by
  rw [EapPacket.code_eq, EapPacket.code_eq, answer_byte e input type o (Or.inl rfl)]

/-- The answer has the identifier of the request. -/
theorem answer_id (e : EapState H) (input : EapPacket) (type : ℕ) (o : EapPacket) :
    (e.answer input type o).id = input.id := by
  rw [answer_eq, EapPacket.addLen_eq _ _ (by decide), EapPacket.id_eq,
    Pointer.byte_store_of_outside (by simp), Pointer.byte_store, if_pos (by simp)]
  exact UInt8.toNat_ofNat_of_lt' (input.mem _).toNat_lt

/-- The answer has the type of the handler. -/
theorem answer_type (e : EapState H) (input : EapPacket) {type : ℕ} (htype : type < 256)
    (o : EapPacket) : (e.answer input type o).type = type := by
  rw [answer_eq, EapPacket.addLen_eq _ _ (by decide), EapPacket.type_eq,
    Pointer.byte_store_of_outside (by simp), Pointer.byte_store_of_outside (by simp),
    Pointer.byte_store, if_pos (by simp)]
  exact UInt8.toNat_ofNat_of_lt' htype

/-- The header is counted in an answer. -/
theorem answer_len (e : EapState H) (input : EapPacket) (type : ℕ) (o : EapPacket) :
    (e.answer input type o).len = (EapPacket.addLen o EapPacket.headerLen).len := by
  rw [answer_eq, EapPacket.len_addLen _ _ (by decide), EapPacket.len_addLen _ _ (by decide),
    EapPacket.len_store_of_outside (by simp), EapPacket.len_store_of_outside (by simp)]

/-- The output packet stays where it is and keeps its code. -/
theorem process_code (hV : V.Disciplined wants) {r : Ret × EapState H × EapPacket}
    (h : (e.process V heap input output).result = .ok r) :
    r.2.2.data = output.data ∧ r.2.2.code = output.code := by
  cases process_outcome h with
  | @handled i w r _ _ hrun =>
    obtain ⟨hd, rc, hd', o, -, hproc, -, -, -, hout⟩ := runHandler_changes hrun
    have hsame : output.SameHead o := hV.sameHead_process hproc
    rcases hout with hout | hout
    · rw [hout]
      exact ⟨hsame.data, hsame.code⟩
    · rw [hout]
      exact ⟨hsame.data, (answer_code (e.claim V i w input.type) input input.type o).trans hsame.code⟩
  | @nak o _ _ hnak =>
    obtain ⟨hd, -, hoffer⟩ := List.exists_of_findSome?_eq_some hnak
    have hsame : output.SameHead o := hV.sameHead_nakIt hoffer
    exact ⟨hsame.data, (answer_code e input Eap.nak o).trans hsame.code⟩
  | unsupported | succeeded | passed => exact ⟨rfl, rfl⟩

/-- Nothing is written in front of the output packet, and its code is kept. -/
theorem process_mem (hV : V.Disciplined wants) {r : Ret × EapState H × EapPacket}
    (h : (e.process V heap input output).result = .ok r) {a : ℕ} (ha : a ≤ output.data) :
    r.2.2.mem a = output.mem a := by
  -- The rest of the header is written behind the code.
  have hanswer {o : EapPacket} (hsame : output.SameHead o) (e : EapState H) (type : ℕ) :
      (e.answer input type o).mem a = output.mem a := by
    have hdata := hsame.data
    rw [answer_eq, EapPacket.addLen_eq _ _ (by decide)]
    simp only [Pointer.store]
    rw [write_of_outside (by omega), write_of_outside (by omega), write_of_outside (by omega)]
    exact hsame.mem a (Or.inl (Nat.lt_of_le_of_lt ha (Nat.lt_add_of_pos_right (by decide))))
  have hkept {o : EapPacket} (hsame : output.SameHead o) : o.mem a = output.mem a :=
    hsame.mem a (Or.inl (Nat.lt_of_le_of_lt ha (Nat.lt_add_of_pos_right (by decide))))
  cases process_outcome h with
  | @handled i w r _ _ hrun =>
    obtain ⟨hd, rc, hd', o, -, hproc, -, -, -, hout⟩ := runHandler_changes hrun
    have hsame : output.SameHead o := hV.sameHead_process hproc
    rcases hout with hout | hout
    · rw [hout]
      exact hkept hsame
    · rw [hout]
      exact hanswer hsame _ _
  | @nak o _ _ hnak =>
    obtain ⟨hd, -, hoffer⟩ := List.exists_of_findSome?_eq_some hnak
    exact hanswer (hV.sameHead_nakIt hoffer) _ _
  | unsupported | succeeded | passed => rfl

end Output

end EapState

section Watching

variable {H : Type} {V : Vtable H} {wants : H → Set ℕ}

/-- Watched handlers conduct themselves as the handlers do. -/
theorem Vtable.Disciplined.watched (hV : V.Disciplined wants) :
    V.watched.Disciplined fun h => wants h.handler where
  wantThis_iff h input := hV.wantThis_iff h.handler input
  wants_process := by
    intro h heap input output r hres
    obtain ⟨a, ha, hr⟩ := Exec.result_bind_eq_ok.mp hres
    cases hr
    exact hV.wants_process ha
  wants_abort h := hV.wants_abort h.handler
  sameHead_process := by
    intro h heap input output r hres
    obtain ⟨a, ha, hr⟩ := Exec.result_bind_eq_ok.mp hres
    cases hr
    exact hV.sameHead_process ha
  sameHead_nakIt := fun hnak => hV.sameHead_nakIt hnak

/-- No counter moves while a packet is processed. -/
theorem Vtable.watched_aborts {h : Watched H} {heap : Heap} {input output : EapPacket}
    {r : Ret × Watched H × EapPacket}
    (hres : (V.watched.process h heap input output).result = .ok r) : r.2.1.aborts = h.aborts := by
  obtain ⟨a, -, hr⟩ := Exec.result_bind_eq_ok.mp hres
  cases hr
  rfl

/-- `eap::abort` aborts the authenticator. -/
theorem EapState.abort_counts (e : EapState (Watched H)) {j : ℕ} {h : Watched H}
    (hget : e.handlers[j]? = some h) :
    ∃ h', (e.abort V.watched).handlers[j]? = some h' ∧ h.Counts (e.authHandler = some j) h' := by
  rw [getElem?_abort, hget, Option.map_some]
  by_cases hauth : e.authHandler = some j
  · rw [if_pos hauth]
    exact ⟨_, rfl, Or.inl ⟨hauth, rfl⟩⟩
  · rw [if_neg hauth]
    exact ⟨_, rfl, Or.inr ⟨hauth, rfl⟩⟩

/-- A packet aborts the authenticator when it is a request of a different authenticating type. -/
theorem EapState.booked_counts (hV : V.Disciplined wants) {e : EapState (Watched H)}
    (hex : Exclusive (fun h => wants h.handler) e.handlers) (input : EapPacket) {j : ℕ}
    {h : Watched H} (hget : e.handlers[j]? = some h) :
    ∃ h', (e.booked V.watched input).handlers[j]? = some h' ∧
      h.Counts (e.authHandler = some j ∧ input.code = request ∧ input.type ≠ e.authType ∧
        ∃ g ∈ e.handlers, V.wantThis g.handler input = .iWillAuth) h' := by
  have hbooking := booking hV.watched hex input
  generalize e.booked V.watched input = e' at hbooking ⊢
  cases hbooking with
  | cleared hsuccess =>
    refine ⟨h, hget, Or.inr ⟨fun hcond => ?_, rfl⟩⟩
    rw [hsuccess] at hcond
    exact absurd hcond.2.1 (by decide)
  | kept _ hnone =>
    refine ⟨h, hget, Or.inr ⟨?_, rfl⟩⟩
    rintro ⟨-, hreq, -, g, hmem, hauth⟩
    exact hnone hreq g hmem hauth
  | @claimed i g hreq hgeti hauth =>
    have htaker : ∃ g ∈ e.handlers, V.wantThis g.handler input = .iWillAuth :=
      ⟨g, List.mem_of_getElem? hgeti, hauth⟩
    unfold claim
    by_cases hchange : e.authHandler.isSome ∧ input.type ≠ e.authType
    · simp only [if_pos hchange]
      obtain ⟨h', hget', hcounts⟩ := abort_counts (V := V) e hget
      refine ⟨h', hget', ?_⟩
      rcases hcounts with ⟨hj, hone⟩ | ⟨hj, hnone⟩
      · exact Or.inl ⟨⟨hj, hreq, hchange.2, htaker⟩, hone⟩
      · exact Or.inr ⟨fun hcond => hj hcond.1, hnone⟩
    · simp only [if_neg hchange]
      refine ⟨h, hget, Or.inr ⟨?_, rfl⟩⟩
      rintro ⟨hj, -, htype, -⟩
      exact hchange ⟨by rw [hj]; rfl, htype⟩

end Watching

end Dot1x.Eap
