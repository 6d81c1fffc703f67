import Dot1x.Eap.Stores

/-!
# Stale responses

The output buffer is never cleared. A response is free of what it held before if the handler stores
the length and every byte of type data below it. All handlers do, with one exception: where the
engine wants nothing to be sent, EAP-TLS answers without writing, and the EAP layer finishes
whatever is there.
-/

namespace Dot1x.Eap

open Dot1x.Base Dot1x.Wire

/-- The length and the type data it counts are stored, whatever the output packet. -/
def SelfContained (S : Stores) : Prop :=
  ∀ (o : EapPacket) (j : ℕ), j = 2 ∨ j = 3 ∨ 5 ≤ j ∧ j < 5 + EapPacket.len (o.storeAll S) → Covers S j

/-- Two output packets that differ in what follows the code only. -/
structure SameCode (o₁ o₂ : EapPacket) : Prop where
  data : o₂.data = o₁.data
  mem : ∀ a, a ≤ o₁.data → o₂.mem a = o₁.mem a

variable {digest : Digest} {E : Engine} {heap : Heap} {input output o o₁ o₂ : EapPacket}
  {hd hd' : Handler} {rc : Ret} {S : Stores} {n j : ℕ}

/-- The first block covers the bytes it stores. -/
theorem covers_head {s : ℕ × List UInt8} (h : s.1 ≤ j ∧ j < s.1 + s.2.length) : Covers (s :: S) j :=
  ⟨s, List.mem_cons_self, h⟩

/-- What the others cover is covered. -/
theorem covers_tail {s : ℕ × List UInt8} (h : Covers S j) : Covers (s :: S) j := by
  obtain ⟨s', hs', hj⟩ := h
  exact ⟨s', List.mem_cons_of_mem _ hs', hj⟩

/-- A byte that is stored is the same in two packets at one place. -/
theorem byte_storeAll_of_covers (hdata : o₂.data = o₁.data) (h : Covers S j ∨ o₂.byte j = o₁.byte j) :
    (o₂.storeAll S).byte j = (o₁.storeAll S).byte j := by
  have hmem : (o₂.storeAll S).mem (o₂.data + j) = (o₁.storeAll S).mem (o₂.data + j) := by
    refine Pointer.storeAll_mem_congr hdata fun hout => ?_
    rcases h with ⟨s, hs, hj⟩ | hsame
    · exact absurd (hout s hs) (by omega)
    · rwa [Pointer.byte, Pointer.byte, ← hdata] at hsame
  rw [Pointer.byte, Pointer.byte, Pointer.storeAll_data, Pointer.storeAll_data, ← hdata, hmem]

/-- The length after stores of which the last one is that of the length. -/
private theorem len_storeAll (o : EapPacket) (S : Stores) (high low : UInt8) :
    EapPacket.len (o.storeAll (S ++ [(2, [high, low])])) = high.toNat * 256 + low.toNat := by
  rw [storeAll_append]
  change EapPacket.len ((o.storeAll S).store 2 [high, low]) = _
  rw [EapPacket.len_eq, Pointer.byte_store, Pointer.byte_store, if_pos (by simp), if_pos (by simp)]
  rfl

/-- Stores of type data and of a length that does not exceed them. -/
theorem selfContained_snoc {high low : UInt8} (hle : high.toNat * 256 + low.toNat ≤ n)
    (h : ∀ j, 5 ≤ j → j < 5 + n → Covers S j) : SelfContained (S ++ [(2, [high, low])]) := by
  intro o j hj
  rw [len_storeAll] at hj
  have hlast : j = 2 ∨ j = 3 → Covers (S ++ [(2, [high, low])]) j := by
    intro hj
    exact ⟨_, List.mem_append_right _ (List.mem_singleton_self _), by
      simp only [List.length_cons, List.length_nil]
      omega⟩
  rcases hj with hj | hj | ⟨hlo, hhi⟩
  · exact hlast (Or.inl hj)
  · exact hlast (Or.inr hj)
  · obtain ⟨s, hs, hcov⟩ := h j hlo (by omega)
    exact ⟨s, List.mem_append_left _ hs, hcov⟩

/-- The two bytes of a length hold no more than the length. -/
theorem lenStore_le (n : ℕ) :
    (UInt8.ofNat (n / 256)).toNat * 256 + (UInt8.ofNat n).toNat ≤ n := by
  rw [UInt8.toNat_ofNat', UInt8.toNat_ofNat']
  omega

/-- A packet that carries a part of a message is made of that part. -/
theorem TypeTls.selfContained_partStores (declared : Option ℕ) (more : Bool) (part : List UInt8) :
    SelfContained (TypeTls.partStores declared more part) := by
  have hle : (UInt8.ofNat ((part.length + 1) / 256)).toNat * 256 +
      (UInt8.ofNat (TypeTls.declaredLen declared + (part.length + 1))).toNat ≤
        TypeTls.declaredLen declared + (part.length + 1) := by
    rw [UInt8.toNat_ofNat', UInt8.toNat_ofNat']
    omega
  have hsnoc : TypeTls.partStores declared more part =
      (TypeTls.headStores declared ++ [(6 + TypeTls.declaredLen declared, part),
        (5, [UInt8.ofNat (TypeTls.partFlags declared more)])]) ++
        [(2, [UInt8.ofNat ((part.length + 1) / 256),
          UInt8.ofNat (TypeTls.declaredLen declared + (part.length + 1))])] := rfl
  rw [hsnoc]
  refine selfContained_snoc hle fun j hlo hhi => ?_
  have hbytes := TypeTls.declaredBytes_length declared
  by_cases hflags : j = 5
  · exact covers_head ⟨by omega, by simp; omega⟩
  by_cases hdeclared : j < 6 + TypeTls.declaredLen declared
  · exact covers_tail (covers_head ⟨by omega, by dsimp only; omega⟩)
  · exact covers_tail (covers_tail (covers_tail (covers_head ⟨by omega, by dsimp only; omega⟩)))

/-- A handler that answers stores what it sends, unless it writes nothing. -/
theorem Handler.Writes.selfContained (h : hd.Writes E heap input .cont S)
    (hwrites : ∀ t t', hd = .tls t → t.answer E heap input ≠ some (.cont, t', .nothing)) :
    SelfContained S := by
  generalize hrc : Ret.cont = rc at h
  cases h with
  | notification => exact selfContained_snoc (S := []) (lenStore_le 0) fun j hlo hhi => by omega
  | identity t =>
    refine selfContained_snoc (S := [(5, t.id)]) (lenStore_le _) fun j hlo hhi => ?_
    exact covers_head ⟨hlo, hhi⟩
  | md5 t value =>
    refine selfContained_snoc (S := [(6, value.toList), (5, [16]), (22, t.idBuf)])
      (lenStore_le _) fun j hlo hhi => ?_
    have hvalue : value.toList.length = 16 := Vector.length_toList
    by_cases hsize : j = 5
    · exact covers_tail (covers_head ⟨by omega, by simp; omega⟩)
    by_cases hdigest : j < 22
    · exact covers_head ⟨by omega, by dsimp only; omega⟩
    · exact covers_tail (covers_tail (covers_head ⟨by omega, by dsimp only; omega⟩))
  | @tls t a hanswer =>
    obtain ⟨_, t', ρ⟩ := a
    cases hrc
    cases ρ with
    | nothing => exact absurd hanswer (hwrites t t' rfl)
    | ack =>
      refine selfContained_snoc (S := [(5, [0])]) (n := 1) (by decide) fun j hlo hhi => ?_
      exact covers_head ⟨hlo, hhi⟩
    | part declared more payload => exact TypeTls.selfContained_partStores declared more payload

namespace EapState

variable {e e' : EapState Handler} {i : ℕ}

/-- The responses made of the same stores in two packets are the same. -/
theorem contents_congr (hsame : SameCode o₁ o₂) (hself : SelfContained S) (e₁ e₂ : EapState Handler)
    (input : EapPacket) (type : ℕ) :
    EapPacket.contents (e₂.straightReturn input (EapPacket.setType (o₂.storeAll S) type)).2 =
      EapPacket.contents (e₁.straightReturn input (EapPacket.setType (o₁.storeAll S) type)).2 := by
  have hbyte (j : ℕ) (hj : j = 2 ∨ j = 3 ∨ 5 ≤ j ∧ j < 5 + EapPacket.len (o₁.storeAll S)) :
      (o₂.storeAll S).byte j = (o₁.storeAll S).byte j :=
    byte_storeAll_of_covers hsame.data (Or.inl (hself o₁ j hj))
  have hhigh := hbyte 2 (Or.inl rfl)
  have hlow := hbyte 3 (Or.inr (Or.inl rfl))
  have hlen : EapPacket.len (o₂.storeAll S) = EapPacket.len (o₁.storeAll S) := by
    rw [EapPacket.len_eq, EapPacket.len_eq, hhigh, hlow]
  have hfinal : finalStores (o₂.storeAll S) type input.id = finalStores (o₁.storeAll S) type input.id := by
    rw [finalStores, finalStores, hhigh, hlow]
  rw [EapPacket.contents, EapPacket.contents, len_straightReturn, len_straightReturn, hlen,
    straightReturn_eq_storeAll, straightReturn_eq_storeAll, hfinal, ← storeAll_append,
    ← storeAll_append]
  generalize hT : finalStores (o₁.storeAll S) type input.id = T
  have hcovers (j : ℕ) (hj : 1 ≤ j) (hj' : j < 5) : Covers T j := by
    subst hT
    by_cases htype : j = 4
    · exact covers_head ⟨by omega, by simp; omega⟩
    by_cases hid : j = 1
    · exact covers_tail (covers_head ⟨by omega, by simp; omega⟩)
    · exact covers_tail (covers_tail (covers_head ⟨by omega, by simp; omega⟩))
  simp only [Pointer.bytes, Pointer.storeAll_data, hsame.data]
  refine slice_congr fun a hlo hhi => ?_
  have hdist : a = o₁.data + (a - o₁.data) := by omega
  have hagree := byte_storeAll_of_covers (S := S ++ T) (j := a - o₁.data) hsame.data ?_
  · rwa [Pointer.byte, Pointer.byte, Pointer.storeAll_data, Pointer.storeAll_data, hsame.data,
      ← hdist] at hagree
  · by_cases hcode : a = o₁.data
    · right
      rw [hcode, Nat.sub_self, Pointer.byte, Pointer.byte, hsame.data]
      exact hsame.mem _ (Nat.le_refl _)
    · left
      by_cases hhead : a < o₁.data + 5
      · obtain ⟨s, hs, hj⟩ := hcovers (a - o₁.data) (by omega) (by omega)
        exact ⟨s, List.mem_append_right _ hs, hj⟩
      · obtain ⟨s, hs, hj⟩ := hself o₁ (a - o₁.data) (Or.inr (Or.inr ⟨by omega, by omega⟩))
        exact ⟨s, List.mem_append_left _ hs, hj⟩

/-- What `eap::process` returns for a request does not depend on what was in the output packet. -/
def Fresh (V : Vtable Handler) (e : EapState Handler) (heap : Heap) (input : EapPacket) : Prop :=
  ∀ o₁ o₂, SameCode o₁ o₂ → ∀ r₁, (process V e heap input o₁).result = .ok r₁ →
    ∃ r₂, (process V e heap input o₂).result = .ok r₂ ∧ r₂.1 = r₁.1 ∧
      (r₁.1 = .cont → EapPacket.contents r₂.2.2 = EapPacket.contents r₁.2.2)

/-- The request makes an EAP-TLS handler call the engine, which does not succeed, does not make the
handler give up, and has nothing to be sent. -/
def SilentReply (V : Vtable Handler) (E : Engine) (e : EapState Handler) (heap : Heap)
    (input : EapPacket) : Prop :=
  ∃ t t₀, e.ReachesTls V input t ∧ (t.intake E heap input).result = .ok (.ask t₀) ∧
    (E.processMsg t₀.calls = some ⟨.moreData, []⟩ ∨
      E.processMsg t₀.calls = some ⟨.failed, []⟩ ∧ ¬t₀.failedOnce)

/-- Nothing is written exactly where the engine has no output. -/
theorem replying_nothing {t t' : TypeTls} {out : List UInt8} {rc : Ret} :
    t.replying out = some (rc, t', .nothing) ↔ out = [] ∧ rc = .cont ∧ t' = t := by
  unfold TypeTls.replying
  split
  · simp [*, eq_comm]
  · split <;> simp [*]

/-- An answer without stores is one to a silent reply. -/
theorem answer_nothing {t : TypeTls} :
    (∃ t', t.answer E heap input = some (.cont, t', .nothing)) ↔
      ∃ t₀, (t.intake E heap input).result = .ok (.ask t₀) ∧
        (E.processMsg t₀.calls = some ⟨.moreData, []⟩ ∨
          E.processMsg t₀.calls = some ⟨.failed, []⟩ ∧ ¬t₀.failedOnce) := by
  simp only [TypeTls.answer, Option.bind_eq_some_iff]
  constructor
  · rintro ⟨t', x, hx, houtcome⟩
    cases x with
    | reject | ack => cases houtcome
    | resume msg cur =>
      simp only [TypeTls.outcome] at houtcome
      split at houtcome <;> cases houtcome
    | ask t₀ =>
      refine ⟨t₀, Exec.result_of_toOption hx, ?_⟩
      simp only [TypeTls.outcome] at houtcome
      split at houtcome
      · cases houtcome
      · cases houtcome
      · rename_i out hreply
        split at houtcome
        · cases houtcome
        · rename_i hfailed
          obtain ⟨rfl, -, -⟩ := replying_nothing.mp houtcome
          exact Or.inr ⟨hreply, hfailed⟩
      · rename_i out hreply
        obtain ⟨rfl, -, -⟩ := replying_nothing.mp houtcome
        exact Or.inl hreply
  · rintro ⟨t₀, hask, hreply | ⟨hreply, hfailed⟩⟩
    · refine ⟨{ t₀ with state := .recv }, .ask t₀, by rw [hask]; rfl, ?_⟩
      rw [TypeTls.outcome, hreply]
      exact replying_nothing.mpr ⟨rfl, rfl, rfl⟩
    · refine ⟨{ t₀ with failedOnce := true, state := .recv }, .ask t₀, by rw [hask]; rfl, ?_⟩
      rw [TypeTls.outcome, hreply]
      dsimp only
      rw [if_neg hfailed]
      exact replying_nothing.mpr ⟨rfl, rfl, rfl⟩

/-- A handler that writes the same into both packets gives the same response. -/
theorem runHandler_fresh (hsame : SameCode o₁ o₂) {r₁ : Ret × EapState Handler × EapPacket}
    (hwrites : ∀ hd, e.handlers[i]? = some hd → ∀ t t', hd = .tls t →
      t.answer E heap input ≠ some (.cont, t', .nothing))
    (hrun : (runHandler (Handler.vtable digest E) e i heap input o₁).result = .ok r₁) :
    ∃ r₂, (runHandler (Handler.vtable digest E) e i heap input o₂).result = .ok r₂ ∧
      r₂.1 = r₁.1 ∧ (r₁.1 = .cont → EapPacket.contents r₂.2.2 = EapPacket.contents r₁.2.2) := by
  unfold runHandler at hrun ⊢
  cases hget : e.handlers[i]? with
  | none => simp [hget] at hrun
  | some hd =>
    simp only [hget] at hrun ⊢
    obtain ⟨⟨rc, hd', o⟩, hproc, hrest⟩ := Exec.result_bind_eq_ok.mp hrun
    obtain ⟨S, hS, hall⟩ := Handler.process_writes hproc
    cases hproc.symm.trans (hall o₁)
    have hproc₂ := hall o₂
    have hproc₂ : ((Handler.vtable digest E).process hd heap input o₂).result =
        .ok (rc, hd', o₂.storeAll S) := hall o₂
    rw [Exec.result_bind_of_ok hproc₂]
    cases rc with
    | cont =>
      cases hrest
      refine ⟨_, rfl, rfl, fun _ => ?_⟩
      exact contents_congr hsame (hS.selfContained (hwrites hd hget)) _ _ input input.type
    | inv =>
      dsimp only at hrest ⊢
      split at hrest
      · rename_i hmax
        cases hrest
        rw [if_pos hmax]
        exact ⟨_, rfl, rfl, fun h => by cases h⟩
      · rename_i hmax
        cases hrest
        rw [if_neg hmax]
        exact ⟨_, rfl, rfl, fun h => by cases h⟩
    | ok | fail | abort | old =>
      cases hrest
      exact ⟨_, rfl, rfl, fun h => by cases h⟩

/-- A request that is not answered silently is answered afresh. -/
theorem fresh_of_not_silentReply (hreq : input.code = request)
    (hsilent : ¬SilentReply (Handler.vtable digest E) E e heap input) :
    Fresh (Handler.vtable digest E) e heap input := by
  intro o₁ o₂ hsame r₁ hres
  have hreq' {α : Type} (x y : α) : (if input.code = request then x else y) = x := if_pos hreq
  unfold process at hres ⊢
  rw [hreq'] at hres ⊢
  unfold processRequest at hres ⊢
  cases hsearch : search (Handler.vtable digest E) input e.handlers with
  | some p =>
    simp only [hsearch] at hres ⊢
    refine runHandler_fresh hsame (fun hd hget t t' htls hanswer => hsilent ?_) hres
    subst htls
    obtain ⟨t₀, hask, hreply⟩ := answer_nothing.mp ⟨t', hanswer⟩
    exact ⟨t, t₀, ⟨p.1, p.2, hsearch, hget⟩, hask, hreply⟩
  | none =>
    have hnak (o : EapPacket) : e.handlers.findSome? ((Handler.vtable digest E).nakIt · o) =
        (e.handlers.findSome? Handler.nakType).map fun type =>
          o.storeAll [(5, [UInt8.ofNat type]), lenStore 1] := by
      refine (findSome?_nakIt e.handlers o).trans (congrArg (Option.map · _) (funext fun type => ?_))
      rw [answerWith, EapPacket.setLen_eq]
      rfl
    simp only [hsearch, hnak] at hres ⊢
    cases htype : e.handlers.findSome? Handler.nakType with
    | none =>
      simp only [htype, Option.map_none] at hres ⊢
      cases hres
      exact ⟨_, rfl, rfl, fun h => by cases h⟩
    | some type =>
      simp only [htype, Option.map_some] at hres ⊢
      cases hres
      refine ⟨_, rfl, rfl, fun _ => contents_congr hsame ?_ _ _ input nak⟩
      refine selfContained_snoc (S := [(5, [UInt8.ofNat type])]) (lenStore_le 1) fun j hlo hhi => ?_
      exact covers_head ⟨hlo, hhi⟩

/-- A silent reply leaves in the response what was in the output packet. -/
theorem not_fresh_of_silentReply (hreq : input.code = request)
    (hsilent : SilentReply (Handler.vtable digest E) E e heap input) :
    ¬Fresh (Handler.vtable digest E) e heap input := by
  intro hfresh
  obtain ⟨t, t₀, ⟨i, w, hsearch, hget⟩, hsilent⟩ := hsilent
  obtain ⟨t', hanswer⟩ := answer_nothing.mpr ⟨t₀, hsilent⟩
  have hprocess (o : EapPacket) :
      ((Handler.tls t).process digest E heap input o).result = .ok (.cont, .tls t', o) :=
    Exec.result_bind_eq_ok.mpr ⟨_, TypeTls.process_eq_answer.mpr ⟨_, hanswer, rfl⟩, rfl⟩
  have hrespond (o : EapPacket) := process_cont.mpr ⟨hreq, .handler hsearch hget (hprocess o) rfl⟩
  have hdiffer : SameCode ⟨fun _ => 0, 0⟩ ⟨write (fun _ => 0) 3 [1], 0⟩ := by
    refine ⟨rfl, fun a (ha : a ≤ 0) => ?_⟩
    have hbefore : a < 3 := Nat.lt_of_le_of_lt ha (by decide)
    exact (write_of_outside (Or.inl hbefore) : write (fun _ => 0) 3 [1] a = 0)
  obtain ⟨r₂, hres₂, -, hsame⟩ := hfresh _ _ hdiffer _ (hrespond _)
  cases (hrespond _).symm.trans hres₂
  have hlenOf (o : EapPacket) : EapPacket.len (EapPacket.addLen
      (EapPacket.setId (EapPacket.setType o input.type) input.id) EapPacket.headerLen) =
        o.len / 256 * 256 + (o.len % 256 + 5) % 256 := len_straightReturn e input o input.type
  have hlen := congrArg List.length (hsame rfl)
  simp only [EapPacket.contents, Pointer.bytes_length, hlenOf] at hlen
  exact absurd hlen (by decide +kernel)

/-- The response to a request is free of what was in the output packet exactly when it is not one to
a silent reply of the engine. -/
theorem fresh_iff (hreq : input.code = request) :
    Fresh (Handler.vtable digest E) e heap input ↔
      ¬SilentReply (Handler.vtable digest E) E e heap input :=
  ⟨fun hfresh hsilent => not_fresh_of_silentReply hreq hsilent hfresh,
    fresh_of_not_silentReply hreq⟩

/-- The request for the identity, right after the handlers were installed. -/
theorem fresh_identity : ∃ e, plainInstall.result = .ok e ∧
    (Fresh silentVtable e (fun _ => some fun _ => 0) askIdentity ↔
      ¬SilentReply silentVtable TypeTls.silentEngine e (fun _ => some fun _ => 0) askIdentity) :=
  ⟨_, rfl, fresh_iff (by decide +kernel)⟩

/-- The start of a session with an engine that has nothing to say. -/
theorem not_fresh_start : ∃ e, plainInstall.result = .ok e ∧
    ¬Fresh silentVtable e (fun _ => some fun _ => 0) (TypeTls.tlsRequest 6 0x20 []) := by
  have heval : ∃ e, plainInstall.result = .ok e ∧
      search silentVtable (TypeTls.tlsRequest 6 0x20 []) e.handlers = some (0, .iWillAuth) ∧
      (e.claim silentVtable 0 .iWillAuth 13).handlers[0]? = some (.tls TypeTls.blankHandler) :=
    ⟨_, rfl, by decide +kernel, rfl⟩
  obtain ⟨e, hinst, hsearch, hget⟩ := heval
  have htype : (TypeTls.tlsRequest 6 0x20 []).type = 13 := by decide +kernel
  have hstart : TypeTls.classifyPacket (TypeTls.tlsRequest 6 0x20 [])
      (TypeTls.pduLen (TypeTls.tlsRequest 6 0x20 [])) = .tlsStart := by decide +kernel
  have hask := TypeTls.intake_tlsStart (E := TypeTls.silentEngine) (t := TypeTls.blankHandler)
    (fun _ => some fun _ => 0) rfl hstart rfl
  refine ⟨e, hinst, not_fresh_of_silentReply (by decide +kernel) ⟨_, _, ⟨0, .iWillAuth, hsearch, ?_⟩,
    hask, Or.inl rfl⟩⟩
  rwa [htype]

end EapState

end Dot1x.Eap
