import Dot1x.Radius.Secrets

/-!
# Authenticators of retransmissions

Every attempt makes a new copy of the request with a new random authenticator. An attempt that keeps
the identifier of an earlier one is therefore no retransmission of it, unless the request is for
accounting: its authenticator is computed over the copy.
-/

namespace Dot1x.Radius

open Dot1x.Base

/-- What is sent to one server under one socket and identifier has one authenticator. -/
def OneAuthenticator {S A H : Type} (c : RadiusClient H) (log : List (Transmission S A)) : Prop :=
  ∀ t ∈ log, ∀ t' ∈ log, c.server t.visit = c.server t'.visit →
    t.reservation.socket = t'.reservation.socket → t.reservation.id = t'.reservation.id →
    t.pdu.getAuthenticator = t'.pdu.getAuthenticator

/-- A place in the loops is reached before another one. -/
def Earlier (k k' : ℕ × ℕ) : Prop := k.1 < k'.1 ∨ k.1 = k'.1 ∧ k.2 < k'.2

namespace RadiusClient

variable {S A H : Type} [DecidableEq A] {env : Environment S A H} {md5 : Md5}
  {request : RadiusPDU} {c : RadiusClient H} {onSendPdu : ℕ × ℕ → Option Bool}

/-- A client may make two attempts at one server under one identifier: one after the other in a
pass, or the last one of a pass and the first one of a later pass for the same server, under the
secret of the pass before it. -/
def Repeats (c : RadiusClient H) (onSendPdu : ℕ × ℕ → Option Bool) : Prop :=
  ∃ u, u < c.visits ∧
    ((∃ j, j + 1 < c.retries ∧ (∀ y, y < j + 1 → (onSendPdu (u, y)).isSome) ∧
      onSendPdu (u, j + 1) = some false) ∨
    (0 < c.retries ∧ (∀ y, y < c.retries → (onSendPdu (u, y)).isSome) ∧
      ∃ v, u < v ∧ v < c.visits ∧ c.server u = c.server v ∧
        c.secretAt (v - 1) = c.secretAt v ∧ onSendPdu (v, 0) = some false))

/-- All attempts of the passes that are over were allowed. -/
def Passed (env : Environment S A H) (c : RadiusClient H) (i : ℕ) : Prop :=
  ∀ x, x < i → (addressAt env.getHostAddress c x).isSome →
    ∀ y, y < c.retries → (env.onSendPdu (x, y)).isSome

/-- Before a pass. -/
structure BeforePass (env : Environment S A H) (c : RadiusClient H) (i : ℕ) (st : Progress S) :
    Prop where
  passed : Passed env c i
  secret : st.secret = if i = 0 then none else c.secretAt (i - 1)
  held : ∀ r ∈ st.held, r.taken.1 < i

/-- Before an attempt: what is held was kept by every attempt since it was taken, and if it was
taken in an earlier pass the secret has not changed. -/
structure BeforeAttempt (env : Environment S A H) (c : RadiusClient H) (i j : ℕ)
    (secretChanged : Bool) (held : Option (Reservation S)) : Prop where
  passed : Passed env c i
  allowed : ∀ y, y < j → (env.onSendPdu (i, y)).isSome
  taken : ∀ r ∈ held, Earlier r.taken (i, j)
  kept : ∀ r ∈ held, ∀ y, y < j → Earlier r.taken (i, y) → env.onSendPdu (i, y) = some false
  secret : ∀ r ∈ held, r.taken.1 < i → secretChanged = false → c.secretAt (i - 1) = c.secretAt i

/-- A server that is not found is passed over. -/
private theorem BeforePass.skip {i : ℕ} {st : Progress S} {secret : List UInt8}
    (h : BeforePass env c i st) (hsecret : c.secretAt i = some secret)
    (haddress : addressAt env.getHostAddress c i = none) :
    BeforePass env c (i + 1) ⟨some secret, st.held⟩ := by
  refine ⟨fun x hx hsome => ?_, hsecret.symm, fun r hr => Nat.lt_succ_of_lt (h.held r hr)⟩
  by_cases hxi : x = i
  · rw [hxi, haddress] at hsome
    cases hsome
  · exact h.passed x (by omega) hsome

/-- A pass begins with what is held from the passes before. -/
private theorem BeforePass.enter {i : ℕ} {st : Progress S} {secret : List UInt8}
    (h : BeforePass env c i st) (hi : i < c.visits) (hsecret : c.secretAt i = some secret) :
    BeforeAttempt env c i 0 (st.secret.any (secret ≠ ·)) st.held := by
  refine ⟨h.passed, nofun, fun r hr => Or.inl (h.held r hr), nofun,
    fun r hr htaken hunchanged => ?_⟩
  obtain ⟨old, hold⟩ := secretAt_isSome (c := c) (i := i - 1) (by omega)
  rw [h.secret, if_neg (by omega), hold, Option.any_some, decide_eq_false_iff_not,
    not_not] at hunchanged
  rw [hold, hsecret, hunchanged]

/-- An attempt keeps what is held, or takes it anew. -/
private theorem BeforeAttempt.attempt {i j : ℕ} {secretChanged requireNewId : Bool}
    {held : Option (Reservation S)} {r : Reservation S}
    (h : BeforeAttempt env c i j secretChanged held)
    (hcallback : env.onSendPdu (i, j) = some requireNewId)
    (huses : Uses env (i, j) (secretChanged || requireNewId) held r) :
    BeforeAttempt env c i (j + 1) false (some r) := by
  refine ⟨h.passed, fun y hy => ?_, ?_, ?_, ?_⟩
  · rcases Nat.lt_succ_iff_lt_or_eq.mp hy with hlt | rfl
    · exact h.allowed y hlt
    · rw [hcallback]
      rfl
  · rintro r' ⟨⟩
    cases huses with
    | kept => exact (h.taken r rfl).imp_right fun h => ⟨h.1, Nat.lt_succ_of_lt h.2⟩
    | taken => exact Or.inr ⟨rfl, Nat.lt_succ_self j⟩
  · rintro r' ⟨⟩ y hy hearlier
    cases huses with
    | kept hrenew =>
      obtain ⟨-, rfl⟩ := Bool.or_eq_false_iff.mp hrenew
      rcases Nat.lt_succ_iff_lt_or_eq.mp hy with hlt | rfl
      · exact h.kept r rfl y hlt hearlier
      · exact hcallback
    | taken =>
      rcases hearlier with hlt | ⟨-, hlt⟩
      · exact absurd hlt (Nat.lt_irrefl i)
      · have hlt : j < y := hlt
        omega
  · rintro r' ⟨⟩ hlt -
    cases huses with
    | kept hrenew =>
      exact h.secret r rfl hlt (Bool.or_eq_false_iff.mp hrenew).1
    | taken => exact absurd hlt (Nat.lt_irrefl i)

/-- A pass is over after the last attempt. -/
private theorem BeforeAttempt.leave {i : ℕ} {secretChanged : Bool} {held : Option (Reservation S)}
    {secret : List UInt8} (h : BeforeAttempt env c i c.retries secretChanged held)
    (hsecret : c.secretAt i = some secret) : BeforePass env c (i + 1) ⟨some secret, held⟩ := by
  refine ⟨fun x hx hsome => ?_, hsecret.symm, fun r hr => ?_⟩
  · by_cases hxi : x = i
    · rw [hxi]
      exact h.allowed
    · exact h.passed x (by omega) hsome
  · rcases h.taken r hr with hlt | ⟨heq, -⟩
    · exact Nat.lt_succ_of_lt hlt
    · exact heq ▸ Nat.lt_succ_self i

/-- Every transmission is made under what was held, or taken, at its attempt. -/
theorem beforeAttempt_of_mem {responsePdu : Option RadiusPDU} {t : Transmission S A}
    (h : t ∈ (makeRequest env md5 request c responsePdu).log) :
    BeforeAttempt env c t.visit (t.retry + 1) false (some t.reservation) := by
  have hinvariant : LoopInvariant env md5 request c (BeforePass env c) (BeforeAttempt env c)
      fun t => BeforeAttempt env c t.visit (t.retry + 1) false (some t.reservation) := by
    refine ⟨⟨nofun, rfl, nofun⟩, fun _ _ _ hst => hst.skip,
      fun _ _ _ hi hst hsecret _ => hst.enter hi hsecret, ?_,
      fun _ _ _ _ hinner hsecret _ => hinner.leave hsecret⟩
    intro i j secretChanged held requireNewId r hinner hj haddress hcallback huses
    have hnext := hinner.attempt hcallback huses
    refine ⟨hnext, fun t _ hvisit hretry hres => ?_⟩
    rw [hvisit, hretry, hres]
    exact hnext
  exact hinvariant.forall_log responsePdu t h

/-- What is held was taken at its attempt or before. -/
private theorem taken_of_mem {responsePdu : Option RadiusPDU} {t : Transmission S A}
    (h : t ∈ (makeRequest env md5 request c responsePdu).log) :
    Earlier t.reservation.taken (t.visit, t.retry + 1) :=
  (beforeAttempt_of_mem h).taken _ rfl

/-- Two attempts at one server under what was taken once are one, or the client repeats. -/
theorem repeats_of_mem {responsePdu : Option RadiusPDU} {t t' : Transmission S A}
    (ht : t ∈ (makeRequest env md5 request c responsePdu).log)
    (ht' : t' ∈ (makeRequest env md5 request c responsePdu).log)
    (htaken : t.reservation.taken = t'.reservation.taken)
    (hserver : c.server t.visit = c.server t'.visit)
    (hearlier : Earlier (t.visit, t.retry) (t'.visit, t'.retry)) : Repeats c env.onSendPdu := by
  have hmade := made_of_mem ht
  have hmade' := made_of_mem ht'
  have hbefore := beforeAttempt_of_mem ht
  have hbefore' := beforeAttempt_of_mem ht'
  have hfirst : Earlier t'.reservation.taken (t.visit, t.retry + 1) := htaken ▸ taken_of_mem ht
  refine ⟨t.visit, hmade.visit, ?_⟩
  rcases hearlier with hlt | ⟨heq, hlt⟩
  · have hpass : t.visit < t'.visit := hlt
    have hlater : t'.reservation.taken.1 < t'.visit := by
      rcases hfirst with h | ⟨h, -⟩
      · exact Nat.lt_trans h hpass
      · exact h ▸ hpass
    refine Or.inr ⟨Nat.zero_lt_of_lt hmade.retry, hbefore'.passed t.visit hpass ?_, t'.visit, hpass,
      hmade'.visit, hserver, hbefore'.secret _ rfl hlater rfl,
      hbefore'.kept _ rfl 0 (Nat.succ_pos _) (Or.inl hlater)⟩
    rw [hmade.address]
    rfl
  · have heq : t.visit = t'.visit := heq
    have hlt : t.retry < t'.retry := hlt
    refine Or.inl ⟨t.retry, Nat.lt_of_le_of_lt hlt hmade'.retry, hbefore.allowed, ?_⟩
    rw [heq]
    exact hbefore'.kept _ rfl (t.retry + 1) (Nat.succ_lt_succ hlt) (heq ▸ hfirst)

end RadiusClient

namespace RadiusPDU

variable {request : RadiusPDU} {as : List Tlv} {md5 : Md5} {secret : List UInt8} {id : Id}

/-- The authenticator of a request for accounting is that of its copy. -/
private theorem Carries.authenticator_accounting (h : request.Carries as)
    (hcode : request.getCode = accountingRequest) (random random' : Fin 4 → UInt32)
    (fresh fresh' : Mem) :
    (Radius.prepared md5 request secret id random fresh).getAuthenticator =
      (Radius.prepared md5 request secret id random' fresh').getAuthenticator := by
  have hlow : 20 ≤ request.getLength := h.stored.le
  have hdata (fresh : Mem) (i : ℕ) (hi : i < request.getLength) :
      (((RadiusPDU.mk fresh).copyContents request).setId (UInt8.ofNat id)).data i =
        (request.setId (UInt8.ofNat id)).data i := by
    by_cases h1 : i = 1
    · subst h1
      exact (getId_setId (p := (RadiusPDU.mk fresh).copyContents request)).trans
        (getId_setId (p := request)).symm
    · rw [h.copied_data fresh _ hi h1, setId_data h1]
  have hsame (random : Fin 4 → UInt32) (fresh : Mem) :
      (Radius.prepared md5 request secret id random fresh).getAuthenticator =
        (md5 (slice (Base.write (request.setId (UInt8.ofNat id)).data authenticatorOffset
          (List.replicate authenticatorLength 0)) 0 request.getLength ++ secret)).toList := by
    have hcode' := (h.copied_code fresh (UInt8.ofNat id)).trans hcode
    have hlength : (((RadiusPDU.mk fresh).copyContents request).setId
        (UInt8.ofNat id)).getLength = request.getLength :=
      getLength_congr ((hdata fresh 2 (by omega)).trans (setId_data (by decide)))
        ((hdata fresh 3 (by omega)).trans (setId_data (by decide)))
    rw [Radius.prepared, setAuthenticator, if_pos hcode', getAuthenticator]
    simp only [hlength]
    rw [slice_write_eq (by rw [Vector.length_toList]; rfl)]
    refine congrArg (fun bytes => (md5 (bytes ++ secret)).toList) (slice_congr fun i _ hi => ?_)
    rw [Nat.zero_add] at hi
    unfold Base.write
    split
    · rfl
    · exact hdata fresh i hi
  rw [hsame, hsame]

/-- The authenticator of any other request is random. -/
theorem Carries.authenticator_random (h : request.Carries as)
    (hcode : request.getCode ≠ accountingRequest) (random : Fin 4 → UInt32) (fresh : Mem) :
    (Radius.prepared md5 request secret id random fresh).getAuthenticator =
      (List.finRange 4).flatMap fun k => leBytes 4 (random k).toNat := by
  have hcode' : (((RadiusPDU.mk fresh).copyContents request).setId (UInt8.ofNat id)).getCode ≠
      accountingRequest := by
    rwa [h.copied_code]
  have hlength : ((List.finRange 4).flatMap fun k => leBytes 4 (random k).toNat).length = 16 := by
    simp [List.length_flatMap]
  rw [Radius.prepared, setAuthenticator, if_neg hcode', setRandomAuthenticator, getAuthenticator]
  exact slice_write_eq hlength

end RadiusPDU

namespace RadiusClient

variable {S A H : Type} [DecidableEq A] {env : Environment S A H} {md5 : Md5}
  {request : RadiusPDU} {c : RadiusClient H} {onSendPdu : ℕ × ℕ → Option Bool}

/-- A request for accounting, or of a client that does not repeat, is sent with one authenticator to
a server under one identifier. -/
theorem oneAuthenticator (hexclusive : env.Exclusive)
    (hwhen : request.getCode = RadiusPDU.accountingRequest ∨ ¬Repeats c env.onSendPdu)
    (responsePdu : Option RadiusPDU) :
    OneAuthenticator c (makeRequest env md5 request c responsePdu).log := by
  intro t ht t' ht' hserver hsocket hid
  have hmade := made_of_mem ht
  have hmade' := made_of_mem ht'
  obtain ⟨as, has⟩ := RadiusPDU.isValid_iff.mp (valid_of_mem ht)
  obtain ⟨bs, hcopied⟩ := has.copied hmade.copy
  obtain ⟨bs', hcopied'⟩ := has.copied hmade'.copy
  have hsecret : t.secret = t'.secret := by
    have hsame : c.secretAt t.visit = c.secretAt t'.visit := by
      rw [secretAt, secretAt, hserver]
    rw [hmade.secret, hmade'.secret] at hsame
    exact Option.some.inj hsame
  rw [hcopied.sentAuthenticator, hcopied'.sentAuthenticator, hsecret, hid]
  rcases hwhen with hcode | hrepeats
  · exact has.authenticator_accounting hcode _ _ _ _
  · -- The two are one attempt, for otherwise the client repeats.
    have htaken : t.reservation.taken = t'.reservation.taken := by
      refine hexclusive _ _ _ hmade.reserved ?_
      rw [hsocket, hid]
      exact hmade'.reserved
    have hplace : t.visit = t'.visit ∧ t.retry = t'.retry := by
      by_contra hne
      have horder : Earlier (t.visit, t.retry) (t'.visit, t'.retry) ∨
          Earlier (t'.visit, t'.retry) (t.visit, t.retry) := by
        unfold Earlier
        simp only
        omega
      rcases horder with hfirst | hfirst
      · exact hrepeats (repeats_of_mem ht ht' htaken hserver hfirst)
      · exact hrepeats (repeats_of_mem ht' ht htaken.symm hserver.symm hfirst)
    rw [hplace.1, hplace.2]

/-- The random numbers of one attempt differ from those of all others. -/
def oddRandom (key key' : ℕ × ℕ) (_ : Fin 4) : UInt32 := if key' = key then 1 else 0

/-- Only the servers of two passes have addresses. -/
def onlyAt (u v : ℕ) (address : A) (i : ℕ) (_ : H) : Option A :=
  if i = u ∨ i = v then some address else none

omit [DecidableEq A] in
/-- The server of one of the two passes has an address. -/
theorem addressAt_onlyAt {u v i : ℕ} {address : A} (hi : i < c.visits) (h : i = u ∨ i = v) :
    (addressAt (onlyAt u v address) c i).isSome := by
  obtain ⟨secret, hsecret⟩ := secretAt_isSome hi
  obtain ⟨server, hserver, -⟩ := Option.map_eq_some_iff.mp hsecret
  rw [addressAt, hserver, Option.bind_some, onlyAt, if_pos h]
  rfl

omit [DecidableEq A] in
/-- The servers of the other passes have none. -/
theorem addressAt_onlyAt_of_ne {u v i : ℕ} {address : A} (hu : i ≠ u) (hv : i ≠ v) :
    addressAt (onlyAt u v address) c i = none := by
  unfold addressAt
  cases c.server i with
  | none => rfl
  | some server => exact if_neg (not_or.mpr ⟨hu, hv⟩)

section

variable {packetCode : UInt8} {env : Environment ℕ A H}

/-- A new packet has the code that it was made with. -/
private theorem getCode_new : (RadiusPDU.new (fun _ => 0) packetCode 0).getCode = packetCode :=
  RadiusPDU.setLength_data (i := 0) (Or.inl (by decide))

/-- Two transmissions that keep the identifier, of which one has other random numbers. -/
theorem not_oneAuthenticator_of_kept {t t' : Transmission ℕ A}
    (hcode : packetCode ≠ RadiusPDU.invalid) (hrequest : packetCode ≠ RadiusPDU.accountingRequest)
    (ht : t ∈ (makeRequest env constantMd5 (.new (fun _ => 0) packetCode 0) c none).log)
    (ht' : t' ∈ (makeRequest env constantMd5 (.new (fun _ => 0) packetCode 0) c none).log)
    (hrandom : env.random = oddRandom (t'.visit, t'.retry))
    (hserver : c.server t.visit = c.server t'.visit) (hres : t'.reservation = t.reservation)
    (hne : (t.visit, t.retry) ≠ (t'.visit, t'.retry)) : ¬OneAuthenticator c
      (makeRequest env constantMd5 (.new (fun _ => 0) packetCode 0) c none).log := by
  intro hone
  have has := RadiusPDU.carries_new (fun _ => 0) 0 hcode
  have hnot : (RadiusPDU.new (fun _ => 0) packetCode 0).getCode ≠ RadiusPDU.accountingRequest :=
    getCode_new.symm ▸ hrequest
  have hequal := hone t ht t' ht' hserver (by rw [hres]) (by rw [hres])
  obtain ⟨_, hcopied⟩ := has.copied (made_of_mem ht).copy
  obtain ⟨_, hcopied'⟩ := has.copied (made_of_mem ht').copy
  rw [hcopied.sentAuthenticator, hcopied'.sentAuthenticator, has.authenticator_random hnot,
    has.authenticator_random hnot] at hequal
  simp only [hrandom, oddRandom, if_neg hne, if_true] at hequal
  exact absurd hequal (by decide)

/-- Nobody answers, only the servers of two passes have addresses, and one attempt has other random
numbers. -/
def silentAt [Inhabited A] (u v : ℕ) (onSendPdu : ℕ × ℕ → Option Bool) (odd : ℕ × ℕ) :
    Environment ℕ A H :=
  unanswered (onlyAt u v default) onSendPdu (fun key => Nat.pair key.1 key.2) (oddRandom odd)

/-- A client that repeats within a pass. -/
private theorem not_oneAuthenticator_within [Inhabited A] {u j : ℕ}
    (hcode : packetCode ≠ RadiusPDU.invalid) (hrequest : packetCode ≠ RadiusPDU.accountingRequest)
    (hu : u < c.visits) (hj : j + 1 < c.retries)
    (hallowed : ∀ y, y < j + 1 → (onSendPdu (u, y)).isSome)
    (hcallback : onSendPdu (u, j + 1) = some false) : ¬OneAuthenticator c
      (makeRequest (silentAt (A := A) (H := H) u u onSendPdu (u, j + 1)) constantMd5
        (.new (fun _ => 0) packetCode 0) c none).log := by
  have hearlier (x : ℕ) (hx : x < u) : addressAt
      (silentAt (A := A) (H := H) u u onSendPdu (u, j + 1)).getHostAddress c x = none :=
    addressAt_onlyAt_of_ne (Nat.ne_of_lt hx) (Nat.ne_of_lt hx)
  have hsilent : (silentAt (A := A) (H := H) u u onSendPdu (u, j + 1)).Silent := silent_unanswered
  obtain ⟨t, ht, t', ht', htu, htj, htu', htj', hres⟩ := exists_kept_within hsilent
    (RadiusPDU.carries_new (fun _ => 0) 0 hcode).isValid (sendable_new hcode) hj hu
    (addressAt_onlyAt hu (Or.inl rfl)) (fun x hx hsome => by
      rw [hearlier x hx] at hsome
      cases hsome) hallowed hcallback none
  refine not_oneAuthenticator_of_kept hcode hrequest ht ht' ?_ ?_ hres ?_
  · rw [htu', htj']
    rfl
  · rw [htu, htu']
  · rw [htj, htj']
    intro hsame
    exact Nat.succ_ne_self j (Prod.mk.inj hsame).2.symm

/-- A client that repeats from the end of a pass to the beginning of a later one. -/
private theorem not_oneAuthenticator_across [Inhabited A] {u v : ℕ}
    (hcode : packetCode ≠ RadiusPDU.invalid) (hrequest : packetCode ≠ RadiusPDU.accountingRequest)
    (huv : u < v) (hv : v < c.visits) (hretries : 0 < c.retries)
    (hallowed : ∀ y, y < c.retries → (onSendPdu (u, y)).isSome)
    (hserver : c.server u = c.server v) (hsecret : c.secretAt (v - 1) = c.secretAt v)
    (hcallback : onSendPdu (v, 0) = some false) : ¬OneAuthenticator c
      (makeRequest (silentAt (A := A) (H := H) u v onSendPdu (v, 0)) constantMd5
        (.new (fun _ => 0) packetCode 0) c none).log := by
  have hother (x : ℕ) (hu : x ≠ u) (hx : x ≠ v) : addressAt
      (silentAt (A := A) (H := H) u v onSendPdu (v, 0)).getHostAddress c x = none :=
    addressAt_onlyAt_of_ne hu hx
  have hsilent : (silentAt (A := A) (H := H) u v onSendPdu (v, 0)).Silent := silent_unanswered
  obtain ⟨t, ht, t', ht', htu, -, htv, htj', hres⟩ := exists_kept_across hsilent
    (RadiusPDU.carries_new (fun _ => 0) 0 hcode).isValid (sendable_new hcode) hretries huv hv
    (addressAt_onlyAt (huv.trans hv) (Or.inl rfl)) (addressAt_onlyAt hv (Or.inr rfl))
    (fun x hx hx' => hother x (Nat.ne_of_gt hx) (Nat.ne_of_lt hx')) (fun x hx hsome => by
      have hxu : x = u := by
        by_contra hne
        rw [hother x hne (by omega)] at hsome
        cases hsome
      rw [hxu]
      exact hallowed) hcallback hsecret none
  refine not_oneAuthenticator_of_kept hcode hrequest ht ht' ?_ ?_ hres ?_
  · rw [htv, htj']
    rfl
  · rw [htu, htv, hserver]
  · rw [htu, htv]
    intro hsame
    exact Nat.ne_of_lt huv (Prod.mk.inj hsame).1

/-- A client that repeats sends a request with two authenticators to one server under one
identifier. -/
theorem not_oneAuthenticator [Inhabited A] (hcode : packetCode ≠ RadiusPDU.invalid)
    (hrequest : packetCode ≠ RadiusPDU.accountingRequest) (hrepeats : Repeats c onSendPdu) :
    ∃ env : Environment ℕ A H, env.onSendPdu = onSendPdu ∧ env.Exclusive ∧ ¬OneAuthenticator c
      (makeRequest env constantMd5 (.new (fun _ => 0) packetCode 0) c none).log := by
  obtain ⟨u, hu, ⟨j, hj, hallowed, hcallback⟩ |
    ⟨hretries, hallowed, v, huv, hv, hserver, hsecret, hcallback⟩⟩ := hrepeats
  · exact ⟨silentAt u u onSendPdu (u, j + 1), rfl, exclusive_unanswered,
      not_oneAuthenticator_within hcode hrequest hu hj hallowed hcallback⟩
  · exact ⟨silentAt u v onSendPdu (v, 0), rfl, exclusive_unanswered,
      not_oneAuthenticator_across hcode hrequest huv hv hretries hallowed hserver hsecret hcallback⟩

end

/-- Requests with a code are sent with one authenticator to a server under one identifier exactly
when the code is that of requests for accounting, or of no request, or the client does not repeat. -/
theorem oneAuthenticator_iff [Inhabited A] (c : RadiusClient H) (packetCode : UInt8)
    (onSendPdu : ℕ × ℕ → Option Bool) :
    (∀ md5 request (env : Environment ℕ A H) responsePdu, request.getCode = packetCode →
      env.onSendPdu = onSendPdu → env.Exclusive →
        OneAuthenticator c (makeRequest env md5 request c responsePdu).log) ↔
    packetCode = RadiusPDU.invalid ∨ packetCode = RadiusPDU.accountingRequest ∨
      ¬Repeats c onSendPdu := by
  constructor
  · intro h
    by_contra hnot
    rw [not_or, not_or, not_not] at hnot
    obtain ⟨env, hcallback, hexclusive, hbad⟩ :=
      not_oneAuthenticator (A := A) hnot.1 hnot.2.1 hnot.2.2
    exact hbad (h _ _ env none (RadiusPDU.setLength_data (i := 0) (Or.inl (by decide))) hcallback
      hexclusive)
  · rintro hwhen md5 request env responsePdu rfl rfl hexclusive
    rcases hwhen with hinvalid | hwhen
    · intro t ht
      rw [makeRequest, RadiusPDU.isValid, if_pos hinvalid] at ht
      cases ht
    · exact oneAuthenticator hexclusive hwhen responsePdu

/-- A client with one server and two attempts. -/
def twoAttempts : RadiusClient ℕ := ⟨[⟨0, 0, 0, []⟩], [], 1812, 1813, 2, false⟩

/-- The second attempt at a server keeps the identifier and has another authenticator. -/
theorem not_oneAuthenticator_twoAttempts : ¬∀ md5 request (env : Environment ℕ ℕ ℕ) responsePdu,
    env.Exclusive → OneAuthenticator twoAttempts
      (makeRequest env md5 request twoAttempts responsePdu).log := by
  intro h
  have hrepeats : Repeats twoAttempts fun _ => some false :=
    ⟨0, by decide, Or.inl ⟨0, by decide, fun _ _ => rfl, rfl⟩⟩
  obtain ⟨env, -, hexclusive, hbad⟩ := not_oneAuthenticator (A := ℕ)
    (by decide : RadiusPDU.accessRequest ≠ RadiusPDU.invalid) (by decide) hrepeats
  exact hbad (h _ _ env none hexclusive)

end RadiusClient

end Dot1x.Radius
