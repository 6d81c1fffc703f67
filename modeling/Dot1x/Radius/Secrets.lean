import Dot1x.Radius.Copies
import Dot1x.Radius.Unanswered
import Mathlib.Data.Nat.Pairing

/-!
# Secrets and identifiers

A secret is compared with that of the pass before. A pass for a server without an address makes no
attempt, but the next pass is compared with it. So where a server without an address has the secret
of the server after it, and the last server that was tried has another, the identifier that was
used with one secret is used with the other.
-/

namespace Dot1x.Radius

open Dot1x.Base

variable {S A H : Type} [DecidableEq A]

/-- `GetSocket` returns no socket and identifier twice. -/
def Environment.Exclusive (env : Environment S A H) : Prop :=
  ∀ key key' p, env.getSocket key = some p → env.getSocket key' = some p → key = key'

/-- Where the place in the loops determines the socket, none is returned twice. -/
theorem exclusive_unanswered [Inhabited A] {getHostAddress : ℕ → H → Option A}
    {onSendPdu : ℕ × ℕ → Option Bool} {random : ℕ × ℕ → Fin 4 → UInt32} :
    (unanswered getHostAddress onSendPdu (fun key => Nat.pair key.1 key.2) random).Exclusive := by
  intro key key' p hkey hkey'
  have hpair : Nat.pair key.1 key.2 = Nat.pair key'.1 key'.2 :=
    (Prod.mk.inj (Option.some.inj (hkey.trans hkey'.symm))).1
  obtain ⟨h1, h2⟩ := Nat.pair_eq_pair.mp hpair
  exact Prod.ext h1 h2

/-- Transmissions under one socket and identifier are made with equal secrets, and a new identifier
is taken when the secret changes. -/
structure OneSecretPerId (log : List (Transmission S A)) : Prop where
  equal : ∀ t ∈ log, ∀ t' ∈ log, t.reservation.socket = t'.reservation.socket →
    t.reservation.id = t'.reservation.id → t.secret = t'.secret
  renewed : ∀ t ∈ log, ∀ t' ∈ log, t.secret ≠ t'.secret →
    t.reservation.taken ≠ t'.reservation.taken

namespace RadiusClient

variable {env : Environment S A H} {md5 : Md5} {request : RadiusPDU} {c : RadiusClient H}
  {getHostAddress : ℕ → H → Option A}

/-- A change of the secret between two passes, with no address in between, is hidden by the pass
before the second. -/
def Masked (c : RadiusClient H) (getHostAddress : ℕ → H → Option A) : Prop :=
  ∃ u v, u < v ∧ v < c.visits ∧ (addressAt getHostAddress c u).isSome ∧
    (addressAt getHostAddress c v).isSome ∧
    (∀ w, u < w → w < v → addressAt getHostAddress c w = none) ∧
    c.secretAt u ≠ c.secretAt v ∧ c.secretAt (v - 1) = c.secretAt v

/-- Before a pass: the secret is that of the pass before, and what is held was taken under the
secret of the last pass that made attempts. -/
structure Before (getHostAddress : ℕ → H → Option A) (c : RadiusClient H) (i : ℕ)
    (st : Progress S) : Prop where
  secret : st.secret = if i = 0 then none else c.secretAt (i - 1)
  held : ∀ r ∈ st.held, ∃ w, w < i ∧ (addressAt getHostAddress c w).isSome ∧
    (∀ x, w < x → x < i → addressAt getHostAddress c x = none) ∧
    c.secretAt r.taken.1 = c.secretAt w

/-- Before an attempt: the secret changes with the first one only, and unless it does, what is held
was taken under the secret of the pass. -/
structure Within (c : RadiusClient H) (i j : ℕ) (secretChanged : Bool)
    (held : Option (Reservation S)) : Prop where
  first : 0 < j → secretChanged = false
  held : secretChanged = false → ∀ r ∈ held, c.secretAt r.taken.1 = c.secretAt i

/-- Where no change is hidden, every copy is made with the secret under which its identifier was
taken. -/
theorem secretAt_taken (hretries : 0 < c.retries) (hmasked : ¬Masked c env.getHostAddress)
    (responsePdu : Option RadiusPDU) : ∀ t ∈ (makeRequest env md5 request c responsePdu).log,
      c.secretAt t.reservation.taken.1 = some t.secret := by
  have hinvariant : LoopInvariant env md5 request c (Before env.getHostAddress c)
      (Within c) fun t => c.secretAt t.reservation.taken.1 = some t.secret := by
    refine ⟨⟨rfl, nofun⟩, ?_, ?_, ?_, ?_⟩
    · intro i st secret hst hsecret haddress
      refine ⟨hsecret.symm, fun r hr => ?_⟩
      obtain ⟨w, hw, hsome, hnone, hsame⟩ := hst.held r hr
      refine ⟨w, by omega, hsome, fun x hx hx' => ?_, hsame⟩
      by_cases hxi : x = i
      · rwa [hxi]
      · exact hnone x hx (by omega)
    · intro i st secret hi hst hsecret haddress
      refine ⟨fun hj => absurd hj (Nat.lt_irrefl 0), fun hunchanged r hr => ?_⟩
      obtain ⟨w, hw, hsome, hnone, hsame⟩ := hst.held r hr
      have hprevious : c.secretAt (i - 1) = c.secretAt i := by
        obtain ⟨old, hold⟩ := secretAt_isSome (c := c) (i := i - 1) (by omega)
        rw [hst.secret, if_neg (by omega), hold, Option.any_some, decide_eq_false_iff_not,
          not_not] at hunchanged
        rw [hold, hsecret, hunchanged]
      rw [hsame]
      by_contra hne
      exact hmasked ⟨w, i, hw, hi, hsome, haddress, hnone, hne, hprevious⟩
    · intro i j secretChanged held requireNewId r hinner hj haddress hcallback huses
      have htaken : c.secretAt r.taken.1 = c.secretAt i := by
        cases huses with
        | kept hrenew => exact hinner.held (Bool.or_eq_false_iff.mp hrenew).1 r rfl
        | taken => rfl
      refine ⟨⟨fun _ => rfl, ?_⟩, fun t ht hvisit _ hres => ?_⟩
      · rintro - r' ⟨⟩
        exact htaken
      · rw [hres, htaken, ← hvisit, ht.secret]
    · intro i secretChanged held secret hinner hsecret haddress
      refine ⟨hsecret.symm, fun r hr => ⟨i, Nat.lt_succ_self i, haddress, fun x hx hx' => ?_, ?_⟩⟩
      · omega
      · exact hinner.held (hinner.first hretries) r hr
  exact hinvariant.forall_log responsePdu

/-- Where no change is hidden, there is one secret for an identifier. -/
theorem oneSecretPerId (hclear : c.numRetries = 0 ∨ ¬Masked c env.getHostAddress)
    (hexclusive : env.Exclusive) (responsePdu : Option RadiusPDU) :
    OneSecretPerId (makeRequest env md5 request c responsePdu).log := by
  have hretries (t : Transmission S A) (ht : t ∈ (makeRequest env md5 request c responsePdu).log) :
      0 < c.retries ∧ ¬Masked c env.getHostAddress := by
    have hmade := made_of_mem ht
    refine ⟨Nat.zero_lt_of_lt hmade.retry, hclear.resolve_left fun hzero => ?_⟩
    -- Without a number of retries there is no pass, or none of its attempts.
    have hvisit := hmade.visit
    have hretry := hmade.retry
    unfold visits at hvisit
    unfold retries at hretry
    split at hvisit
    · simp [hzero] at hvisit
    · rename_i hrobin
      simp [hrobin, hzero] at hretry
  have hsecret (t t' : Transmission S A)
      (ht : t ∈ (makeRequest env md5 request c responsePdu).log)
      (ht' : t' ∈ (makeRequest env md5 request c responsePdu).log)
      (hsame : t.reservation.taken = t'.reservation.taken) : t.secret = t'.secret := by
    obtain ⟨hpos, hmasked⟩ := hretries t ht
    have h := secretAt_taken hpos hmasked responsePdu t ht
    have h' := secretAt_taken hpos hmasked responsePdu t' ht'
    rw [hsame, h'] at h
    exact (Option.some.inj h).symm
  refine ⟨fun t ht t' ht' hsocket hid => hsecret t t' ht ht' ?_, fun t ht t' ht' hne hsame =>
    hne (hsecret t t' ht ht' hsame)⟩
  refine hexclusive _ _ _ (made_of_mem ht).reserved ?_
  rw [hsocket, hid]
  exact (made_of_mem ht').reserved

/-- A hash function that is constant. -/
def constantMd5 : Md5 := fun _ => Vector.replicate 16 0

/-- A request without attributes can be sent at every place in the loops. -/
theorem sendable_new {packetCode : UInt8} (hcode : packetCode ≠ RadiusPDU.invalid) :
    Sendable env md5 (.new (fun _ => 0) packetCode 0) c := fun i j secret _ =>
  (RadiusPDU.carries_new (fun _ => 0) 0 hcode).sendable md5 secret 0 (env.random (i, j)) _

/-- Where a change is hidden, a request without attributes is sent with two secrets under one
identifier. -/
theorem not_oneSecretPerId [Inhabited A] (hretries : c.numRetries ≠ 0)
    (hmasked : Masked c getHostAddress) : ∃ env : Environment ℕ A H,
      env.getHostAddress = getHostAddress ∧ env.Exclusive ∧
      ¬OneSecretPerId (makeRequest env constantMd5
        (.new (fun _ => 0) RadiusPDU.accessRequest 0) c none).log := by
  obtain ⟨u, v, huv, hv, hu, haddress, hbetween, hne, hsame⟩ := hmasked
  let env : Environment ℕ A H := unanswered getHostAddress (fun _ => some false)
    (fun key => Nat.pair key.1 key.2) (fun _ _ => 0)
  have hpos : 0 < c.retries := by
    unfold retries
    split
    · exact Nat.one_pos
    · exact Nat.pos_of_ne_zero hretries
  have hvalid : (RadiusPDU.new (fun _ => 0) RadiusPDU.accessRequest 0).isValid = true :=
    (RadiusPDU.carries_new (fun _ => 0) 0 (by decide)).isValid
  have hsilent : env.Silent := silent_unanswered
  have hcopies : Sendable env constantMd5 (.new (fun _ => 0) RadiusPDU.accessRequest 0) c :=
    sendable_new (by decide)
  obtain ⟨t, ht, t', ht', htu, -, htv, -, hres⟩ := exists_kept_across hsilent hvalid hcopies hpos
    huv hv hu haddress hbetween (fun _ _ _ _ _ => rfl) rfl hsame none
  refine ⟨env, rfl, exclusive_unanswered, fun hone => hne ?_⟩
  rw [← htu, ← htv, (made_of_mem ht).secret, (made_of_mem ht').secret,
    hone.equal t ht t' ht' (by rw [hres]) (by rw [hres])]

/-- There is one secret for an identifier in every request exactly when no change is hidden. -/
theorem oneSecretPerId_iff [Inhabited A] (c : RadiusClient H)
    (getHostAddress : ℕ → H → Option A) :
    (∀ md5 request (env : Environment ℕ A H) responsePdu, env.getHostAddress = getHostAddress →
      env.Exclusive → OneSecretPerId (makeRequest env md5 request c responsePdu).log) ↔
    c.numRetries = 0 ∨ ¬Masked c getHostAddress := by
  constructor
  · intro h
    by_contra hnot
    rw [not_or, not_not] at hnot
    obtain ⟨env, haddress, hexclusive, hbad⟩ := not_oneSecretPerId hnot.1 hnot.2
    exact hbad (h _ _ env none haddress hexclusive)
  · rintro hclear md5 request env responsePdu rfl hexclusive
    exact oneSecretPerId hclear hexclusive responsePdu

/-- Three servers, of which the second and the third have the same secret. -/
def threeServers : RadiusClient ℕ :=
  ⟨[⟨0, 0, 0, [1]⟩, ⟨1, 0, 0, [2]⟩, ⟨2, 0, 0, [2]⟩], [], 1812, 1813, 1, false⟩

/-- If the second server has no address, its secret hides that the third one's differs from the
first one's. -/
theorem not_oneSecretPerId_threeServers : ¬∀ md5 request (env : Environment ℕ ℕ ℕ) responsePdu,
    env.Exclusive → OneSecretPerId (makeRequest env md5 request threeServers responsePdu).log := by
  intro h
  have hmasked : Masked threeServers fun _ host => if host = 1 then none else some host := by
    refine ⟨0, 2, by decide, by decide, by decide, by decide, fun w hw hw' => ?_, by decide,
      by decide⟩
    have hone : w = 1 := by omega
    subst hone
    rfl
  obtain ⟨env, -, hexclusive, hbad⟩ := not_oneSecretPerId (by decide) hmasked
  exact hbad (h _ _ env none hexclusive)

end RadiusClient

end Dot1x.Radius
