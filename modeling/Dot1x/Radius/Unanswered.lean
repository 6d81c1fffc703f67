import Dot1x.Radius.Transmissions
import Mathlib.Algebra.GroupWithZero.Nat

/-!
# Requests that nobody answers

Where every copy is written and no response arrives, a request goes through all its attempts, as far
as the callback lets it. What is sent then follows from the loops alone, so this is how a request is
shown to send certain copies.
-/

namespace Dot1x.Radius

open Dot1x.Base

/-- A call writes its request and goes on to read. -/
def unansweredSteps {A : Type} (server : Server A) : List (Action RadiusPDU A) :=
  [.call (.new (fun _ => 0) RadiusPDU.accessRequest 0) server true, .write 0 true]

/-- The socket of a call that is not answered. -/
def unansweredExchange {A : Type} [DecidableEq A] (server : Server A) : Exchange A where
  oldestId := 0
  actions := unansweredSteps server
  socket := (runLabels (Socket.step pduType) (.new 0) (unansweredSteps server)).get (by rfl)
  run := run_of_runLabels (Option.some_get _).symm

/-- Nobody answers, and `GetSocket` returns a socket for each place in the loops. -/
def unanswered {S A H : Type} [DecidableEq A] [Inhabited A] (getHostAddress : ℕ → H → Option A)
    (onSendPdu : ℕ × ℕ → Option Bool) (socket : ℕ × ℕ → S) (random : ℕ × ℕ → Fin 4 → UInt32) :
    Environment S A H where
  getHostAddress := getHostAddress
  onSendPdu := onSendPdu
  getSocket key := some (socket key, 0)
  random := random
  memory _ _ := 0
  exchange _ := unansweredExchange ⟨default, 0⟩
  onReceivedPdu _ := true

/-- `GetSocket` always succeeds with the same identifier, everything is written, and nothing is
received. -/
structure Environment.Silent {S A H : Type} [DecidableEq A] (env : Environment S A H) : Prop where
  getSocket : ∀ key, ∃ socket, env.getSocket key = some (socket, 0)
  memory : ∀ key, env.memory key = fun _ => 0
  sends : ∀ key, (env.exchange key).sends 0 = true
  response : ∀ key server, (env.exchange key).response 0 server = none

/-- An environment without answers is silent. -/
theorem silent_unanswered {S A H : Type} [DecidableEq A] [Inhabited A]
    {getHostAddress : ℕ → H → Option A} {onSendPdu : ℕ × ℕ → Option Bool} {socket : ℕ × ℕ → S}
    {random : ℕ × ℕ → Fin 4 → UInt32} :
    (unanswered getHostAddress onSendPdu socket random).Silent :=
  ⟨fun key => ⟨socket key, rfl⟩, fun _ => rfl, fun _ => rfl, fun _ _ => rfl⟩

namespace RadiusClient

variable {S A H : Type} [DecidableEq A] {env : Environment S A H} {md5 : Md5}
  {request : RadiusPDU} {c : RadiusClient H} {i j n : ℕ} {secret : List UInt8}
  {server : Server A} {secretChanged : Bool} {held : Option (Reservation S)} {r : Reservation S}

/-- The copies for all places in the loops can be sent. -/
def Sendable (env : Environment S A H) (md5 : Md5) (request : RadiusPDU) (c : RadiusClient H) :
    Prop :=
  ∀ i j secret, c.secretAt i = some secret → ∃ encrypted pdu,
    copyFor md5 request secret 0 (env.random (i, j)) (fun _ => 0) = .ok (encrypted, pdu) ∧
      pdu.isValid = true

/-- Reserving succeeds with the identifier that is always returned. -/
theorem reserve_silent (h : env.Silent) (hheld : ∀ r ∈ held, r.id = 0) (key : ℕ × ℕ)
    (renew : Bool) : ∃ r, r.id = 0 ∧ reserve env key renew held = pure r := by
  obtain ⟨socket, hsocket⟩ := h.getSocket key
  have hnew : getSocket env key = pure ⟨socket, 0, key⟩ := by
    rw [getSocket, hsocket]
  cases held with
  | none => exact ⟨_, rfl, hnew⟩
  | some r =>
    cases renew with
    | true => exact ⟨_, rfl, hnew⟩
    | false => exact ⟨r, hheld r rfl, rfl⟩

/-- An attempt that the callback allows sends a copy under what it uses. -/
theorem attempt_silent (h : env.Silent) (hcopies : Sendable env md5 request c)
    (hsecret : c.secretAt i = some secret) {requireNewId : Bool}
    (hcallback : env.onSendPdu (i, j) = some requireNewId)
    (hreserve : reserve env (i, j) (secretChanged || requireNewId) held = pure r)
    (hid : r.id = 0) (server : Server A) : ∃ t : Transmission S A, t.visit = i ∧ t.retry = j ∧ t.reservation = r ∧
      attempt env md5 request i j secret server secretChanged held = ⟨[t], .ok r⟩ := by
  obtain ⟨encrypted, pdu, hcopy, hvalid⟩ := hcopies i j secret hsecret
  refine ⟨⟨i, j, r, server, secret, encrypted, pdu⟩, rfl, rfl, rfl, ?_⟩
  have hcopy' : copyFor md5 request secret r.id (env.random (i, j)) (env.memory (i, j)) =
      .ok (encrypted, pdu) := by
    rw [hid, h.memory, hcopy]
  have hsends : (env.exchange (i, j)).sends r.id = true := hid ▸ h.sends (i, j)
  have hresponse : (env.exchange (i, j)).response r.id server = none :=
    hid ▸ h.response (i, j) server
  have htransmit : transmit env md5 request i j secret server r =
      ⟨[⟨i, j, r, server, secret, encrypted, pdu⟩], .ok ()⟩ := by
    simp only [transmit, hcopy', hvalid, hsends, hresponse]
    rfl
  simp only [attempt, hcallback, hreserve, pure_bind, htransmit]
  rfl

/-- The inner loop in two parts, of which the first makes an attempt. -/
theorem attemptLoop_add {m : ℕ} :
    attemptLoop env md5 request i secret server (m + 1 + n) j secretChanged held =
      attemptLoop env md5 request i secret server (m + 1) j secretChanged held >>= fun held =>
        attemptLoop env md5 request i secret server n (j + (m + 1)) false held := by
  induction m generalizing j secretChanged held with
  | zero =>
    rw [Nat.zero_add, Nat.add_comm 1 n, attemptLoop, attemptLoop, bind_assoc]
    rfl
  | succ m ih =>
    have hleft : m + 1 + 1 + n = m + 1 + n + 1 := by omega
    rw [hleft, attemptLoop, attemptLoop, bind_assoc]
    refine congrArg _ (funext fun r => ?_)
    have hplace : j + (m + 1 + 1) = j + 1 + (m + 1) := by omega
    rw [ih, hplace]

/-- The outer loop in two parts. -/
theorem visitLoop_add {m : ℕ} {st : Progress S} :
    visitLoop env md5 request c (m + n) i st =
      visitLoop env md5 request c m i st >>= visitLoop env md5 request c n (i + m) := by
  induction m generalizing i st with
  | zero => rw [Nat.zero_add, visitLoop, pure_bind, Nat.add_zero]
  | succ m ih =>
    have hleft : m + 1 + n = m + n + 1 := by omega
    rw [hleft, visitLoop, visitLoop, bind_assoc]
    refine congrArg _ (funext fun st => ?_)
    have hplace : i + (m + 1) = i + 1 + m := by omega
    rw [ih, hplace]

/-- Attempts that the callback allows are all made, and the last one is what is held then. -/
theorem attemptLoop_silent (h : env.Silent) (hcopies : Sendable env md5 request c)
    (hsecret : c.secretAt i = some secret) (hheld : ∀ r ∈ held, r.id = 0)
    (hallowed : ∀ x, x < n + 1 → (env.onSendPdu (i, j + x)).isSome) (server : Server A)
    (secretChanged : Bool) : ∃ t : Transmission S A,
      t.visit = i ∧ t.retry = j + n ∧ t.reservation.id = 0 ∧
      t ∈ (attemptLoop env md5 request i secret server (n + 1) j secretChanged held).log ∧
      (attemptLoop env md5 request i secret server (n + 1) j secretChanged held).result =
        .ok (some t.reservation) := by
  induction n generalizing j secretChanged held with
  | zero =>
    have hfirst : (env.onSendPdu (i, j)).isSome := hallowed 0 (by omega)
    obtain ⟨requireNewId, hcallback⟩ := Option.isSome_iff_exists.mp hfirst
    obtain ⟨r, hid, hreserve⟩ := reserve_silent h hheld (i, j) (secretChanged || requireNewId)
    obtain ⟨t, hvisit, hretry, rfl, hattempt⟩ := attempt_silent h hcopies hsecret hcallback hreserve
      hid server
    rw [attemptLoop, hattempt]
    exact ⟨t, hvisit, hretry, hid, List.mem_singleton_self t, rfl⟩
  | succ n ih =>
    have hfirst : (env.onSendPdu (i, j)).isSome := hallowed 0 (by omega)
    obtain ⟨requireNewId, hcallback⟩ := Option.isSome_iff_exists.mp hfirst
    obtain ⟨r, hid, hreserve⟩ := reserve_silent h hheld (i, j) (secretChanged || requireNewId)
    obtain ⟨t, -, -, -, hattempt⟩ := attempt_silent h hcopies hsecret hcallback hreserve
      hid server
    have hnext : ∀ r' ∈ some r, r'.id = 0 := by
      rintro r' ⟨⟩
      exact hid
    have hlater : ∀ x, x < n + 1 → (env.onSendPdu (i, j + 1 + x)).isSome := fun x hx => by
      have hplace : j + 1 + x = j + (x + 1) := by omega
      exact hplace ▸ hallowed (x + 1) (by omega)
    obtain ⟨t', hvisit, hretry, hid', hlog, hresult⟩ := ih hnext hlater false
    have hok : (attempt env md5 request i j secret server secretChanged held).result = .ok r := by
      rw [hattempt]
    refine ⟨t', hvisit, by omega, hid', ?_, ?_⟩
    · rw [attemptLoop]
      exact Exec.mem_log_bind_right hok hlog
    · rw [attemptLoop, Exec.result_bind_of_ok hok, hresult]

/-- A pass for a server with an address. -/
theorem visit_of_address {address : A} (haddress : addressAt env.getHostAddress c i = some address)
    (hsecret : c.secretAt i = some secret) (md5 : Md5) (request : RadiusPDU) (st : Progress S) :
    ∃ port, visit env md5 request c i st =
      attemptLoop env md5 request i secret ⟨address, port⟩ c.retries 0
        (st.secret.any (secret ≠ ·)) st.held >>= fun held => pure ⟨some secret, held⟩ := by
  obtain ⟨server, hserver, hsome⟩ := Option.bind_eq_some_iff.mp haddress
  rw [secretAt, hserver, Option.map_some, Option.some.injEq] at hsecret
  subst hsecret
  refine ⟨c.serverPort server request, ?_⟩
  simp only [visit, hserver, hsome]

/-- A pass for a server without an address. -/
theorem visit_of_none {st : Progress S} (haddress : addressAt env.getHostAddress c i = none)
    (hsecret : c.secretAt i = some secret) :
    visit env md5 request c i st = pure ⟨some secret, st.held⟩ := by
  obtain ⟨server, hserver, rfl⟩ := Option.map_eq_some_iff.mp hsecret
  rw [addressAt, hserver, Option.bind_some] at haddress
  simp only [visit, hserver, haddress]

omit [DecidableEq A] in
/-- There is a server for every pass. -/
theorem secretAt_isSome (hi : i < c.visits) : ∃ secret, c.secretAt i = some secret := by
  have hpos : 0 < c.radiusServers.length := by
    rw [Nat.pos_iff_ne_zero]
    intro hnone
    simp [visits, hnone] at hi
  exact ⟨_, by rw [secretAt, server, List.getElem?_eq_getElem (Nat.mod_lt i hpos), Option.map_some]⟩

/-- A pass all of whose attempts are allowed makes the last of them. -/
theorem visit_silent (h : env.Silent) (hcopies : Sendable env md5 request c)
    (hsecret : c.secretAt i = some secret) (haddress : (addressAt env.getHostAddress c i).isSome)
    (hretries : 0 < c.retries)
    (hallowed : ∀ x, x < c.retries → (env.onSendPdu (i, x)).isSome) (st : Progress S)
    (hheld : ∀ r ∈ st.held, r.id = 0) : ∃ t : Transmission S A,
      t.visit = i ∧ t.retry + 1 = c.retries ∧ t.reservation.id = 0 ∧
      t ∈ (visit env md5 request c i st).log ∧
      (visit env md5 request c i st).result = .ok ⟨some secret, some t.reservation⟩ := by
  obtain ⟨address, haddress⟩ := Option.isSome_iff_exists.mp haddress
  obtain ⟨n, hn⟩ := Nat.exists_eq_succ_of_ne_zero (Nat.pos_iff_ne_zero.mp hretries)
  obtain ⟨port, hvisit⟩ := visit_of_address haddress hsecret md5 request st
  have hall : ∀ x, x < n + 1 → (env.onSendPdu (i, 0 + x)).isSome := fun x hx => by
    rw [Nat.zero_add]
    exact hallowed x (by omega)
  obtain ⟨t, ht, hretry, hid, hlog, hresult⟩ := attemptLoop_silent h hcopies hsecret hheld hall
    ⟨address, port⟩ (st.secret.any (secret ≠ ·))
  rw [hvisit, hn]
  exact ⟨t, ht, by omega, hid, Exec.mem_log_bind_left hlog,
    Exec.result_bind_eq_ok.mpr ⟨_, hresult, rfl⟩⟩

/-- Passes all of whose attempts are allowed return. -/
theorem visitLoop_silent (h : env.Silent) (hcopies : Sendable env md5 request c)
    (hretries : 0 < c.retries) (hlast : i + n ≤ c.visits)
    (hallowed : ∀ x, x < i + n → (addressAt env.getHostAddress c x).isSome →
      ∀ y, y < c.retries → (env.onSendPdu (x, y)).isSome) (st : Progress S)
    (hheld : ∀ r ∈ st.held, r.id = 0) : ∃ st', (visitLoop env md5 request c n i st).result =
      .ok st' ∧ ∀ r ∈ st'.held, r.id = 0 := by
  induction n generalizing i st with
  | zero => exact ⟨st, rfl, hheld⟩
  | succ n ih =>
    have hnext : i + (n + 1) = i + 1 + n := by omega
    rw [hnext] at hlast hallowed
    obtain ⟨secret, hsecret⟩ := secretAt_isSome (c := c) (i := i) (by omega)
    have hone : ∃ st', (visit env md5 request c i st).result = .ok st' ∧
        ∀ r ∈ st'.held, r.id = 0 := by
      by_cases haddress : (addressAt env.getHostAddress c i).isSome
      · obtain ⟨t, -, -, hid, -, hresult⟩ := visit_silent h hcopies hsecret haddress hretries
          (hallowed i (by omega) haddress) st hheld
        refine ⟨_, hresult, ?_⟩
        rintro r ⟨⟩
        exact hid
      · rw [Option.not_isSome_iff_eq_none] at haddress
        exact ⟨⟨some secret, st.held⟩, by rw [visit_of_none haddress hsecret]; rfl, hheld⟩
    obtain ⟨st', hresult, hheld'⟩ := hone
    rw [visitLoop, Exec.result_bind_of_ok hresult]
    exact ih hlast hallowed st' hheld'

/-- Passes for servers without addresses keep what is held. -/
private theorem visitLoop_of_none {st : Progress S} (hlast : i + 1 + n ≤ c.visits)
    (hnone : ∀ x, i < x → x < i + 1 + n → addressAt env.getHostAddress c x = none)
    (hsecret : st.secret = c.secretAt i) :
    visitLoop env md5 request c n (i + 1) st = pure ⟨c.secretAt (i + n), st.held⟩ := by
  induction n generalizing i st with
  | zero =>
    rw [visitLoop, Nat.add_zero, ← hsecret]
  | succ n ih =>
    have hnext : i + 1 + (n + 1) = i + 1 + 1 + n := by omega
    rw [hnext] at hlast hnone
    obtain ⟨secret, hs⟩ := secretAt_isSome (c := c) (i := i + 1) (by omega)
    rw [visitLoop, visit_of_none (hnone (i + 1) (by omega) (by omega)) hs, pure_bind,
      ih hlast (fun x hx => hnone x (by omega)) hs.symm]
    have hplace : i + 1 + n = i + (n + 1) := by omega
    rw [hplace]

/-- A pass under the secret of the pass before it begins with what is held, if the callback does not
ask for anything else. -/
private theorem visit_kept (h : env.Silent) (hcopies : Sendable env md5 request c)
    (hsecret : c.secretAt i = some secret) (haddress : (addressAt env.getHostAddress c i).isSome)
    (hretries : 0 < c.retries) (hcallback : env.onSendPdu (i, 0) = some false)
    (st : Progress S) (hsame : st.secret = c.secretAt i) (hheld : st.held = some r)
    (hid : r.id = 0) : ∃ t ∈ (visit env md5 request c i st).log,
      t.visit = i ∧ t.retry = 0 ∧ t.reservation = r := by
  obtain ⟨address, haddress⟩ := Option.isSome_iff_exists.mp haddress
  obtain ⟨n, hn⟩ := Nat.exists_eq_succ_of_ne_zero (Nat.pos_iff_ne_zero.mp hretries)
  obtain ⟨port, hvisit⟩ := visit_of_address haddress hsecret md5 request st
  have hunchanged : st.secret.any (secret ≠ ·) = false := by
    rw [hsame, hsecret]
    simp
  have hreserve : reserve env (i, 0) (false || false) (some r) = pure r := rfl
  obtain ⟨t, ht, hretry, hres, hattempt⟩ := attempt_silent h hcopies hsecret hcallback hreserve hid
    ⟨address, port⟩
  refine ⟨t, ?_, ht, hretry, hres⟩
  rw [hvisit, hunchanged, hheld, hn, attemptLoop, hattempt]
  exact Exec.mem_log_bind_left (Exec.mem_log_bind_left (List.mem_singleton_self t))

/-- Two passes with no address in between: the second begins with what the first one ended with,
unless the secret of the second is not that of the pass before it. -/
theorem exists_kept_across (h : env.Silent) (hvalid : request.isValid = true)
    (hcopies : Sendable env md5 request c) (hretries : 0 < c.retries) {u v : ℕ} (huv : u < v)
    (hv : v < c.visits) (hu : (addressAt env.getHostAddress c u).isSome)
    (haddress : (addressAt env.getHostAddress c v).isSome)
    (hbetween : ∀ x, u < x → x < v → addressAt env.getHostAddress c x = none)
    (hallowed : ∀ x, x ≤ u → (addressAt env.getHostAddress c x).isSome →
      ∀ y, y < c.retries → (env.onSendPdu (x, y)).isSome)
    (hcallback : env.onSendPdu (v, 0) = some false)
    (hsame : c.secretAt (v - 1) = c.secretAt v) (responsePdu : Option RadiusPDU) :
    ∃ t ∈ (makeRequest env md5 request c responsePdu).log,
      ∃ t' ∈ (makeRequest env md5 request c responsePdu).log,
        t.visit = u ∧ t.retry + 1 = c.retries ∧ t'.visit = v ∧ t'.retry = 0 ∧
        t'.reservation = t.reservation := by
  obtain ⟨n, rfl⟩ := Nat.exists_eq_add_of_le (Nat.succ_le_of_lt huv)
  obtain ⟨m, hm⟩ := Nat.exists_eq_add_of_lt hv
  obtain ⟨st, hfirst, hheld⟩ := visitLoop_silent (i := 0) (n := u) h hcopies hretries (by omega)
    (fun x hx hax => hallowed x (by omega) hax) ⟨none, none⟩ nofun
  obtain ⟨secret, hsecret⟩ := secretAt_isSome (c := c) (i := u) (by omega)
  obtain ⟨secret', hsecret'⟩ := secretAt_isSome hv
  obtain ⟨t, htu, hretry, hid, hlog, hresult⟩ := visit_silent h hcopies hsecret hu hretries
    (hallowed u (Nat.le_refl u) hu) st hheld
  have hskip : visitLoop env md5 request c n (u + 1) ⟨some secret, some t.reservation⟩ =
      pure ⟨c.secretAt (u + n), some t.reservation⟩ :=
    visitLoop_of_none (by omega) (fun x hx hx' => hbetween x hx (by omega)) hsecret.symm
  have hplace : u.succ + n - 1 = u + n := by omega
  obtain ⟨t', hlog', hvisit', hretry', hres'⟩ := visit_kept h hcopies hsecret' haddress hretries
    hcallback ⟨c.secretAt (u + n), some t.reservation⟩ (hplace ▸ hsame) rfl hid
  -- The passes before the first of the two, that one, those in between, the second and the rest.
  have hsplit : c.visits = u + (n + (m + 1) + 1) := by omega
  have hloops : visitLoop env md5 request c c.visits 0 ⟨none, none⟩ = (do
      let st ← visitLoop env md5 request c u 0 ⟨none, none⟩
      let st ← visit env md5 request c u st
      let st ← visitLoop env md5 request c n (u + 1) st
      let st ← visit env md5 request c (u + 1 + n) st
      visitLoop env md5 request c m (u + 1 + n + 1) st) := by
    rw [hsplit, visitLoop_add, Nat.zero_add]
    refine congrArg _ (funext fun st => ?_)
    rw [visitLoop]
    refine congrArg _ (funext fun st => ?_)
    rw [visitLoop_add]
    refine congrArg _ (funext fun st => ?_)
    rw [visitLoop]
  rw [log_makeRequest hvalid, hloops]
  refine ⟨t, Exec.mem_log_bind_right hfirst (Exec.mem_log_bind_left hlog), t',
    Exec.mem_log_bind_right hfirst (Exec.mem_log_bind_right hresult ?_), htu, hretry, hvisit',
    hretry', hres'⟩
  rw [hskip, pure_bind]
  exact Exec.mem_log_bind_left hlog'

/-- Two attempts of one pass: the second keeps what the first one used, if the callback does not ask
for anything else. -/
theorem exists_kept_within (h : env.Silent) (hvalid : request.isValid = true)
    (hcopies : Sendable env md5 request c) {u : ℕ} (hretries : j + 1 < c.retries)
    (hu : u < c.visits) (haddress : (addressAt env.getHostAddress c u).isSome)
    (hbefore : ∀ x, x < u → (addressAt env.getHostAddress c x).isSome →
      ∀ y, y < c.retries → (env.onSendPdu (x, y)).isSome)
    (hallowed : ∀ y, y < j + 1 → (env.onSendPdu (u, y)).isSome)
    (hcallback : env.onSendPdu (u, j + 1) = some false) (responsePdu : Option RadiusPDU) :
    ∃ t ∈ (makeRequest env md5 request c responsePdu).log,
      ∃ t' ∈ (makeRequest env md5 request c responsePdu).log,
        t.visit = u ∧ t.retry = j ∧ t'.visit = u ∧ t'.retry = j + 1 ∧
        t'.reservation = t.reservation := by
  obtain ⟨n, hn⟩ := Nat.exists_eq_add_of_lt hretries
  obtain ⟨m, hm⟩ := Nat.exists_eq_add_of_lt hu
  obtain ⟨st, hfirst, hheld⟩ := visitLoop_silent (i := 0) (n := u) h hcopies (by omega) (by omega)
    (fun x hx hax => hbefore x (by omega) hax) ⟨none, none⟩ nofun
  obtain ⟨secret, hsecret⟩ := secretAt_isSome hu
  obtain ⟨address, haddress⟩ := Option.isSome_iff_exists.mp haddress
  obtain ⟨port, hvisit⟩ := visit_of_address haddress hsecret md5 request st
  have hall : ∀ x, x < j + 1 → (env.onSendPdu (u, 0 + x)).isSome := fun x hx => by
    rw [Nat.zero_add]
    exact hallowed x hx
  obtain ⟨t, htu, hretry, hid, hlog, hresult⟩ := attemptLoop_silent h hcopies hsecret hheld hall
    ⟨address, port⟩ (st.secret.any (secret ≠ ·))
  have hreserve : reserve env (u, j + 1) (false || false) (some t.reservation) =
    pure t.reservation := rfl
  obtain ⟨t', ht', hretry', hres', hattempt⟩ := attempt_silent h hcopies hsecret hcallback hreserve
    hid ⟨address, port⟩
  -- The attempts up to the first of the two, the second and the rest.
  have hsplit : c.retries = j + 1 + (n + 1) := by omega
  have hboth (x : Transmission S A) (hx : x ∈ (attemptLoop env md5 request u secret
      ⟨address, port⟩ (j + 1) 0 (st.secret.any (secret ≠ ·)) st.held).log ∨ x = t') :
      x ∈ (makeRequest env md5 request c responsePdu).log := by
    have hpasses : c.visits = u + (m + 1) := by omega
    rw [log_makeRequest hvalid, hpasses, visitLoop_add, Nat.zero_add]
    refine Exec.mem_log_bind_right hfirst (Exec.mem_log_bind_left ?_)
    rw [hvisit, hsplit, attemptLoop_add, Nat.zero_add]
    rcases hx with hx | rfl
    · exact Exec.mem_log_bind_left (Exec.mem_log_bind_left hx)
    · refine Exec.mem_log_bind_left (Exec.mem_log_bind_right hresult ?_)
      rw [attemptLoop, hattempt]
      exact Exec.mem_log_bind_left (List.mem_singleton_self x)
  exact ⟨t, hboth t (Or.inl hlog), t', hboth t' (Or.inr rfl), htu, by omega, ht', hretry', hres'⟩

end RadiusClient

end Dot1x.Radius
