import Dot1x.Daemon.AuthenticatorChange

/-!
# When the daemon takes itself for authenticated

The state `DID_AUTH` decides whether the program logs off when it ends. It is there exactly when an
authentication has been completed: a request was answered, then a Success came, and nothing since the
request has put that in doubt. Among the doubts is a packet for which `same_pae` is false. That flag
tells of the frames since `receive` was called, so it is not always false when the authenticator is
another one.

The results hold for every table of handlers, since the loop sees of `eap::process` the return code
only.
-/

namespace Dot1x.Daemon

open Dot1x.Base Dot1x.Wire Dot1x.Eap Dot1x.Link

/-- The state after a packet with `same_pae` for which `eap::process` returned a code, if the program
goes on. -/
def PaeState.after (st : PaeState) : Ret → PaeState
  | .cont => .doAuth
  | .ok => if st = .doAuth then .didAuth else st
  | .fail => .init
  | .abort => .init
  | .inv => st
  | .old => st

namespace MainLoop

variable {H : Type} {V : Vtable H} {opts : Options} {s s' s₀ s₁ : MainLoop H} {d d₀ : Delivery}
  {ds : List Delivery} {f : Frame} {rc rc' : Ret} {l : Ll8023} {e : EapState H}

/-- `terminate`, the handler of the signals that end the program. They are blocked except while the
program waits for a packet. The molestor is a child that ends with it. -/
def terminate (opts : Options) (s : MainLoop H) (d : Delivery) : Exec Event Stop (MainLoop H) :=
  if s.state = .didAuth ∧ opts.doLogoff then do
    let _ ← transmit s d EapolPacket.logoff
    Exec.fail .out
  else Exec.fail .out

/-- What comes before a packet is passed: without `same_pae` the PAE is left. -/
def approach (V : Vtable H) (opts : Options) (s : MainLoop H) (d : Delivery) :
    Exec Event Stop (MainLoop H) :=
  if s.io.samePae then pure s else leavePae V opts s d

/-- `same_pae` is true when the frame that is delivered has been received. -/
def SamePae (s : MainLoop H) (d : Delivery) : Prop :=
  ∀ f, d.frame = some f → (s.io.observe f).samePae

/-- A packet is passed to `eap::process`, and that is what it returns. -/
def Results (V : Vtable H) (opts : Options) (s : MainLoop H) (d : Delivery) (rc : Ret) : Prop :=
  ∃ f s₁ r, d.frame = some f ∧ f.Accepted s.io.etherSrc ∧ f.payload.type = EapolPacket.pckt ∧
    (approach V opts { s with io := s.io.observe f } d).result = .ok s₁ ∧
    (s₁.auth.process V d.heap f.payload.body s₁.io.output.body).result = .ok r ∧ r.1 = rc

/-- If a packet is passed, `same_pae` is true and it has one of some results. -/
def Keeps (V : Vtable H) (opts : Options) (codes : List Ret) (s : MainLoop H) (d : Delivery) : Prop :=
  ∀ rc, Results V opts s d rc → SamePae s d ∧ rc ∈ codes

/-- A request was answered, and until a Success came only requests were answered and invalid packets
ignored; since then there were at most further Successes and invalid packets. For all packets that
were passed after the request `same_pae` was true. -/
def Authenticated (V : Vtable H) (opts : Options) (s₀ : MainLoop H) (ds : List Delivery)
    (s : MainLoop H) : Prop :=
  ∃ asking t d, Steps.Since (next V opts) (Keeps V opts [.ok, .inv, .old]) s₀ ds s asking t d ∧
    SamePae t d ∧ Results V opts t d .ok ∧
    ∃ before u d',
      Steps.Since (next V opts) (Keeps V opts [.cont, .inv, .old]) s₀ asking t before u d' ∧
        Results V opts u d' .cont

/-- Only packets are handled, each after the loop has looked at its source. -/
theorem handle_eq : handle V opts s d f =
    if f.payload.type ≠ EapolPacket.pckt then pure s
    else approach V opts s d >>= fun s => pass V opts s d f := by
  unfold handle approach
  split
  · rfl
  · split <;> rfl

/-- A packet has one result. -/
theorem Results.unique (h : Results V opts s d rc) (h' : Results V opts s d rc') : rc = rc' := by
  obtain ⟨f, s₁, r, hf, -, -, hs₁, hr, rfl⟩ := h
  obtain ⟨f', s₂, r', hf', -, -, hs₂, hr', rfl⟩ := h'
  cases hf.symm.trans hf'
  cases hs₁.symm.trans hs₂
  cases hr.symm.trans hr'
  rfl

/-- Sending a frame leaves the state alone. -/
theorem transmit_state (type : ℕ) : (transmit s d type).Sat (fun _ => True)
    fun s' => s'.state = s.state := by
  refine .bind (.tell (Q := fun _ => True) trivial trivial) fun _ _ => ?_
  split
  · exact .pure rfl
  · exact .fail

/-- Restarting the molestor leaves the state of the loop alone. -/
theorem restartMolestor_state : (restartMolestor opts s d).Sat (fun _ => True)
    fun s' => s'.state = s.state := by
  unfold restartMolestor startMolestor
  split
  · split
    · exact .pure rfl
    · exact transmit_state _
  · exact .pure rfl

/-- Aborting leaves the state of the loop alone. -/
theorem doAbort_state : (doAbort V opts s d).Sat (fun _ => True) fun s' => s'.state = s.state :=
  .bind (.tell (Q := fun _ => True) trivial trivial) fun _ _ =>
    restartMolestor_state (s := { s with auth := s.auth.abort V })

/-- No state follows the label `out`. -/
theorem out_ends (h : (out opts s d).result = .ok s') : False := by
  unfold out at h
  split at h
  · obtain ⟨t, -, h⟩ := Exec.result_bind_eq_ok.mp h
    cases h
  · cases h

/-- Without `same_pae` the loop is put back to the beginning. -/
theorem approach_state (h : (approach V opts s d).result = .ok s₁) :
    s₁.state = if s.io.samePae then s.state else .init := by
  unfold approach at h
  split at h
  · rename_i hsame
    cases h
    rw [if_pos hsame]
  · rename_i hother
    rw [if_neg hother]
    exact (leavePae_result h).1

/-- What the loop makes of a code, if it goes on. -/
theorem settle_state (h : (settle V opts s d rc).result = .ok s') (hold : rc ≠ .old) :
    s'.state = s.state.after rc := by
  unfold settle at h
  cases hst : s.state with
  | init =>
    rw [hst] at h
    cases rc with
    | cont => exact (transmit_state _).value s' h
    | ok => cases h; rfl
    | fail => exact (restartMolestor_state.value s' h).trans hst
    | abort => cases h; rfl
    | inv => cases h; exact hst
    | old => exact absurd rfl hold
  | doAuth =>
    rw [hst] at h
    cases rc with
    | cont => exact (transmit_state _).value s' h
    | ok =>
      dsimp only at h
      split at h
      · exact absurd h fun h => out_ends h
      · cases h; rfl
    | fail =>
      dsimp only at h
      split at h
      · exact absurd h fun h => out_ends h
      · exact doAbort_state.value s' h
    | abort => exact doAbort_state.value s' h
    | inv => cases h; rfl
    | old => exact absurd rfl hold
  | didAuth =>
    rw [hst] at h
    cases rc with
    | cont => exact (transmit_state _).value s' h
    | ok => cases h; exact hst
    | fail => exact doAbort_state.value s' h
    | abort => exact doAbort_state.value s' h
    | inv => cases h; exact hst
    | old => exact absurd rfl hold

/-- A packet that was passed had a result, which decides about the state. -/
private theorem pass_state (h : (pass V opts s d f).result = .ok s') : ∃ r,
    (s.auth.process V d.heap f.payload.body s.io.output.body).result = .ok r ∧
      s'.state = s.state.after r.1 := by
  rw [pass, Exec.result_bind_of_ok (Exec.result_tell _)] at h
  split at h
  · cases h
  · rename_i r hr
    refine ⟨r, hr, ?_⟩
    dsimp only at h
    split at h
    · rename_i hold
      obtain ⟨-, -, h⟩ := Exec.result_bind_eq_ok.mp h
      split at h
      · cases h
        rw [hold]
        rfl
      · cases h
    · rename_i hold
      have hstate := settle_state h hold
      exact hstate

/-- A step leaves the state alone unless a packet is passed. Then it is `same_pae` and the result that
decide. -/
theorem next_state (h : next V opts s d = some s') :
    (∀ rc, ¬Results V opts s d rc) ∧ s'.state = s.state ∨
      ∃ rc, Results V opts s d rc ∧ (SamePae s d → s'.state = s.state.after rc) ∧
        (¬SamePae s d → s'.state = PaeState.init.after rc) := by
  obtain ⟨f, hf⟩ := frame_of_next h
  have hres := Exec.result_of_toOption h
  by_cases hacc : f.Accepted s.io.etherSrc
  · rw [step_accepted hf hacc] at hres
    obtain ⟨s₂, hhandle, hres⟩ := Exec.result_bind_eq_ok.mp hres
    cases hres
    rw [handle_eq] at hhandle
    split at hhandle
    · rename_i htype
      cases hhandle
      refine Or.inl ⟨?_, rfl⟩
      rintro rc ⟨f', -, -, hf', -, htype', -⟩
      cases hf.symm.trans hf'
      exact htype htype'
    · rename_i htype
      obtain ⟨s₁, happroach, hpass⟩ := Exec.result_bind_eq_ok.mp hhandle
      obtain ⟨r, hr, hstate⟩ := pass_state hpass
      have hbefore := approach_state happroach
      have hsame : SamePae s d ↔ (s.io.observe f).samePae := by
        refine ⟨fun h => h f hf, fun h f' hf' => ?_⟩
        cases hf.symm.trans hf'
        exact h
      refine Or.inr ⟨r.1, ⟨f, s₁, r, hf, hacc, not_not.mp htype, happroach, hr, rfl⟩, ?_, ?_⟩
      · intro hfrom
        rw [if_pos (hsame.mp hfrom)] at hbefore
        exact hstate.trans (congrArg (PaeState.after · r.1) hbefore)
      · intro hfrom
        rw [if_neg (hsame.not.mp hfrom)] at hbefore
        exact hstate.trans (congrArg (PaeState.after · r.1) hbefore)
  · rw [step_rejected hf hacc] at hres
    cases hres
    refine Or.inl ⟨?_, rfl⟩
    rintro rc ⟨f', -, -, hf', hacc', -⟩
    cases hf.symm.trans hf'
    exact hacc hacc'

/-- An authentication is going on after a step in which a request is answered, or in which there is
no reason to give it up. -/
theorem next_doAuth_iff (h : next V opts s d = some s') : s'.state = .doAuth ↔
    Results V opts s d .cont ∨ s.state = .doAuth ∧ Keeps V opts [.cont, .inv, .old] s d := by
  rcases next_state h with ⟨hnone, hstate⟩ | ⟨rc, hrc, hsame, hother⟩
  · rw [hstate]
    constructor
    · exact fun hs => Or.inr ⟨hs, fun rc hrc => absurd hrc (hnone rc)⟩
    · exact fun hor => hor.elim (fun hcont => absurd hcont (hnone _)) And.left
  · have hresult (rc' : Ret) : Results V opts s d rc' ↔ rc' = rc :=
      ⟨fun h => h.unique hrc, fun h => h ▸ hrc⟩
    simp only [Keeps, hresult, forall_eq]
    by_cases hfrom : SamePae s d
    · rw [hsame hfrom]
      cases rc <;> cases s.state <;> simp [PaeState.after, hfrom]
    · rw [hother hfrom]
      cases rc <;> simp [PaeState.after, hfrom]

/-- The daemon is authenticated after a step in which an authentication succeeds, or in which there
is no reason to doubt the last one. -/
theorem next_didAuth_iff (h : next V opts s d = some s') : s'.state = .didAuth ↔
    (s.state = .doAuth ∧ SamePae s d ∧ Results V opts s d .ok) ∨
      s.state = .didAuth ∧ Keeps V opts [.ok, .inv, .old] s d := by
  rcases next_state h with ⟨hnone, hstate⟩ | ⟨rc, hrc, hsame, hother⟩
  · rw [hstate]
    constructor
    · exact fun hs => Or.inr ⟨hs, fun rc hrc => absurd hrc (hnone rc)⟩
    · exact fun hor => hor.elim (fun hok => absurd hok.2.2 (hnone _)) And.left
  · have hresult (rc' : Ret) : Results V opts s d rc' ↔ rc' = rc :=
      ⟨fun h => h.unique hrc, fun h => h ▸ hrc⟩
    simp only [Keeps, hresult, forall_eq]
    by_cases hfrom : SamePae s d
    · rw [hsame hfrom]
      cases rc <;> cases s.state <;> simp [PaeState.after, hfrom]
    · rw [hother hfrom]
      cases rc <;> simp [PaeState.after, hfrom]

/-- The program waits in the state `INIT` at first. -/
private theorem start_state (h : (start opts l e d₀).result = .ok s₀) : s₀.state = .init := by
  obtain ⟨s, hs, h⟩ := Exec.result_bind_eq_ok.mp h
  cases h
  exact restartMolestor_state.value s hs

/-- The state `DID_AUTH` tells whether an authentication was completed that nothing has put in doubt. -/
theorem didAuth_iff (hstart : (start opts l e d₀).result = .ok s₀)
    (run : Run (next V opts) s₀ ds s) : s.state = .didAuth ↔ Authenticated V opts s₀ ds s := by
  have hinit := start_state hstart
  rw [run.since_iff (P := fun s => s.state = .didAuth) fun s d s' h => next_didAuth_iff h]
  constructor
  · rintro (⟨asking, t, d, ⟨hdoAuth, hsame, hok⟩, hsince⟩ | ⟨hdid, -⟩)
    · refine ⟨asking, t, d, hsince, hsame, hok, ?_⟩
      obtain ⟨-, -, -, hasking, -⟩ := hsince
      rcases (hasking.since_iff (P := fun s => s.state = .doAuth) fun s d s' h =>
        next_doAuth_iff h).mp hdoAuth with ⟨before, u, d', hcont, hsince'⟩ | ⟨hdo, -⟩
      · exact ⟨before, u, d', hsince', hcont⟩
      · rw [hinit] at hdo
        cases hdo
    · rw [hinit] at hdid
      cases hdid
  · rintro ⟨asking, t, d, hsince, hsame, hok, before, u, d', hsince', hcont⟩
    refine Or.inl ⟨asking, t, d, ⟨?_, hsame, hok⟩, hsince⟩
    obtain ⟨-, -, -, hasking, -⟩ := hsince
    exact (hasking.since_iff (P := fun s => s.state = .doAuth) fun s d s' h =>
      next_doAuth_iff h).mpr (Or.inl ⟨before, u, d', hcont, hsince'⟩)

/-- A signal makes the program send a frame in the state `DID_AUTH`. -/
theorem terminate_sends_iff : (∃ data len, .sent data len ∈ (terminate opts s d).log) ↔
    opts.doLogoff ∧ s.state = .didAuth := by
  unfold terminate
  split
  · rename_i hauth
    refine iff_of_true ⟨_, _, Exec.mem_log_bind_left (Exec.mem_log_bind_left
      (List.mem_singleton_self _))⟩ ⟨hauth.2, hauth.1⟩
  · rename_i hauth
    refine iff_of_false ?_ fun h => hauth ⟨h.2, h.1⟩
    rintro ⟨data, len, hmem⟩
    cases hmem

/-- In every run of the program the state is `DID_AUTH` exactly when an authentication was completed and
nothing has put it in doubt, and a signal makes the program log off exactly then, if it is to log off
at all. -/
theorem didAuth_iff_authenticated (hstart : (start opts l e d₀).result = .ok s₀)
    (run : Run (next V opts) s₀ ds s) :
    (s.state = .didAuth ↔ Authenticated V opts s₀ ds s) ∧
      ∀ d, (∃ data len, .sent data len ∈ (terminate opts s d).log) ↔
        opts.doLogoff ∧ Authenticated V opts s₀ ds s := by
  have hauth := didAuth_iff hstart run
  refine ⟨hauth, fun d => ?_⟩
  rw [terminate_sends_iff, hauth]

/-- A Success from an authenticator. -/
def tellSuccess (src : UInt8) : Frame := groupFrame src 0 [3, 5, 0, 4]

/-- A user who was asked for the name and told of success is authenticated. -/
theorem didAuth_iff_authenticated_success : ∃ s,
    Run (next plainVtable plainOptions) plainDaemon.waiting
      [delivery (askIdentity 2), delivery (tellSuccess 2)] s ∧
    Authenticated plainVtable plainOptions plainDaemon.waiting
      [delivery (askIdentity 2), delivery (tellSuccess 2)] s := by
  have heval : (runLabels (next plainVtable plainOptions) plainDaemon.waiting
      [delivery (askIdentity 2), delivery (tellSuccess 2)]).map (·.state) = some .didAuth := by
    decide +kernel
  obtain ⟨s, hrun, hstate⟩ := Option.map_eq_some_iff.mp heval
  have run := run_of_runLabels hrun
  have hstart : (start plainOptions (Ll8023.new [2, 0, 0, 0, 0, 1] fun _ => 0)
      (EapState.init.addHandler (.identity ⟨[97]⟩)) (delivery (askIdentity 2))).result =
        .ok plainDaemon.waiting := rfl
  exact ⟨s, run, (didAuth_iff_authenticated hstart run).1.mp hstate⟩

end MainLoop

end Dot1x.Daemon
