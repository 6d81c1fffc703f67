import Dot1x.Daemon.MainLoop
import Dot1x.Eap.Handlers

/-!
# When the authenticator changes

The loop should go back to the beginning exactly when an EAP packet comes from another source than
the EAP packet before it. What it asks the link is another question: whether any frame seen since
`receive` was called came from another source than the frame before it. A frame counts here as
soon as its two lengths agree, whether or not it is for this station, and a frame that is returned
and then skipped for its type is forgotten at the next call.

So the sources are compared within a window: the last frame that `receive` returned, the frames
it rejected for their destination since, and the packet itself.
-/

namespace Dot1x.Daemon

open Dot1x.Base Dot1x.Wire Dot1x.Eap Dot1x.Link

/-- What a link knows about addresses. -/
def tracked (l : Ll8023) : Bool × List UInt8 × List UInt8 := (l.paeChanged, l.etherSrc, l.etherDst)

/-- The window after a further frame. -/
def window (own : List UInt8) (rs : List Frame) (f : Frame) : List Frame :=
  if f.Accepted own then [f] else if f.LengthsMatch then rs ++ [f] else rs

/-- A link has recorded the last source of a window, and whether all its sources are the same. -/
structure Records (l : Ll8023) (rs : List Frame) : Prop where
  last : ∃ f ∈ rs, f.src = l.etherDst
  same : l.paeChanged = false ↔ ∀ f ∈ rs, f.src = l.etherDst

/-- A link whose `receive` is called again has recorded the frame it returned. -/
theorem records_singleton {l : Ll8023} {f : Frame} (hchanged : l.paeChanged = false)
    (hsrc : f.src = l.etherDst) : Records l [f] :=
  ⟨⟨f, List.mem_singleton_self f, hsrc⟩, by simp [hchanged, hsrc]⟩

/-- A frame whose lengths agree is recorded. -/
theorem Records.recordSource {l : Ll8023} {rs : List Frame} (h : Records l rs) (f : Frame) :
    Records (l.recordSource f) (rs ++ [f]) := by
  unfold Ll8023.recordSource
  split
  · rename_i hsrc
    refine ⟨⟨f, by simp, hsrc⟩, h.same.trans ?_⟩
    simp [or_imp, forall_and, hsrc]
  · rename_i hsrc
    obtain ⟨g, hg, hlast⟩ := h.last
    refine ⟨⟨f, by simp, rfl⟩, ?_⟩
    constructor
    · intro hfalse
      cases hfalse
    · intro hall
      have hsame : g.src = f.src := hall g (by simp [hg])
      exact absurd (hsame.symm.trans hlast) hsrc

/-- What `receive` saw of a frame: it recorded the source if the lengths agree. -/
theorem Records.observe {l : Ll8023} {rs : List Frame} (h : Records l rs) (f : Frame) :
    Records (l.observe f) (if f.LengthsMatch then rs ++ [f] else rs) := by
  unfold Ll8023.observe
  split
  · exact Records.recordSource (l := { l with inData := some f }) ⟨h.last, h.same⟩ f
  · exact ⟨h.last, h.same⟩

/-- The recorded source is the one of the frame whose lengths agreed last. -/
theorem observe_etherDst {l : Ll8023} {f : Frame} (h : f.LengthsMatch) :
    (l.observe f).etherDst = f.src := by
  rw [Ll8023.observe, if_pos h, Ll8023.recordSource]
  split
  · rename_i hsrc
    exact hsrc.symm
  · rfl

namespace MainLoop

variable {H : Type} {V : Vtable H} {opts : Options} {s s' t : MainLoop H} {d d' : Delivery}
  {e e' f : Frame} {gap : List Delivery}

/-- Frames are sent and nothing else happens. -/
def Sends : Event → Prop
  | .sent _ _ => True
  | _ => False

/-- Frames are sent and handlers aborted. -/
def Routine : Event → Prop
  | .sent _ _ => True
  | .doAbort => True
  | _ => False

/-- The addresses of the link are those of another state. -/
def Tracks (s s' : MainLoop H) : Prop := tracked s'.io = tracked s.io

/-- Sending is routine. -/
theorem routine_of_sends (ev : Event) (h : Sends ev) : Routine ev := by
  cases ev with
  | sent | doAbort => trivial
  | otherPae | passed => exact h

/-- Transmitting only sends, and keeps the addresses. -/
theorem transmit_sat (type : ℕ) : (transmit s d type).Sat Sends (Tracks s) := by
  refine .bind (.tell (Q := fun _ => True) trivial trivial) fun _ _ => ?_
  split
  · exact .pure rfl
  · exact .fail

/-- Retransmitting only sends, and keeps the addresses. -/
theorem retransmitLast_sat : (retransmitLast s d).Sat Sends (Tracks s) := by
  refine .bind (.tell (Q := fun _ => True) trivial trivial) fun _ _ => ?_
  split
  · exact .pure rfl
  · exact .fail

/-- Restarting the molestor only sends, and keeps the addresses. -/
theorem restartMolestor_sat : (restartMolestor opts s d).Sat Sends (Tracks s) := by
  unfold restartMolestor startMolestor
  split
  · split
    · exact .pure rfl
    · exact transmit_sat _
  · exact .pure rfl

/-- Aborting passes nothing on, and keeps the addresses. -/
theorem doAbort_sat : (doAbort V opts s d).Sat Routine (Tracks s) := by
  refine .bind (.tell (Q := fun _ => True) trivial trivial) fun _ _ => ?_
  exact (restartMolestor_sat (s := { s with auth := s.auth.abort V })).mono routine_of_sends
    fun _ => id

/-- Leaving the loop only sends, and keeps the addresses. -/
private theorem out_sat : (out opts s d).Sat Sends (Tracks s) := by
  unfold out
  split
  · exact .bind (transmit_sat _) fun _ _ => .fail
  · exact .fail

/-- Acting on a result ends in one of five ways, none of which comes after a change of the link; a
packet is sent for two results only. -/
theorem settle_rule {P : Event → Prop} {Q : MainLoop H → Prop} (rc : Ret)
    (hstay : ∀ s₁ : MainLoop H, s₁.io = s.io → Q s₁)
    (hsend : rc = .cont ∨ rc = .old → ∀ s₁ : MainLoop H, s₁.io = s.io →
      (transmit s₁ d EapolPacket.pckt).Sat P Q)
    (hrestart : (restartMolestor opts s d).Sat P Q)
    (habort : ∀ s₁ : MainLoop H, s₁.io = s.io → (doAbort V opts s₁ d).Sat P Q)
    (hout : ∀ s₁ : MainLoop H, s₁.io = s.io → (out opts s₁ d).Sat P Q) :
    (settle V opts s d rc).Sat P Q := by
  unfold settle
  cases s.state with
  | init =>
    cases rc with
    | cont => exact hsend (Or.inl rfl) _ rfl
    | fail => exact hrestart
    | ok | inv | abort | old => exact .pure (hstay _ rfl)
  | doAuth =>
    cases rc with
    | ok =>
      dsimp only
      split
      · exact hout _ rfl
      · exact .pure (hstay _ rfl)
    | fail =>
      dsimp only
      split
      · exact hout _ rfl
      · exact habort _ rfl
    | abort => exact habort _ rfl
    | inv => exact .pure (hstay _ rfl)
    | cont => exact hsend (Or.inl rfl) _ rfl
    | old => exact hsend (Or.inr rfl) _ rfl
  | didAuth =>
    cases rc with
    | cont => exact hsend (Or.inl rfl) _ rfl
    | fail | abort => exact habort _ rfl
    | ok | inv | old => exact .pure (hstay _ rfl)

/-- Acting on a result takes no branch, passes no packet and leaves the addresses alone. -/
theorem settle_sat (rc : Ret) : (settle V opts s d rc).Sat Routine (Tracks s) := by
  have htracks {s₁ : MainLoop H} (hio : s₁.io = s.io) : Tracks s s₁ := congrArg tracked hio
  apply settle_rule
  · exact fun s₁ => htracks
  · intro _ s₁ hio
    exact (transmit_sat _).mono routine_of_sends fun _ h => h.trans (htracks hio)
  · exact restartMolestor_sat.mono routine_of_sends fun _ => id
  · intro s₁ hio
    exact doAbort_sat.mono (fun _ => id) fun _ h => h.trans (htracks hio)
  · intro s₁ hio
    exact out_sat.mono routine_of_sends fun _ h => h.trans (htracks hio)

/-- The log of passing a packet begins with that. -/
theorem pass_log : ∃ rest, (pass V opts s d f).log = .passed s.state :: rest ∧
    ∀ ev ∈ rest, Routine ev := by
  rw [pass, Exec.log_bind_of_ok (Exec.result_tell _)]
  refine ⟨_, rfl, ?_⟩
  split
  · simp
  · split
    · exact (retransmitLast_sat.mono routine_of_sends fun _ => id).effects
    · exact (settle_sat _).effects

/-- Passing a packet leaves the addresses alone. -/
theorem pass_tracks (h : (pass V opts s d f).result = .ok s') : Tracks s s' := by
  rw [pass, Exec.result_bind_of_ok (Exec.result_tell _)] at h
  split at h
  · cases h
  · dsimp only at h
    split at h
    · have htracks := retransmitLast_sat.value s' h
      exact htracks
    · have htracks := (settle_sat _).value s' h
      exact htracks

/-- The branch goes back to the beginning, and aborts an authentication that was begun. -/
theorem leavePae_log : ∃ rest, (leavePae V opts s d).log = .otherPae :: rest ∧
    (∀ ev ∈ rest, Routine ev) ∧ (.doAbort ∈ rest ↔ s.state = .doAuth) := by
  rw [leavePae, Exec.log_bind_of_ok (Exec.result_tell _)]
  refine ⟨_, rfl, ?_⟩
  cases hs : s.state with
  | init => simp
  | didAuth => simp
  | doAuth =>
    have heffects : (do let s ← doAbort V opts s d; pure { s with state := .init }).Sat Routine
        fun _ => True := doAbort_sat.bind fun _ _ => .pure trivial
    refine ⟨heffects.effects, iff_of_true ?_ rfl⟩
    exact Exec.mem_log_bind_left (Exec.mem_log_bind_left (List.mem_singleton_self _))

/-- Leaving an authenticator goes back to the initial state, and keeps the addresses. -/
theorem leavePae_result (h : (leavePae V opts s d).result = .ok s') :
    s'.state = .init ∧ Tracks s s' := by
  rw [leavePae, Exec.result_bind_of_ok (Exec.result_tell _)] at h
  cases hs : s.state with
  | init =>
    rw [hs] at h
    cases h
    exact ⟨hs, rfl⟩
  | didAuth =>
    rw [hs] at h
    cases h
    exact ⟨rfl, rfl⟩
  | doAuth =>
    rw [hs] at h
    obtain ⟨s₁, habort, h⟩ := Exec.result_bind_eq_ok.mp h
    cases h
    have htracks := doAbort_sat.value s₁ habort
    exact ⟨rfl, htracks⟩

/-- Handling a frame keeps the addresses, which are recorded when it is received. -/
theorem handle_tracks (h : (handle V opts s d f).result = .ok s') : Tracks s s' := by
  unfold handle at h
  split at h
  · cases h
    rfl
  · split at h
    · exact pass_tracks h
    · obtain ⟨s₁, hleave, hpass⟩ := Exec.result_bind_eq_ok.mp h
      have hfirst : Tracks s s₁ := (leavePae_result hleave).2
      exact (pass_tracks hpass).trans hfirst

/-- The loop goes on waiting after a frame that is not accepted. -/
theorem step_rejected (hf : d.frame = some f) (hacc : ¬f.Accepted s.io.etherSrc) :
    step V opts s d = pure { s with io := s.io.observe f } := by
  rw [step, hf, Ll8023.turn_some, if_neg hacc]

/-- A frame that is accepted is handled. -/
theorem step_accepted (hf : d.frame = some f) (hacc : f.Accepted s.io.etherSrc) :
    step V opts s d =
      (do let s' ← handle V opts { s with io := s.io.observe f } d f; pure s'.waiting) := by
  rw [step, hf, Ll8023.turn_some, if_pos hacc]
  simp only [Ll8023.observe_inData]

/-- The log of dealing with an accepted frame is the one of handling it. -/
theorem step_log (hf : d.frame = some f) (hacc : f.Accepted s.io.etherSrc) :
    (step V opts s d).log = (handle V opts { s with io := s.io.observe f } d f).log := by
  rw [step_accepted hf hacc]
  exact Exec.log_bind_pure

/-- There is a next state for frames only. -/
theorem frame_of_next (h : next V opts s d = some s') : ∃ f, d.frame = some f := by
  cases hf : d.frame with
  | some f => exact ⟨f, rfl⟩
  | none =>
    have hres := Exec.result_of_toOption h
    rw [step, hf] at hres
    cases hres

/-- After a frame that is accepted the window is this frame. -/
theorem next_accepted (hf : d.frame = some f) (hacc : f.Accepted s.io.etherSrc)
    (h : next V opts s d = some s') :
    Records s'.io [f] ∧ s'.io.etherSrc = s.io.etherSrc := by
  have hres := Exec.result_of_toOption h
  rw [step_accepted hf hacc] at hres
  obtain ⟨s₁, hhandle, hres⟩ := Exec.result_bind_eq_ok.mp hres
  cases hres
  have htracks := handle_tracks hhandle
  have hdst : s₁.io.etherDst = (s.io.observe f).etherDst := congrArg (fun a => a.2.2) htracks
  have hsrc : s₁.io.etherSrc = (s.io.observe f).etherSrc := congrArg (fun a => a.2.1) htracks
  refine ⟨records_singleton rfl ?_, hsrc.trans (Ll8023.observe_etherSrc ..)⟩
  exact (hdst.trans (observe_etherDst hacc.1)).symm

/-- A step moves the window. -/
private theorem next_records {rs : List Frame} (hrec : Records s.io rs) (hf : d.frame = some f)
    (h : next V opts s d = some s') :
    Records s'.io (window s.io.etherSrc rs f) ∧ s'.io.etherSrc = s.io.etherSrc := by
  unfold window
  split
  · rename_i hacc
    exact next_accepted hf hacc h
  · rename_i hacc
    have hres := Exec.result_of_toOption h
    rw [step_rejected hf hacc] at hres
    cases hres
    exact ⟨hrec.observe f, Ll8023.observe_etherSrc ..⟩

/-- The window after a number of deliveries. -/
def windowAfter (own : List UInt8) (f : Frame) (ds : List Delivery) : List Frame :=
  (ds.filterMap (·.frame)).foldl (window own) [f]

/-- A run moves the window along its frames. -/
theorem records_of_run {ok : MainLoop H → Delivery → Prop} (hrec : Records s.io [f])
    (run : Steps (next V opts) ok s gap t) :
    Records t.io (windowAfter s.io.etherSrc f gap) ∧ t.io.etherSrc = s.io.etherSrc := by
  induction run with
  | nil => exact ⟨hrec, rfl⟩
  | snoc _ _ hnext ih =>
    obtain ⟨hrec, hsrc⟩ := ih
    obtain ⟨g, hg⟩ := frame_of_next hnext
    obtain ⟨hrec, hsrc'⟩ := next_records hrec hg hnext
    refine ⟨?_, hsrc'.trans hsrc⟩
    rw [hsrc] at hrec
    simpa [windowAfter, List.filterMap_append, hg] using hrec

/-- In a step a frame is passed to the EAP layer. -/
def Passes (V : Vtable H) (opts : Options) (s : MainLoop H) (d : Delivery) (f : Frame) : Prop :=
  d.frame = some f ∧ ∃ st, .passed st ∈ (step V opts s d).log

/-- A frame that is passed was accepted and holds an EAP packet. -/
theorem Passes.accepted (h : Passes V opts s d f) :
    f.Accepted s.io.etherSrc ∧ f.payload.type = EapolPacket.pckt := by
  obtain ⟨hf, st, hmem⟩ := h
  have hacc : f.Accepted s.io.etherSrc := by
    by_contra hacc
    rw [step_rejected hf hacc] at hmem
    cases hmem
  refine ⟨hacc, ?_⟩
  by_contra htype
  rw [step_log hf hacc, handle, if_pos htype] at hmem
  cases hmem

/-- A packet that comes from another source than an earlier one makes the loop go back to the
beginning before it is passed on, with an abort of an authentication that was begun; one from the
same source does not. -/
structure Detected (V : Vtable H) (opts : Options) (s : MainLoop H) (d : Delivery) (e' e : Frame) :
    Prop where
  branch : .otherPae ∈ (step V opts s d).log ↔ e.src ≠ e'.src
  first : .otherPae ∈ (step V opts s d).log → ∃ before after,
    (step V opts s d).log = .otherPae :: before ++ .passed .init :: after ∧
      (.doAbort ∈ before ↔ s.state = .doAuth)

/-- The log of a step that passes a packet, without the branch. -/
theorem Passes.log_same (h : Passes V opts s d e) (hsame : (s.io.observe e).samePae) :
    .otherPae ∉ (step V opts s d).log := by
  obtain ⟨hacc, htype⟩ := h.accepted
  rw [step_log h.1 hacc, handle, if_neg (not_not.mpr htype), if_pos hsame]
  obtain ⟨rest, hlog, hrest⟩ : ∃ rest, (pass V opts { s with io := s.io.observe e } d e).log =
      .passed s.state :: rest ∧ ∀ ev ∈ rest, Routine ev := pass_log
  rw [hlog]
  simp only [List.mem_cons, reduceCtorEq, false_or]
  exact fun hmem => hrest _ hmem

/-- The log of a step that passes a packet after it took the branch. -/
theorem Passes.log_other (h : Passes V opts s d e) (hother : ¬(s.io.observe e).samePae) :
    ∃ before after, (step V opts s d).log = .otherPae :: before ++ .passed .init :: after ∧
      (.doAbort ∈ before ↔ s.state = .doAuth) := by
  obtain ⟨hacc, htype⟩ := h.accepted
  obtain ⟨hf, st, hmem⟩ := h
  rw [step_log hf hacc, handle, if_neg (not_not.mpr htype), if_neg hother] at hmem ⊢
  obtain ⟨before, hlog, hroutine, habort⟩ :
      ∃ rest, (leavePae V opts { s with io := s.io.observe e } d).log = .otherPae :: rest ∧
        (∀ ev ∈ rest, Routine ev) ∧ (.doAbort ∈ rest ↔ s.state = .doAuth) := leavePae_log
  cases hres : (leavePae V opts { s with io := s.io.observe e } d).result with
  | error stop =>
    rw [Exec.log_bind_of_error hres, hlog] at hmem
    simp only [List.mem_cons, reduceCtorEq, false_or] at hmem
    exact absurd (hroutine _ hmem) id
  | ok s₁ =>
    obtain ⟨after, hpass, -⟩ : ∃ rest, (pass V opts s₁ d e).log = .passed s₁.state :: rest ∧
        ∀ ev ∈ rest, Routine ev := pass_log
    refine ⟨before, after, ?_, habort⟩
    rw [Exec.log_bind_of_ok hres, hlog, hpass, (leavePae_result hres).1]

/-- The branch is taken when the sources in the window are not all the one of the packet. -/
theorem Passes.otherPae_iff {rs : List Frame} (h : Passes V opts s d e) (hrec : Records s.io rs) :
    .otherPae ∈ (step V opts s d).log ↔ ¬∀ f ∈ rs, f.src = e.src := by
  obtain ⟨hacc, -⟩ := h.accepted
  have hrec' := hrec.observe e
  rw [if_pos hacc.1] at hrec'
  have hsame : (s.io.observe e).samePae ↔ ∀ f ∈ rs, f.src = e.src := by
    rw [Ll8023.samePae, Bool.not_eq_true', hrec'.same, observe_etherDst hacc.1]
    simp [or_imp, forall_and]
  rw [← hsame]
  constructor
  · intro hmem hall
    exact h.log_same hall hmem
  · intro hother
    obtain ⟨before, after, hlog, -⟩ := h.log_other hother
    rw [hlog]
    exact List.mem_cons_self

/-- In every run, the loop tells two EAP packets that are passed one after the other apart by their
sources exactly when the sources in the window are those of the second packet if and only if the
source of the first packet is. -/
theorem detected_iff (hfirst : Passes V opts s d' e') (hnext : next V opts s d' = some s')
    (run : Steps (next V opts) (fun s d => ∀ f, ¬Passes V opts s d f) s' gap t)
    (hpasses : Passes V opts t d e) :
    Detected V opts t d e' e ↔
      ((∀ f ∈ windowAfter s.io.etherSrc e' gap, f.src = e.src) ↔ e'.src = e.src) := by
  obtain ⟨hacc, -⟩ := hfirst.accepted
  obtain ⟨hrec, hsrc⟩ := next_accepted hfirst.1 hacc hnext
  obtain ⟨hrec, -⟩ := records_of_run hrec run
  rw [hsrc] at hrec
  have hbranch := hpasses.otherPae_iff hrec
  constructor
  · intro hdetected
    rw [← not_iff_not, ← hbranch, hdetected.branch, ne_comm]
  · intro hall
    refine ⟨by rw [hbranch, hall, ne_comm], fun hmem => ?_⟩
    refine hpasses.log_other fun hsame => ?_
    exact hpasses.log_same hsame hmem

/-- A frame to the group address from the station with the given last byte. -/
def groupFrame (src type : UInt8) (body : List UInt8) : Frame :=
  ⟨write (fun _ => 0) 0 (paeGroupAddr ++ [2, 0, 0, 0, 0, src, 0x88, 0x8e, 1, type, 0,
    UInt8.ofNat body.length] ++ body), 60⟩

/-- A request for the identity. -/
def askIdentity (src : UInt8) : Frame := groupFrame src 0 [1, 5, 0, 5, 1]

/-- A frame that meets no obstacle. -/
def delivery (f : Frame) : Delivery := ⟨some f, fun _ => some fun _ => 0, true, true⟩

/-- Methods of the handlers with a hash and an engine that do nothing. -/
def plainVtable : Vtable Handler :=
  Handler.vtable (fun _ => Vector.replicate 16 0) ⟨fun _ => false, fun _ => none⟩

/-- The program of the user `a` without options. -/
def plainOptions : Options := ⟨false, false, true⟩

def plainDaemon : MainLoop Handler :=
  ⟨(Ll8023.new [2, 0, 0, 0, 0, 1] fun _ => 0).setupOutput,
    EapState.init.addHandler (.identity ⟨[97]⟩), .init, false⟩

/-- A packet was passed. -/
def passesSome (log : List Event) : Bool :=
  log.any fun
    | .passed _ => true
    | _ => false

/-- What a step passes on is the frame that was delivered to it. -/
theorem passes_of_passesSome (hf : d.frame = some f) (h : passesSome (step V opts s d).log) :
    Passes V opts s d f := by
  obtain ⟨ev, hmem, hev⟩ := List.any_eq_true.mp h
  cases ev with
  | passed st => exact ⟨hf, st, hmem⟩
  | otherPae | doAbort | sent => cases hev

/-- The identity request of the first authenticator is passed on. -/
theorem passes_first :
    Passes plainVtable plainOptions plainDaemon (delivery (askIdentity 2)) (askIdentity 2) :=
  passes_of_passesSome rfl (by decide +kernel)

/-- A second authenticator is detected. -/
theorem detected_second : ∃ s,
    next plainVtable plainOptions plainDaemon (delivery (askIdentity 2)) = some s ∧
    Passes plainVtable plainOptions s (delivery (askIdentity 3)) (askIdentity 3) ∧
    Detected plainVtable plainOptions s (delivery (askIdentity 3)) (askIdentity 2)
      (askIdentity 3) := by
  have heval : (next plainVtable plainOptions plainDaemon (delivery (askIdentity 2))).map
      (fun s => passesSome (step plainVtable plainOptions s (delivery (askIdentity 3))).log) =
        some true := by
    decide +kernel
  obtain ⟨s, hnext, hpasses⟩ := Option.map_eq_some_iff.mp heval
  have hpasses := passes_of_passesSome (f := askIdentity 3) rfl hpasses
  refine ⟨s, hnext, hpasses, ?_⟩
  exact (detected_iff passes_first hnext (.nil s) hpasses).mpr (by simp [windowAfter])

/-- An authenticator that sent another frame first is not detected. -/
theorem not_detected_after_start : ∃ s t,
    Passes plainVtable plainOptions plainDaemon (delivery (askIdentity 2)) (askIdentity 2) ∧
    next plainVtable plainOptions plainDaemon (delivery (askIdentity 2)) = some s ∧
    Steps (next plainVtable plainOptions) (fun s d => ∀ f, ¬Passes plainVtable plainOptions s d f) s
      [delivery (groupFrame 3 1 [])] t ∧
    Passes plainVtable plainOptions t (delivery (askIdentity 3)) (askIdentity 3) ∧
    ¬Detected plainVtable plainOptions t (delivery (askIdentity 3)) (askIdentity 2)
      (askIdentity 3) := by
  have heval : (runLabels (next plainVtable plainOptions) plainDaemon
      [delivery (askIdentity 2), delivery (groupFrame 3 1 [])]).map
      (fun s => passesSome (step plainVtable plainOptions s (delivery (askIdentity 3))).log) =
        some true := by
    decide +kernel
  obtain ⟨t, hrun, hpasses⟩ := Option.map_eq_some_iff.mp heval
  obtain ⟨s, hnext, hlast⟩ := Option.bind_eq_some_iff.mp hrun
  obtain ⟨t', hskip, hend⟩ := Option.bind_eq_some_iff.mp hlast
  cases hend
  have hpasses := passes_of_passesSome (f := askIdentity 3) rfl hpasses
  have hsrc : s.io.etherSrc = plainDaemon.io.etherSrc :=
    (next_accepted rfl passes_first.accepted.1 hnext).2
  have hacc : (groupFrame 3 1 []).Accepted s.io.etherSrc := by
    rw [hsrc]
    decide +kernel
  refine ⟨s, t, passes_first, hnext, .single (fun f hpass => ?_) hskip, hpasses, fun hdet => ?_⟩
  · cases hpass.1
    exact absurd hpass.accepted.2 (by decide +kernel)
  · have hmem := hdet.branch.mpr (by decide +kernel)
    refine (hpasses.otherPae_iff (next_accepted rfl hacc hskip).1).mp hmem fun f hf => ?_
    rw [List.mem_singleton.mp hf]
    decide +kernel

end MainLoop

end Dot1x.Daemon
