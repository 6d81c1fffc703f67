import Dot1x.Link.Ethernet

/-!
# Which frames are accepted

A call of `receive` skips frames until one is accepted. Whether a frame is accepted depends on the
frame and on the station's address only, so the frames that successive calls return are the
accepted ones among those handed over, in order.

Nothing in the two tests looks at the type field of the frame or at how much of it was captured.
The listener on Windows installs no filter, so every frame the adapter sees is handed over: the
frames returned are complete EAPOL frames exactly when all accepted ones happen to be.
-/

namespace Dot1x.Link

open Dot1x.Base Dot1x.Wire

namespace Frame

/-- The tests of `receive`. -/
def Accepted (f : Frame) (own : List UInt8) : Prop := f.LengthsMatch ∧ f.AddressedTo own

instance (f : Frame) (own : List UInt8) : Decidable (f.Accepted own) :=
  inferInstanceAs (Decidable (_ ∧ _))

/-- The type field says EAPOL. -/
def IsEapol (f : Frame) : Prop := slice f.mem (2 * etherAddrLen) 2 = [0x88, 0x8e]

instance (f : Frame) : Decidable f.IsEapol := inferInstanceAs (Decidable (_ = _))

/-- The packet was captured whole. -/
def Captured (f : Frame) : Prop :=
  llHdrLen + EapolPacket.baseHeaderLen + f.payload.bodyLen ≤ f.caplen

/-- A complete EAPOL frame for a station, whose length fields agree. -/
structure Complete (f : Frame) (own : List UInt8) : Prop where
  captured : f.Captured
  eapol : f.IsEapol
  addressed : f.AddressedTo own
  lengths : f.LengthsMatch

end Frame

namespace Ll8023

variable {ignoreErrors : Bool} {l l' : Ll8023} {f : Frame} {ds rest : List (Option Frame)}
  {r : Received}

/-- Recording a source keeps the own address. -/
@[simp] theorem recordSource_etherSrc (l : Ll8023) (f : Frame) :
    (l.recordSource f).etherSrc = l.etherSrc := by
  unfold recordSource
  split <;> rfl

/-- Recording a source keeps the output. -/
@[simp] theorem recordSource_outData (l : Ll8023) (f : Frame) :
    (l.recordSource f).outData = l.outData := by
  unfold recordSource
  split <;> rfl

/-- Recording a source keeps the length of the output. -/
@[simp] theorem recordSource_outLen (l : Ll8023) (f : Frame) :
    (l.recordSource f).outLen = l.outLen := by
  unfold recordSource
  split <;> rfl

/-- Recording a source keeps what was received. -/
@[simp] theorem recordSource_inData (l : Ll8023) (f : Frame) :
    (l.recordSource f).inData = l.inData := by
  unfold recordSource
  split <;> rfl

/-- The link after a frame was seen, whether or not it is accepted. -/
def observe (l : Ll8023) (f : Frame) : Ll8023 :=
  let l := { l with inData := some f }
  if f.LengthsMatch then l.recordSource f else l

/-- Looking at a frame keeps the own address. -/
@[simp] theorem observe_etherSrc (l : Ll8023) (f : Frame) : (l.observe f).etherSrc = l.etherSrc := by
  unfold observe
  split <;> simp

/-- Looking at a frame keeps the output. -/
@[simp] theorem observe_outData (l : Ll8023) (f : Frame) :
    (l.observe f).outData = l.outData := by
  unfold observe
  split <;> simp

/-- Looking at a frame keeps the length of the output. -/
@[simp] theorem observe_outLen (l : Ll8023) (f : Frame) : (l.observe f).outLen = l.outLen := by
  unfold observe
  split <;> simp

/-- A frame that is looked at is what was received. -/
@[simp] theorem observe_inData (l : Ll8023) (f : Frame) : (l.observe f).inData = some f := by
  unfold observe
  split <;> simp

/-- A frame ends the loop exactly when it is accepted. -/
theorem turn_some (ignoreErrors : Bool) (l : Ll8023) (f : Frame) :
    turn ignoreErrors l (some f) =
      (l.observe f, if f.Accepted l.etherSrc then some (.returned f.payload.bodyLen) else none) := by
  by_cases hlen : f.LengthsMatch
  · simp [turn, recvHook, observe, hlen, Frame.Accepted]
  · simp [turn, observe, hlen, Frame.Accepted]

/-- A frame that is accepted ends the loop. -/
theorem receiveLoop_accepted (hacc : f.Accepted l.etherSrc) :
    receiveLoop ignoreErrors l (some f :: ds) =
      some (l.observe f, .returned f.payload.bodyLen, ds) := by
  rw [receiveLoop, turn_some, if_pos hacc]

/-- A frame that is not accepted is skipped. -/
theorem receiveLoop_skipped (hacc : ¬f.Accepted l.etherSrc) :
    receiveLoop ignoreErrors l (some f :: ds) = receiveLoop ignoreErrors (l.observe f) ds := by
  rw [receiveLoop, turn_some, if_neg hacc]

/-- What a loop that ended went through: frames that were not accepted, then either nothing or a
frame that was accepted. -/
theorem receiveLoop_eq_some (h : receiveLoop ignoreErrors l ds = some (l', r, rest)) :
    l'.etherSrc = l.etherSrc ∧ ∃ skipped : List Frame, (∀ f ∈ skipped, ¬f.Accepted l.etherSrc) ∧
      ((∃ f, ds = skipped.map some ++ some f :: rest ∧ f.Accepted l.etherSrc ∧ l'.inData = some f ∧
        r = .returned f.payload.bodyLen) ∨
      (ds = skipped.map some ++ none :: rest ∧ l'.inData = none)) := by
  induction ds generalizing l with
  | nil => cases h
  | cons d ds ih =>
    cases d with
    | none =>
      cases h
      exact ⟨rfl, [], by simp, Or.inr ⟨rfl, rfl⟩⟩
    | some f =>
      by_cases hacc : f.Accepted l.etherSrc
      · rw [receiveLoop_accepted hacc] at h
        cases h
        exact ⟨observe_etherSrc l f, [], by simp, Or.inl ⟨f, rfl, hacc, observe_inData l f, rfl⟩⟩
      · rw [receiveLoop_skipped hacc] at h
        obtain ⟨hsrc, skipped, hskip, hrest⟩ := ih h
        rw [observe_etherSrc] at hsrc hskip hrest
        refine ⟨hsrc, f :: skipped, by simpa [hacc] using hskip, ?_⟩
        rcases hrest with ⟨g, hds, hg⟩ | ⟨hds, hg⟩
        · exact Or.inl ⟨g, by rw [hds]; rfl, hg⟩
        · exact Or.inr ⟨by rw [hds]; rfl, hg⟩

/-- A loop that waits has seen frames only, none of which was accepted. -/
private theorem receiveLoop_eq_none (h : receiveLoop ignoreErrors l ds = none) :
    ∃ skipped : List Frame, ds = skipped.map some ∧ ∀ f ∈ skipped, ¬f.Accepted l.etherSrc := by
  induction ds generalizing l with
  | nil => exact ⟨[], rfl, by simp⟩
  | cons d ds ih =>
    cases d with
    | none => cases h
    | some f =>
      by_cases hacc : f.Accepted l.etherSrc
      · rw [receiveLoop_accepted hacc] at h
        cases h
      · rw [receiveLoop_skipped hacc] at h
        obtain ⟨skipped, hds, hskip⟩ := ih h
        rw [observe_etherSrc] at hskip
        exact ⟨f :: skipped, by rw [hds]; rfl, by simpa [hacc] using hskip⟩

/-- A call that ended has used up what it went through. -/
private theorem receive_length (h : receive ignoreErrors l ds = some (l', r, rest)) :
    rest.length < ds.length := by
  obtain ⟨-, skipped, -, ⟨f, hds, -⟩ | ⟨hds, -⟩⟩ := receiveLoop_eq_some h
  · rw [hds, List.length_append, List.length_cons]
    omega
  · rw [hds, List.length_append, List.length_cons]
    omega

/-- The frames that calls of `receive`, one after the other, return as the listener calls it. -/
def received (l : Ll8023) (ds : List (Option Frame)) : List Frame :=
  match h : receive true l ds with
  | none => []
  | some r =>
    have : r.2.2.length < ds.length := receive_length h
    r.1.inData.toList ++ received r.1 r.2.2
termination_by ds.length

/-- Where `receive` does not return, nothing is received. -/
theorem received_of_none (h : receive true l ds = none) : l.received ds = [] := by
  rw [received]
  split
  · rfl
  · simp_all

/-- What is received is what `receive` returned with, and what comes after it. -/
theorem received_of_some {s : Ll8023 × Received × List (Option Frame)}
    (h : receive true l ds = some s) : l.received ds = s.1.inData.toList ++ s.1.received s.2.2 := by
  rw [received]
  split
  · simp_all
  · simp_all

/-- The frames returned are the accepted ones, in order. -/
theorem received_eq_filter (l : Ll8023) (ds : List (Option Frame)) :
    l.received ds = (ds.filterMap id).filter fun f => f.Accepted l.etherSrc := by
  have hskipped {l : Ll8023} {skipped : List Frame} (h : ∀ f ∈ skipped, ¬f.Accepted l.etherSrc) :
      ((skipped.map some).filterMap id).filter (fun f => decide (f.Accepted l.etherSrc)) = [] := by
    simpa [List.filterMap_map, List.filter_eq_nil_iff] using h
  induction l, ds using received.induct with
  | case1 l ds hnone =>
    obtain ⟨skipped, rfl, hskip⟩ := receiveLoop_eq_none hnone
    rw [received_of_none hnone]
    exact (hskipped hskip).symm
  | case2 l ds s hsome _ ih =>
    rw [received_of_some hsome, ih]
    obtain ⟨hsrc, skipped, hskip, ⟨f, hds, hacc, hin, -⟩ | ⟨hds, hin⟩⟩ := receiveLoop_eq_some hsome
    · rw [hds, hin, hsrc, List.filterMap_append, List.filter_append, hskipped hskip]
      simp [show f.Accepted l.etherSrc from hacc]
    · rw [hds, hin, hsrc, List.filterMap_append, List.filter_append, hskipped hskip]
      simp

/-- The frames that successive calls return are complete EAPOL frames for the station exactly when
every accepted frame that was handed over is an EAPOL frame and was captured whole. -/
theorem received_complete_iff (l : Ll8023) (ds : List (Option Frame)) :
    (∀ f ∈ l.received ds, f.Complete l.etherSrc) ↔
      ∀ f, some f ∈ ds → f.Accepted l.etherSrc → f.IsEapol ∧ f.Captured := by
  rw [received_eq_filter]
  simp only [List.mem_filter, List.mem_filterMap, id, exists_eq_right, decide_eq_true_eq, and_imp]
  constructor
  · intro h f hf hacc
    have hcomplete := h f hf hacc
    exact ⟨hcomplete.eapol, hcomplete.captured⟩
  · intro h f hf hacc
    obtain ⟨heapol, hcaptured⟩ := h f hf hacc
    exact ⟨hcaptured, heapol, hacc.2, hacc.1⟩

/-- The last fragment of an IPv4 packet, sent to a station. Its total length is 100 and so is its
fragment offset, which lies where the length of an EAP packet would be. -/
def strayFrame (own : List UInt8) : Frame :=
  ⟨write (write (fun _ => 0) 0 own) 12 [0x08, 0x00, 0x45, 0x00, 0x00, 0x64, 0x00, 0x01, 0x00, 0x64],
    114⟩

/-- The frame of another protocol is returned. -/
theorem not_received_complete_stray :
    ¬∀ f ∈ (new [2, 0, 0, 0, 0, 1] fun _ => 0).received [some (strayFrame [2, 0, 0, 0, 0, 1])],
      f.Complete [2, 0, 0, 0, 0, 1] := by
  intro h
  have hmem : strayFrame [2, 0, 0, 0, 0, 1] ∈
      (new [2, 0, 0, 0, 0, 1] fun _ => 0).received [some (strayFrame [2, 0, 0, 0, 0, 1])] := by
    rw [received_eq_filter]
    exact List.mem_filter.mpr ⟨List.mem_singleton_self _, by decide⟩
  exact absurd (h _ hmem).eapol (by decide)

end Ll8023

end Dot1x.Link
