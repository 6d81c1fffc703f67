import Dot1x.Client.Listener
import Dot1x.Eap.LengthSafety

/-!
# Short frames

The link layer returns a frame whose two length fields agree, however small they are, and the EAP
layer reads the type byte without asking whether the packet has one. So a frame with a small length
and a suitable byte behind its packet makes the handler compute with a length below zero.
-/

namespace Dot1x.Client

open Dot1x.Base Dot1x.Wire Dot1x.Eap Dot1x.Link

variable {digest : Digest} {E : Engine} {l l' : Ll8023} {ds rest : List (Option Frame)}
  {r : Received} {f : Frame}

/-- The length fields of a frame that `receive` returned agree. -/
private theorem lengthsMatch_of_receive {ignoreErrors : Bool}
    (hreceive : l.receive ignoreErrors ds = some (l', r, rest)) (hframe : l'.inData = some f) :
    f.LengthsMatch := by
  obtain ⟨-, skipped, -, ⟨g, -, hacc, hin, -⟩ | ⟨-, hin⟩⟩ := Ll8023.receiveLoop_eq_some hreceive
  · cases hin.symm.trans hframe
    exact hacc.1
  · cases hin.symm.trans hframe

/-- For a request that `receive` returned, and in every state of the handlers, the computations of
the handler that is selected stay in range exactly when the packet has the minimum length of that
handler. -/
theorem received_harmless_iff {ignoreErrors : Bool}
    (hreceive : l.receive ignoreErrors ds = some (l', r, rest)) (hframe : l'.inData = some f)
    (hcode : f.payload.body.code = request) (e : EapState Handler) (heap : Heap)
    (output : EapPacket) :
    Harmless f.payload.bodyLen
        (e.process (Handler.vtable digest E) heap f.payload.body output) ↔
      ∀ i w hd,
        EapState.search (Handler.vtable digest E) f.payload.body e.handlers = some (i, w) →
          e.handlers[i]? = some hd → hd.minimumLen f.payload.body ≤ f.payload.bodyLen := by
  have hlen : f.payload.bodyLen = f.payload.body.len := lengthsMatch_of_receive hreceive hframe
  rw [hlen]
  exact EapState.process_harmless_iff hcode

namespace Listener

/-- A request of four bytes, behind which stands the type of a notification. -/
def shortFrame : Frame := ⟨write (plainFrame [1, 7, 0, 4]).mem 22 [2], 60⟩

/-- A notification of five bytes, whose text is empty. -/
def emptyNotification : Frame := plainFrame [1, 7, 0, 5, 2]

/-- The EAP layer of a user. -/
def plainEap : EapState Handler := (installHandlers (plainLogin (.single 97))).1

/-- The link of a station that has just been opened. -/
def plainLink : Ll8023 := { Ll8023.new [2, 0, 0, 0, 0, 1] fun _ => 0 with paeChanged := false }

/-- An empty notification does no harm. -/
theorem received_harmless_empty : Harmless 5
    (plainEap.process plainVtable (fun _ => some fun _ => 0) emptyNotification.payload.body
      plainLink.output.body) := by
  have hacc : emptyNotification.Accepted plainLink.etherSrc := by decide +kernel
  have hlen : emptyNotification.payload.bodyLen = 5 := by decide +kernel
  have hsearch : EapState.search plainVtable emptyNotification.payload.body plainEap.handlers =
      some (2, .iWill) := by decide +kernel
  have hreceive : plainLink.receive true [some emptyNotification] = some _ :=
    Ll8023.receiveLoop_accepted hacc
  rw [← hlen]
  refine (received_harmless_iff (l := plainLink) hreceive (Ll8023.observe_inData ..)
    (by decide +kernel) plainEap _ _).mpr fun i w hd hs hget => ?_
  cases hsearch.symm.trans hs
  cases hget
  exact Nat.le_of_eq hlen.symm

/-- A packet of four bytes that is taken for a notification makes the length of the text wrap. -/
theorem not_received_harmless_short : ∃ l' r rest,
    plainLink.receive true [some shortFrame] = some (l', r, rest) ∧ l'.inData = some shortFrame ∧
      shortFrame.payload.body.code = request ∧
      ¬Harmless shortFrame.payload.bodyLen
        (plainEap.process plainVtable (fun _ => some fun _ => 0) shortFrame.payload.body
          plainLink.output.body) := by
  have hacc : shortFrame.Accepted plainLink.etherSrc := by decide +kernel
  have hlens : shortFrame.payload.bodyLen = 4 ∧ shortFrame.payload.body.len = 4 := by
    decide +kernel
  have hcode : shortFrame.payload.body.code = request := by decide +kernel
  have hsearch : EapState.search plainVtable shortFrame.payload.body plainEap.handlers =
      some (2, .iWill) := by decide +kernel
  refine ⟨_, _, _, Ll8023.receiveLoop_accepted hacc, Ll8023.observe_inData .., hcode, fun h => ?_⟩
  rw [hlens.1, ← hlens.2] at h
  have hmin := (EapState.process_harmless_iff hcode).mp h 2 .iWill .notification hsearch rfl
  rw [hlens.2] at hmin
  exact absurd hmin (by decide)

end Listener

end Dot1x.Client
