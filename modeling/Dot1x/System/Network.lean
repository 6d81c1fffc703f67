import Dot1x.Base.History
import Dot1x.Client.Listener
import Dot1x.Nas.Frames
import Dot1x.Nas.WireFormat

/-!
# A station and a server on one network

The listener of the Windows client and the network access server take their steps independently of
each other, in any order. What joins them is the network, which hands over to either what the
driver of either was given, late, repeatedly, in another order or not at all.

What happens on both sides is kept in one history. The frames of the station stand in it with the
login that its objects come of.
-/

namespace Dot1x.System

open Dot1x.Base Dot1x.Wire Dot1x.Eap Dot1x.Link Dot1x.Radius Dot1x.Nas
open Dot1x.Client (Listener LoginCall Output)

/-- What happens on one of the two sides. -/
inductive Occurrence (S A H : Type) [DecidableEq A]
  | station (login : Option LoginCall) (o : Output)
  | server (e : Event S A H)

/-- Both sides and what has happened. The server is gone after an exception. -/
structure Network (S A H : Type) [DecidableEq A] where
  listener : Listener
  login : Option LoginCall
  server : Option (SimuNas H)
  history : List (Occurrence S A H)

/-- What can happen next. -/
inductive Move (S A H : Type) [DecidableEq A]
  | station (a : Client.Action)
  | server (t : Turn S A H)

variable {S A H : Type} [DecidableEq A]

/-- What happened at the server. -/
def Occurrence.event : Occurrence S A H → Option (Event S A H)
  | .server e => some e
  | .station _ _ => none

/-- What happened at the server, in its order. -/
def served (history : List (Occurrence S A H)) : List (Event S A H) :=
  history.filterMap Occurrence.event

/-- The login that is in force after a step. -/
def loginAfter (login : Option LoginCall) : Client.Action → Option LoginCall
  | .login c => some c
  | _ => login

namespace Network

/-- A step of the station. -/
def stationStep (V : Vtable Handler) (n : Network S A H) (a : Client.Action) :
    Option (Network S A H) :=
  (n.listener.step V a).map fun r =>
    { n with
      listener := r.1
      login := loginAfter n.login a
      history := n.history ++ r.2.map (.station (loginAfter n.login a)) }

/-- A turn of the server. What it did before an exception has happened. -/
def serverStep (md5 : Md5) (n : Network S A H) (t : Turn S A H) : Option (Network S A H) :=
  n.server.map fun u =>
    { n with
      server := (u.step md5 t).result.toOption
      history := n.history ++ (u.step md5 t).log.map .server }

/-- The step function. -/
def step (V : Vtable Handler) (md5 : Md5) (n : Network S A H) : Move S A H → Option (Network S A H)
  | .station a => n.stationStep V a
  | .server t => n.serverStep md5 t

/-- The network before anything happens. -/
def start (u : SimuNas H) : Network S A H := ⟨.init, none, some u, []⟩

end Network

/-- The station has given a frame to its driver. -/
def ToldBy (history : List (Occurrence S A H)) (data : Mem) (len : ℕ) : Prop :=
  ∃ login, .station login (.sent data len) ∈ history

/-- The server has given a frame to its driver. -/
def SentBy (history : List (Occurrence S A H)) (data : Mem) (len : ℕ) : Prop :=
  .server (.sent data len) ∈ history

/-- The station hears what one of the two has sent, itself included. -/
def HeardByStation (history : List (Occurrence S A H)) (f : Frame) : Prop :=
  ∃ data len, (SentBy history data len ∨ ToldBy history data len) ∧ Arrives f (tx data len)

/-- The server hears what the station has sent. -/
def HeardByServer (history : List (Occurrence S A H)) (f : Frame) : Prop :=
  ∃ data len, ToldBy history data len ∧ Arrives f (tx data len)

/-- The length of a frame is the one that its header tells. -/
def Whole (data : Mem) (len : ℕ) : Prop :=
  len = sentBodyLen data + (EapolPacket.baseHeaderLen + llHdrLen)

/-- The type of the EAPOL packet in a frame that was handed to the driver. -/
def sentType (data : Mem) : ℕ := EapolPacket.type ⟨data, llHdrLen⟩

/-- What a frame that arrived has in common with the one that was sent. If the two lengths in it
agree, it holds the same EAP packet: the padding of a frame without one is no length. Where the
packet has no type, padding is read for it. -/
structure SameAs (f : Frame) (data : Mem) : Prop where
  type : f.payload.type = sentType data
  bodyLen : f.payload.bodyLen = sentBodyLen data
  packet : f.LengthsMatch → 4 ≤ (sentPacket data).len ∧ (sentPacket data).len = sentBodyLen data ∧
    f.payload.body.contents = (sentPacket data).contents
  typed : f.LengthsMatch → 5 ≤ f.payload.body.len ∨ f.payload.body.type = 0xa5

variable {f : Frame} {data : Mem} {len i : ℕ}

/-- What is behind a short frame. -/
private theorem getElem_tx_padding (data : Mem) (hlo : len ≤ i) (hhi : i < minFrameLen) :
    (tx data len)[i]? = some 0xa5 := by
  rw [tx, if_pos (Nat.lt_of_le_of_lt hlo hhi)]
  rw [List.getElem?_eq_getElem (by rwa [slice_length]), slice_getElem, Nat.zero_add,
    write_of_outside (by rw [slice_length]; omega), write_of_inside (Nat.zero_le i) (by simpa using hhi),
    Nat.sub_zero, List.getD_eq_getElem _ _ (by simpa using hhi), List.getElem_replicate]

/-- The padding arrives. -/
theorem byte_padding (h : Arrives f (tx data len)) (hlo : len ≤ i) (hhi : i < minFrameLen) :
    f.mem i = 0xa5 := by
  have hsent := getElem_tx_padding data hlo hhi
  rw [← h.mem] at hsent
  obtain ⟨hlt, hbyte⟩ := List.getElem?_eq_some_iff.mp hsent
  rwa [slice_getElem, Nat.zero_add] at hbyte

/-- A whole frame is read as it was sent. -/
theorem sameAs_of_arrives (h : Arrives f (tx data len)) (hwhole : Whole data len) :
    SameAs f data := by
  have hlen : len = sentBodyLen data + 18 := hwhole
  have hbyte {i : ℕ} (hi : i < sentBodyLen data + 18) : f.mem i = data i := h.byte (by omega)
  have hbodyLen : f.payload.bodyLen = sentBodyLen data := by
    change AccessUi16.get f.mem 16 = AccessUi16.get data 16
    rw [AccessUi16.get_eq, AccessUi16.get_eq, hbyte (by omega), hbyte (by omega)]
  refine ⟨?_, hbodyLen, fun hmatch => ?_, fun hmatch => ?_⟩
  · change (f.mem 15).toNat = (data 15).toNat
    rw [hbyte (by omega)]
  · have hread : f.payload.body.len = sentBodyLen data := hmatch.symm.trans hbodyLen
    have hfour : 4 ≤ sentBodyLen data := by
      by_contra hshort
      have hpadding : f.mem 21 = 0xa5 := byte_padding h (by omega) (by decide)
      have hlow : f.payload.body.len = (f.mem 20).toNat * 256 + (f.mem 21).toNat :=
        EapPacket.len_eq _
      rw [hpadding, hread] at hlow
      simp at hlow
      omega
    have hsame : (sentPacket data).len = f.payload.body.len := by
      rw [EapPacket.len_eq, EapPacket.len_eq]
      change (data 20).toNat * 256 + (data 21).toNat = (f.mem 20).toNat * 256 + (f.mem 21).toNat
      rw [hbyte (by omega), hbyte (by omega)]
    refine ⟨by omega, hsame.trans hread, ?_⟩
    rw [EapPacket.contents, EapPacket.contents, hsame]
    refine slice_congr fun i _ hi => hbyte ?_
    change i < 18 + f.payload.body.len at hi
    omega
  · by_cases htyped : 5 ≤ f.payload.body.len
    · exact Or.inl htyped
    · have hread : f.payload.body.len = sentBodyLen data := hmatch.symm.trans hbodyLen
      have hpadding : f.mem 22 = 0xa5 := byte_padding h (by omega) (by decide)
      exact Or.inr (congrArg UInt8.toNat hpadding)

/-- Packets with the same contents agree in their bytes. -/
theorem bytes_of_contents {p q : EapPacket} (h : p.contents = q.contents) :
    p.len = q.len ∧ ∀ i < q.len, p.byte i = q.byte i := by
  have hlen : p.len = q.len := by
    rw [← Pointer.bytes_length p 0 p.len, ← Pointer.bytes_length q 0 q.len]
    exact congrArg List.length h
  refine ⟨hlen, fun i hi => ?_⟩
  have hat (r : EapPacket) (hr : i < r.len) : r.contents[i]? = some (r.byte i) := by
    rw [List.getElem?_eq_getElem ((Pointer.bytes_length r 0 r.len).symm ▸ hr)]
    exact congrArg some (slice_getElem ..)
  have hboth := congrArg (·[i]?) h
  simp only [hat p (hlen ▸ hi), hat q hi] at hboth
  exact Option.some.inj hboth

/-- A frame that arrives has the code that was sent. -/
theorem SameAs.code (h : SameAs f data) (hmatch : f.LengthsMatch) :
    f.payload.body.code = (sentPacket data).code := by
  obtain ⟨hfour, -, hcontents⟩ := h.packet hmatch
  rw [EapPacket.code_eq, EapPacket.code_eq, (bytes_of_contents hcontents).2 0 (by omega)]

section History

variable {past log : List (Occurrence S A H)} {events : List (Event S A H)}

/-- What was served in a longer history. -/
@[simp] theorem served_append (history log : List (Occurrence S A H)) :
    served (history ++ log) = served history ++ served log :=
  List.filterMap_append

/-- What the server did was served. -/
@[simp] theorem served_server (events : List (Event S A H)) :
    served (events.map .server) = events := by
  rw [served, List.filterMap_map]
  exact List.filterMap_some

/-- What the station did was not. -/
@[simp] theorem served_station (login : Option LoginCall) (outs : List Output) :
    served (outs.map (.station login) : List (Occurrence S A H)) = [] := by
  rw [served, List.filterMap_map]
  exact List.filterMap_eq_nil_iff.mpr fun _ _ => rfl

/-- What happened at the server at some point happened in the history. -/
theorem split_of_served {before after : List (Event S A H)} {e : Event S A H}
    (h : served past = before ++ e :: after) :
    ∃ first last, past = first ++ .server e :: last ∧ served first = before ∧
      served last = after := by
  obtain ⟨first, rest, hpast, hbefore, hrest⟩ := List.filterMap_eq_append_iff.mp h
  obtain ⟨skipped, o, last, rfl, hskipped, ho, hlast⟩ := List.filterMap_eq_cons_iff.mp hrest
  cases o with
  | station => cases ho
  | server e' =>
    cases ho
    refine ⟨first ++ skipped, last, by rw [hpast, List.append_assoc], ?_, hlast⟩
    have hnone : served skipped = [] := List.filterMap_eq_nil_iff.mpr hskipped
    rw [served_append, hnone, List.append_nil]
    exact hbefore

/-- A relation of what happens at the server to what happened there before. -/
def AtServer (P : List (Event S A H) → Event S A H → Prop) (past : List (Occurrence S A H)) :
    Occurrence S A H → Prop
  | .server e => P (served past) e
  | .station _ _ => True

/-- What is so at the server is so in the history. -/
theorem along_atServer {P : List (Event S A H) → Event S A H → Prop}
    (h : Along P (served past) events) : Along (AtServer P) past (events.map .server) := by
  induction events generalizing past with
  | nil => exact .nil
  | cons e events ih =>
    obtain ⟨hfirst, hrest⟩ := Along.cons_iff.mp h
    have hpast : served (past ++ [.server e]) = served past ++ [e] := by
      rw [served_append]
      rfl
    exact .cons hfirst (ih (by rwa [hpast]))

/-- What the station does is not at the server. -/
theorem along_atServer_station (P : List (Event S A H) → Event S A H → Prop)
    (login : Option LoginCall) (outs : List Output) :
    Along (AtServer P) past (outs.map (.station login)) := by
  induction outs generalizing past with
  | nil => exact .nil
  | cons o outs ih => exact .cons trivial ih

end History

end Dot1x.System
