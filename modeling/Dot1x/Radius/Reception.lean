import Dot1x.Radius.AttributeStore
import Dot1x.Radius.Socket

/-!
# Which datagrams are accepted

The socket receives a datagram straight into the memory of a new packet and then asks the packet
whether it is valid. Unlike `Read`, nothing compares the length that the packet claims with the
number of bytes that were received. So what lies in the memory behind them decides where the packet
claims to be longer, unless no such memory makes it valid.
-/

namespace Dot1x.Radius

open Dot1x.Base

/-- The default constructor, on memory that is not initialized. -/
def RadiusPDU.empty (fresh : Mem) : RadiusPDU :=
  (RadiusPDU.mk (Base.write fresh 0 [invalid, 0])).setLength fixedHeaderLength

/-- The packet that the socket received a datagram into. -/
def RadiusPDU.receive (fresh : Mem) (d : List UInt8) : RadiusPDU :=
  ⟨Base.write (empty fresh).data 0 d⟩

/-- The packets of a socket. -/
def pduType : PduType RadiusPDU := ⟨RadiusPDU.isValid, fun p => ⟨p.getId.toNat, p.getId.toNat_lt⟩⟩

/-- What a read of the socket returns for a datagram. -/
def receivedDatagram {A : Type} (fresh : Mem) (d : List UInt8) (source : Server A) :
    Datagram RadiusPDU A :=
  ⟨.receive fresh d, d.length, source⟩

/-- The packet that a call goes on with. -/
def Phase.inHand {P A : Type} : Phase P A → Option P
  | .received d => some d.pdu
  | _ => none

/-- The packet that a call goes on with after it read a datagram, unless it discarded it. -/
def acceptedPdu (fresh : Mem) (d : List UInt8) : Option RadiusPDU :=
  (Socket.afterRead pduType (some (receivedDatagram fresh d (Server.mk () 0)))).inHand

namespace RadiusPDU

/-- Two objects that hold the same packet. -/
def SamePacket (p q : RadiusPDU) : Prop :=
  q.getLength = p.getLength ∧ ∀ i, i < p.getLength → q.data i = p.data i

end RadiusPDU

/-- The treatment of a datagram depends on its bytes only, and what is accepted is what `Read`
accepts of them as a valid packet. -/
structure AcceptedAsRead (d : List UInt8) : Prop where
  same : ∀ fresh fresh', Option.Rel RadiusPDU.SamePacket (acceptedPdu fresh d) (acceptedPdu fresh' d)
  read : ∀ fresh p old, acceptedPdu fresh d = some p →
    (RadiusPDU.read old d).1 = true ∧ (RadiusPDU.read old d).2.isValid = true

variable {d : List UInt8} {fresh fresh' : Mem} {p q : RadiusPDU} {i : ℕ}

namespace RadiusPDU

/-- What is received is in the packet. -/
theorem receive_data (hi : i < d.length) : (receive fresh d).data i = d.getD i 0 :=
  write_of_inside (Nat.zero_le i) ((Nat.zero_add d.length).symm ▸ hi)

/-- The length of a packet is read from the datagram. -/
theorem getLength_receive (h : 4 ≤ d.length) : (receive fresh d).getLength = lengthField d := by
  rw [getLength_eq, receive_data (by omega), receive_data (by omega), lengthField]

end RadiusPDU

/-- What is accepted: a valid packet of at least the minimal number of bytes. -/
theorem acceptedPdu_eq_some : acceptedPdu fresh d = some p ↔
    20 ≤ d.length ∧ (RadiusPDU.receive fresh d).isValid = true ∧ p = .receive fresh d := by
  simp only [acceptedPdu, Socket.afterRead, Bool.or_eq_true, decide_eq_true_eq, Bool.not_eq_true']
  split
  · rename_i hbad
    refine iff_of_false nofun ?_
    rintro ⟨hlong, hvalid, -⟩
    rcases hbad with hshort | hinvalid
    · exact Nat.not_le.mpr hshort hlong
    · cases hvalid.symm.trans hinvalid
  · rename_i hgood
    rw [not_or, Nat.not_lt, Bool.not_eq_false] at hgood
    rw [Phase.inHand, Option.some.injEq, eq_comm]
    exact ⟨fun hp => ⟨hgood.1, hgood.2, hp⟩, fun h => h.2.2⟩

/-- A datagram is dropped where it is too short or its packet is invalid. -/
theorem acceptedPdu_eq_none : acceptedPdu fresh d = none ↔
    d.length < 20 ∨ (RadiusPDU.receive fresh d).isValid = false := by
  rw [← Option.not_isSome_iff_eq_none, Option.isSome_iff_exists]
  simp only [acceptedPdu_eq_some, exists_and_left, exists_eq, and_true, not_and_or, Nat.not_le,
    Bool.not_eq_true]

/-- Where the packet claims no more than was received, the memory behind does not matter. -/
theorem receive_samePacket (hlong : 4 ≤ d.length) (hfits : lengthField d ≤ d.length) :
    (RadiusPDU.receive fresh d).SamePacket (.receive fresh' d) := by
  refine ⟨?_, fun i hi => ?_⟩
  · rw [RadiusPDU.getLength_receive hlong, RadiusPDU.getLength_receive hlong]
  · rw [RadiusPDU.getLength_receive hlong] at hi
    rw [RadiusPDU.receive_data (by omega), RadiusPDU.receive_data (by omega)]

/-- A datagram is accepted as it is read exactly when the packet claims no more bytes than were
received, or no memory behind them makes it valid. -/
theorem acceptedAsRead_iff (d : List UInt8) : AcceptedAsRead d ↔ d.length < 20 ∨
    lengthField d ≤ d.length ∨ ∀ fresh, (RadiusPDU.receive fresh d).isValid = false := by
  constructor
  · intro h
    by_contra hnot
    simp only [not_or, Nat.not_lt, Nat.not_le, not_forall, Bool.not_eq_false] at hnot
    obtain ⟨hlong, hover, fresh, hvalid⟩ := hnot
    have hread := (h.read fresh _ (.empty fresh) (acceptedPdu_eq_some.mpr ⟨hlong, hvalid, rfl⟩)).1
    rw [RadiusPDU.read_eq_false hlong (by rwa [lengthField] at hover)] at hread
    cases hread
  · intro hwhen
    by_cases hshort : d.length < 20
    · have hnone (fresh : Mem) := acceptedPdu_eq_none.mpr (Or.inl hshort : _ ∨
        (RadiusPDU.receive fresh d).isValid = false)
      exact ⟨fun fresh fresh' => by rw [hnone, hnone]; exact .none,
        fun fresh p old hp => by cases (hnone fresh).symm.trans hp⟩
    · have hlong : 20 ≤ d.length := Nat.not_lt.mp hshort
      rcases hwhen.resolve_left hshort with hfits | hnever
      · have hsame (fresh fresh' : Mem) :
            (RadiusPDU.receive fresh d).SamePacket (.receive fresh' d) :=
          receive_samePacket (by omega) hfits
        have hvalid (fresh fresh' : Mem) (h : (RadiusPDU.receive fresh d).isValid = true) :
            (RadiusPDU.receive fresh' d).isValid = true := by
          obtain ⟨as, has⟩ := RadiusPDU.isValid_iff.mp h
          exact (has.congr (hsame fresh fresh').2).isValid
        refine ⟨fun fresh fresh' => ?_, fun fresh p old hp => ?_⟩
        · cases hp : acceptedPdu fresh d with
          | none =>
            have hbad := (acceptedPdu_eq_none.mp hp).resolve_left hshort
            have hnone : acceptedPdu fresh' d = none := by
              refine acceptedPdu_eq_none.mpr (Or.inr (Bool.not_eq_true _ ▸ fun hok => ?_))
              cases hbad.symm.trans (hvalid fresh' fresh hok)
            rw [hnone]
            exact .none
          | some p =>
            obtain ⟨-, hok, rfl⟩ := acceptedPdu_eq_some.mp hp
            rw [acceptedPdu_eq_some.mpr ⟨hlong, hvalid fresh fresh' hok, rfl⟩]
            exact .some (hsame fresh fresh')
        · obtain ⟨-, hok, rfl⟩ := acceptedPdu_eq_some.mp hp
          obtain ⟨as, has⟩ := RadiusPDU.isValid_iff.mp hok
          have hlength : (RadiusPDU.receive fresh d).getLength = lengthField d :=
            RadiusPDU.getLength_receive (by omega)
          have hraw (i : ℕ) (hi : i < (RadiusPDU.receive fresh d).getLength) :
              d.getD i 0 = (RadiusPDU.receive fresh d).data i :=
            (RadiusPDU.receive_data (by omega)).symm
          obtain ⟨hread, hbytes⟩ := has.read (hlength ▸ hfits) hraw old
          exact ⟨hread, (has.congr hbytes).isValid⟩
      · have hnone (fresh : Mem) := acceptedPdu_eq_none.mpr (Or.inr (hnever fresh))
        exact ⟨fun fresh fresh' => by rw [hnone, hnone]; exact .none,
          fun fresh p old hp => by cases (hnone fresh).symm.trans hp⟩

/-- A header of 20 bytes that claims an attribute is accepted or discarded by what lies behind. -/
theorem not_acceptedAsRead_header :
    ¬AcceptedAsRead ([2, 7, 0, 22] ++ List.replicate 16 0) := by
  intro h
  have hread := h.read (fun _ => 2) _ (.empty fun _ => 2)
    (acceptedPdu_eq_some.mpr ⟨by decide, by decide +kernel, rfl⟩)
  cases (RadiusPDU.read_eq_false (by decide) (by decide)).symm.trans hread.1

end Dot1x.Radius
