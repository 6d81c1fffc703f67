import Dot1x.Hash.Streaming
import Dot1x.System.Connection

/-!
# Answers as the standard has them

The handler for MD5 hashes with the functions of the program. So what the station answers to a
challenge is the hash of the standard over the identifier, the password and everything behind the size
of the challenge. That is what CHAP demands if nothing stands behind the value; a name that does is
hashed as well.
-/

namespace Dot1x.System

open Dot1x.Base Dot1x.Wire Dot1x.Eap Dot1x.Link Dot1x.Radius Dot1x.Nas Dot1x.Hash
open Client.Listener (plainLogin)
open SimuNas (fresh)

/-- An MD5 hash takes 16 bytes. -/
private theorem length_md5Buffer (ctx : Md5Ctx) (m : Mem) (buffer len : ℕ) :
    (md5Buffer ctx m buffer len).length = 16 := by
  simp only [md5Buffer, finishCtx, readCtx, List.length_append, leBytes_length]

/-- `MD5` for some bytes in memory; the context on the stack may hold anything at first. -/
def md5 (ctx : Md5Ctx) : Digest := fun bs =>
  ⟨(md5Buffer ctx (write (fun _ => 0) 0 bs) 0 bs.length).toArray, length_md5Buffer ..⟩

/-- It is the hash of the standard. -/
private theorem toList_md5 (ctx : Md5Ctx) {bs : List UInt8} (h : bs.length < 2 ^ 32) :
    (md5 ctx bs).toList = Hash.digest sine bs := by
  refine (md5Buffer_eq ctx _ 0 h).trans ?_
  rw [slice_write_eq rfl]

/-- The answer with the hash of the standard over the identifier, the password and some bytes. -/
noncomputable def hashedAnswer (c : Client.LoginCall) (challenge : Message) (bytes : List UInt8) :
    Message :=
  ⟨2, challenge.id, 4,
    16 :: (Hash.digest sine (challenge.id :: (c.password.bytes ++ bytes)) ++ c.user.bytes)⟩

/-- The value of a challenge: as many bytes as its first byte says. -/
def Message.value (challenge : Message) : List UInt8 :=
  challenge.data.tail.take (challenge.data.headD 0).toNat

/-- Nothing stands behind the value of a challenge. -/
def Message.Nameless (challenge : Message) : Prop :=
  challenge.data.tail.length ≤ (challenge.data.headD 0).toNat

/-- The answer that the standard demands: of the challenge only the value is hashed. -/
noncomputable def standardAnswer (c : Client.LoginCall) (challenge : Message) : Message :=
  hashedAnswer c challenge challenge.value

/-- What is computed is the hash over everything behind the size. -/
theorem answerOf_md5 (ctx : Md5Ctx) (c : Client.LoginCall) {challenge : Message}
    (htype : challenge.type = 4) (hshort : challenge.data.length < 2 ^ 16) :
    answerOf (md5 ctx) c challenge = hashedAnswer c challenge challenge.data.tail := by
  have hsmall := c.password.length_lt
  rw [answerOf, Message.answer_of_challenge _ _ _ htype, toList_md5, hashedAnswer]
  simp only [List.length_cons, List.length_append, List.length_tail]
  omega

/-- Without a name that is what the standard demands. -/
theorem hashedAnswer_of_nameless (c : Client.LoginCall) {challenge : Message}
    (h : challenge.Nameless) :
    hashedAnswer c challenge challenge.data.tail = standardAnswer c challenge := by
  rw [standardAnswer, Message.value, List.take_of_length_le h]

/-- The data of a message are not longer than a packet. -/
private theorem data_length_lt (p : EapPacket) : (Message.ofPacket p).data.length < 2 ^ 16 := by
  have hlen := p.len_lt
  change (p.bytes 5 (p.len - 5)).length < 2 ^ 16
  rw [Pointer.bytes_length]
  omega

variable {S A H : Type} [DecidableEq A] {E : Engine} {radiusMd5 : Md5} {n : Network S A H}
  {u : SimuNas H} {login : Option Client.LoginCall} {data : Mem} {len : ℕ}

/-- In every run of an undisturbed network, whenever the station sends a response of type MD5, the server
has sent a challenge before, and the response holds the hash over everything behind the size of that
challenge, for the user whose login is in force. It is what the standard demands if nothing stands
behind the value. -/
theorem response_standard {ctx : Md5Ctx} {ms : List (Move S A H)}
    (run : Steps (Network.step (Handler.vtable (md5 ctx) E) radiusMd5) Undisturbed (.start u) ms n)
    (hsent : .station login (.sent data len) ∈ n.history) (hpacket : sentType data = EapolPacket.pckt)
    (htype : (Message.ofPacket (sentPacket data)).type = 4) :
    ∃ c earlier later data' len' challenge, login = some c ∧
      n.history = earlier ++ .station login (.sent data len) :: later ∧
      SentBy earlier data' len' ∧ (sentPacket data').code = Eap.request ∧
      challenge = Message.ofPacket (sentPacket data') ∧ challenge.type = 4 ∧
      Message.ofPacket (sentPacket data) = hashedAnswer c challenge challenge.data.tail ∧
      (challenge.Nameless → Message.ofPacket (sentPacket data) = standardAnswer c challenge) := by
  have hagreeing := agreeing_of_run run
  obtain ⟨earlier, later, hhistory⟩ := List.append_of_mem hsent
  have hprompted := hagreeing.prompted earlier _ later hhistory
  rw [List.nil_append] at hprompted
  obtain ⟨c, rfl, data', len', hsent', hcode, hanswer⟩ := hprompted hpacket
  have htype' : (Message.ofPacket (sentPacket data')).type = 4 := by
    rwa [hanswer, type_answerOf] at htype
  rw [answerOf_md5 ctx c htype' (data_length_lt _)] at hanswer
  refine ⟨c, earlier, later, data', len', _, rfl, hhistory, hsent', hcode, rfl, htype', hanswer, ?_⟩
  exact fun hnameless => hanswer.trans (hashedAnswer_of_nameless c hnameless)

/-- The answer in a conversation. -/
theorem response_standard_conversation : ∃ (n : Network Unit ℕ Unit) (login : Option Client.LoginCall)
    (data : Mem) (len : ℕ), .station login (.sent data len) ∈ n.history ∧
    ∃ c earlier later data' len' challenge, login = some c ∧
      n.history = earlier ++ .station login (.sent data len) :: later ∧
      SentBy earlier data' len' ∧ (sentPacket data').code = Eap.request ∧
      challenge = Message.ofPacket (sentPacket data') ∧ challenge.type = 4 ∧
      Message.ofPacket (sentPacket data) = hashedAnswer c challenge challenge.data.tail ∧
      (challenge.Nameless → Message.ofPacket (sentPacket data) = standardAnswer c challenge) := by
  obtain ⟨f, n, run, -, data, len, ⟨login, hsent⟩, hsaid⟩ :=
    exists_connected (md5 ⟨initialChain, (0, 0), 0, fun _ => 0⟩)
  refine ⟨n, login, data, len, hsent, response_standard run hsent hsaid.type ?_⟩
  rw [hsaid.message, type_answerOf]

end Dot1x.System
