import Dot1x.Eap.Intake

/-!
# Framing of a message

A part of a message is framed in two places: the first one with the length of the message in front,
the later ones without. Both prepare the header of the packet and call `frame_next`. The packet that
results is the output packet with a list of stores, each at a fixed place but for the payload.
-/

namespace Dot1x.Eap

open Dot1x.Base Dot1x.Wire

namespace TypeTls

/-- The flags of a packet that carries a part of a message, and the length of the message if it
declares one. -/
def partFlags (declared : Option ℕ) (more : Bool) : ℕ :=
  (if more then TlsPacket.moreFrags else 0) + if declared.isSome then TlsPacket.lengthIncluded else 0

/-- How many bytes of a declared length there are. -/
def declaredLen (declared : Option ℕ) : ℕ := if declared.isSome then 4 else 0

/-- The bytes of a declared length. -/
def declaredBytes (declared : Option ℕ) : List UInt8 :=
  (declared.map fun n => (leBytes 4 n).reverse).getD []

/-- The stores of the header. -/
def headStores (declared : Option ℕ) : List (ℕ × List UInt8) :=
  [(5, [UInt8.ofNat (partFlags declared false)]), (6, declaredBytes declared),
   (2, [0, UInt8.ofNat (declaredLen declared)])]

/-- The stores of `frame_next`. -/
def bodyStores (declared : Option ℕ) (more : Bool) (part : List UInt8) : List (ℕ × List UInt8) :=
  [(6 + declaredLen declared, part), (5, [UInt8.ofNat (partFlags declared more)]),
   (2, [UInt8.ofNat ((part.length + 1) / 256),
        UInt8.ofNat (declaredLen declared + (part.length + 1))])]

/-- The stores of a packet that carries a part of a message. -/
def partStores (declared : Option ℕ) (more : Bool) (part : List UInt8) : List (ℕ × List UInt8) :=
  headStores declared ++ bodyStores declared more part

/-- A packet that carries a part of a message. -/
def framed (output : TlsPacket) (declared : Option ℕ) (more : Bool) (part : List UInt8) : TlsPacket :=
  output.storeAll (partStores declared more part)

/-- What is passed to `frame_next`. -/
def prepared (output : TlsPacket) : Option ℕ → TlsPacket
  | none => EapPacket.setLen (output.setTlsFlags 0) 0
  | some n => EapPacket.setLen ((output.setTlsFlags TlsPacket.lengthIncluded).setTlsLen n) 4

/-- The part of a message that is due at an offset. -/
def nextPart (fragmentSize : ℕ) (msg : List UInt8) (cur : ℕ) : List UInt8 :=
  (msg.drop cur).take fragmentSize

/-- Behind that part there is more to come. -/
def moreAfter (fragmentSize : ℕ) (msg : List UInt8) (cur : ℕ) : Bool :=
  decide (cur + (nextPart fragmentSize msg cur).length ≠ msg.length)

variable {fragmentSize cur : ℕ} {msg out part : List UInt8} {declared : Option ℕ} {more : Bool}
  {output : TlsPacket} {t : TypeTls} {r : Ret × TypeTls × EapPacket}

/-- A part is as long as `frame_next` decides. -/
theorem nextPart_length : (nextPart fragmentSize msg cur).length =
    chunkLen fragmentSize (msg.length - cur) := by
  rw [nextPart, List.length_take, List.length_drop, chunkLen]
  split <;> omega

/-- `frame_next` copies the part that is due. -/
theorem take_chunkLen : (msg.drop cur).take (chunkLen fragmentSize (msg.length - cur)) =
    nextPart fragmentSize msg cur := by
  rw [← nextPart_length, nextPart, List.length_take, ← List.take_take, List.take_length]

/-- A declared length takes the four bytes behind the flags. -/
theorem declaredBytes_length (declared : Option ℕ) :
    (declaredBytes declared).length = declaredLen declared := by
  cases declared <;> simp [declaredBytes, declaredLen]

/-- The flag for more fragments is added to the others. -/
theorem partFlags_or : UInt8.ofNat (partFlags declared false) ||| UInt8.ofNat TlsPacket.moreFrags =
    UInt8.ofNat (partFlags declared true) := by
  unfold partFlags
  cases declared.isSome <;> rfl

/-- The length flag is set where a length is declared. -/
theorem partFlags_length : decide (UInt8.ofNat (partFlags declared more) &&&
    UInt8.ofNat TlsPacket.lengthIncluded ≠ 0) = declared.isSome := by
  unfold partFlags
  cases declared.isSome <;> cases more <;> rfl

/-- The fragment flag is set where there is more to come. -/
theorem partFlags_more : decide (UInt8.ofNat (partFlags declared more) &&&
    UInt8.ofNat TlsPacket.moreFrags ≠ 0) = more := by
  unfold partFlags
  cases declared.isSome <;> cases more <;> rfl

/-- The packet is prepared by storing its head. -/
theorem prepared_eq : prepared output declared = output.storeAll (headStores declared) := by
  cases declared with
  | none =>
    have hnothing : (output.store 5 [0]).store 6 [] = output.store 5 [0] :=
      congrArg (Pointer.mk · output.data) (write_nil _ _)
    change EapPacket.setLen (output.store 5 [0]) 0 =
      ((output.store 5 [0]).store 6 []).store 2 [0, 0]
    rw [hnothing, EapPacket.setLen_eq]
    rfl
  | some n =>
    change EapPacket.setLen (TlsPacket.setTlsLen (output.store 5 [0x80]) n) 4 =
      ((output.store 5 [0x80]).store 6 (leBytes 4 n).reverse).store 2 [0, 4]
    rw [EapPacket.setLen_eq, TlsPacket.setTlsLen, AccessUi32.set_eq]
    rfl

/-- The head is stored without moving the packet. -/
theorem prepared_data : (prepared output declared).data = output.data := by
  rw [prepared_eq, Pointer.storeAll_data]

/-- The flags and the length of a packet that is complete but for its payload. -/
theorem prepared_bytes (output : TlsPacket) (declared : Option ℕ) :
    (prepared output declared).byte 5 = UInt8.ofNat (partFlags declared false) ∧
    (prepared output declared).byte 2 = 0 ∧
    (prepared output declared).byte 3 = UInt8.ofNat (declaredLen declared) := by
  simp only [prepared_eq, headStores, Pointer.storeAll, List.foldl_cons, List.foldl_nil]
  refine ⟨?_, ?_, ?_⟩
  · rw [Pointer.byte_store_of_outside (by simp), Pointer.byte_store_of_outside (by omega),
      Pointer.byte_store, if_pos (by simp)]
    rfl
  · rw [Pointer.byte_store, if_pos (by simp)]
    rfl
  · rw [Pointer.byte_store, if_pos (by simp)]
    rfl

/-- The data begins behind the flags and the declared length. -/
theorem prepared_tlsData : (prepared output declared).tlsData =
    output.data + (6 + declaredLen declared) := by
  have hflags : (prepared output declared).mem (prepared output declared).eapData =
      UInt8.ofNat (partFlags declared false) := (prepared_bytes output declared).1
  have hlength : (prepared output declared).hasLength = declared.isSome := by
    rw [TlsPacket.hasLength, hflags, partFlags_length]
  rw [TlsPacket.tlsData, hlength, EapPacket.eapData, prepared_data]
  cases declared <;> rfl

/-- The loop of `frame_next` and the flag and length behind it are three stores. -/
private theorem addLen_prepared (n : ℕ) (part : List UInt8) (hpart : part.length = n) :
    EapPacket.addLen
        (if more then
          TlsPacket.orTlsFlags ((prepared output declared).store (6 + declaredLen declared) part)
            TlsPacket.moreFrags
        else (prepared output declared).store (6 + declaredLen declared) part) (n + 1) =
      framed output declared more part := by
  obtain ⟨hflags, hhigh, hlow⟩ := prepared_bytes output declared
  set p := (prepared output declared).store (6 + declaredLen declared) part with hp
  have hbefore (j : ℕ) (hj : j < 6) : p.byte j = (prepared output declared).byte j :=
    Pointer.byte_store_of_outside (by omega)
  have hflag : (if more then TlsPacket.orTlsFlags p TlsPacket.moreFrags else p) =
      p.store 5 [UInt8.ofNat (partFlags declared more)] := by
    cases more with
    | false =>
      rw [if_neg Bool.false_ne_true, ← hflags, ← hbefore 5 (by decide), Pointer.store_byte_self]
    | true =>
      have hor : p.byte 5 ||| UInt8.ofNat TlsPacket.moreFrags =
          UInt8.ofNat (partFlags declared true) := by
        rw [hbefore 5 (by decide), hflags, partFlags_or]
      rw [if_pos rfl, ← hor]
      rfl
  have hhigh' : (p.store 5 [UInt8.ofNat (partFlags declared more)]).byte 2 = 0 := by
    rw [Pointer.byte_store_of_outside (by simp), hbefore 2 (by decide), hhigh]
  have hlow' : (p.store 5 [UInt8.ofNat (partFlags declared more)]).byte 3 =
      UInt8.ofNat (declaredLen declared) := by
    rw [Pointer.byte_store_of_outside (by simp), hbefore 3 (by decide), hlow]
  have hvalue : (UInt8.ofNat (declaredLen declared)).toNat = declaredLen declared := by
    cases declared <;> rfl
  rw [hflag, EapPacket.addLen_of_high_zero _ hhigh', hlow', hvalue, hp, prepared_eq, ← hpart, framed,
    partStores, bodyStores]
  simp only [Pointer.storeAll, List.foldl_append, List.foldl_cons, List.foldl_nil]

/-- What `frame_next` returns where there is something to copy. -/
private theorem frameNext_prepared (hcur : cur < msg.length) (hsize : 0 < fragmentSize) :
    (frameNext fragmentSize msg cur (prepared output declared)).result =
      .ok (cur + (nextPart fragmentSize msg cur).length,
        framed output declared (moreAfter fragmentSize msg cur) (nextPart fragmentSize msg cur)) := by
  have hpos : chunkLen fragmentSize (msg.length - cur) ≠ 0 := by
    unfold chunkLen
    split <;> omega
  have hstore : (⟨write (prepared output declared).mem (output.data + (6 + declaredLen declared))
      (nextPart fragmentSize msg cur), (prepared output declared).data⟩ : Pointer) =
      (prepared output declared).store (6 + declaredLen declared) (nextPart fragmentSize msg cur) := by
    rw [Pointer.store, prepared_data]
  rw [frameNext]
  dsimp only
  rw [if_neg hpos, take_chunkLen, ← nextPart_length, prepared_tlsData, ← addLen_prepared _ _ rfl]
  simp only [hstore, moreAfter, decide_eq_true_eq]
  rfl

/-- Where there is nothing to copy the loop runs away. -/
theorem frameNext_of_empty {p : TlsPacket} (h : nextPart fragmentSize msg cur = []) :
    (frameNext fragmentSize msg cur p).result = .error .fault := by
  have hzero : chunkLen fragmentSize (msg.length - cur) = 0 := by
    rw [← nextPart_length, h]
    rfl
  rw [frameNext]
  dsimp only
  rw [if_pos hzero]
  rfl

/-- The last part is all that is left. -/
theorem due_of_le (hcur : cur ≤ msg.length) (hfit : msg.length - cur ≤ fragmentSize) :
    nextPart fragmentSize msg cur = msg.drop cur ∧ moreAfter fragmentSize msg cur = false := by
  have hall : nextPart fragmentSize msg cur = msg.drop cur :=
    List.take_of_length_le (by rwa [List.length_drop])
  refine ⟨hall, ?_⟩
  rw [moreAfter, hall, List.length_drop]
  exact decide_eq_false (by omega)

/-- The other parts are as long as the fragment size. -/
theorem due_of_lt (hlong : fragmentSize < msg.length - cur) :
    (nextPart fragmentSize msg cur).length = fragmentSize ∧
      moreAfter fragmentSize msg cur = true := by
  have hlen : (nextPart fragmentSize msg cur).length = fragmentSize := by
    rw [nextPart, List.length_take, List.length_drop]
    omega
  refine ⟨hlen, ?_⟩
  rw [moreAfter, hlen]
  exact decide_eq_true (by omega)

/-- A part is empty where the fragment size is zero or nothing is left. -/
theorem nextPart_eq_nil : nextPart fragmentSize msg cur = [] ↔ fragmentSize = 0 ∨ msg.length ≤ cur := by
  rw [nextPart, List.take_eq_nil_iff, List.drop_eq_nil_iff]

/-- What `frame_next` returns. -/
theorem frameNext_prepared_eq_ok {r : ℕ × TlsPacket} :
    (frameNext fragmentSize msg cur (prepared output declared)).result = .ok r ↔
      nextPart fragmentSize msg cur ≠ [] ∧
        r = (cur + (nextPart fragmentSize msg cur).length,
          framed output declared (moreAfter fragmentSize msg cur)
            (nextPart fragmentSize msg cur)) := by
  by_cases hempty : nextPart fragmentSize msg cur = []
  · rw [frameNext_of_empty hempty]
    exact iff_of_false (by simp) fun h => h.1 hempty
  · obtain ⟨hsize, hcur⟩ := not_or.mp (nextPart_eq_nil.not.mp hempty)
    rw [frameNext_prepared (by omega) (by omega), Except.ok.injEq]
    exact ⟨fun h => ⟨hempty, h.symm⟩, fun h => h.2.symm⟩

section Framed

/-! Reading a packet that carries a part of a message. -/

/-- Framing does not move the packet. -/
@[simp] theorem framed_data : (framed output declared more part).data = output.data :=
  Pointer.storeAll_data ..

/-- The last stores of a packet that carries a part. -/
theorem framed_eq : framed output declared more part =
    (((output.storeAll (headStores declared)).store (6 + declaredLen declared) part).store 5
      [UInt8.ofNat (partFlags declared more)]).store 2
        [UInt8.ofNat ((part.length + 1) / 256),
          UInt8.ofNat (declaredLen declared + (part.length + 1))] := by
  simp only [framed, partStores, bodyStores, Pointer.storeAll, List.foldl_append, List.foldl_cons,
    List.foldl_nil]

/-- The flags say whether a length is declared and whether there is more. -/
theorem framed_flags :
    (framed output declared more part).byte 5 = UInt8.ofNat (partFlags declared more) := by
  rw [framed_eq, Pointer.byte_store_of_outside (by simp), Pointer.byte_store, if_pos (by simp)]
  rfl

/-- A framed packet has a length exactly if one is declared. -/
@[simp] theorem framed_hasLength : (framed output declared more part).hasLength = declared.isSome := by
  have hflags : (framed output declared more part).mem (framed output declared more part).eapData =
      UInt8.ofNat (partFlags declared more) := framed_flags
  rw [TlsPacket.hasLength, hflags, partFlags_length]

/-- A framed packet is marked exactly if there is more. -/
@[simp] theorem framed_moreFragments : (framed output declared more part).moreFragments = more := by
  have hflags : (framed output declared more part).mem (framed output declared more part).eapData =
      UInt8.ofNat (partFlags declared more) := framed_flags
  rw [TlsPacket.moreFragments, hflags, partFlags_more]

/-- The data of a framed packet begins behind the declared length. -/
@[simp] theorem framed_tlsData :
    (framed output declared more part).tlsData = output.data + (6 + declaredLen declared) := by
  rw [TlsPacket.tlsData, framed_hasLength, EapPacket.eapData, framed_data]
  cases declared <;> rfl

/-- The payload is in its place. -/
theorem framed_payload (output : TlsPacket) (declared : Option ℕ) (more : Bool)
    (part : List UInt8) :
    (framed output declared more part).bytes (6 + declaredLen declared) part.length = part := by
  rw [framed_eq, Pointer.bytes_store_of_disjoint (Or.inr (by simp; omega)),
    Pointer.bytes_store_of_disjoint (Or.inr (by simp)), Pointer.bytes_store_self rfl]

/-- The declared length is in its place. -/
theorem framed_tlsLen {n : ℕ} : (framed output (some n) more part).tlsLen = n % 2 ^ 32 := by
  have hbytes : (framed output (some n) more part).bytes 6 4 = (leBytes 4 n).reverse := by
    rw [framed_eq, Pointer.bytes_store_of_disjoint (Or.inr (by simp)),
      Pointer.bytes_store_of_disjoint (Or.inr (by simp)),
      Pointer.bytes_store_of_disjoint (Or.inl (by simp [declaredLen]))]
    simp only [headStores, Pointer.storeAll, List.foldl_cons, List.foldl_nil]
    rw [Pointer.bytes_store_of_disjoint (Or.inr (by simp))]
    exact Pointer.bytes_store_self rfl
  exact AccessUi32.get_of_slice hbytes

/-- The length byte by byte: the low one does not carry. -/
theorem framed_len (output : TlsPacket) (declared : Option ℕ) (more : Bool) (part : List UInt8) :
    (framed output declared more part).len = (part.length + 1) / 256 % 256 * 256 +
      (declaredLen declared + (part.length + 1)) % 256 := by
  have hhigh : (framed output declared more part).byte 2 =
      UInt8.ofNat ((part.length + 1) / 256) := by
    rw [framed_eq, Pointer.byte_store, if_pos (by simp)]
    rfl
  have hlow : (framed output declared more part).byte 3 =
      UInt8.ofNat (declaredLen declared + (part.length + 1)) := by
    rw [framed_eq, Pointer.byte_store, if_pos (by simp)]
    rfl
  rw [EapPacket.len_eq, hhigh, hlow, UInt8.toNat_ofNat', UInt8.toNat_ofNat']

/-- Behind the payload nothing is written. -/
theorem framed_behind {a : ℕ} (h : output.data + (6 + declaredLen declared) + part.length ≤ a) :
    (framed output declared more part).mem a = output.mem a := by
  have hbytes := declaredBytes_length declared
  refine Pointer.storeAll_mem_of_outside ?_
  simp only [partStores, headStores, bodyStores, List.cons_append, List.nil_append,
    List.forall_mem_cons, List.length_cons, List.length_nil]
  refine ⟨?_, ?_, ?_, ?_, ?_, ?_, List.forall_mem_nil _⟩ <;> omega

end Framed

/-- What is sent when a part is due. -/
theorem resume_eq_ok : (t.resume msg cur output).result = .ok r ↔
    nextPart t.fragmentSize msg cur ≠ [] ∧
      r = (.cont,
        { t with
          state :=
            if moreAfter t.fragmentSize msg cur then
              .fragSend msg (cur + (nextPart t.fragmentSize msg cur).length)
            else .recv },
        framed output none (moreAfter t.fragmentSize msg cur) (nextPart t.fragmentSize msg cur)) := by
  have hprep : EapPacket.setLen (TlsPacket.setTlsFlags output 0) 0 = prepared output none := rfl
  rw [resume, hprep, Exec.result_bind_eq_ok]
  constructor
  · intro ⟨p, hframe, hr⟩
    obtain ⟨hpart, rfl⟩ := frameNext_prepared_eq_ok.mp hframe
    cases hr
    exact ⟨hpart, by rw [framed_moreFragments]⟩
  · intro ⟨hpart, hr⟩
    refine ⟨_, frameNext_prepared_eq_ok.mpr ⟨hpart, rfl⟩, ?_⟩
    rw [hr, framed_moreFragments]
    rfl

/-- What is sent of the engine's output. -/
theorem sendOutput_eq_ok : (t.sendOutput out output).result = .ok r ↔
    (out = [] ∧ r = (.cont, t, output)) ∨
      nextPart t.fragmentSize out 0 ≠ [] ∧
        r = (.cont,
          { t with
            state :=
              if moreAfter t.fragmentSize out 0 then
                .fragSend out (nextPart t.fragmentSize out 0).length
              else t.state },
          framed output (some out.length) (moreAfter t.fragmentSize out 0)
            (nextPart t.fragmentSize out 0)) := by
  have hprep : EapPacket.setLen ((output.setTlsFlags TlsPacket.lengthIncluded).setTlsLen out.length) 4 =
      prepared output (some out.length) := rfl
  rw [sendOutput]
  by_cases hout : out = []
  · have hpart : nextPart t.fragmentSize out 0 = [] := nextPart_eq_nil.mpr (Or.inr (by simp [hout]))
    rw [if_pos (List.length_eq_zero_iff.mpr hout), Exec.result_pure, Except.ok.injEq]
    exact ⟨fun h => Or.inl ⟨hout, h.symm⟩,
      fun h => h.elim (fun h => h.2.symm) fun h => absurd hpart h.1⟩
  · rw [if_neg (List.length_eq_zero_iff.not.mpr hout)]
    dsimp only
    rw [hprep, Exec.result_bind_eq_ok]
    constructor
    · intro ⟨p, hframe, hr⟩
      obtain ⟨hpart, rfl⟩ := frameNext_prepared_eq_ok.mp hframe
      cases hr
      refine Or.inr ⟨hpart, ?_⟩
      simp only [framed_moreFragments, Nat.zero_add]
      split <;> rfl
    · intro h
      obtain ⟨hpart, hr⟩ := h.resolve_left fun h => hout h.1
      refine ⟨_, frameNext_prepared_eq_ok.mpr ⟨hpart, rfl⟩, ?_⟩
      simp only [hr, framed_moreFragments, Nat.zero_add]
      split <;> rfl

end TypeTls

end Dot1x.Eap
