import Mathlib.Data.List.Infix
import Mathlib.Data.Nat.Notation

/-!
# The check of the hardware addresses

As the program starts it compares the addresses of the adapters with those that were saved by its
first run. A saved address is loaded into a variable that is not initialised, with a length that is
not initialised either: that length decides whether the address is loaded at all, and the comparison
uses the length of the present adapter alone. So an adapter passes whose address is the beginning of a
saved one, or of a saved one followed by what stood in the variable.
-/

namespace Dot1x.Client

/-- MAX_ADAPTER_ADDRESS_LENGTH -/
abbrev maxAdapterAddressLength : ℕ := 8

/-- The part of `IP_ADAPTER_INFO` that is looked at. -/
structure AdapterInfo where
  address : Vector UInt8 maxAdapterAddressLength
  addressLength : ℕ

/-- The values of the key by their numbers; the name of a value is its number in four digits. -/
abbrev RegKey := ℕ → Option (List UInt8)

/-- What stands in the local variables of the loop before they are set. -/
structure MacLocals where
  addr : Vector UInt8 maxAdapterAddressLength
  addrlen : UInt32

/-- The length that is saved and compared. -/
def AdapterInfo.length (a : AdapterInfo) : ℕ := min a.addressLength maxAdapterAddressLength

/-- The address of an adapter. -/
def AdapterInfo.bytes (a : AdapterInfo) : List UInt8 := a.address.toList.take a.length

/-- `GetAdaptersInfo` fails when there are none. -/
def getAdaptersInfo (adapters : List AdapterInfo) : Option (List AdapterInfo) :=
  if adapters = [] then none else some adapters

/-- `QueryBinaryValue` succeeds when the value exists and its length does not exceed the given one;
what stands behind it in the variable stays there. -/
def queryBinaryValue (v : Option (List UInt8)) (l : MacLocals) : Option (List UInt8) :=
  v.bind fun bytes =>
    if bytes.length ≤ l.addrlen.toNat then some (bytes ++ l.addr.toList.drop bytes.length) else none

/-- The loop that loads the saved addresses: the values from `i` on, `n` of them. -/
def loadLoop (key : RegKey) (locals : ℕ → MacLocals) : ℕ → ℕ → List (List UInt8)
  | _, 0 => []
  | i, n + 1 => (queryBinaryValue (key i) (locals i)).toList ++ loadLoop key locals (i + 1) n

/-- `SetBinaryValue` -/
def RegKey.setBinaryValue (key : RegKey) (i : ℕ) (bytes : List UInt8) : RegKey :=
  fun j => if j = i then some bytes else key j

/-- The loop that saves the present addresses. -/
def saveLoop (key : RegKey) : ℕ → List AdapterInfo → RegKey
  | _, [] => key
  | counter, a :: adapters => saveLoop (key.setBinaryValue counter a.bytes) (counter + 1) adapters

/-- `memcmp` finds no difference in the first `n` bytes. -/
def memcmpEqual (x y : List UInt8) (n : ℕ) : Bool := x.take n == y.take n

/-- The loop that compares the present addresses: whether no address is a saved one. -/
def compareLoop (addrlist : List (List UInt8)) : List AdapterInfo → Bool
  | [] => true
  | a :: adapters =>
    if addrlist.any fun addr => memcmpEqual addr a.address.toList a.length then false
    else compareLoop addrlist adapters

/-- The saved addresses that are loaded; there are none without the key. -/
def loadAddresses (reg : Option RegKey) (locals : ℕ → MacLocals) : List (List UInt8) :=
  reg.elim [] fun key => loadLoop key locals 0 100

/-- `Toolkit::InvalidMAC`, with the key it leaves. -/
def invalidMAC (reg : Option RegKey) (locals : ℕ → MacLocals) (present : List AdapterInfo) :
    Bool × RegKey :=
  let addrlist := loadAddresses reg locals
  let key := reg.getD fun _ => none
  (getAdaptersInfo present).elim (false, key) fun adapters =>
    if addrlist.length = 0 then (false, saveLoop key 0 adapters)
    else (compareLoop addrlist adapters, key)

/-- No value of the key was saved. -/
def NothingSaved (reg : Option RegKey) : Prop := ∀ key, reg = some key → ∀ i < 100, key i = none

/-- Some present adapter has an address that was saved. -/
def SomeSaved (saved present : List AdapterInfo) : Prop :=
  ∃ b ∈ present, ∃ a ∈ saved, b.bytes = a.bytes

/-- What is expected of the first run and of a later one. -/
structure ChecksAddresses (reg : Option RegKey) (saved present : List AdapterInfo)
    (first later : ℕ → MacLocals) : Prop where
  firstRun : (invalidMAC reg first saved).1 = false
  saves : ∀ i < 100, (invalidMAC reg first saved).2 i = (saved[i]?).map AdapterInfo.bytes
  laterRun : (invalidMAC (some (invalidMAC reg first saved).2) later present).1 = false ↔
    SomeSaved saved present

/-- The length variable lets the saved address be loaded. -/
def Loaded (saved : List AdapterInfo) (later : ℕ → MacLocals) (i : ℕ) (a : AdapterInfo) : Prop :=
  saved[i]? = some a ∧ a.bytes.length ≤ (later i).addrlen.toNat

/-- A present address is the beginning of a saved one with what stands in the variable behind it. -/
def TakenFor (later : ℕ → MacLocals) (i : ℕ) (a b : AdapterInfo) : Prop :=
  b.bytes <+: a.bytes ++ (later i).addr.toList.drop a.bytes.length

/-- Some present adapter is taken for a saved one that is loaded. -/
def SomeTaken (saved present : List AdapterInfo) (later : ℕ → MacLocals) : Prop :=
  ∃ b ∈ present, ∃ i a, Loaded saved later i a ∧ TakenFor later i a b

/-- Where an address is a saved one, some adapter is taken for a saved one or nothing is loaded; where
none is, there are adapters, something is loaded and no adapter is taken for it. -/
def TellsApart (saved present : List AdapterInfo) (later : ℕ → MacLocals) : Prop :=
  (SomeSaved saved present →
      SomeTaken saved present later ∨ ∀ i a, ¬Loaded saved later i a) ∧
    (¬SomeSaved saved present →
      present ≠ [] ∧ (∃ i a, Loaded saved later i a) ∧ ¬SomeTaken saved present later)

variable {key : RegKey} {locals first later : ℕ → MacLocals} {reg : Option RegKey}
  {saved present adapters : List AdapterInfo} {addrlist : List (List UInt8)} {addr : List UInt8}
  {i j n counter : ℕ} {a b : AdapterInfo}

/-- An adapter has as many address bytes as its length says, with whatever stands in the buffer. -/
private theorem AdapterInfo.length_bytes (a : AdapterInfo) : a.bytes.length = a.length := by
  rw [bytes, List.length_take, Vector.length_toList]
  exact Nat.min_eq_left (Nat.min_le_right ..)

/-- The addresses that are loaded. -/
theorem mem_loadLoop : addr ∈ loadLoop key locals i n ↔
    ∃ j, i ≤ j ∧ j < i + n ∧ queryBinaryValue (key j) (locals j) = some addr := by
  induction n generalizing i with
  | zero =>
    refine iff_of_false List.not_mem_nil ?_
    rintro ⟨j, hle, hlt, -⟩
    exact absurd hlt (Nat.not_lt.mpr hle)
  | succ n ih =>
    rw [loadLoop, List.mem_append, Option.mem_toList, ih]
    constructor
    · rintro (hfirst | ⟨j, hle, hlt, hj⟩)
      · exact ⟨i, Nat.le_refl i, by omega, hfirst⟩
      · exact ⟨j, by omega, by omega, hj⟩
    · rintro ⟨j, hle, hlt, hj⟩
      rcases Nat.eq_or_lt_of_le hle with rfl | hlater
      · exact Or.inl hj
      · exact Or.inr ⟨j, hlater, by omega, hj⟩

/-- The addresses that are saved. -/
private theorem saveLoop_apply (key : RegKey) (counter : ℕ) (adapters : List AdapterInfo) (j : ℕ) :
    saveLoop key counter adapters j =
      if counter ≤ j ∧ j < counter + adapters.length then (adapters[j - counter]?).map AdapterInfo.bytes
      else key j := by
  induction adapters generalizing key counter with
  | nil =>
    rw [if_neg (by simp)]
    rfl
  | cons a adapters ih =>
    rw [saveLoop, ih, RegKey.setBinaryValue, List.length_cons]
    by_cases hj : j = counter
    · subst hj
      rw [if_neg (by omega), if_pos rfl, if_pos (by omega), Nat.sub_self]
      rfl
    · rw [if_neg hj]
      by_cases hin : counter + 1 ≤ j ∧ j < counter + 1 + adapters.length
      · have hsub : j - counter = j - (counter + 1) + 1 := by omega
        rw [if_pos hin, if_pos (by omega), hsub, List.getElem?_cons_succ]
      · rw [if_neg hin, if_neg (by omega)]

/-- A comparison over the length of an adapter. -/
private theorem memcmpEqual_iff :
    memcmpEqual addr b.address.toList b.length = true ↔ b.bytes <+: addr := by
  rw [memcmpEqual, beq_iff_eq, List.prefix_iff_eq_take, b.length_bytes]
  exact eq_comm

/-- The comparison ends at the first adapter that is taken for a saved one. -/
theorem compareLoop_eq_false : compareLoop addrlist adapters = false ↔
    ∃ b ∈ adapters, ∃ addr ∈ addrlist, b.bytes <+: addr := by
  induction adapters with
  | nil => simp [compareLoop]
  | cons a adapters ih =>
    rw [compareLoop, List.exists_mem_cons_iff]
    have hany : (addrlist.any fun addr => memcmpEqual addr a.address.toList a.length) = true ↔
        ∃ addr ∈ addrlist, a.bytes <+: addr := by
      rw [List.any_eq_true]
      exact exists_congr fun addr => and_congr_right fun _ => memcmpEqual_iff
    split
    · rename_i hfound
      exact iff_of_true rfl (Or.inl (hany.mp hfound))
    · rename_i hfound
      rw [ih]
      exact (or_iff_right fun h => hfound (hany.mpr h)).symm

/-- A saved address is loaded where the length variable lets it. -/
theorem queryBinaryValue_saved (h : saved[i]? = some a) (l : MacLocals) :
    queryBinaryValue ((saved[i]?).map AdapterInfo.bytes) l = some addr ↔
      a.bytes.length ≤ l.addrlen.toNat ∧ addr = a.bytes ++ l.addr.toList.drop a.bytes.length := by
  rw [h, Option.map_some, queryBinaryValue, Option.bind_some]
  split
  · rename_i hle
    rw [Option.some_inj]
    exact ⟨fun heq => ⟨hle, heq.symm⟩, fun heq => heq.2.symm⟩
  · rename_i hle
    exact iff_of_false (by simp) fun heq => hle heq.1

/-- Before anything is saved nothing is loaded. -/
private theorem loadAddresses_of_nothing (h : NothingSaved reg) (locals : ℕ → MacLocals) :
    loadAddresses reg locals = [] := by
  cases reg with
  | none => rfl
  | some key =>
    refine List.eq_nil_iff_forall_not_mem.mpr fun addr haddr => ?_
    obtain ⟨j, -, hlt, hj⟩ := mem_loadLoop.mp haddr
    rw [h key rfl j (by omega)] at hj
    cases hj

/-- The first run saves the addresses. -/
theorem invalidMAC_of_nothing (first : ℕ → MacLocals) (h : NothingSaved reg) (hsaved : saved ≠ []) :
    invalidMAC reg first saved = (false, saveLoop (reg.getD fun _ => none) 0 saved) := by
  rw [invalidMAC, loadAddresses_of_nothing h, getAdaptersInfo, if_neg hsaved]
  rfl

/-- What the first run leaves under the first hundred names. -/
private theorem saveLoop_of_nothing (saved : List AdapterInfo) (h : NothingSaved reg)
    (hi : i < 100) :
    saveLoop (reg.getD fun _ => none) 0 saved i = (saved[i]?).map AdapterInfo.bytes := by
  rw [saveLoop_apply]
  split
  · rfl
  · rename_i hout
    have hend : saved[i]? = none := List.getElem?_eq_none (by omega)
    rw [hend, Option.map_none]
    cases reg with
    | none => rfl
    | some key => exact h key rfl i hi

/-- What a later run loads of the saved addresses. -/
private theorem mem_loadLoop_saved (hkey : ∀ i < 100, key i = (saved[i]?).map AdapterInfo.bytes)
    (hlength : saved.length ≤ 100) : addr ∈ loadLoop key later 0 100 ↔
      ∃ i a, Loaded saved later i a ∧ addr = a.bytes ++ (later i).addr.toList.drop a.bytes.length := by
  rw [mem_loadLoop]
  constructor
  · rintro ⟨i, -, hlt, hi⟩
    rw [hkey i (by omega)] at hi
    cases ha : saved[i]? with
    | none =>
      rw [ha] at hi
      cases hi
    | some a =>
      obtain ⟨hle, haddr⟩ := (queryBinaryValue_saved ha _).mp hi
      exact ⟨i, a, ⟨ha, hle⟩, haddr⟩
  · rintro ⟨i, a, ⟨ha, hle⟩, haddr⟩
    have hlt : i < saved.length := (List.getElem?_eq_some_iff.mp ha).1
    refine ⟨i, Nat.zero_le i, by omega, ?_⟩
    rw [hkey i (by omega)]
    exact (queryBinaryValue_saved ha _).mpr ⟨hle, haddr⟩

/-- A run that loads something leaves the key as it is. -/
theorem invalidMAC_kept (h : loadAddresses (some key) later ≠ []) :
    (invalidMAC (some key) later present).2 = key := by
  rw [invalidMAC, getAdaptersInfo]
  split
  · rfl
  · dsimp only [Option.elim]
    rw [if_neg (by rwa [List.length_eq_zero_iff])]
    rfl

/-- When a later run lets the program start. -/
private theorem later_eq_false (later : ℕ → MacLocals) (present : List AdapterInfo)
    (hkey : ∀ i < 100, key i = (saved[i]?).map AdapterInfo.bytes)
    (hlength : saved.length ≤ 100) : (invalidMAC (some key) later present).1 = false ↔
      present = [] ∨ (∀ i a, ¬Loaded saved later i a) ∨ SomeTaken saved present later := by
  have hmem (addr : List UInt8) : addr ∈ loadAddresses (some key) later ↔ ∃ i a,
      Loaded saved later i a ∧ addr = a.bytes ++ (later i).addr.toList.drop a.bytes.length :=
    mem_loadLoop_saved hkey hlength
  rw [invalidMAC, getAdaptersInfo]
  by_cases hpresent : present = []
  · rw [if_pos hpresent]
    exact iff_of_true rfl (Or.inl hpresent)
  rw [if_neg hpresent, or_iff_right hpresent]
  dsimp only [Option.elim]
  by_cases hnone : loadAddresses (some key) later = []
  · rw [if_pos (by rw [hnone]; rfl)]
    refine iff_of_true rfl (Or.inl fun i a hloaded => ?_)
    have hin := (hmem _).mpr ⟨i, a, hloaded, rfl⟩
    rw [hnone] at hin
    exact List.not_mem_nil hin
  · rw [if_neg (by rwa [List.length_eq_zero_iff])]
    obtain ⟨addr, haddr⟩ := List.exists_mem_of_ne_nil _ hnone
    obtain ⟨i, a, hloaded, -⟩ := (hmem addr).mp haddr
    rw [or_iff_right fun hall => hall i a hloaded, compareLoop_eq_false]
    refine exists_congr fun b => and_congr_right fun _ => ?_
    constructor
    · rintro ⟨addr, haddr, hprefix⟩
      obtain ⟨i, a, hloaded, rfl⟩ := (hmem addr).mp haddr
      exact ⟨i, a, hloaded, hprefix⟩
    · rintro ⟨i, a, hloaded, htaken⟩
      exact ⟨_, (hmem _).mpr ⟨i, a, hloaded, rfl⟩, htaken⟩

/-- Whatever adapters are present in the first run and in a later one, and whatever stands in the
variables: the later run lets the program start with a saved address and with no other exactly where
what it loads tells the adapters apart. The first run always saves the addresses. -/
theorem checksAddresses_iff (reg : Option RegKey) (saved present : List AdapterInfo)
    (first later : ℕ → MacLocals) (hreg : NothingSaved reg) (hsaved : saved ≠ [])
    (hlength : saved.length ≤ 100) :
    ChecksAddresses reg saved present first later ↔ TellsApart saved present later := by
  have hfirst := invalidMAC_of_nothing first hreg hsaved
  have hsaves (i : ℕ) (hi : i < 100) := saveLoop_of_nothing saved hreg hi
  have hlater := later_eq_false later present hsaves hlength
  have hnil (h : present = []) : ¬SomeSaved saved present ∧ ¬SomeTaken saved present later := by
    subst h
    simp [SomeSaved, SomeTaken]
  have hchecks : ChecksAddresses reg saved present first later ↔
      ((invalidMAC (some (saveLoop (reg.getD fun _ => none) 0 saved)) later present).1 = false ↔
        SomeSaved saved present) := by
    constructor
    · intro h
      have hrun := h.laterRun
      rwa [hfirst] at hrun
    · intro h
      refine ⟨congrArg Prod.fst hfirst, fun i hi => ?_, ?_⟩
      · rw [hfirst]
        exact hsaves i hi
      · rw [hfirst]
        exact h
  have hloaded : (∀ i a, ¬Loaded saved later i a) ↔ ¬∃ i a, Loaded saved later i a := by simp
  rw [hchecks, hlater, TellsApart, hloaded]
  by_cases hsome : SomeSaved saved present
  · have hpresent : present ≠ [] := fun h => (hnil h).1 hsome
    simp only [hsome, hpresent, iff_true, forall_const, not_true_eq_false, false_imp_iff, and_true,
      false_or]
    exact or_comm
  · simp only [hsome, iff_false, not_or, not_not, false_imp_iff, not_false_eq_true, true_imp_iff,
      true_and, ne_eq]

/-- Addresses of one length are told apart if the length variable lets them be loaded. -/
private theorem tellsApart_of_length (hsaved : saved ≠ []) (hpresent : present ≠ [])
    (hload : ∀ i a, saved[i]? = some a → Loaded saved later i a)
    (hlength : ∀ a ∈ saved, ∀ b ∈ present, b.bytes.length = a.bytes.length) :
    TellsApart saved present later := by
  constructor
  · rintro ⟨b, hb, a, ha, heq⟩
    obtain ⟨i, hi⟩ := List.mem_iff_getElem?.mp ha
    refine Or.inl ⟨b, hb, i, a, hload i a hi, ?_⟩
    rw [TakenFor, heq]
    exact List.prefix_append ..
  · intro hnone
    obtain ⟨a, ha⟩ := List.exists_mem_of_ne_nil _ hsaved
    obtain ⟨i, hi⟩ := List.mem_iff_getElem?.mp ha
    refine ⟨hpresent, ⟨i, a, hload i a hi⟩, ?_⟩
    rintro ⟨b, hb, j, a', ⟨hj, -⟩, htaken⟩
    have ha' := List.mem_of_getElem? hj
    refine hnone ⟨b, hb, a', ha', ?_⟩
    have htake := List.prefix_iff_eq_take.mp htaken
    rwa [hlength a' ha' b hb, List.take_left] at htake

/-- An adapter with an address of six bytes. -/
def networkCard : AdapterInfo := ⟨#v[2, 0, 0, 0, 0, 1, 0, 0], 6⟩

/-- An adapter without an address. -/
def withoutAddress : AdapterInfo := ⟨#v[0, 0, 0, 0, 0, 0, 0, 0], 0⟩

/-- Variables whose bytes are all 204. -/
def filled (_ : ℕ) : MacLocals := ⟨#v[204, 204, 204, 204, 204, 204, 204, 204], 0xcccccccc⟩

/-- The same adapter is found again. -/
theorem checksAddresses_networkCard :
    ChecksAddresses none [networkCard] [networkCard] filled filled := by
  refine (checksAddresses_iff none [networkCard] [networkCard] filled filled
    (fun key hkey => absurd hkey (by simp)) (by simp) (by decide)).mpr ?_
  refine tellsApart_of_length (by simp) (by simp) (fun i a ha => ⟨ha, ?_⟩) fun a ha b hb => ?_
  · rw [List.mem_singleton.mp (List.mem_of_getElem? ha)]
    exact (by decide : networkCard.bytes.length ≤ (filled 0).addrlen.toNat)
  · rw [List.mem_singleton.mp ha, List.mem_singleton.mp hb]

/-- An adapter without an address is taken for one that was saved. -/
theorem withoutAddress_accepted :
    ¬ChecksAddresses none [networkCard] [withoutAddress] filled filled := by
  intro h
  obtain ⟨b, hb, a, ha, heq⟩ := h.laterRun.mp (by decide)
  rw [List.mem_singleton.mp ha, List.mem_singleton.mp hb] at heq
  exact absurd heq (by decide)

end Dot1x.Client
