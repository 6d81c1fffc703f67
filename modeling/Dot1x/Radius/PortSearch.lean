import Dot1x.Radius.CleanUp

/-!
# The ports of a client

When no socket has a free identifier, `GetSocket` opens another one on some port of a range. It tries
a third as many ports as there are in the range at random, and then one after the other. The second
loop stops before the last port.
-/

namespace Dot1x.Radius

open Dot1x.Base

/-- The data members of a client that say which ports it may use. -/
structure ClientPorts where
  portBase : UInt16
  portMax : UInt16
  le : portBase.toNat ≤ portMax.toNat

/-- The range that a base and a number of ports stand for, up to the last port that there is. -/
def InRange (base range port : UInt16) : Prop :=
  base.toNat ≤ port.toNat ∧ port.toNat ≤ min (base.toNat + range.toNat - 1) 65535

instance (base range port : UInt16) : Decidable (InRange base range port) :=
  inferInstanceAs (Decidable (_ ∧ _))

/-- Open the first port that can be opened: the ports that are tried, and the one that is opened. -/
def openFirst (openable : UInt16 → Bool) : List UInt16 → List UInt16 × Option UInt16
  | [] => ([], none)
  | port :: rest =>
    if openable port then ([port], some port)
    else
      let (tried, opened) := openFirst openable rest
      (port :: tried, opened)

/-- The ports that `for (WORD p = port; p < portMax; p++)` goes through, with a bound on its
iterations. -/
def portsFrom (portMax : UInt16) : ℕ → UInt16 → List UInt16
  | 0, _ => []
  | n + 1, port => if port < portMax then port :: portsFrom portMax n (port + 1) else []

namespace ClientPorts

/-- The range of a client that is told nothing else. -/
def initial : ClientPorts := ⟨1024, 65535, by decide⟩

/-- `RadiusClient::SetClientPortRange` -/
def setClientPortRange (c : ClientPorts) (base range : UInt16) : Bool × ClientPorts :=
  if range < 1 then (false, c)
  else
    let room := 65535 - base.toNat
    let further := if range.toNat - 1 < room then range.toNat - 1 else room
    (true, {
      portBase := base
      portMax := UInt16.ofNat (base.toNat + further)
      le := by
        have hbase : base.toNat < 65536 := base.toNat_lt
        have hle : further ≤ room := by grind
        rw [UInt16.toNat_ofNat', Nat.mod_eq_of_lt (by omega)]
        exact Nat.le_add_right .. })

/-- The number of ports. -/
def size (c : ClientPorts) : ℕ := c.portMax.toNat - c.portBase.toNat + 1

/-- The port that a random number stands for. -/
def randomPort (c : ClientPorts) (draw : UInt32) : UInt16 :=
  UInt16.ofNat (c.portBase.toNat + draw.toNat % c.size)

/-- The ports that the first loop goes through. -/
def drawnPorts (c : ClientPorts) (draws : ℕ → UInt32) : List UInt16 :=
  (List.range (c.size / 3)).map fun k => c.randomPort (draws k)

/-- The ports that the second loop goes through. -/
def scannedPorts (c : ClientPorts) : List UInt16 := portsFrom c.portMax 65536 c.portBase

/-- The port search of `GetSocket`. -/
def search (c : ClientPorts) (openable : UInt16 → Bool) (draws : ℕ → UInt32) :
    List UInt16 × Option UInt16 :=
  let (drawn, opened) := openFirst openable (c.drawnPorts draws)
  if opened.isSome then (drawn, opened)
  else
    let (scanned, opened) := openFirst openable c.scannedPorts
    (drawn ++ scanned, opened)

end ClientPorts

/-- `GetSocket`, with the ports that it tries to open. -/
def Pool.getSocketTrying (p : Pool) (ticks : List ℕ) (c : ClientPorts) (openable : UInt16 → Bool)
    (draws : ℕ → UInt32) (socket : UInt16 → ℕ × Id) :
    List UInt16 × Option (Option (ℕ × Id) × List PooledSocket) :=
  let n := p.activeSockets.length
  let clock := readings p.clock ticks
  let (sockets, s, newId) := findFree clock p.activeSockets
  match cleanUp p.socketDeleteTimeout (clock n) s n 0 sockets with
  | none => ([], none)
  | some sockets =>
    if s ≠ sockets.length then
      match sockets[s]?, newId with
      | some x, some id => ([], some (some (x.address, Fin.ofNat 256 id), sockets))
      | _, _ => ([], none)
    else
      let (tried, opened) := c.search openable draws
      (tried, some (p.create (clock (n + 1)) (clock (n + 2)) (opened.map socket) sockets))

variable {openable : UInt16 → Bool} {draws : ℕ → UInt32} {c : ClientPorts} {port : UInt16}

/-- A port that is tried is one of the list. -/
theorem openFirst_fst {l : List UInt16} (h : port ∈ (openFirst openable l).1) : port ∈ l := by
  induction l with
  | nil => exact h
  | cons q rest ih =>
    rw [openFirst] at h
    split at h
    · exact List.mem_cons.mpr (Or.inl (List.mem_singleton.mp h))
    · rcases List.mem_cons.mp h with rfl | hrest
      · exact List.mem_cons_self
      · exact List.mem_cons_of_mem _ (ih hrest)

/-- The port that is opened is the first one that can be. -/
theorem openFirst_snd (l : List UInt16) : (openFirst openable l).2 = l.find? openable := by
  induction l with
  | nil => rfl
  | cons q rest ih =>
    rw [openFirst, List.find?_cons]
    split
    · rename_i hopen
      rw [hopen]
    · rename_i hclosed
      rw [Bool.not_eq_true] at hclosed
      rw [hclosed]
      exact ih

/-- The second list is tried where the first one fails. -/
private theorem openFirst_append (openable : UInt16 → Bool) (l r : List UInt16) :
    openFirst openable (l ++ r) =
      if (openFirst openable l).2.isSome then openFirst openable l
      else ((openFirst openable l).1 ++ (openFirst openable r).1, (openFirst openable r).2) := by
  induction l with
  | nil => rfl
  | cons q rest ih =>
    rw [List.cons_append, openFirst, openFirst, ih]
    by_cases hopen : openable q = true
    · simp only [if_pos hopen, Option.isSome_some, if_true]
    · simp only [if_neg hopen]
      split <;> rfl

/-- The second loop goes through all ports but the last. -/
private theorem mem_portsFrom {portMax first : UInt16} {n : ℕ}
    (hn : portMax.toNat ≤ first.toNat + n) :
    port ∈ portsFrom portMax n first ↔ first ≤ port ∧ port < portMax := by
  induction n generalizing first with
  | zero =>
    rw [portsFrom, UInt16.le_iff_toNat_le, UInt16.lt_iff_toNat_lt]
    refine ⟨nofun, fun h => ?_⟩
    omega
  | succ n ih =>
    rw [portsFrom]
    split
    · rename_i hlt
      have hmax : portMax.toNat < 65536 := portMax.toNat_lt
      rw [UInt16.lt_iff_toNat_lt] at hlt
      have hnext : (first + 1).toNat = first.toNat + 1 := by
        rw [UInt16.toNat_add, UInt16.toNat_one, Nat.mod_eq_of_lt (by omega)]
      rw [List.mem_cons, ih (by omega), ← UInt16.toNat_inj]
      simp only [UInt16.le_iff_toNat_le, UInt16.lt_iff_toNat_lt, hnext]
      omega
    · rename_i hge
      simp only [UInt16.le_iff_toNat_le, UInt16.lt_iff_toNat_lt] at hge ⊢
      refine ⟨nofun, fun h => ?_⟩
      omega

namespace ClientPorts

/-- The scan goes from the base to the last port but one. -/
theorem mem_scannedPorts : port ∈ c.scannedPorts ↔ c.portBase ≤ port ∧ port < c.portMax := by
  have hmax : c.portMax.toNat < 65536 := c.portMax.toNat_lt
  exact mem_portsFrom (by omega)

/-- The ports that are drawn are as many as a third of the range. -/
theorem mem_drawnPorts :
    port ∈ c.drawnPorts draws ↔ ∃ k < c.size / 3, c.randomPort (draws k) = port := by
  simp only [drawnPorts, List.mem_map, List.mem_range]

/-- A port that is drawn lies in the range. -/
private theorem toNat_randomPort (c : ClientPorts) (draw : UInt32) :
    (c.randomPort draw).toNat = c.portBase.toNat + draw.toNat % c.size := by
  have hmod : draw.toNat % c.size < c.size := Nat.mod_lt _ (Nat.succ_pos _)
  have hle := c.le
  have hmax : c.portMax.toNat < 65536 := c.portMax.toNat_lt
  rw [size] at hmod
  rw [randomPort, UInt16.toNat_ofNat', Nat.mod_eq_of_lt]
  rw [size]
  omega

/-- A random port is one of the range. -/
private theorem randomPort_le (c : ClientPorts) (draw : UInt32) :
    c.portBase.toNat ≤ (c.randomPort draw).toNat ∧
      (c.randomPort draw).toNat ≤ c.portMax.toNat := by
  have hmod : draw.toNat % c.size < c.size := Nat.mod_lt _ (Nat.succ_pos _)
  have hle := c.le
  rw [toNat_randomPort]
  rw [size] at hmod ⊢
  omega

/-- The second loop goes on where the first one ends. -/
theorem search_eq (c : ClientPorts) (openable : UInt16 → Bool) (draws : ℕ → UInt32) :
    c.search openable draws = openFirst openable (c.drawnPorts draws ++ c.scannedPorts) := by
  rw [openFirst_append]
  rfl

/-- The search succeeds if the second loop or one of the random numbers meets a port that can be
opened. -/
theorem search_isSome : (c.search openable draws).2.isSome = true ↔
    (∃ q, c.portBase ≤ q ∧ q < c.portMax ∧ openable q = true) ∨
      ∃ k < c.size / 3, openable (c.randomPort (draws k)) = true := by
  rw [search_eq, openFirst_snd, List.find?_isSome]
  constructor
  · rintro ⟨q, hq, hopen⟩
    rcases List.mem_append.mp hq with hdrawn | hscanned
    · obtain ⟨k, hk, rfl⟩ := mem_drawnPorts.mp hdrawn
      exact Or.inr ⟨k, hk, hopen⟩
    · obtain ⟨hbase, hmax⟩ := mem_scannedPorts.mp hscanned
      exact Or.inl ⟨q, hbase, hmax, hopen⟩
  · rintro (⟨q, hbase, hmax, hopen⟩ | ⟨k, hk, hopen⟩)
    · exact ⟨q, List.mem_append_right _ (mem_scannedPorts.mpr ⟨hbase, hmax⟩), hopen⟩
    · exact ⟨_, List.mem_append_left _ (mem_drawnPorts.mpr ⟨k, hk, rfl⟩), hopen⟩

/-- The ports that are tried lie between the bounds. -/
theorem search_within (h : port ∈ (c.search openable draws).1) :
    c.portBase.toNat ≤ port.toNat ∧ port.toNat ≤ c.portMax.toNat := by
  rw [search_eq] at h
  rcases List.mem_append.mp (openFirst_fst h) with hdrawn | hscanned
  · obtain ⟨k, -, rfl⟩ := mem_drawnPorts.mp hdrawn
    exact c.randomPort_le _
  · obtain ⟨hbase, hmax⟩ := mem_scannedPorts.mp hscanned
    exact ⟨UInt16.le_iff_toNat_le.mp hbase, (UInt16.lt_iff_toNat_lt.mp hmax).le⟩

/-- The bounds are those of the range that was set. -/
theorem inRange_iff {old : ClientPorts} {base range : UInt16}
    (hset : old.setClientPortRange base range = (true, c)) :
    InRange base range port ↔
      c.portBase.toNat ≤ port.toNat ∧ port.toNat ≤ c.portMax.toNat := by
  unfold setClientPortRange at hset
  split at hset
  · cases hset
  · rename_i hrange
    cases hset
    have hbase : base.toNat < 65536 := base.toNat_lt
    have hport : port.toNat < 65536 := port.toNat_lt
    rw [UInt16.lt_iff_toNat_lt, UInt16.toNat_one] at hrange
    simp only [InRange, UInt16.toNat_ofNat']
    split <;> omega

end ClientPorts

/-- A new socket issues its first identifier. -/
theorem IdRing.exists_generateNewId_new (first : Id) (constructed timeout now : ℤ) :
    ∃ id ring, ((IdRing.new first constructed).setIdCacheTimeout timeout).generateNewId now =
      (some id, ring) := by
  have hnew := (reserves_new first constructed).setIdCacheTimeout timeout
  have hrefreshed : (((IdRing.new first constructed).setIdCacheTimeout timeout).refreshIdCache
      (getTimeInSeconds now)).Reserves [] := hnew.refreshIdCache .nil
  obtain ⟨id, ring, hgen, -⟩ := hrefreshed.generateNewId (Nat.zero_ne_add_one 254)
  exact ⟨_, ring, hgen⟩

section CleanUp

variable {deleteTimeout now : ℤ} {s n i : ℕ} {sockets sockets' l r : List PooledSocket}
  {x : PooledSocket}

/-- Cleaning up adds no sockets. -/
theorem cleanUp_length_le (h : cleanUp deleteTimeout now s n i sockets = some sockets') :
    sockets'.length ≤ sockets.length := by
  induction n generalizing i sockets with
  | zero =>
    rw [cleanUp] at h
    split at h <;> cases h
    exact le_rfl
  | succ n ih =>
    rw [cleanUp] at h
    split at h
    · cases h
      exact le_rfl
    · split at h
      · exact ih h
      · split at h
        · cases h
        · simp only at h
          split at h
          · exact (ih h).trans (List.length_eraseIdx_le ..)
          · exact (ih h).trans_eq (List.length_set ..)

/-- If a socket other than the chosen one can be deleted, one is deleted. -/
theorem cleanUp_length_lt (hx : x ∈ others s l.length r) (hunused : x.unused deleteTimeout now = true)
    (h : cleanUp deleteTimeout now s n l.length (l ++ r) = some sockets') :
    sockets'.length < (l ++ r).length := by
  induction n generalizing l r with
  | zero =>
    cases r with
    | nil => cases hx
    | cons y r =>
      rw [cleanUp, if_neg (by simp)] at h
      cases h
  | succ n ih =>
    cases r with
    | nil => cases hx
    | cons y r =>
      have hrest (z : PooledSocket) (hx : x ∈ others s (l.length + 1) r)
          (h : cleanUp deleteTimeout now s n (l ++ [z]).length (l ++ [z] ++ r) = some sockets') :
          sockets'.length < (l ++ y :: r).length := by
        have hlength : (l ++ [z]).length = l.length + 1 := List.length_append
        have hlt := ih (by rwa [hlength]) h
        simpa using hlt
      rw [others] at hx
      by_cases hs : l.length = s
      · rw [if_pos hs] at hx
        rw [cleanUp_chosen hs] at h
        exact hrest y hx h
      · rw [if_neg hs] at hx
        cases hy : y.unused deleteTimeout now with
        | true =>
          rw [cleanUp_unused hs hy] at h
          have hle := cleanUp_length_le h
          simp only [List.length_append, List.length_cons] at hle ⊢
          omega
        | false =>
          rw [cleanUp_kept hs hy] at h
          rcases List.mem_cons.mp hx with rfl | hx
          · cases hunused.symm.trans hy
          · exact hrest _ hx h

end CleanUp

namespace Pool

variable {p : Pool} {ticks : List ℕ} {socket : UInt16 → ℕ × Id}

/-- No socket issues an identifier when the first loop comes to it. -/
def AllBusy (p : Pool) (ticks : List ℕ) : Prop :=
  ∀ (k : ℕ) x, p.activeSockets[k]? = some x →
    (x.ring.generateNewId (readings p.clock ticks k)).1 = none

/-- A call of `GetSocket` searches the range of ports: it tries no other port, and it obtains a
socket and an identifier if one of the ports can be opened. -/
structure SearchesPorts (p : Pool) (ticks : List ℕ) (c : ClientPorts) (base range : UInt16)
    (openable : UInt16 → Bool) (draws : ℕ → UInt32) (socket : UInt16 → ℕ × Id) : Prop where
  within : ∀ port ∈ (p.getSocketTrying ticks c openable draws socket).1, InRange base range port
  opens : (∃ port, InRange base range port ∧ openable port = true) → ∃ obtained sockets,
    (p.getSocketTrying ticks c openable draws socket).2 = some (some obtained, sockets)

/-- The search is what creates a socket, or does not. -/
theorem getSocketTrying_snd (p : Pool) (ticks : List ℕ) (c : ClientPorts)
    (openable : UInt16 → Bool) (draws : ℕ → UInt32) (socket : UInt16 → ℕ × Id) :
    (p.getSocketTrying ticks c openable draws socket).2 =
      p.getSocket ticks ((c.search openable draws).2.map socket) := by
  simp only [getSocketTrying, getSocket]
  generalize findFree (readings p.clock ticks) p.activeSockets = found
  obtain ⟨sockets, s, newId⟩ := found
  generalize cleanUp p.socketDeleteTimeout (readings p.clock ticks p.activeSockets.length) s
    p.activeSockets.length 0 sockets = cleaned
  cases cleaned with
  | none => rfl
  | some sockets =>
    simp only
    split
    · cases sockets[s]? with
      | none => rfl
      | some x => cases newId <;> rfl
    · rfl

/-- `GetSocket` tries the ports of the search only. -/
theorem getSocketTrying_fst {port : UInt16}
    (h : port ∈ (p.getSocketTrying ticks c openable draws socket).1) :
    port ∈ (c.search openable draws).1 := by
  simp only [getSocketTrying] at h
  split at h
  · cases h
  · split at h
    · split at h <;> cases h
    · exact h

/-- The first loop comes to the end. -/
theorem AllBusy.found (h : p.AllBusy ticks) : p.found ticks = p.activeSockets.length := by
  refine (Nat.eq_or_lt_of_le (p.searched ticks).le).resolve_right fun hlt => ?_
  have hx := List.getElem?_eq_getElem hlt
  obtain ⟨id, ring, -, hissue, -⟩ := (p.searched ticks).chosen _ hx
  have hnone := h _ _ hx
  rw [hissue] at hnone
  cases hnone

/-- What a call does after the first loop, if no socket has an identifier. -/
theorem AllBusy.getSocket (h : p.AllBusy ticks) (created : Option (ℕ × Id)) :
    p.getSocket ticks created =
      match cleanUp p.socketDeleteTimeout (p.cleanUpTime ticks) p.activeSockets.length
        p.activeSockets.length 0 (findFree (readings p.clock ticks) p.activeSockets).1 with
      | none => none
      | some sockets =>
        if p.activeSockets.length ≠ sockets.length then
          match sockets[p.activeSockets.length]?,
            (findFree (readings p.clock ticks) p.activeSockets).2.2 with
          | some x, some id => some (some (x.address, Fin.ofNat 256 id), sockets)
          | _, _ => none
        else some (p.create (readings p.clock ticks (p.activeSockets.length + 1))
          (readings p.clock ticks (p.activeSockets.length + 2)) created sockets) := by
  have hend : (findFree (readings p.clock ticks) p.activeSockets).2.1 = p.activeSockets.length :=
    h.found
  simp only [Pool.getSocket, hend]
  rfl

/-- If no socket can be deleted, one is created. -/
theorem AllBusy.getSocket_of_noneUnused (h : p.AllBusy ticks) (hkept : p.NoneUnused ticks)
    (created : Option (ℕ × Id)) : ∃ sockets, p.getSocket ticks created =
      some (p.create (readings p.clock ticks (p.activeSockets.length + 1))
        (readings p.clock ticks (p.activeSockets.length + 2)) created sockets) := by
  have hsearched := p.searched ticks
  have hnot (k : ℕ) (x : PooledSocket)
      (hx : (findFree (readings p.clock ticks) p.activeSockets).1[k]? = some x)
      (hk : ([] : List PooledSocket).length + k < p.activeSockets.length ∨ k + 1 =
        (findFree (readings p.clock ticks) p.activeSockets).1.length ∧
          ([] : List PooledSocket).length + k ≠ p.activeSockets.length) :
      x.unused p.socketDeleteTimeout (p.cleanUpTime ticks) = false := by
    rw [List.length_nil] at hk
    refine noneUnused_iff.mp hkept x (mem_others.mpr ⟨k, hx, ?_⟩)
    rw [h.found]
    omega
  obtain ⟨sockets, hclean, hcleaned⟩ := exists_cleanUp hsearched.length.le hnot
  have hend : sockets.length = p.activeSockets.length :=
    hcleaned.ends hsearched.length.symm
  rw [List.length_nil, List.nil_append, List.nil_append] at hclean
  refine ⟨sockets, ?_⟩
  rw [h.getSocket created, hclean]
  exact if_neg (not_not.mpr hend.symm)

/-- If a socket can be deleted, the iterator of the first loop is past the end after the second
one. -/
private theorem AllBusy.getSocket_of_unused (h : p.AllBusy ticks) (hunused : ¬p.NoneUnused ticks)
    (created : Option (ℕ × Id)) : p.getSocket ticks created = none := by
  have hsearched := p.searched ticks
  rw [noneUnused_iff] at hunused
  push Not at hunused
  obtain ⟨x, hx, hunused⟩ := hunused
  rw [ne_eq, Bool.not_eq_false] at hunused
  rw [toVisit, h.found] at hx
  rw [h.getSocket created]
  split
  · rfl
  · rename_i sockets hclean
    have hlt : sockets.length < (findFree (readings p.clock ticks) p.activeSockets).1.length :=
      cleanUp_length_lt (l := []) hx hunused hclean
    rw [hsearched.length] at hlt
    rw [if_pos hlt.ne', List.getElem?_eq_none hlt.le]

/-- A new socket is returned if a port is open. -/
theorem create_isSome {constructed now : ℤ} {opened : Option UInt16} {sockets : List PooledSocket} :
    (∃ obtained sockets', p.create constructed now (opened.map socket) sockets =
      (some obtained, sockets')) ↔ opened.isSome = true := by
  cases opened with
  | none =>
    refine ⟨?_, nofun⟩
    rintro ⟨_, _, h⟩
    cases h
  | some port =>
    obtain ⟨id, ring, hgen⟩ := IdRing.exists_generateNewId_new (socket port).2 constructed
      p.idCacheTimeout now
    simp only [create, Option.map_some, hgen]
    exact ⟨fun _ => rfl, fun _ => ⟨_, _, rfl⟩⟩

/-- When no socket has a free identifier, a call of `GetSocket` searches the range of ports exactly
when no port of the range can be opened, or no socket can be deleted and either a port other than the
last one can be opened or one of the random numbers stands for a port that can. -/
theorem searchesPorts_iff {old : ClientPorts} {base range : UInt16}
    (hset : old.setClientPortRange base range = (true, c)) (hbusy : p.AllBusy ticks) :
    p.SearchesPorts ticks c base range openable draws socket ↔
      (∀ port, InRange base range port → openable port = false) ∨
        p.NoneUnused ticks ∧
          ((∃ port, c.portBase ≤ port ∧ port < c.portMax ∧ openable port = true) ∨
            ∃ k < c.size / 3, openable (c.randomPort (draws k)) = true) := by
  have hwithin : ∀ port ∈ (p.getSocketTrying ticks c openable draws socket).1,
      InRange base range port := fun port hport =>
    (ClientPorts.inRange_iff hset).mpr (ClientPorts.search_within (getSocketTrying_fst hport))
  constructor
  · intro h
    by_cases hopen : ∃ port, InRange base range port ∧ openable port = true
    · right
      obtain ⟨obtained, sockets, hget⟩ := h.opens hopen
      rw [getSocketTrying_snd] at hget
      by_cases hkept : p.NoneUnused ticks
      · refine ⟨hkept, ClientPorts.search_isSome.mp ?_⟩
        obtain ⟨sockets', hcreate⟩ := hbusy.getSocket_of_noneUnused hkept
          ((c.search openable draws).2.map socket)
        rw [hcreate] at hget
        exact create_isSome.mp ⟨_, _, Option.some.inj hget⟩
      · rw [hbusy.getSocket_of_unused hkept] at hget
        cases hget
    · left
      push Not at hopen
      simpa only [ne_eq, Bool.not_eq_true] using hopen
  · rintro (hclosed | ⟨hkept, hopen⟩)
    · refine ⟨hwithin, ?_⟩
      rintro ⟨port, hport, hopen⟩
      cases (hclosed port hport).symm.trans hopen
    · refine ⟨hwithin, fun _ => ?_⟩
      obtain ⟨sockets, hcreate⟩ := hbusy.getSocket_of_noneUnused hkept
        ((c.search openable draws).2.map socket)
      obtain ⟨obtained, sockets', hobtained⟩ :=
        create_isSome.mpr (ClientPorts.search_isSome.mpr hopen)
      rw [getSocketTrying_snd, hcreate, hobtained]
      exact ⟨obtained, sockets', rfl⟩

/-- A client without sockets. -/
def idle : Pool := .new defaultIdCacheTimeout defaultSocketDeleteTimeout 0

/-- The first of two ports is found. -/
theorem searchesPorts_two : idle.SearchesPorts [] (ClientPorts.initial.setClientPortRange 1812 2).2
    1812 2 (fun port => port = 1812) (fun _ => 0) (fun port => (port.toNat, 0)) := by
  have hset : ClientPorts.initial.setClientPortRange 1812 2 = (true, _) := rfl
  have hbusy : idle.AllBusy [] := nofun
  exact (searchesPorts_iff hset hbusy).mpr (Or.inr ⟨nofun, Or.inl ⟨1812, by decide⟩⟩)

/-- The only port of a range is not tried. -/
theorem not_searchesPorts : ¬∀ (p : Pool) (ticks : List ℕ) (old c : ClientPorts)
    (base range : UInt16) (openable : UInt16 → Bool) (draws : ℕ → UInt32)
    (socket : UInt16 → ℕ × Id), old.setClientPortRange base range = (true, c) →
      p.AllBusy ticks → p.SearchesPorts ticks c base range openable draws socket := by
  intro h
  have hone := h idle [] .initial (ClientPorts.initial.setClientPortRange 1812 1).2 1812 1
    (fun port => port = 1812) (fun _ => 0) (fun port => (port.toNat, 0)) rfl nofun
  obtain ⟨obtained, sockets, hget⟩ := hone.opens ⟨1812, by decide, by decide⟩
  have hfails : (idle.getSocketTrying [] (ClientPorts.initial.setClientPortRange 1812 1).2
      (fun port => port = 1812) (fun _ => 0) (fun port => (port.toNat, 0))).2 = some (none, []) :=
    rfl
  cases hfails.symm.trans hget

end Pool

end Dot1x.Radius
