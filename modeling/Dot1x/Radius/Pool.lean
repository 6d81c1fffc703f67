import Dot1x.Base.Transition
import Dot1x.Radius.IdRing
import Mathlib.Algebra.GroupWithZero.Nat

/-!
# The sockets of a client

`GetSocket` takes the next identifier of the first socket that has one. It then refreshes the other
sockets and deletes those without reserved identifiers that have not been used for a long time. The
loop holds iterators into the vector while it erases from it: an iterator is an index, and what it
refers to moves to the front when something before it is erased. An access past the end is a fault.

`GetSocket` runs under the mutex of the sockets, so a run is a sequence of its calls, by calls of
`MakeRequest`, which hold what they obtained until they call it again or end, or by calls of
`SendRequest`. Time is read again and again and does not go back.
-/

namespace Dot1x.Radius

open Dot1x.Base

/-- `RadiusClient::DefaultSocketDeleteTimeout` -/
def defaultSocketDeleteTimeout : ℤ := 60000

/-- An object of the class `RadiusSocket`: where it is, and its identifiers. -/
structure PooledSocket where
  address : ℕ
  ring : IdRing

/-- What a call of `MakeRequest` in progress has obtained. -/
structure Holding where
  call : ℕ
  socket : ℕ
  id : Id
  deriving DecidableEq

/-- The data members of a client that `GetSocket` uses, the time that was read last, and what the
calls in progress hold. -/
structure Pool where
  activeSockets : List PooledSocket
  idCacheTimeout : ℤ
  socketDeleteTimeout : ℤ
  clock : ℤ
  held : List Holding

/-- What happens next. -/
inductive PoolAction
  /-- A call of `MakeRequest`, or one of `SendRequest`, calls `GetSocket`. Before each reading of
  the clock some time passes. If a socket is to be created, this is its address and the identifier
  it draws, or no port is free. -/
  | getSocket (call : Option ℕ) (ticks : List ℕ) (created : Option (ℕ × Id))
  /-- A call of `MakeRequest` ends. -/
  | finish (call : ℕ)
  | setIdCacheTimeout (timeout : ℤ)
  | setSocketDeleteTimeout (timeout : ℤ)

/-- The readings of a clock, in order. -/
def readings (start : ℤ) (ticks : List ℕ) (k : ℕ) : ℤ := start + (ticks.take (k + 1)).sum

/-- The first loop: the sockets after it, where the iterator stands, and the identifier. -/
def findFree (clock : ℕ → ℤ) : List PooledSocket → List PooledSocket × ℕ × Option ℕ
  | [] => ([], 0, none)
  | x :: rest =>
    match x.ring.generateNewId (clock 0) with
    | (some newId, ring) => ({ x with ring := ring } :: rest, 0, some newId)
    | (none, ring) =>
      let (rest, s, newId) := findFree (fun k => clock (k + 1)) rest
      ({ x with ring := ring } :: rest, s + 1, newId)

/-- The second loop, with a bound on its iterations. -/
def cleanUp (deleteTimeout now : ℤ) (s : ℕ) : ℕ → ℕ → List PooledSocket → Option (List PooledSocket)
  | 0, i, sockets => if i = sockets.length then some sockets else none
  | n + 1, i, sockets =>
    if i = sockets.length then some sockets
    else if i = s then cleanUp deleteTimeout now s n (i + 1) sockets
    else match sockets[i]? with
      | none => none
      | some x =>
        let ring := x.ring.refreshIdCache (getTimeInSeconds now)
        if ring.canDestroy && ring.recentRequestTime + deleteTimeout < now then
          cleanUp deleteTimeout now s n (i + 1) (sockets.eraseIdx i)
        else cleanUp deleteTimeout now s n (i + 1) (sockets.set i { x with ring := ring })

namespace Pool

/-- A client without sockets. -/
def new (idCacheTimeout socketDeleteTimeout clock : ℤ) : Pool :=
  ⟨[], idCacheTimeout, socketDeleteTimeout, clock, []⟩

/-- All sockets are busy: a new one is constructed and issues its first identifier. Which ports are
tried is left out. -/
def create (p : Pool) (constructed now : ℤ) (created : Option (ℕ × Id))
    (sockets : List PooledSocket) : Option (ℕ × Id) × List PooledSocket :=
  match created with
  | none => (none, sockets)
  | some (address, first) =>
    let ring := (IdRing.new first constructed).setIdCacheTimeout p.idCacheTimeout
    let (newId, ring) := ring.generateNewId now
    (newId.map fun id => (address, Fin.ofNat 256 id), sockets ++ [⟨address, ring⟩])

/-- `GetSocket`: the socket and the identifier, if it returns true, and the sockets after it. -/
def getSocket (p : Pool) (ticks : List ℕ) (created : Option (ℕ × Id)) :
    Option (Option (ℕ × Id) × List PooledSocket) :=
  let n := p.activeSockets.length
  let clock := readings p.clock ticks
  let (sockets, s, newId) := findFree clock p.activeSockets
  match cleanUp p.socketDeleteTimeout (clock n) s n 0 sockets with
  | none => none
  | some sockets =>
    if s ≠ sockets.length then
      match sockets[s]?, newId with
      | some x, some id => some (some (x.address, Fin.ofNat 256 id), sockets)
      | _, _ => none
    else some (p.create (clock (n + 1)) (clock (n + 2)) created sockets)

/-- What the calls hold after one of them called `GetSocket`; it ends if that returned false. -/
def hold (held : List Holding) (call : Option ℕ) (obtained : Option (ℕ × Id)) : List Holding :=
  match call with
  | none => held
  | some c => held.filter (·.call ≠ c) ++ (obtained.map fun o => ⟨c, o.1, o.2⟩).toList

/-- The step function. Sockets that exist at the same time have different addresses. -/
def step (p : Pool) : PoolAction → Option Pool
  | .getSocket call ticks created =>
    match p.getSocket ticks created with
    | none => none
    | some (obtained, sockets) =>
      if (sockets.map PooledSocket.address).Nodup then
        some { p with
          activeSockets := sockets
          clock := p.clock + ticks.sum
          held := hold p.held call obtained }
      else none
  | .finish call => some { p with held := p.held.filter (·.call ≠ call) }
  | .setIdCacheTimeout timeout =>
    some (if timeout < 1000 then p else { p with
      idCacheTimeout := timeout
      activeSockets := p.activeSockets.map fun x =>
        { x with ring := x.ring.setIdCacheTimeout timeout } })
  | .setSocketDeleteTimeout timeout =>
    some (if 20000 < timeout then { p with socketDeleteTimeout := timeout } else p)

end Pool

namespace PooledSocket

/-- An identifier is reserved, and its time has not run out. -/
def reserved (x : PooledSocket) (id : Id) (now : ℤ) : Bool :=
  (id - x.ring.oldestId).val < (x.ring.nextId - x.ring.oldestId).val &&
    getTimeInSeconds now ≤ x.ring.idTimestamps id + x.ring.timeout

/-- The second loop deletes the socket if it comes to it: no identifier is reserved when it is
refreshed, and it was not used for a long time. -/
def unused (x : PooledSocket) (deleteTimeout now : ℤ) : Bool :=
  (x.ring.refreshIdCache (getTimeInSeconds now)).canDestroy &&
    x.ring.recentRequestTime + deleteTimeout < now

end PooledSocket

namespace IdRing

variable {r : IdRing} {live : List (Id × ℤ)} {now later : ℤ}

/-- Refreshing does not change the next identifier. -/
@[simp] theorem refreshLoop_nextId (n : ℕ) : (refreshLoop now n r).nextId = r.nextId := by
  induction n generalizing r with
  | zero => rfl
  | succ n ih =>
    rw [refreshLoop]
    split
    · exact ih
    · rfl

/-- Refreshing does not change the time of the last request. -/
@[simp] theorem refreshLoop_recentRequestTime (n : ℕ) :
    (refreshLoop now n r).recentRequestTime = r.recentRequestTime := by
  induction n generalizing r with
  | zero => rfl
  | succ n ih =>
    rw [refreshLoop]
    split
    · exact ih
    · rfl

/-- Refreshing the cache does not change the time of the last request. -/
@[simp] theorem refreshIdCache_recentRequestTime :
    (r.refreshIdCache now).recentRequestTime = r.recentRequestTime :=
  refreshLoop_recentRequestTime _

/-- A ring issues its next identifier, or none and is only refreshed. -/
theorem generateNewId_cases (r : IdRing) (now : ℤ) :
    r.generateNewId now = (none, r.refreshIdCache (getTimeInSeconds now)) ∨
      ∃ s, r.generateNewId now = (some r.nextId.val, s) := by
  rw [generateNewId]
  split
  · exact Or.inl rfl
  · have hnext : (r.refreshIdCache (getTimeInSeconds now)).nextId = r.nextId :=
      refreshLoop_nextId _
    exact Or.inr ⟨_, Prod.ext (by rw [hnext]) rfl⟩

/-- The reserved identifiers were issued in order, and not after some point in time. -/
def Sound (r : IdRing) (now : ℤ) : Prop :=
  ∃ live, r.Reserves live ∧ live.Pairwise (fun a b => a.2 ≤ b.2) ∧ ∀ e ∈ live, e.2 ≤ now

namespace Sound

/-- A new ring is in order. -/
theorem new (id : Id) (created now : ℤ) : (IdRing.new id created).Sound now :=
  ⟨[], reserves_new id created, .nil, nofun⟩

/-- Another timeout keeps the order. -/
theorem setIdCacheTimeout (h : r.Sound now) (timeout : ℤ) :
    (r.setIdCacheTimeout timeout).Sound now := by
  obtain ⟨live, hlive, hrest⟩ := h
  exact ⟨live, hlive.setIdCacheTimeout timeout, hrest⟩

/-- A ring that is in order is so later. -/
theorem mono (h : r.Sound now) (hlater : now ≤ later) : r.Sound later := by
  obtain ⟨live, hlive, hsorted, hpast⟩ := h
  exact ⟨live, hlive, hsorted, fun e he => (hpast e he).trans hlater⟩

/-- Refreshing the cache keeps the order. -/
theorem refreshIdCache (h : r.Sound now) (t : ℤ) : (r.refreshIdCache t).Sound now := by
  obtain ⟨live, hlive, hsorted, hpast⟩ := h
  exact ⟨_, hlive.refreshIdCache hsorted, hsorted.filter _,
    fun e he => hpast e (List.mem_of_mem_filter he)⟩

/-- Issuing an identifier keeps the order, at the time of issuing. -/
theorem generateNewId (h : r.Sound now) {t : ℤ} (ht : now ≤ getTimeInSeconds t) :
    (r.generateNewId t).2.Sound (getTimeInSeconds t) := by
  obtain ⟨live, hlive, hsorted, hpast⟩ := h.refreshIdCache (getTimeInSeconds t)
  by_cases hfull : live.length = 255
  · rw [hlive.generateNewId_full hfull]
    exact ⟨live, hlive, hsorted, fun e he => (hpast e he).trans ht⟩
  · obtain ⟨id, s, hgen, -, -, -, hs⟩ := hlive.generateNewId hfull
    rw [hgen]
    refine ⟨_, hs, List.pairwise_append.mpr ⟨hsorted, List.pairwise_singleton .., ?_⟩, ?_⟩
    · intro e he f hf
      rw [List.mem_singleton.mp hf]
      exact (hpast e he).trans ht
    · intro e he
      rcases List.mem_append.mp he with hold | hnew
      · exact (hpast e hold).trans ht
      · rw [List.mem_singleton.mp hnew]

/-- Refreshing earlier as well does not matter. -/
theorem canDestroy_refresh (h : r.Sound now) {t u : ℤ} (htu : t ≤ u) :
    ((r.refreshIdCache t).refreshIdCache u).canDestroy = (r.refreshIdCache u).canDestroy := by
  obtain ⟨live, hlive, hsorted, -⟩ := h
  have hfirst : (r.refreshIdCache t).Reserves _ := hlive.refreshIdCache hsorted
  have hboth : ((r.refreshIdCache t).refreshIdCache u).Reserves _ :=
    hfirst.refreshIdCache (hsorted.filter _)
  have honce : (r.refreshIdCache u).Reserves _ := hlive.refreshIdCache hsorted
  rw [Bool.eq_iff_iff, hboth.canDestroy_iff, honce.canDestroy_iff, refreshIdCache_timeout,
    List.filter_filter]
  have hsame : live.filter (fun e => decide (u ≤ e.2 + r.timeout) &&
      decide (t ≤ e.2 + r.timeout)) = live.filter fun e => decide (u ≤ e.2 + r.timeout) := by
    refine List.filter_congr fun e _ => ?_
    rw [Bool.and_eq_left_iff_imp, decide_eq_true_eq, decide_eq_true_eq]
    exact htu.trans
  rw [hsame]

end Sound

end IdRing

/-- What the second loop tests of a socket that it has refreshed. -/
theorem PooledSocket.unused_eq (x : PooledSocket) (deleteTimeout now : ℤ) :
    x.unused deleteTimeout now = ((x.ring.refreshIdCache (getTimeInSeconds now)).canDestroy &&
      (x.ring.refreshIdCache (getTimeInSeconds now)).recentRequestTime + deleteTimeout < now) := by
  rw [unused, IdRing.refreshIdCache_recentRequestTime]

/-- A ring with an identifier that is reserved is not given up. -/
theorem PooledSocket.not_unused {x : PooledSocket} {id : Id} {deleteTimeout now clock : ℤ}
    (h : x.ring.Sound clock) (hreserved : x.reserved id now = true) :
    x.unused deleteTimeout now = false := by
  obtain ⟨live, hlive, hsorted, -⟩ := h
  rw [reserved, Bool.and_eq_true, decide_eq_true_eq, decide_eq_true_eq] at hreserved
  obtain ⟨hslot, htime⟩ := hreserved
  have hlength : (x.ring.nextId - x.ring.oldestId).val = live.length := by
    rw [hlive.next, add_sub_cancel_left, Fin.val_ofNat, Nat.mod_eq_of_lt hlive.short]
  have hmem : id ∈ live.map Prod.fst := by
    rw [hlive.ids, mem_slots_iff hlive.short.le, ← hlength]
    exact hslot
  obtain ⟨e, he, rfl⟩ := List.mem_map.mp hmem
  have hkept : e ∈ live.filter fun e => decide (getTimeInSeconds now ≤ e.2 + x.ring.timeout) := by
    rw [hlive.stamps e he] at htime
    exact List.mem_filter.mpr ⟨he, decide_eq_true htime⟩
  have hnot : (x.ring.refreshIdCache (getTimeInSeconds now)).canDestroy = false := by
    rw [← Bool.not_eq_true, (hlive.refreshIdCache hsorted).canDestroy_iff]
    exact List.ne_nil_of_mem hkept
  rw [unused, hnot, Bool.false_and]

/-- The clock in seconds goes forward with the clock. -/
theorem getTimeInSeconds_mono {a b : ℤ} (h : a ≤ b) : getTimeInSeconds a ≤ getTimeInSeconds b :=
  Int.ediv_le_ediv (by decide) h

/-- What the first loop does until some time: the sockets it passes are busy and are refreshed, and
the one it ends at issues its next identifier. -/
structure Found (deleteTimeout now : ℤ) (l l' : List PooledSocket) (s : ℕ) (newId : Option ℕ) :
    Prop where
  length : l'.length = l.length
  le : s ≤ l.length
  id : newId = l[s]?.map fun x => x.ring.nextId.val
  sound : ∀ z ∈ l', z.ring.Sound (getTimeInSeconds now)
  same : ∀ (k : ℕ) x, l[k]? = some x → ∃ z, l'[k]? = some z ∧ z.address = x.address ∧
    (k ≠ s → z.unused deleteTimeout now = x.unused deleteTimeout now)

/-- What the first loop finds, with a clock that goes forward. -/
theorem found_findFree {clock : ℕ → ℤ} {deleteTimeout now : ℤ}
    (hclock : ∀ i j, i ≤ j → clock i ≤ clock j) {l : List PooledSocket}
    (hnow : ∀ k < l.length, clock k ≤ now)
    (hl : ∀ x ∈ l, x.ring.Sound (getTimeInSeconds (clock 0))) :
    Found deleteTimeout now l (findFree clock l).1 (findFree clock l).2.1
      (findFree clock l).2.2 := by
  induction l generalizing clock with
  | nil => exact ⟨rfl, le_rfl, rfl, nofun, nofun⟩
  | cons x rest ih =>
    rw [List.forall_mem_cons] at hl
    obtain ⟨hx, hrest⟩ := hl
    have hfirst : clock 0 ≤ now := hnow 0 (Nat.succ_pos _)
    rw [findFree]
    rcases x.ring.generateNewId_cases (clock 0) with hnone | ⟨ring, hsome⟩
    · have hshifted (i j : ℕ) (hij : i ≤ j) : clock (i + 1) ≤ clock (j + 1) :=
        hclock _ _ (Nat.succ_le_succ hij)
      have hsound (y : PooledSocket) (hy : y ∈ rest) :
          y.ring.Sound (getTimeInSeconds (clock (0 + 1))) :=
        (hrest y hy).mono (getTimeInSeconds_mono (hclock _ _ (Nat.zero_le 1)))
      have hfound := ih hshifted (fun k hk => hnow (k + 1) (Nat.succ_lt_succ hk)) hsound
      rw [hnone]
      refine ⟨congrArg Nat.succ hfound.length, Nat.succ_le_succ hfound.le, hfound.id, ?_, ?_⟩
      · rw [List.forall_mem_cons]
        exact ⟨(hx.refreshIdCache _).mono (getTimeInSeconds_mono hfirst), hfound.sound⟩
      · rintro (_ | k) y hy
        · cases hy
          refine ⟨_, rfl, rfl, fun _ => ?_⟩
          rw [PooledSocket.unused, PooledSocket.unused,
            hx.canDestroy_refresh (getTimeInSeconds_mono hfirst),
            IdRing.refreshIdCache_recentRequestTime]
        · obtain ⟨z, hz, haddress, hunused⟩ := hfound.same k y hy
          exact ⟨z, hz, haddress, fun hk => hunused fun heq => hk (congrArg Nat.succ heq)⟩
    · have hring := hx.generateNewId (t := clock 0) le_rfl
      rw [hsome] at hring ⊢
      refine ⟨rfl, Nat.zero_le _, rfl, ?_, ?_⟩
      · rw [List.forall_mem_cons]
        exact ⟨hring.mono (getTimeInSeconds_mono hfirst),
          fun y hy => (hrest y hy).mono (getTimeInSeconds_mono hfirst)⟩
      · rintro (_ | k) y hy
        · cases hy
          exact ⟨_, rfl, rfl, fun hk => absurd rfl hk⟩
        · exact ⟨y, hy, rfl, fun _ => rfl⟩

/-- What the second loop leaves of the sockets after some others. -/
structure CleanedUp (deleteTimeout now : ℤ) (s : ℕ) (l r r' : List PooledSocket) : Prop where
  /-- The iterator of the first loop refers to the same socket, or to the end. -/
  stays : (l ++ r')[s]? = (l ++ r)[s]?
  ends : s = (l ++ r).length → (l ++ r').length = s
  /-- The sockets that are in use are kept. -/
  kept : ∀ (k : ℕ) x, r[k]? = some x → l.length + k = s ∨ x.unused deleteTimeout now = false →
    x.address ∈ r'.map PooledSocket.address
  only : ∀ y ∈ r', ∃ x ∈ r, y = x ∨
    y = { x with ring := x.ring.refreshIdCache (getTimeInSeconds now) }
  addresses : (r'.map PooledSocket.address).Sublist (r.map PooledSocket.address)

namespace CleanedUp

variable {deleteTimeout now : ℤ} {s : ℕ} {l r r' : List PooledSocket} {x y : PooledSocket}

/-- Nothing is left of nothing. -/
theorem nil : CleanedUp deleteTimeout now s l [] [] :=
  ⟨rfl, Eq.symm, nofun, nofun, .slnil⟩

/-- The next socket is kept, refreshed or not. -/
theorem cons (h : CleanedUp deleteTimeout now s (l ++ [y]) r r')
    (hy : y = x ∨ l.length ≠ s ∧
      y = { x with ring := x.ring.refreshIdCache (getTimeInSeconds now) }) :
    CleanedUp deleteTimeout now s l (x :: r) (y :: r') where
  stays := by
    have hstays := h.stays
    simp only [List.append_assoc, List.singleton_append] at hstays
    rw [hstays]
    rcases hy with rfl | ⟨hne, -⟩
    · rfl
    · rcases Nat.lt_or_gt_of_ne hne with hlt | hgt
      · obtain ⟨k, rfl⟩ := Nat.exists_eq_add_of_lt hlt
        rw [Nat.add_assoc, List.getElem?_append_right (Nat.le_add_right ..),
          List.getElem?_append_right (Nat.le_add_right ..), Nat.add_sub_cancel_left,
          List.getElem?_cons_succ, List.getElem?_cons_succ]
      · rw [List.getElem?_append_left hgt, List.getElem?_append_left hgt]
  ends := by
    have hends := h.ends
    simp only [List.append_assoc, List.singleton_append, List.length_append,
      List.length_cons] at hends ⊢
    exact hends
  kept := by
    rintro (_ | k) z hz hkeep
    · cases hz
      have haddress : y.address = x.address := by rcases hy with rfl | ⟨-, rfl⟩ <;> rfl
      exact List.mem_map.mpr ⟨y, List.mem_cons_self, haddress⟩
    · refine List.mem_cons_of_mem _ (h.kept k z hz (hkeep.imp_left fun hk => ?_))
      rw [List.length_append, List.length_singleton]
      omega
  only := by
    rw [List.forall_mem_cons]
    refine ⟨⟨x, List.mem_cons_self, hy.imp_right And.right⟩, fun z hz => ?_⟩
    obtain ⟨w, hw, heq⟩ := h.only z hz
    exact ⟨w, List.mem_cons_of_mem _ hw, heq⟩
  addresses := by
    have haddress : y.address = x.address := by rcases hy with rfl | ⟨-, rfl⟩ <;> rfl
    rw [List.map_cons, List.map_cons, haddress]
    exact h.addresses.cons_cons _

/-- The next socket is deleted, and the one after it is skipped. -/
theorem drop (h : CleanedUp deleteTimeout now s (l ++ [y]) r r') (hs : s < l.length)
    (hx : x.unused deleteTimeout now = true) :
    CleanedUp deleteTimeout now s l (x :: y :: r) (y :: r') where
  stays := by rw [List.getElem?_append_left hs, List.getElem?_append_left hs]
  ends := by
    intro hend
    rw [List.length_append] at hend
    omega
  kept := by
    rintro (_ | _ | k) z hz hkeep
    · cases hz
      rcases hkeep with hk | hnot
      · omega
      · cases hx.symm.trans hnot
    · cases hz
      exact List.mem_cons_self
    · refine List.mem_cons_of_mem _ (h.kept k z hz (hkeep.imp_left fun hk => ?_))
      omega
  only := by
    rw [List.forall_mem_cons]
    refine ⟨⟨y, List.mem_cons_of_mem _ List.mem_cons_self, Or.inl rfl⟩, fun z hz => ?_⟩
    obtain ⟨w, hw, heq⟩ := h.only z hz
    exact ⟨w, List.mem_cons_of_mem _ (List.mem_cons_of_mem _ hw), heq⟩
  addresses := (h.addresses.cons_cons _).cons _

end CleanedUp

section CleanUp

variable {deleteTimeout now : ℤ} {s n : ℕ} {l r : List PooledSocket} {x : PooledSocket}

/-- The second loop ends at the end of the list. -/
theorem cleanUp_nil : cleanUp deleteTimeout now s n l.length (l ++ []) = some (l ++ []) := by
  rw [List.append_nil]
  cases n with
  | zero => exact if_pos rfl
  | succ n => exact if_pos rfl

/-- The second loop leaves the socket that was found as it is. -/
theorem cleanUp_chosen (hs : l.length = s) :
    cleanUp deleteTimeout now s (n + 1) l.length (l ++ x :: r) =
      cleanUp deleteTimeout now s n (l ++ [x]).length (l ++ [x] ++ r) := by
  rw [cleanUp, if_neg (by simp), if_pos hs, List.append_cons, List.length_append,
    List.length_singleton]

/-- It refreshes a socket that is in use. -/
theorem cleanUp_kept (hs : l.length ≠ s) (hx : x.unused deleteTimeout now = false) :
    cleanUp deleteTimeout now s (n + 1) l.length (l ++ x :: r) =
      cleanUp deleteTimeout now s n
        (l ++ [{ x with ring := x.ring.refreshIdCache (getTimeInSeconds now) }]).length
        (l ++ [{ x with ring := x.ring.refreshIdCache (getTimeInSeconds now) }] ++ r) := by
  have hget : (l ++ x :: r)[l.length]? = some x := by simp
  have hset (y : PooledSocket) : (l ++ x :: r).set l.length y = l ++ [y] ++ r := by simp
  rw [PooledSocket.unused_eq] at hx
  rw [cleanUp, if_neg (by simp), if_neg hs, hget]
  simp only [hx, Bool.false_eq_true, if_false]
  rw [hset, List.length_append, List.length_singleton]

/-- It deletes a socket that is not, and skips the one behind it. -/
theorem cleanUp_unused (hs : l.length ≠ s) (hx : x.unused deleteTimeout now = true) :
    cleanUp deleteTimeout now s (n + 1) l.length (l ++ x :: r) =
      cleanUp deleteTimeout now s n (l.length + 1) (l ++ r) := by
  have hget : (l ++ x :: r)[l.length]? = some x := by simp
  have herase : (l ++ x :: r).eraseIdx l.length = l ++ r := by
    simp [List.eraseIdx_append_of_length_le]
  rw [PooledSocket.unused_eq] at hx
  rw [cleanUp, if_neg (by simp), if_neg hs, hget]
  simp only [hx, if_true]
  rw [herase]

/-- If neither a socket before the one that was found nor the last one is deleted, the second loop
does not go past the end and leaves the iterator where it was. -/
theorem exists_cleanUp (hn : r.length ≤ n) (hkept : ∀ (k : ℕ) x, r[k]? = some x →
      l.length + k < s ∨ k + 1 = r.length ∧ l.length + k ≠ s →
        x.unused deleteTimeout now = false) :
    ∃ r', cleanUp deleteTimeout now s n l.length (l ++ r) = some (l ++ r') ∧
      CleanedUp deleteTimeout now s l r r' := by
  induction n generalizing l r with
  | zero =>
    have hnil : r = [] := List.length_eq_zero_iff.mp (Nat.le_zero.mp hn)
    subst hnil
    exact ⟨[], cleanUp_nil, .nil⟩
  | succ n ih =>
    cases r with
    | nil => exact ⟨[], cleanUp_nil, .nil⟩
    | cons x r =>
      rw [List.length_cons] at hn hkept
      -- The rest of the loop, after a socket that is kept.
      have hrest (y : PooledSocket) : ∃ r', cleanUp deleteTimeout now s n (l ++ [y]).length
          (l ++ [y] ++ r) = some (l ++ y :: r') ∧ CleanedUp deleteTimeout now s (l ++ [y]) r r' := by
        have hlength : (l ++ [y]).length = l.length + 1 := List.length_append
        obtain ⟨r', hr', hcleaned⟩ := ih (l := l ++ [y]) (r := r) (Nat.le_of_succ_le_succ hn)
          fun k z hz hk => hkept (k + 1) z hz (by omega)
        exact ⟨r', by rw [hr', ← List.append_cons], hcleaned⟩
      by_cases hs : l.length = s
      · rw [cleanUp_chosen hs]
        obtain ⟨r', hr', hcleaned⟩ := hrest x
        exact ⟨x :: r', hr', hcleaned.cons (Or.inl rfl)⟩
      · cases hx : x.unused deleteTimeout now with
        | false =>
          rw [cleanUp_kept hs hx]
          obtain ⟨r', hr', hcleaned⟩ := hrest _
          exact ⟨_, hr', hcleaned.cons (Or.inr ⟨hs, rfl⟩)⟩
        | true =>
          have hnot : ¬(l.length + 0 < s ∨ 0 + 1 = r.length + 1 ∧ l.length + 0 ≠ s) :=
            fun h => Bool.false_ne_true ((hkept 0 x rfl h).symm.trans hx)
          cases r with
          | nil => exact absurd (Or.inr ⟨rfl, hs⟩) hnot
          | cons y r =>
            rw [List.length_cons] at hn hkept
            have hlength : (l ++ [y]).length = l.length + 1 := List.length_append
            obtain ⟨r', hr', hcleaned⟩ := ih (l := l ++ [y]) (r := r) (by omega)
              fun k z hz hk => hkept (k + 2) z hz (by omega)
            rw [hlength, ← List.append_cons, ← List.append_cons] at hr'
            rw [cleanUp_unused hs hx]
            exact ⟨y :: r', hr', hcleaned.drop (by omega) hx⟩

end CleanUp

/-- Some of the ticks take no longer than all. -/
theorem sum_take_le (ticks : List ℕ) (k : ℕ) : (ticks.take k).sum ≤ ticks.sum := by
  have hsum := congrArg List.sum (List.take_append_drop k ticks)
  rw [List.sum_append] at hsum
  omega

/-- The readings of the clock go forward. -/
theorem readings_mono (start : ℤ) (ticks : List ℕ) (i j : ℕ) (hij : i ≤ j) :
    readings start ticks i ≤ readings start ticks j := by
  have hsum := sum_take_le (ticks.take (j + 1)) (i + 1)
  rw [List.take_take, Nat.min_eq_left (Nat.add_le_add_right hij 1)] at hsum
  rw [readings, readings]
  omega

/-- No reading is later than all ticks. -/
theorem readings_le (start : ℤ) (ticks : List ℕ) (k : ℕ) :
    readings start ticks k ≤ start + ticks.sum := by
  have hsum := sum_take_le ticks (k + 1)
  rw [readings]
  omega

/-- No reading is before the start. -/
private theorem le_readings (start : ℤ) (ticks : List ℕ) (k : ℕ) :
    start ≤ readings start ticks k := by
  rw [readings]
  omega

namespace Pool

/-- Where the iterator of the first loop stands in the end. -/
def found (p : Pool) (ticks : List ℕ) : ℕ :=
  (findFree (readings p.clock ticks) p.activeSockets).2.1

/-- The time that the second loop reads. -/
def cleanUpTime (p : Pool) (ticks : List ℕ) : ℤ :=
  readings p.clock ticks p.activeSockets.length

/-- A call of `GetSocket` does no harm: it deletes neither a socket before the one that it finds nor
the last one, and none at all if it finds none. What the calls in progress hold is still reserved
when it is refreshed; or else it is not the next identifier of the socket that is found, and not on
another one that is deleted. -/
structure Harmless (p : Pool) (ticks : List ℕ) : Prop where
  kept : ∀ k < p.activeSockets.length, ∀ x ∈ p.activeSockets[k]?,
    k < p.found ticks ∨ k + 1 = p.activeSockets.length ∧ k ≠ p.found ticks →
      x.unused p.socketDeleteTimeout (p.cleanUpTime ticks) = false
  used : ∀ u ∈ p.held, ∀ k < p.activeSockets.length, ∀ x ∈ p.activeSockets[k]?,
    x.address = u.socket → x.reserved u.id (p.cleanUpTime ticks) = true ∨
      (k = p.found ticks → u.id ≠ x.ring.nextId) ∧
      (k ≠ p.found ticks → x.unused p.socketDeleteTimeout (p.cleanUpTime ticks) = false)

/-- The sockets are different objects whose rings are in order, and the calls in progress hold
different pairs, of sockets that exist. -/
structure Sound (p : Pool) : Prop where
  rings : ∀ x ∈ p.activeSockets, x.ring.Sound (getTimeInSeconds p.clock)
  addresses : (p.activeSockets.map PooledSocket.address).Nodup
  alive : ∀ u ∈ p.held, u.socket ∈ p.activeSockets.map PooledSocket.address
  apart : p.held.Pairwise fun a b => (a.socket, a.id) ≠ (b.socket, b.id)

/-- What a call of `GetSocket` returns is held by no call in progress, and no socket is deleted of
which one holds an identifier. -/
structure Exclusive (p : Pool) (obtained : Option (ℕ × Id)) (sockets : List PooledSocket) :
    Prop where
  apart : ∀ u ∈ p.held, obtained ≠ some (u.socket, u.id)
  alive : ∀ u ∈ p.held, u.socket ∈ sockets.map PooledSocket.address

variable {p p' : Pool} {ticks : List ℕ}

/-- The loops of a harmless call. -/
theorem Sound.loops (h : p.Sound) (hharmless : p.Harmless ticks) : ∃ l' newId r',
    findFree (readings p.clock ticks) p.activeSockets = (l', p.found ticks, newId) ∧
    cleanUp p.socketDeleteTimeout (p.cleanUpTime ticks) (p.found ticks) p.activeSockets.length 0
      l' = some r' ∧
    Found p.socketDeleteTimeout (p.cleanUpTime ticks) p.activeSockets l' (p.found ticks) newId ∧
    CleanedUp p.socketDeleteTimeout (p.cleanUpTime ticks) (p.found ticks) [] l' r' := by
  have hfound : Found p.socketDeleteTimeout (p.cleanUpTime ticks) p.activeSockets
      (findFree (readings p.clock ticks) p.activeSockets).1 (p.found ticks)
      (findFree (readings p.clock ticks) p.activeSockets).2.2 :=
    found_findFree (readings_mono _ _) (fun k hk => readings_mono _ _ _ _ hk.le)
      fun x hx => (h.rings x hx).mono (getTimeInSeconds_mono (le_readings ..))
  have hfind : findFree (readings p.clock ticks) p.activeSockets =
      ((findFree (readings p.clock ticks) p.activeSockets).1, p.found ticks,
        (findFree (readings p.clock ticks) p.activeSockets).2.2) := rfl
  generalize (findFree (readings p.clock ticks) p.activeSockets).1 = l' at hfound hfind
  have hkept (k : ℕ) (z : PooledSocket) (hz : l'[k]? = some z)
      (hk : ([] : List PooledSocket).length + k < p.found ticks ∨
        k + 1 = l'.length ∧ ([] : List PooledSocket).length + k ≠ p.found ticks) :
      z.unused p.socketDeleteTimeout (p.cleanUpTime ticks) = false := by
    obtain ⟨hlt, -⟩ := List.getElem?_eq_some_iff.mp hz
    rw [hfound.length] at hlt hk
    obtain ⟨z', hz', -, hunused⟩ := hfound.same k _ (List.getElem?_eq_getElem hlt)
    cases hz.symm.trans hz'
    rw [List.length_nil, Nat.zero_add] at hk
    rw [hunused (by omega)]
    exact hharmless.kept k hlt _ (List.getElem?_eq_getElem hlt) hk
  obtain ⟨r', hclean, hcleaned⟩ := exists_cleanUp hfound.length.le hkept
  exact ⟨l', _, r', hfind, hclean, hfound, hcleaned⟩

/-- The sockets of which calls in progress hold identifiers are not deleted. -/
private theorem Sound.alive_cleanedUp (h : p.Sound) (hharmless : p.Harmless ticks)
    {l' r' : List PooledSocket} {newId : Option ℕ}
    (hfound : Found p.socketDeleteTimeout (p.cleanUpTime ticks) p.activeSockets l' (p.found ticks)
      newId)
    (hcleaned : CleanedUp p.socketDeleteTimeout (p.cleanUpTime ticks) (p.found ticks) [] l' r')
    {u : Holding} (hu : u ∈ p.held) : u.socket ∈ r'.map PooledSocket.address := by
  obtain ⟨x, hx, haddress⟩ := List.mem_map.mp (h.alive u hu)
  obtain ⟨k, hlt, hget⟩ := List.mem_iff_getElem.mp hx
  have hk : p.activeSockets[k]? = some x := List.getElem?_eq_some_iff.mpr ⟨hlt, hget⟩
  obtain ⟨z, hz, hsame, hunused⟩ := hfound.same k x hk
  rw [← haddress, ← hsame]
  refine hcleaned.kept k z hz ?_
  rw [List.length_nil, Nat.zero_add]
  by_cases hks : k = p.found ticks
  · exact Or.inl hks
  · refine Or.inr ((hunused hks).trans ?_)
    rcases hharmless.used u hu k hlt x hk haddress with hreserved | ⟨-, hkept⟩
    · exact PooledSocket.not_unused (h.rings x hx) hreserved
    · exact hkept hks

/-- The next identifier of the socket that is found is held by no call in progress. -/
theorem Harmless.apart_found (hharmless : p.Harmless ticks) {x : PooledSocket}
    (hx : p.activeSockets[p.found ticks]? = some x) {u : Holding} (hu : u ∈ p.held)
    (haddress : x.address = u.socket) : u.id ≠ x.ring.nextId := by
  obtain ⟨hlt, -⟩ := List.getElem?_eq_some_iff.mp hx
  rcases hharmless.used u hu _ hlt x hx haddress with hreserved | ⟨hnext, -⟩
  · rintro heq
    rw [PooledSocket.reserved, heq, Bool.and_eq_true, decide_eq_true_eq] at hreserved
    exact Nat.lt_irrefl _ hreserved.1
  · exact hnext rfl

/-- A new socket issues an identifier that no call in progress holds. -/
private theorem create_cases (p : Pool) {constructed now : ℤ} (created : Option (ℕ × Id))
    (sockets : List PooledSocket) : p.create constructed now created sockets = (none, sockets) ∨
      ∃ address ring obtained,
        p.create constructed now created sockets = (obtained, sockets ++ [⟨address, ring⟩]) ∧
        ring.Sound (getTimeInSeconds now) ∧ ∀ o ∈ obtained, o.1 = address := by
  cases created with
  | none => exact Or.inl rfl
  | some c =>
    refine Or.inr ⟨c.1, _, _, rfl, ?_, ?_⟩
    · have hnew : (IdRing.new c.2 constructed).Sound (getTimeInSeconds now) := .new ..
      exact (hnew.setIdCacheTimeout _).generateNewId le_rfl
    · intro o ho
      obtain ⟨id, -, rfl⟩ := Option.map_eq_some_iff.mp ho
      rfl

/-- A new socket is sound, and what it issues is held by no call in progress if no other socket is at
its address. -/
private theorem create_exclusive {constructed now later : ℤ} (created : Option (ℕ × Id))
    {sockets : List PooledSocket}
    (hsound : ∀ y ∈ sockets, y.ring.Sound (getTimeInSeconds later))
    (halive : ∀ u ∈ p.held, u.socket ∈ sockets.map PooledSocket.address)
    (hlater : getTimeInSeconds now ≤ getTimeInSeconds later) : ∃ obtained sockets',
      p.create constructed now created sockets = (obtained, sockets') ∧
      (∀ x ∈ sockets', x.ring.Sound (getTimeInSeconds later)) ∧
      (∀ o ∈ obtained, o.1 ∈ sockets'.map PooledSocket.address) ∧
      ((sockets'.map PooledSocket.address).Nodup → p.Exclusive obtained sockets') := by
  rcases p.create_cases created sockets with
    hnone | ⟨address, ring, obtained, hcreate, hring, hobtained⟩
  · exact ⟨none, sockets, hnone, hsound, nofun, fun _ => ⟨nofun, halive⟩⟩
  · refine ⟨obtained, _, hcreate, ?_, fun o ho => ?_,
      fun hnodup => ⟨fun u hu heq => ?_, fun u hu => ?_⟩⟩
    · rw [List.forall_mem_append]
      refine ⟨hsound, fun y hy => ?_⟩
      rw [List.mem_singleton.mp hy]
      exact hring.mono hlater
    · rw [hobtained o ho, List.map_append]
      exact List.mem_append_right _ (List.mem_singleton_self _)
    · rw [List.map_append] at hnodup
      have hne := (List.nodup_append.mp hnodup).2.2 u.socket (halive u hu) address
        (List.mem_singleton_self _)
      exact hne (hobtained _ heq)
    · rw [List.map_append]
      exact List.mem_append_left _ (halive u hu)

/-- A harmless call of `GetSocket` returns. What it returns is held by no other call. -/
theorem Sound.getSocket (h : p.Sound) (hharmless : p.Harmless ticks) (created : Option (ℕ × Id)) :
    ∃ obtained sockets, p.getSocket ticks created = some (obtained, sockets) ∧
      (∀ x ∈ sockets, x.ring.Sound (getTimeInSeconds (p.clock + ticks.sum))) ∧
      (∀ o ∈ obtained, o.1 ∈ sockets.map PooledSocket.address) ∧
      ((sockets.map PooledSocket.address).Nodup → p.Exclusive obtained sockets) := by
  obtain ⟨l', newId, r', hfind, hclean, hfound, hcleaned⟩ := h.loops hharmless
  have hlast (k : ℕ) : getTimeInSeconds (readings p.clock ticks k) ≤
      getTimeInSeconds (p.clock + ticks.sum) := getTimeInSeconds_mono (readings_le ..)
  have hsound (y : PooledSocket) (hy : y ∈ r') :
      y.ring.Sound (getTimeInSeconds (p.clock + ticks.sum)) := by
    obtain ⟨x, hx, rfl | rfl⟩ := hcleaned.only y hy
    · exact (hfound.sound y hx).mono (hlast _)
    · exact ((hfound.sound x hx).refreshIdCache _).mono (hlast _)
  have halive (u : Holding) (hu : u ∈ p.held) : u.socket ∈ r'.map PooledSocket.address :=
    h.alive_cleanedUp hharmless hfound hcleaned hu
  rw [cleanUpTime] at hclean
  rcases Nat.eq_or_lt_of_le hfound.le with hend | hlt
  · -- No socket has an identifier.
    have hr' : r'.length = p.found ticks := hcleaned.ends (hend.trans hfound.length.symm)
    have hget : p.getSocket ticks created =
        some (p.create (readings p.clock ticks (p.activeSockets.length + 1))
          (readings p.clock ticks (p.activeSockets.length + 2)) created r') := by
      simp only [Pool.getSocket, hfind, hclean, hr', ne_eq, not_true_eq_false, if_false]
    obtain ⟨obtained, sockets, hcreate, hexclusive⟩ :=
      create_exclusive created hsound halive (hlast (p.activeSockets.length + 2))
    exact ⟨obtained, sockets, by rw [hget, hcreate], hexclusive⟩
  · -- The socket that was found stays where it was.
    have hx : p.activeSockets[p.found ticks]? = some (p.activeSockets[p.found ticks]) :=
      List.getElem?_eq_getElem hlt
    obtain ⟨z, hz, haddress, -⟩ := hfound.same _ _ hx
    have hid := hfound.id
    rw [hx, Option.map_some] at hid
    have hstays : r'[p.found ticks]? = some z := hcleaned.stays.trans hz
    have hne : p.found ticks ≠ r'.length := by
      intro heq
      rw [heq, List.getElem?_length] at hstays
      cases hstays
    have hget : p.getSocket ticks created =
        some (some (z.address, p.activeSockets[p.found ticks].ring.nextId), r') := by
      simp only [Pool.getSocket, hfind, hclean, hstays, hid, if_pos hne, Fin.ofNat_val_eq_self]
    rw [hget]
    refine ⟨_, r', rfl, hsound, ?_, fun _ => ⟨fun u hu heq => ?_, halive⟩⟩
    · rintro o ⟨⟩
      exact List.mem_map.mpr ⟨z, List.mem_of_getElem? hstays, rfl⟩
    · rw [Option.some.injEq, Prod.mk.injEq] at heq
      exact hharmless.apart_found hx hu (haddress.symm.trans heq.1) heq.2.symm

/-- The condition on a step. -/
def Spares (p : Pool) : PoolAction → Prop
  | .getSocket _ ticks _ => p.Harmless ticks
  | _ => True

/-- What a call obtains is added to what the others hold. -/
private theorem mem_hold {held : List Holding} {call : Option ℕ} {obtained : Option (ℕ × Id)}
    {u : Holding} (hu : u ∈ hold held call obtained) : u ∈ held ∨ obtained = some (u.socket, u.id) := by
  unfold hold at hu
  split at hu
  · exact Or.inl hu
  · rcases List.mem_append.mp hu with hold | hnew
    · exact Or.inl (List.mem_of_mem_filter hold)
    · obtain ⟨o, ho, rfl⟩ := Option.map_eq_some_iff.mp (Option.mem_toList.mp hnew)
      exact Or.inr ho

/-- What the calls hold stays different when a call obtains what nobody holds. -/
private theorem pairwise_hold {held : List Holding} (call : Option ℕ) {obtained : Option (ℕ × Id)}
    (h : held.Pairwise fun a b => (a.socket, a.id) ≠ (b.socket, b.id))
    (hnew : ∀ u ∈ held, obtained ≠ some (u.socket, u.id)) :
    (hold held call obtained).Pairwise fun a b => (a.socket, a.id) ≠ (b.socket, b.id) := by
  unfold hold
  split
  · exact h
  · cases obtained with
    | none =>
      rw [Option.map_none, Option.toList_none, List.append_nil]
      exact h.filter _
    | some o =>
      rw [Option.map_some, Option.toList_some]
      refine List.pairwise_append.mpr ⟨h.filter _, List.pairwise_singleton .., ?_⟩
      intro u hu v hv heq
      rw [List.mem_singleton.mp hv] at heq
      exact hnew u (List.mem_of_mem_filter hu) (congrArg some heq.symm)

/-- Every step that satisfies the condition keeps the pool sound. -/
theorem Sound.step {a : PoolAction} (h : p.Sound) (hok : p.Spares a) (hstep : p.step a = some p') :
    p'.Sound := by
  cases a with
  | getSocket call ticks created =>
    obtain ⟨obtained, sockets, hget, hrings, hnew, hexclusive⟩ := h.getSocket hok created
    simp only [Pool.step, hget] at hstep
    split at hstep
    · rename_i hnodup
      cases hstep
      obtain ⟨hapart, halive⟩ := hexclusive hnodup
      refine ⟨hrings, hnodup, fun u hu => ?_, pairwise_hold call h.apart hapart⟩
      rcases mem_hold hu with hold | hobtained
      · exact halive u hold
      · exact hnew _ hobtained
    · cases hstep
  | finish call =>
    cases hstep
    exact ⟨h.rings, h.addresses, fun u hu => h.alive u (List.mem_of_mem_filter hu),
      h.apart.filter _⟩
  | setIdCacheTimeout timeout =>
    cases hstep
    split
    · exact h
    · have haddresses : (p.activeSockets.map fun x =>
          { x with ring := x.ring.setIdCacheTimeout timeout }).map PooledSocket.address =
            p.activeSockets.map PooledSocket.address := by
        rw [List.map_map]
        rfl
      refine ⟨fun y hy => ?_, haddresses ▸ h.addresses, fun u hu => haddresses ▸ h.alive u hu,
        h.apart⟩
      obtain ⟨x, hx, rfl⟩ := List.mem_map.mp hy
      exact (h.rings x hx).setIdCacheTimeout timeout
  | setSocketDeleteTimeout timeout =>
    cases hstep
    split
    · exact ⟨h.rings, h.addresses, h.alive, h.apart⟩
    · exact h

/-- In every run whose calls of `GetSocket` are harmless, the calls in progress hold different
pairs, of sockets that exist, and the next harmless call returns a pair that none of them holds and
deletes none of their sockets. -/
theorem exclusive {idCacheTimeout socketDeleteTimeout clock : ℤ} {as : List PoolAction}
    (run : Steps step Spares (new idCacheTimeout socketDeleteTimeout clock) as p) :
    (p.held.Pairwise fun a b => (a.socket, a.id) ≠ (b.socket, b.id)) ∧
    (∀ u ∈ p.held, u.socket ∈ p.activeSockets.map PooledSocket.address) ∧
    ∀ ticks created, p.Harmless ticks → ∃ obtained sockets,
      p.getSocket ticks created = some (obtained, sockets) ∧
        ((sockets.map PooledSocket.address).Nodup → p.Exclusive obtained sockets) := by
  have h : p.Sound := run.invariant ⟨nofun, .nil, nofun, .nil⟩ fun _ _ _ h hok hs => h.step hok hs
  refine ⟨h.apart, h.alive, fun ticks created hharmless => ?_⟩
  obtain ⟨obtained, sockets, hget, -, -, hexclusive⟩ := h.getSocket hharmless created
  exact ⟨obtained, sockets, hget, hexclusive⟩

instance (p : Pool) (ticks : List ℕ) : Decidable (p.Harmless ticks) :=
  decidable_of_iff ((∀ k < p.activeSockets.length, ∀ x ∈ p.activeSockets[k]?,
      k < p.found ticks ∨ k + 1 = p.activeSockets.length ∧ k ≠ p.found ticks →
        x.unused p.socketDeleteTimeout (p.cleanUpTime ticks) = false) ∧
    ∀ u ∈ p.held, ∀ k < p.activeSockets.length, ∀ x ∈ p.activeSockets[k]?,
      x.address = u.socket → x.reserved u.id (p.cleanUpTime ticks) = true ∨
        (k = p.found ticks → u.id ≠ x.ring.nextId) ∧
        (k ≠ p.found ticks → x.unused p.socketDeleteTimeout (p.cleanUpTime ticks) = false))
    ⟨fun h => ⟨h.1, h.2⟩, fun h => ⟨h.kept, h.used⟩⟩

instance (p : Pool) : (a : PoolAction) → Decidable (p.Spares a)
  | .getSocket _ ticks _ => inferInstanceAs (Decidable (p.Harmless ticks))
  | .finish _ | .setIdCacheTimeout _ | .setSocketDeleteTimeout _ => inferInstanceAs (Decidable True)

/-- Two calls hold different identifiers of one socket. -/
theorem exclusive_two : ∃ p, Steps step Spares
      (new defaultIdCacheTimeout defaultSocketDeleteTimeout 0)
      [.getSocket (some 0) [100000] (some (7, 0)), .getSocket (some 1) [500] none] p ∧
    p.held = [⟨0, 7, 0⟩, ⟨1, 7, 1⟩] ∧
    (p.held.Pairwise fun a b => (a.socket, a.id) ≠ (b.socket, b.id)) := by
  have heval : (runLabels (guarded step Spares)
      (new defaultIdCacheTimeout defaultSocketDeleteTimeout 0)
      [.getSocket (some 0) [100000] (some (7, 0)), .getSocket (some 1) [500] none]).map held =
        some [⟨0, 7, 0⟩, ⟨1, 7, 1⟩] := by
    decide +kernel
  obtain ⟨p, hrun, hheld⟩ := Option.map_eq_some_iff.mp heval
  have run := Steps.of_guarded (run_of_runLabels hrun)
  exact ⟨p, run, hheld, (exclusive run).1⟩

/-- A call of `MakeRequest` obtains an identifier, and is in progress when its time has run out.
Meanwhile 255 requests are sent without waiting for their responses. -/
def outlasted : List PoolAction :=
  .getSocket (some 0) [100900] (some (7, 0)) :: List.replicate 127 (.getSocket none [] none) ++
    .getSocket none [10100] none :: List.replicate 127 (.getSocket none [] none)

/-- The next call returns the pair that is held. -/
theorem not_exclusive_outlasted : ∃ p sockets,
    Run step (new defaultIdCacheTimeout defaultSocketDeleteTimeout 0) outlasted p ∧
    p.held = [⟨0, 7, 0⟩] ∧ p.getSocket [] none = some (some (7, 0), sockets) ∧
    ¬p.Exclusive (some (7, 0)) sockets := by
  have heval : (runLabels step (new defaultIdCacheTimeout defaultSocketDeleteTimeout 0)
      outlasted).map (fun p => (p.held, (p.getSocket [] none).map Prod.fst)) =
        some ([⟨0, 7, 0⟩], some (some (7, 0))) := by
    decide +kernel
  obtain ⟨p, hrun, heq⟩ := Option.map_eq_some_iff.mp heval
  obtain ⟨hheld, hget⟩ := Prod.mk.inj heq
  obtain ⟨⟨obtained, sockets⟩, hget, hobtained⟩ := Option.map_eq_some_iff.mp hget
  cases hobtained
  refine ⟨p, sockets, run_of_runLabels hrun, hheld, hget, fun hexclusive => ?_⟩
  exact hexclusive.apart ⟨0, 7, 0⟩ (hheld ▸ List.mem_singleton_self _) rfl

end Pool

end Dot1x.Radius
