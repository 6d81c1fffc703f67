import Dot1x.Base.Exec
import Dot1x.Radius.Pool

/-!
# Erasing from the sockets

The second loop of `GetSocket` keeps two iterators into the vector of sockets, of which one is past
the socket that is looked at. Erasing that socket invalidates the iterator, and the loop goes on with
it. The loop is modelled once more, with what it refreshes and deletes and with every read of an
iterator that is not valid any more; apart from these it does what the loop over indices does.
-/

namespace Dot1x.Radius

open Dot1x.Base

/-- An iterator into a vector. -/
structure Iter where
  index : ℕ
  valid : Bool

namespace Iter

def next (i : Iter) : Iter := { i with index := i.index + 1 }

/-- Erasing an element invalidates what refers to it, or to an element behind it. -/
def erased (i : Iter) (j : ℕ) : Iter := { i with valid := i.valid && decide (i.index < j) }

end Iter

/-- What `GetSocket` does on its way through the sockets. -/
inductive PoolEvent
  | refresh (x : PooledSocket)
  | delete (x : PooledSocket)
  /-- An iterator is read that is not valid. -/
  | invalidRead

/-- Read an iterator. -/
def Iter.read (i : Iter) : Exec PoolEvent Unit ℕ :=
  if i.valid then pure i.index
  else do
    Exec.tell .invalidRead
    pure i.index

/-- The second loop, with a bound on its iterations: the iterator of the first one and the sockets
after it. -/
def cleanUpLoop (deleteTimeout now : ℤ) : ℕ → Iter → Iter → List PooledSocket →
    Exec PoolEvent Unit (Iter × List PooledSocket)
  | 0, s, i, sockets => do
    let index ← i.read
    if index = sockets.length then pure (s, sockets) else Exec.fail ()
  | n + 1, s, i, sockets => do
    let index ← i.read
    if index = sockets.length then pure (s, sockets)
    else
      let chosen ← s.read
      if index = chosen then cleanUpLoop deleteTimeout now n s i.next sockets
      else match sockets[index]? with
        | none => Exec.fail ()
        | some x => do
          Exec.tell (.refresh x)
          let ring := x.ring.refreshIdCache (getTimeInSeconds now)
          if ring.canDestroy && ring.recentRequestTime + deleteTimeout < now then do
            Exec.tell (.delete x)
            cleanUpLoop deleteTimeout now n (s.erased index) (i.next.erased index)
              (sockets.eraseIdx index)
          else cleanUpLoop deleteTimeout now n s i.next (sockets.set index { x with ring := ring })

namespace Pool

/-- `GetSocket`, with what it does on its way. -/
def getSocketTrace (p : Pool) (ticks : List ℕ) (created : Option (ℕ × Id)) :
    Exec PoolEvent Unit (Option (ℕ × Id) × List PooledSocket) := do
  let n := p.activeSockets.length
  let clock := readings p.clock ticks
  let (sockets, s, newId) := findFree clock p.activeSockets
  let (s, sockets) ← cleanUpLoop p.socketDeleteTimeout (clock n) n ⟨s, true⟩ ⟨0, true⟩ sockets
  let index ← s.read
  if index ≠ sockets.length then
    match sockets[index]?, newId with
    | some x, some id => pure (some (x.address, Fin.ofNat 256 id), sockets)
    | _, _ => Exec.fail ()
  else pure (p.create (clock (n + 1)) (clock (n + 2)) created sockets)

end Pool

variable {deleteTimeout now : ℤ} {s n : ℕ} {l r : List PooledSocket} {x : PooledSocket}

/-- A valid iterator can be read. -/
theorem Iter.read_of_valid (k : ℕ) : (Iter.mk k true).read = pure k := rfl

/-- Reading any iterator gives its index, whether or not it may be read. -/
@[simp] theorem Iter.result_read (i : Iter) : i.read.result = .ok i.index := by
  unfold Iter.read
  split <;> rfl

/-- The loop over iterators does to the sockets what the loop over indices does. -/
private theorem cleanUpLoop_result (deleteTimeout now : ℤ) (n : ℕ) (s i : Iter)
    (sockets : List PooledSocket) :
    (cleanUpLoop deleteTimeout now n s i sockets).result.toOption.map Prod.snd =
        cleanUp deleteTimeout now s.index n i.index sockets ∧
      ∀ s' sockets', (cleanUpLoop deleteTimeout now n s i sockets).result = .ok (s', sockets') →
        s'.index = s.index := by
  have hend {s : Iter} {sockets : List PooledSocket} (s' : Iter) (sockets' : List PooledSocket)
      (h : (.ok (s, sockets) : Except Unit (Iter × List PooledSocket)) = .ok (s', sockets')) :
      s'.index = s.index := by
    cases h
    rfl
  induction n generalizing s i sockets with
  | zero =>
    rw [cleanUpLoop, Exec.result_bind_of_ok i.result_read, cleanUp]
    split
    · exact ⟨rfl, hend⟩
    · refine ⟨rfl, ?_⟩
      intro s' sockets' h
      cases h
  | succ n ih =>
    rw [cleanUpLoop, Exec.result_bind_of_ok i.result_read, cleanUp]
    split
    · exact ⟨rfl, hend⟩
    · rw [Exec.result_bind_of_ok s.result_read]
      split
      · exact ih s i.next sockets
      · cases sockets[i.index]? with
        | none =>
          refine ⟨rfl, ?_⟩
          intro s' sockets' h
          cases h
        | some x =>
          simp only
          rw [Exec.result_bind_of_ok (Exec.result_tell _)]
          split
          · rw [Exec.result_bind_of_ok (Exec.result_tell _)]
            exact ih (s.erased i.index) (i.next.erased i.index) _
          · exact ih s i.next _

/-- `GetSocket` returns what it returns in the model without iterators. -/
theorem Pool.getSocketTrace_result (p : Pool) (ticks : List ℕ) (created : Option (ℕ × Id)) :
    (p.getSocketTrace ticks created).result.toOption = p.getSocket ticks created := by
  simp only [getSocketTrace, getSocket]
  generalize findFree (readings p.clock ticks) p.activeSockets = found
  obtain ⟨sockets, s, newId⟩ := found
  obtain ⟨hcleaned, hindex⟩ := cleanUpLoop_result p.socketDeleteTimeout
    (readings p.clock ticks p.activeSockets.length) p.activeSockets.length ⟨s, true⟩ ⟨0, true⟩
    sockets
  simp only at hcleaned hindex ⊢
  rw [← hcleaned]
  cases hloop : (cleanUpLoop p.socketDeleteTimeout (readings p.clock ticks p.activeSockets.length)
      p.activeSockets.length ⟨s, true⟩ ⟨0, true⟩ sockets).result with
  | error e =>
    rw [Exec.result_bind_eq_error.mpr (Or.inl hloop)]
    rfl
  | ok cleaned =>
    obtain ⟨s', sockets'⟩ := cleaned
    rw [Exec.result_bind_of_ok hloop, Exec.result_bind_of_ok s'.result_read,
      hindex s' sockets' hloop]
    have hsome : ((.ok (s', sockets') : Except Unit (Iter × List PooledSocket)).toOption.map
      Prod.snd) = some sockets' := rfl
    rw [hsome]
    by_cases hend : s ≠ sockets'.length
    · simp only [if_pos hend]
      cases sockets'[s]? with
      | none => rfl
      | some x => cases newId <;> rfl
    · simp only [if_neg hend]
      rfl

/-- The sockets from a position on, without the one that was chosen. -/
def others (s : ℕ) : ℕ → List PooledSocket → List PooledSocket
  | _, [] => []
  | k, x :: r => if k = s then others s (k + 1) r else x :: others s (k + 1) r

/-- The others are all but the one at the position. -/
theorem mem_others {k : ℕ} : x ∈ others s k r ↔ ∃ j : ℕ, r[j]? = some x ∧ k + j ≠ s := by
  induction r generalizing k with
  | nil => simp [others]
  | cons y r ih =>
    have hsplit : (∃ j : ℕ, (y :: r)[j]? = some x ∧ k + j ≠ s) ↔
        (y = x ∧ k ≠ s) ∨ ∃ j : ℕ, r[j]? = some x ∧ k + 1 + j ≠ s := by
      constructor
      · rintro ⟨_ | j, hj, hne⟩
        · exact Or.inl ⟨Option.some.inj hj, hne⟩
        · exact Or.inr ⟨j, hj, by omega⟩
      · rintro (⟨rfl, hne⟩ | ⟨j, hj, hne⟩)
        · exact ⟨0, rfl, hne⟩
        · exact ⟨j + 1, hj, by omega⟩
    rw [hsplit, others, ← ih]
    split
    · rename_i heq
      simp [heq]
    · rename_i hne
      simp [hne, eq_comm]

/-- The loop ends at the end of the list. -/
theorem cleanUpLoop_nil : cleanUpLoop deleteTimeout now n ⟨s, true⟩ ⟨l.length, true⟩ (l ++ []) =
    pure (⟨s, true⟩, l ++ []) := by
  rw [List.append_nil]
  cases n with
  | zero => rw [cleanUpLoop, Iter.read_of_valid, pure_bind, if_pos rfl]
  | succ n => rw [cleanUpLoop, Iter.read_of_valid, pure_bind, if_pos rfl]

/-- What the second loop does at a socket, while its iterators are valid. -/
theorem cleanUpLoop_cons : cleanUpLoop deleteTimeout now (n + 1) ⟨s, true⟩ ⟨l.length, true⟩
    (l ++ x :: r) =
      if l.length = s then cleanUpLoop deleteTimeout now n ⟨s, true⟩ ⟨(l ++ [x]).length, true⟩
        (l ++ [x] ++ r)
      else Exec.tell (.refresh x) >>= fun _ =>
        if x.unused deleteTimeout now then
          Exec.tell (.delete x) >>= fun _ => cleanUpLoop deleteTimeout now n
            (Iter.erased ⟨s, true⟩ l.length) (Iter.erased ⟨l.length + 1, true⟩ l.length) (l ++ r)
        else cleanUpLoop deleteTimeout now n ⟨s, true⟩
          ⟨(l ++ [{ x with ring := x.ring.refreshIdCache (getTimeInSeconds now) }]).length, true⟩
          (l ++ [{ x with ring := x.ring.refreshIdCache (getTimeInSeconds now) }] ++ r) := by
  have hget : (l ++ x :: r)[l.length]? = some x := by simp
  have hset (y : PooledSocket) : (l ++ x :: r).set l.length y = l ++ [y] ++ r := by simp
  have herase : (l ++ x :: r).eraseIdx l.length = l ++ r := by
    simp [List.eraseIdx_append_of_length_le]
  have hlength (y : PooledSocket) : (l ++ [y]).length = l.length + 1 := List.length_append
  rw [cleanUpLoop, Iter.read_of_valid, pure_bind, if_neg (by simp), Iter.read_of_valid, pure_bind,
    hget, hlength, hlength, List.append_cons, PooledSocket.unused_eq]
  simp only [Iter.next, ← List.append_cons, hset, herase]

/-- If no socket but the chosen one can be deleted, the second loop refreshes all but that one. -/
theorem cleanUpLoop_of_kept (hn : r.length ≤ n)
    (hkept : ∀ x ∈ others s l.length r, x.unused deleteTimeout now = false) :
    ∃ r', r'.length = r.length ∧ (∀ j, l.length + j = s → r'[j]? = r[j]?) ∧
      cleanUpLoop deleteTimeout now n ⟨s, true⟩ ⟨l.length, true⟩ (l ++ r) =
        ⟨(others s l.length r).map .refresh, .ok (⟨s, true⟩, l ++ r')⟩ := by
  induction n generalizing l r with
  | zero =>
    have hnil : r = [] := List.length_eq_zero_iff.mp (Nat.le_zero.mp hn)
    subst hnil
    exact ⟨[], rfl, fun _ _ => rfl, cleanUpLoop_nil⟩
  | succ n ih =>
    cases r with
    | nil => exact ⟨[], rfl, fun _ _ => rfl, cleanUpLoop_nil⟩
    | cons x r =>
      -- The rest of the loop, with what has become of this socket.
      have hrest (y : PooledSocket)
          (hkept : ∀ x ∈ others s (l.length + 1) r, x.unused deleteTimeout now = false) :
          ∃ r', r'.length = r.length ∧ (∀ j, l.length + 1 + j = s → r'[j]? = r[j]?) ∧
            cleanUpLoop deleteTimeout now n ⟨s, true⟩ ⟨(l ++ [y]).length, true⟩ (l ++ [y] ++ r) =
              ⟨(others s (l.length + 1) r).map .refresh, .ok (⟨s, true⟩, l ++ y :: r')⟩ := by
        have hlength : (l ++ [y]).length = l.length + 1 := List.length_append
        have hih := ih (l := l ++ [y]) (r := r) (Nat.le_of_succ_le_succ hn) (by rwa [hlength])
        simpa only [hlength, List.append_assoc, List.singleton_append] using hih
      rw [cleanUpLoop_cons]
      rw [others] at hkept ⊢
      by_cases hs : l.length = s
      · rw [if_pos hs] at hkept ⊢
        rw [if_pos hs]
        obtain ⟨r', hlength, hstays, hloop⟩ := hrest x hkept
        refine ⟨x :: r', congrArg Nat.succ hlength, fun j hj => ?_, hloop⟩
        have hfirst : j = 0 := by omega
        rw [hfirst]
        rfl
      · rw [if_neg hs] at hkept ⊢
        rw [if_neg hs]
        rw [List.forall_mem_cons] at hkept
        let y : PooledSocket := { x with ring := x.ring.refreshIdCache (getTimeInSeconds now) }
        obtain ⟨r', hlength, hstays, hloop⟩ := hrest y hkept.2
        refine ⟨y :: r', congrArg Nat.succ hlength, fun j hj => ?_, ?_⟩
        · obtain ⟨k, rfl⟩ := Nat.exists_eq_succ_of_ne_zero (n := j) (by omega)
          exact hstays k (by omega)
        · rw [hkept.1, if_neg Bool.false_ne_true, hloop]
          rfl

/-- The loop reads its iterator. -/
private theorem invalidRead_of_invalid {s i : Iter} {sockets : List PooledSocket}
    (hi : i.valid = false) :
    .invalidRead ∈ (cleanUpLoop deleteTimeout now n s i sockets).log := by
  have hread : .invalidRead ∈ i.read.log := by
    rw [Iter.read, hi]
    exact List.mem_singleton_self _
  cases n with
  | zero => exact Exec.mem_log_bind_left hread
  | succ n => exact Exec.mem_log_bind_left hread

/-- If a socket other than the chosen one can be deleted, an iterator is read that is not valid. -/
theorem invalidRead_of_unused (hx : x ∈ others s l.length r)
    (hunused : x.unused deleteTimeout now = true) (hn : r.length ≤ n) :
    .invalidRead ∈ (cleanUpLoop deleteTimeout now n ⟨s, true⟩ ⟨l.length, true⟩ (l ++ r)).log := by
  induction n generalizing l r with
  | zero =>
    have hnil : r = [] := List.length_eq_zero_iff.mp (Nat.le_zero.mp hn)
    subst hnil
    cases hx
  | succ n ih =>
    cases r with
    | nil => cases hx
    | cons y r =>
      have hrest (z : PooledSocket) (hx : x ∈ others s (l.length + 1) r) : .invalidRead ∈
          (cleanUpLoop deleteTimeout now n ⟨s, true⟩ ⟨(l ++ [z]).length, true⟩
            (l ++ [z] ++ r)).log := by
        have hlength : (l ++ [z]).length = l.length + 1 := List.length_append
        exact ih (by rwa [hlength]) (Nat.le_of_succ_le_succ hn)
      rw [cleanUpLoop_cons]
      rw [others] at hx
      by_cases hs : l.length = s
      · rw [if_pos hs] at hx ⊢
        exact hrest y hx
      · rw [if_neg hs] at hx ⊢
        refine Exec.mem_log_bind_right (Exec.result_tell _) ?_
        split
        · -- The iterator is past the socket that is erased.
          refine Exec.mem_log_bind_right (Exec.result_tell _) (invalidRead_of_invalid ?_)
          exact decide_eq_false (Nat.not_lt.mpr (Nat.le_succ _))
        · rename_i hnot
          rcases List.mem_cons.mp hx with rfl | hx
          · exact absurd hunused hnot
          · exact hrest _ hx

/-- What the first loop does: the sockets it passes have no identifier and are refreshed, and the
one it ends at issues its next identifier. -/
structure Searched (clock : ℕ → ℤ) (l l' : List PooledSocket) (s : ℕ) (newId : Option ℕ) : Prop
    where
  length : l'.length = l.length
  le : s ≤ l.length
  /-- The sockets that are passed, and those that are not reached. -/
  others : ∀ (k : ℕ) x, l[k]? = some x → k ≠ s → l'[k]? = some (if k < s then
    { x with ring := x.ring.refreshIdCache (getTimeInSeconds (clock k)) } else x)
  chosen : ∀ x, l[s]? = some x → ∃ id ring, newId = some id ∧
    x.ring.generateNewId (clock s) = (some id, ring) ∧ l'[s]? = some { x with ring := ring }

/-- The first loop passes the sockets that have no identifier, and ends at one that has. -/
theorem searched_findFree (clock : ℕ → ℤ) (l : List PooledSocket) :
    Searched clock l (findFree clock l).1 (findFree clock l).2.1 (findFree clock l).2.2 := by
  induction l generalizing clock with
  | nil => exact ⟨rfl, le_rfl, nofun, nofun⟩
  | cons x rest ih =>
    rw [findFree]
    rcases x.ring.generateNewId_cases (clock 0) with hnone | ⟨ring, hsome⟩
    · have hrest := ih fun k => clock (k + 1)
      rw [hnone]
      refine ⟨congrArg Nat.succ hrest.length, Nat.succ_le_succ hrest.le, ?_, fun y hy => ?_⟩
      · rintro (_ | k) y hy hk
        · cases hy
          rfl
        · have hlater := hrest.others k y hy fun heq => hk (congrArg Nat.succ heq)
          simp only [Nat.add_lt_add_iff_right]
          exact hlater
      · exact hrest.chosen y hy
    · rw [hsome]
      refine ⟨rfl, Nat.zero_le _, ?_, ?_⟩
      · rintro (_ | k) y hy hk
        · exact absurd rfl hk
        · exact hy
      · rintro y ⟨⟩
        exact ⟨_, ring, rfl, hsome, rfl⟩

/-- The sockets that are refreshed. -/
def refreshed (log : List PoolEvent) : List PooledSocket :=
  log.filterMap fun
    | .refresh x => some x
    | _ => none

/-- The sockets that are deleted. -/
def deleted (log : List PoolEvent) : List PooledSocket :=
  log.filterMap fun
    | .delete x => some x
    | _ => none

/-- A log of refreshing names the sockets it refreshes. -/
theorem refreshed_map (l : List PooledSocket) : refreshed (l.map .refresh) = l := by
  simp [refreshed, List.filterMap_map]

/-- And deletes none. -/
theorem deleted_map (l : List PooledSocket) : deleted (l.map .refresh) = [] := by
  simp [deleted, List.filterMap_map]

namespace Pool

variable {p : Pool} {ticks : List ℕ} {created : Option (ℕ × Id)}

/-- The sockets that the second loop is to visit, as the first one leaves them. -/
def toVisit (p : Pool) (ticks : List ℕ) : List PooledSocket :=
  others (p.found ticks) 0 (findFree (readings p.clock ticks) p.activeSockets).1

/-- A socket in the vector has issued an identifier in a call of `GetSocket`: the first one that had
one, or a new one if there was none. -/
inductive Issued (p : Pool) (ticks : List ℕ) (created : Option (ℕ × Id)) (x : PooledSocket) (id : Id) :
    Prop
  | found {y : PooledSocket} {newId : ℕ} (hy : p.activeSockets[p.found ticks]? = some y)
      (haddress : x.address = y.address)
      (hissue : y.ring.generateNewId (readings p.clock ticks (p.found ticks)) =
        (some newId, x.ring)) (hid : id = Fin.ofNat 256 newId)
  | created {first : Id} {newId : ℕ} (hbusy : p.found ticks = p.activeSockets.length)
      (hcreated : created = some (x.address, first))
      (hissue : ((IdRing.new first (readings p.clock ticks
        (p.activeSockets.length + 1))).setIdCacheTimeout p.idCacheTimeout).generateNewId
          (readings p.clock ticks (p.activeSockets.length + 2)) = (some newId, x.ring))
      (hid : id = Fin.ofNat 256 newId)

/-- A call of `GetSocket` cleans up: it refreshes every other socket once, deletes those that can be
deleted, reads only iterators that are valid and not past the end, and returns a socket that is there
afterwards and has issued the identifier. -/
structure CleansUp (p : Pool) (ticks : List ℕ) (created : Option (ℕ × Id)) : Prop where
  visits : (refreshed (p.getSocketTrace ticks created).log).Perm (p.toVisit ticks)
  deletes : (deleted (p.getSocketTrace ticks created).log).Perm
    ((p.toVisit ticks).filter (·.unused p.socketDeleteTimeout (p.cleanUpTime ticks)))
  valid : .invalidRead ∉ (p.getSocketTrace ticks created).log
  inBounds : ∃ r, (p.getSocketTrace ticks created).result = .ok r
  returns : ∀ address id sockets,
    (p.getSocketTrace ticks created).result = .ok (some (address, id), sockets) →
      ∃ x ∈ sockets, x.address = address ∧ p.Issued ticks created x id

/-- No socket other than the one that is found can be deleted when it is refreshed. Those before it
are refreshed already. -/
def NoneUnused (p : Pool) (ticks : List ℕ) : Prop :=
  ∀ (k : ℕ) x, p.activeSockets[k]? = some x → k ≠ p.found ticks →
    (if k < p.found ticks then
      { x with ring := x.ring.refreshIdCache (getTimeInSeconds (readings p.clock ticks k)) }
    else x).unused p.socketDeleteTimeout (p.cleanUpTime ticks) = false

/-- What the first loop of a call does. -/
theorem searched (p : Pool) (ticks : List ℕ) :
    Searched (readings p.clock ticks) p.activeSockets
      (findFree (readings p.clock ticks) p.activeSockets).1 (p.found ticks)
      (findFree (readings p.clock ticks) p.activeSockets).2.2 :=
  searched_findFree _ _

/-- What the sockets to visit are before the call. -/
theorem noneUnused_iff : p.NoneUnused ticks ↔
    ∀ x ∈ p.toVisit ticks, x.unused p.socketDeleteTimeout (p.cleanUpTime ticks) = false := by
  have hsearched := p.searched ticks
  constructor
  · intro h x hx
    obtain ⟨k, hk, hne⟩ := mem_others.mp hx
    rw [Nat.zero_add] at hne
    obtain ⟨hlt, -⟩ := List.getElem?_eq_some_iff.mp hk
    rw [hsearched.length] at hlt
    have hbefore := List.getElem?_eq_getElem hlt
    have hafter := hsearched.others k _ hbefore hne
    cases hk.symm.trans hafter
    exact h k _ hbefore hne
  · intro h k x hx hne
    refine h _ (mem_others.mpr ⟨k, hsearched.others k x hx hne, ?_⟩)
    rwa [Nat.zero_add]

/-- A new socket has issued the identifier that is returned with it. -/
private theorem issued_create {sockets sockets' : List PooledSocket} {address : ℕ} {id : Id}
    (hbusy : p.found ticks = p.activeSockets.length)
    (h : p.create (readings p.clock ticks (p.activeSockets.length + 1))
      (readings p.clock ticks (p.activeSockets.length + 2)) created sockets =
        (some (address, id), sockets')) :
    ∃ x ∈ sockets', x.address = address ∧ p.Issued ticks created x id := by
  cases created with
  | none => cases h
  | some c =>
    obtain ⟨address', first⟩ := c
    simp only [create] at h
    generalize hissue : ((IdRing.new first (readings p.clock ticks
      (p.activeSockets.length + 1))).setIdCacheTimeout p.idCacheTimeout).generateNewId
        (readings p.clock ticks (p.activeSockets.length + 2)) = issued at h
    obtain ⟨newId, ring⟩ := issued
    cases newId with
    | none => cases h
    | some newId =>
      cases h
      exact ⟨_, List.mem_append_right _ (List.mem_singleton_self _), rfl,
        .created hbusy rfl hissue rfl⟩

/-- A call that refreshes the sockets to visit and deletes none cleans up, if it may. -/
theorem cleansUp_of_trace {obtained : Option (ℕ × Id)} {sockets : List PooledSocket}
    (hkept : ∀ x ∈ p.toVisit ticks, x.unused p.socketDeleteTimeout (p.cleanUpTime ticks) = false)
    (htrace : p.getSocketTrace ticks created =
      ⟨(p.toVisit ticks).map .refresh, .ok (obtained, sockets)⟩)
    (hobtained : ∀ address id, obtained = some (address, id) →
      ∃ x ∈ sockets, x.address = address ∧ p.Issued ticks created x id) :
    p.CleansUp ticks created where
  visits := by rw [htrace, refreshed_map]
  deletes := by
    have hnone : (p.toVisit ticks).filter
        (·.unused p.socketDeleteTimeout (p.cleanUpTime ticks)) = [] :=
      List.filter_eq_nil_iff.mpr fun x hx => by rw [hkept x hx]; exact Bool.false_ne_true
    rw [htrace, deleted_map, hnone]
  valid := by
    rw [htrace]
    simp
  inBounds := ⟨_, congrArg Exec.result htrace⟩
  returns := by
    intro address id sockets' hresult
    rw [htrace] at hresult
    cases hresult
    exact hobtained address id rfl

/-- If no other socket can be deleted, the call cleans up. -/
theorem cleansUp_of_noneUnused (h : p.NoneUnused ticks) : p.CleansUp ticks created := by
  have hkept := noneUnused_iff.mp h
  have hsearched := p.searched ticks
  obtain ⟨r', hlength, hstays, hloop⟩ := cleanUpLoop_of_kept (l := []) hsearched.length.le hkept
  have hstays := hstays (p.found ticks) (Nat.zero_add _)
  have htrace (obtained : Option (ℕ × Id) × List PooledSocket)
      (hobtained : (if p.found ticks ≠ r'.length then
        match r'[p.found ticks]?, (findFree (readings p.clock ticks) p.activeSockets).2.2 with
        | some x, some id => pure (some (x.address, Fin.ofNat 256 id), r')
        | _, _ => Exec.fail ()
      else pure (p.create (readings p.clock ticks (p.activeSockets.length + 1))
        (readings p.clock ticks (p.activeSockets.length + 2)) created r') :
          Exec PoolEvent Unit _) = pure obtained) :
      p.getSocketTrace ticks created = ⟨(p.toVisit ticks).map .refresh, .ok obtained⟩ := by
    have hbind (k : Iter × List PooledSocket → Exec PoolEvent Unit (Option (ℕ × Id) ×
        List PooledSocket)) : (⟨(p.toVisit ticks).map .refresh,
          .ok (⟨p.found ticks, true⟩, r')⟩ >>= k : Exec PoolEvent Unit _) =
            ⟨(p.toVisit ticks).map .refresh ++ (k (⟨p.found ticks, true⟩, r')).log,
              (k (⟨p.found ticks, true⟩, r')).result⟩ := rfl
    have hstart : p.getSocketTrace ticks created = cleanUpLoop p.socketDeleteTimeout
        (p.cleanUpTime ticks) p.activeSockets.length ⟨p.found ticks, true⟩ ⟨0, true⟩
          (findFree (readings p.clock ticks) p.activeSockets).1 >>= _ := rfl
    have hcleaned : cleanUpLoop p.socketDeleteTimeout (p.cleanUpTime ticks) p.activeSockets.length
        ⟨p.found ticks, true⟩ ⟨0, true⟩ (findFree (readings p.clock ticks) p.activeSockets).1 =
          ⟨(p.toVisit ticks).map .refresh, .ok (⟨p.found ticks, true⟩, r')⟩ := hloop
    rw [hstart, hcleaned, hbind]
    simp only [Iter.read_of_valid, pure_bind]
    rw [hobtained, Exec.log_pure, List.append_nil, Exec.result_pure]
  rcases Nat.eq_or_lt_of_le hsearched.le with hend | hlt
  · have hlast : p.found ticks = r'.length := by rw [hlength, hsearched.length, hend]
    refine cleansUp_of_trace hkept (htrace _ (if_neg (not_not.mpr hlast))) fun address id h => ?_
    exact issued_create hend (Prod.ext h rfl)
  · have hy := List.getElem?_eq_getElem hlt
    obtain ⟨newId, ring, hnew, hissue, hafter⟩ := hsearched.chosen _ hy
    have hin : p.found ticks ≠ r'.length := by
      rw [hlength, hsearched.length]
      exact hlt.ne
    rw [hstays, hafter, hnew, if_pos hin] at htrace
    refine cleansUp_of_trace hkept (htrace _ rfl) fun address id h => ?_
    cases h
    exact ⟨_, List.mem_of_getElem? (hstays.trans hafter), rfl, .found hy rfl hissue rfl⟩

/-- A call of `GetSocket` cleans up exactly when no socket other than the one that is found can be
deleted. -/
theorem cleansUp_iff (p : Pool) (ticks : List ℕ) (created : Option (ℕ × Id)) :
    p.CleansUp ticks created ↔ p.NoneUnused ticks := by
  refine ⟨fun h => noneUnused_iff.mpr fun x hx => ?_, cleansUp_of_noneUnused⟩
  by_contra hunused
  rw [Bool.not_eq_false] at hunused
  have hsearched := p.searched ticks
  have hread := invalidRead_of_unused (l := []) hx hunused hsearched.length.le
  exact h.valid (Exec.mem_log_bind_left hread)

/-- Two sockets, of which the second one was not used for two minutes and has reserved no
identifier. -/
def idlePool : Pool :=
  ⟨[⟨0, .new 0 120000⟩, ⟨1, .new 0 0⟩], defaultIdCacheTimeout, defaultSocketDeleteTimeout, 120000,
    []⟩

/-- Deleting the last socket takes the loop past the end. -/
theorem not_cleansUp_idlePool : ¬idlePool.CleansUp [] none ∧ idlePool.getSocket [] none = none := by
  refine ⟨fun h => ?_, by decide +kernel⟩
  have hidle := (cleansUp_iff idlePool [] none).mp h 1 ⟨1, .new 0 0⟩ rfl (by decide +kernel)
  exact absurd hidle (by decide +kernel)

end Pool

end Dot1x.Radius
