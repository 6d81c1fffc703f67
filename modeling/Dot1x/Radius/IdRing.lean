import Dot1x.Base.Slots
import Dot1x.Radius.Socket

/-!
# The identifiers of a socket

A socket hands out the 256 identifiers in ring order. An identifier is reserved from the moment it
is issued until the cache timeout has run out; the reserved ones are the slots from `oldestId` up to
`nextId`. One slot always stays free, so that a ring in which all are reserved is not taken for one
in which none is.

Points in time and intervals are in milliseconds, time stamps in seconds.
-/

namespace Dot1x.Radius

open Dot1x.Base

/-- `PTime::GetTimeInSeconds` -/
def getTimeInSeconds (time : ℤ) : ℤ := time / 1000

/-- `PTimeInterval::GetSeconds` -/
def getSeconds (interval : ℤ) : ℤ := interval.tdiv 1000

/-- `RadiusClient::DefaultIdCacheTimeout` -/
def defaultIdCacheTimeout : ℤ := 9000

/-- The data members of a socket that concern its identifiers. -/
structure IdRing where
  oldestId : Id
  nextId : Id
  idTimestamps : Id → ℤ
  recentRequestTime : ℤ
  idCacheTimeout : ℤ

namespace IdRing

/-- What the constructor does, for the identifier it draws. -/
def new (id : Id) (now : ℤ) : IdRing := ⟨id, id, fun _ => 0, now, defaultIdCacheTimeout⟩

def setIdCacheTimeout (r : IdRing) (timeout : ℤ) : IdRing := { r with idCacheTimeout := timeout }

/-- No identifier is reserved. -/
def canDestroy (r : IdRing) : Bool := r.oldestId = r.nextId

/-- The time for which an identifier stays reserved, in seconds. -/
def timeout (r : IdRing) : ℤ := getSeconds r.idCacheTimeout

/-- The loop of `RefreshIdCache`. -/
def refreshLoop (now : ℤ) : ℕ → IdRing → IdRing
  | 0, r => r
  | n + 1, r =>
    if r.idTimestamps r.oldestId + r.timeout < now then
      refreshLoop now n { r with oldestId := r.oldestId + 1 }
    else r

/-- `RefreshIdCache` -/
def refreshIdCache (r : IdRing) (now : ℤ) : IdRing :=
  let lastId := if r.oldestId ≤ r.nextId then r.nextId.val else r.nextId.val + 256
  refreshLoop now (lastId - r.oldestId.val) r

/-- `GenerateNewId` -/
def generateNewId (r : IdRing) (now : ℤ) : Option ℕ × IdRing :=
  let nowInSeconds := getTimeInSeconds now
  let r := r.refreshIdCache nowInSeconds
  if (r.nextId.val + 1) % 256 = r.oldestId.val then (none, r)
  else (some r.nextId.val, { r with
    recentRequestTime := now
    idTimestamps := Function.update r.idTimestamps r.nextId nowInSeconds
    nextId := r.nextId + 1 })

/-- The identifiers that are reserved and the times at which they were issued, oldest first. -/
structure Reserves (r : IdRing) (live : List (Id × ℤ)) : Prop where
  ids : live.map Prod.fst = slots r.oldestId live.length
  next : r.nextId = r.oldestId + Fin.ofNat 256 live.length
  stamps : ∀ e ∈ live, r.idTimestamps e.1 = e.2
  short : live.length < 256

variable {r : IdRing} {live : List (Id × ℤ)} {now : ℤ}

/-- A new socket has issued none. -/
theorem reserves_new (id : Id) (now : ℤ) : (new id now).Reserves [] where
  ids := rfl
  next := (add_zero id).symm
  stamps := by simp
  short := by simp

/-- Another timeout does not touch the reservations. -/
theorem Reserves.setIdCacheTimeout (h : r.Reserves live) (timeout : ℤ) :
    (r.setIdCacheTimeout timeout).Reserves live :=
  ⟨h.ids, h.next, h.stamps, h.short⟩

/-- The bound of the refresh loop is the number of reserved identifiers. -/
private theorem Reserves.distance (h : r.Reserves live) :
    (if r.oldestId ≤ r.nextId then r.nextId.val else r.nextId.val + 256) - r.oldestId.val =
      live.length := by
  have hlen := h.short
  have hnext : r.nextId.val = (r.oldestId.val + live.length) % 256 := by
    rw [h.next, Fin.val_add, Fin.val_ofNat, Nat.add_mod_mod]
  simp only [Fin.le_def, hnext]
  split <;> omega

/-- A socket can be destroyed exactly where no identifier is in use. -/
theorem Reserves.canDestroy_iff (h : r.Reserves live) : r.canDestroy = true ↔ live = [] := by
  rw [canDestroy, decide_eq_true_eq, eq_comm, h.next, add_ofNat_eq_self_iff h.short,
    List.length_eq_zero_iff]

/-- The loop gives back the identifiers at the beginning whose time has run out. -/
theorem Reserves.refreshLoop (h : r.Reserves live) (now : ℤ) :
    (refreshLoop now live.length r).Reserves
      (live.dropWhile fun e => decide (e.2 + r.timeout < now)) := by
  induction live generalizing r with
  | nil => exact h
  | cons e live ih =>
    have hids := h.ids
    rw [List.map_cons, List.length_cons, slots_succ, List.cons.injEq] at hids
    have hstamp : r.idTimestamps r.oldestId = e.2 := hids.1 ▸ h.stamps e List.mem_cons_self
    by_cases hexpired : e.2 + r.timeout < now
    · have hnext : r.nextId = r.oldestId + 1 + Fin.ofNat 256 live.length := by
        have hmem := slots_concat r.oldestId (live.length + 1)
        rw [slots_succ, slots_concat, ← List.cons_append] at hmem
        exact h.next.trans (List.singleton_inj.mp (List.append_inj_right' hmem rfl)).symm
      have hrest : ({ r with oldestId := r.oldestId + 1 } : IdRing).Reserves live :=
        ⟨hids.2, hnext, fun f hf => h.stamps f (List.mem_cons_of_mem _ hf),
          (Nat.lt_succ_self _).trans h.short⟩
      rw [List.length_cons, IdRing.refreshLoop, hstamp, if_pos hexpired,
        List.dropWhile_cons_of_pos (by simpa using hexpired)]
      exact ih hrest
    · rw [List.length_cons, IdRing.refreshLoop, hstamp, if_neg hexpired,
        List.dropWhile_cons_of_neg (by simpa using hexpired)]
      exact h

/-- Refreshing gives back exactly the identifiers whose time has run out. -/
theorem Reserves.refreshIdCache (h : r.Reserves live)
    (hsorted : live.Pairwise fun a b => a.2 ≤ b.2) :
    (r.refreshIdCache now).Reserves (live.filter fun e => decide (now ≤ e.2 + r.timeout)) := by
  have hloop := h.refreshLoop now
  rw [dropWhile_eq_filter (hsorted.imp fun hab hb => ?_)] at hloop
  · simp only [decide_not, ← not_lt] at hloop ⊢
    rw [IdRing.refreshIdCache, h.distance]
    exact hloop
  · simp only [decide_eq_true_eq] at hb ⊢
    omega

/-- Refreshing does not change the timeout. -/
@[simp] theorem refreshLoop_timeout (n : ℕ) : (refreshLoop now n r).timeout = r.timeout := by
  induction n generalizing r with
  | zero => rfl
  | succ n ih =>
    rw [refreshLoop]
    split
    · exact ih
    · rfl

/-- Refreshing the cache does not change the timeout. -/
@[simp] theorem refreshIdCache_timeout : (r.refreshIdCache now).timeout = r.timeout :=
  refreshLoop_timeout _

/-- A full ring issues nothing. -/
theorem Reserves.generateNewId_full (h : (r.refreshIdCache (getTimeInSeconds now)).Reserves live)
    (hfull : live.length = 255) :
    r.generateNewId now = (none, r.refreshIdCache (getTimeInSeconds now)) := by
  rw [generateNewId, if_pos]
  rw [h.next, Fin.val_add, Fin.val_ofNat, hfull]
  omega

/-- A ring that is not full issues an identifier that is not reserved, and reserves it. -/
theorem Reserves.generateNewId (h : (r.refreshIdCache (getTimeInSeconds now)).Reserves live)
    (hroom : live.length ≠ 255) : ∃ id s, r.generateNewId now = (some id.val, s) ∧
      id ∉ live.map Prod.fst ∧ s.timeout = r.timeout ∧ s.recentRequestTime = now ∧
      s.Reserves (live ++ [(id, getTimeInSeconds now)]) := by
  have hshort := h.short
  have hnot : ((r.refreshIdCache (getTimeInSeconds now)).nextId.val + 1) % 256 ≠
      (r.refreshIdCache (getTimeInSeconds now)).oldestId.val := by
    rw [h.next, Fin.val_add, Fin.val_ofNat]
    omega
  have hfree : (r.refreshIdCache (getTimeInSeconds now)).nextId ∉ live.map Prod.fst := by
    rw [h.ids, h.next]
    exact add_ofNat_notMem_slots hshort
  rw [IdRing.generateNewId, if_neg hnot]
  refine ⟨_, _, rfl, hfree, refreshIdCache_timeout, rfl, ?_, ?_, ?_, ?_⟩
  · rw [List.map_append, List.length_append, List.length_singleton, slots_concat, h.ids, h.next]
    rfl
  · rw [List.length_append, List.length_singleton]
    change (r.refreshIdCache (getTimeInSeconds now)).nextId + 1 = _
    rw [h.next, add_assoc]
    congr 1
    apply Fin.ext
    simp [Fin.val_add]
  · intro e he
    rcases List.mem_append.mp he with hold | hnew
    · have hne : e.1 ≠ (r.refreshIdCache (getTimeInSeconds now)).nextId := by
        rintro heq
        exact hfree (heq ▸ List.mem_map_of_mem hold)
      exact (Function.update_of_ne hne ..).trans (h.stamps e hold)
    · rw [List.mem_singleton.mp hnew]
      exact Function.update_self ..
  · rw [List.length_append, List.length_singleton]
    omega

end IdRing

/-- A call of a member function of a socket that concerns its identifiers, with the time at which
it is made. -/
inductive RingCall
  | generateNewId (now : ℤ)
  | refreshIdCache (now : ℤ)

/-- The time of a call, in seconds. -/
def RingCall.time : RingCall → ℤ
  | .generateNewId now => getTimeInSeconds now
  | .refreshIdCache now => now

/-- A ring, the time of the last call and what was issued so far, oldest first. -/
structure Issuing where
  ring : IdRing
  clock : ℤ
  issued : List (Id × ℤ)

namespace Issuing

/-- Log what a ring issues. -/
def step (h : Issuing) : RingCall → Option Issuing
  | .generateNewId now =>
    let (id, ring) := h.ring.generateNewId now
    let issued := id.toList.map fun n => (Fin.ofNat 256 n, getTimeInSeconds now)
    some ⟨ring, getTimeInSeconds now, h.issued ++ issued⟩
  | .refreshIdCache now => some ⟨h.ring.refreshIdCache now, now, h.issued⟩

/-- Time does not go back. -/
def Forward (h : Issuing) (c : RingCall) : Prop := h.clock ≤ c.time

/-- The identifiers whose time has not run out. -/
def unexpired (T now : ℤ) (issued : List (Id × ℤ)) : List (Id × ℤ) :=
  issued.filter fun e => decide (now ≤ e.2 + T)

/-- What has run out stays so. -/
theorem unexpired_unexpired {T now later : ℤ} (h : now ≤ later) (issued : List (Id × ℤ)) :
    unexpired T later (unexpired T now issued) = unexpired T later issued := by
  rw [unexpired, unexpired, List.filter_filter]
  refine List.filter_congr fun e _ => ?_
  rw [Bool.and_eq_left_iff_imp, decide_eq_true_eq, decide_eq_true_eq]
  exact h.trans

/-- The ring reserves what was issued, except for identifiers whose time has run out, and none was
issued again before its time had run out. -/
structure Faithful (T : ℤ) (h : Issuing) : Prop where
  timeout : h.ring.timeout = T
  sorted : h.issued.Pairwise fun a b => a.2 ≤ b.2
  past : ∀ e ∈ h.issued, e.2 ≤ h.clock
  reserves : ∃ live, h.ring.Reserves live ∧ live.Sublist h.issued ∧
    ∀ now, h.clock ≤ now → unexpired T now live = unexpired T now h.issued
  apart : h.issued.Pairwise fun a b => a.1 = b.1 → a.2 + T < b.2

variable {h h' : Issuing} {T now : ℤ} {c : RingCall}

/-- After a refresh the reserved identifiers are those whose time has not run out by then. -/
theorem Faithful.refresh (hf : h.Faithful T) (hnow : h.clock ≤ now) :
    (h.ring.refreshIdCache now).Reserves (unexpired T now h.issued) := by
  obtain ⟨live, hlive, hsub, hsame⟩ := hf.reserves
  have hrefresh : (h.ring.refreshIdCache now).Reserves
      (live.filter fun e => decide (now ≤ e.2 + h.ring.timeout)) :=
    hlive.refreshIdCache (hf.sorted.sublist hsub)
  rw [hf.timeout] at hrefresh
  exact hsame now hnow ▸ hrefresh

/-- A call that issues nothing keeps it so. -/
theorem Faithful.refreshed (hf : h.Faithful T) (hnow : h.clock ≤ now) :
    Faithful T ⟨h.ring.refreshIdCache now, now, h.issued⟩ where
  timeout := IdRing.refreshIdCache_timeout.trans hf.timeout
  sorted := hf.sorted
  past e he := (hf.past e he).trans hnow
  reserves := ⟨_, hf.refresh hnow, List.filter_sublist,
    fun _ hlater => unexpired_unexpired hlater h.issued⟩
  apart := hf.apart

/-- Issuing an identifier that is not reserved keeps it so. -/
theorem Faithful.issue (hf : h.Faithful T) (hnow : h.clock ≤ now) {id : Id} {s : IdRing}
    (htimeout : s.timeout = h.ring.timeout)
    (hfresh : id ∉ (unexpired T now h.issued).map Prod.fst)
    (hs : s.Reserves (unexpired T now h.issued ++ [(id, now)])) :
    Faithful T ⟨s, now, h.issued ++ [(id, now)]⟩ where
  timeout := htimeout.trans hf.timeout
  sorted := by
    refine List.pairwise_append.mpr ⟨hf.sorted, List.pairwise_singleton .., fun e he f hf' => ?_⟩
    rw [List.mem_singleton.mp hf']
    exact (hf.past e he).trans hnow
  past e he := by
    rcases List.mem_append.mp he with hold | hnew
    · exact (hf.past e hold).trans hnow
    · rw [List.mem_singleton.mp hnew]
  reserves := by
    refine ⟨_, hs, List.filter_sublist.append_right _, fun later hlater => ?_⟩
    have hsame : unexpired T later (unexpired T now h.issued) = unexpired T later h.issued :=
      unexpired_unexpired hlater h.issued
    simp only [unexpired, List.filter_append] at hsame ⊢
    rw [hsame]
  apart := by
    refine List.pairwise_append.mpr ⟨hf.apart, List.pairwise_singleton .., fun e he f hf' => ?_⟩
    rw [List.mem_singleton.mp hf']
    intro hid
    by_contra hlive
    have hmem : e ∈ unexpired T now h.issued :=
      List.mem_filter.mpr ⟨he, decide_eq_true (Int.not_lt.mp hlive)⟩
    exact hfresh (List.mem_map.mpr ⟨e, hmem, hid⟩)

/-- Every call at a time that is not before the last one keeps it so. -/
theorem Faithful.step (hf : h.Faithful T) (hnow : h.Forward c) (hstep : h.step c = some h') :
    h'.Faithful T := by
  cases c with
  | refreshIdCache now =>
    cases hstep
    exact hf.refreshed hnow
  | generateNewId now =>
    have hrefresh := hf.refresh hnow
    by_cases hfull : (unexpired T (getTimeInSeconds now) h.issued).length = 255
    · simp only [Issuing.step, hrefresh.generateNewId_full hfull] at hstep
      cases hstep
      simp only [Option.toList_none, List.map_nil, List.append_nil]
      exact hf.refreshed hnow
    · obtain ⟨id, s, hgen, hfresh, htimeout, -, hs⟩ := hrefresh.generateNewId hfull
      simp only [Issuing.step, hgen] at hstep
      cases hstep
      have hid : Fin.ofNat 256 id.val = id := Fin.ofNat_val_eq_self id
      simp only [Option.toList_some, List.map_cons, List.map_nil, hid]
      exact hf.issue hnow htimeout hfresh hs

/-- A new socket with some timeout, before any call. -/
def start (id : Id) (created : ℤ) (timeout : ℤ) (clock : ℤ) : Issuing :=
  ⟨(IdRing.new id created).setIdCacheTimeout timeout, clock, []⟩

/-- A new ring is faithful. -/
private theorem faithful_start (id : Id) (created timeout clock : ℤ) :
    (start id created timeout clock).Faithful (getSeconds timeout) where
  timeout := rfl
  sorted := .nil
  past := by simp [start]
  reserves := ⟨[], (IdRing.reserves_new id created).setIdCacheTimeout timeout, .slnil,
    fun _ _ => rfl⟩
  apart := .nil

/-- In every run of calls at times that do not go back, an identifier is issued again only after
its time has run out; the next call issues an identifier below 256, or none, and none exactly when
255 identifiers were issued that have not run out. -/
theorem issued_apart {id : Id} {created timeout clock : ℤ} {calls : List RingCall}
    (run : Steps step Forward (start id created timeout clock) calls h)
    (hnow : h.Forward (.generateNewId now)) :
    (h.issued.Pairwise fun a b => a.1 = b.1 → a.2 + getSeconds timeout < b.2) ∧
      (∀ n, (h.ring.generateNewId now).1 = some n → n < 256) ∧
      ((h.ring.generateNewId now).1 = none ↔
        (h.issued.filter fun e =>
          decide (getTimeInSeconds now - getSeconds timeout ≤ e.2)).length = 255) := by
  have hf : h.Faithful (getSeconds timeout) :=
    run.invariant (faithful_start ..) fun _ _ _ hf hok hstep => hf.step hok hstep
  have hrefresh := hf.refresh hnow
  have hsame : h.issued.filter (fun e =>
      decide (getTimeInSeconds now - getSeconds timeout ≤ e.2)) =
        unexpired (getSeconds timeout) (getTimeInSeconds now) h.issued :=
    List.filter_congr fun e _ => decide_eq_decide.mpr ⟨by omega, by omega⟩
  rw [hsame]
  refine ⟨hf.apart, ?_⟩
  by_cases hfull :
      (unexpired (getSeconds timeout) (getTimeInSeconds now) h.issued).length = 255
  · rw [hrefresh.generateNewId_full hfull]
    exact ⟨nofun, iff_of_true rfl hfull⟩
  · obtain ⟨n, s, hgen, -⟩ := hrefresh.generateNewId hfull
    rw [hgen]
    refine ⟨fun k hk => ?_, iff_of_false (Option.some_ne_none _) hfull⟩
    cases hk
    exact n.isLt

instance (h : Issuing) (c : RingCall) : Decidable (h.Forward c) :=
  inferInstanceAs (Decidable (h.clock ≤ c.time))

/-- Three identifiers around the end of the ring, with the default timeout. -/
theorem issued_apart_wrap : ∃ h,
    Steps step Forward (start 255 99000 defaultIdCacheTimeout 99)
      [.generateNewId 100000, .generateNewId 100500, .generateNewId 108999] h ∧
    h.issued = [(255, 100), (0, 100), (1, 108)] ∧
    ((h.ring.generateNewId 110000).1 = none ↔
      (h.issued.filter fun e =>
        decide (getTimeInSeconds 110000 - getSeconds defaultIdCacheTimeout ≤ e.2)).length =
          255) := by
  have heval : ((runLabels (guarded step Forward) (start 255 99000 defaultIdCacheTimeout 99)
      [.generateNewId 100000, .generateNewId 100500, .generateNewId 108999]).map fun h =>
        (h.issued, h.clock)) = some ([(255, 100), (0, 100), (1, 108)], 108) := by
    decide +kernel
  obtain ⟨h, hrun, heq⟩ := Option.map_eq_some_iff.mp heval
  obtain ⟨hissued, hclock⟩ := Prod.mk.inj heq
  have run := Steps.of_guarded (run_of_runLabels hrun)
  have hnow : h.Forward (.generateNewId 110000) := by
    rw [Forward, hclock]
    decide
  exact ⟨h, run, hissued, (issued_apart run hnow).2.2⟩

end Issuing

end Dot1x.Radius
