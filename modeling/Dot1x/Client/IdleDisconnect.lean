import Dot1x.Base.History
import Dot1x.Client.Listener
import Mathlib.Algebra.Group.Int.Defs
import Mathlib.Data.Int.DivMod

/-!
# Disconnecting an idle connection

The login window has a timer of one second. In CONNECTED its handler compares two counters of the
IP layer with those it remembers, counts the ticks without a change and disconnects when there are
more than the user has set. What it remembers are static variables: they outlive the connection, and
a tick in another state leaves them alone. So the first tick of a connection is compared with the
last one of the connection before.
-/

namespace Dot1x.Client

open Dot1x.Base

/-- The counters of `GetIpStatistics` that are looked at. -/
structure IpStats where
  inReceives : UInt32
  outRequests : UInt32
  deriving DecidableEq

/-- The static variables of `OnTimer`. -/
structure IdleStatics where
  recvPkts : UInt32
  sentPkts : UInt32
  idleCounter : ℤ

/-- What `OnTimer` reads from the registry. -/
structure IdleSettings where
  disconnectOnIdle : Bool
  idleTimeout : ℤ

/-- The connection state and the static variables. -/
structure IdleState where
  state : ConState
  statics : IdleStatics

/-- What the user, the listener and the clock do. -/
inductive IdleAction
  | login
  | logout
  /-- The listener has changed the connection state. -/
  | change (state : ConState)
  | tick (stats : IpStats)

/-- What is seen of it. -/
inductive IdleEvent
  | login
  | logout
  /-- A tick, with the connection state and the counters it found. -/
  | tick (state : ConState) (stats : IpStats)
  /-- `OnTimer` has called `OnDisconnect`. -/
  | disconnect
  deriving DecidableEq

/-- `++` of an `int`. -/
def increment (n : ℤ) : ℤ := (n + 1).bmod (2 ^ 32)

/-- The static variables as the program starts. -/
def IdleStatics.init : IdleStatics := ⟨0, 0, 0⟩

/-- Some counter is not the one that is remembered. -/
def IdleStatics.Differs (v : IdleStatics) (stats : IpStats) : Prop :=
  v.recvPkts ≠ stats.inReceives ∨ v.sentPkts ≠ stats.outRequests

instance (v : IdleStatics) (stats : IpStats) : Decidable (v.Differs stats) :=
  inferInstanceAs (Decidable (_ ∨ _))

/-- Compare the counters with those remembered. -/
def IdleStatics.sample (v : IdleStatics) (stats : IpStats) : IdleStatics :=
  if v.Differs stats then ⟨stats.inReceives, stats.outRequests, 0⟩
  else { v with idleCounter := increment v.idleCounter }

namespace IdleState

/-- Before the first login. -/
def init : IdleState := ⟨.unconnected, .init⟩

/-- `LoginDlg::OnTimer`, and whether it calls `OnDisconnect`. -/
def onTimer (cfg : IdleSettings) (s : IdleState) (stats : IpStats) : IdleState × Bool :=
  if s.state = .connected ∧ cfg.disconnectOnIdle then
    let v := s.statics.sample stats
    if cfg.idleTimeout < v.idleCounter then (⟨.unconnected, { v with idleCounter := 0 }⟩, true)
    else (⟨s.state, v⟩, false)
  else (s, false)

def step (cfg : IdleSettings) (s : IdleState) : IdleAction → Exec IdleEvent Empty IdleState
  | .login => ⟨[.login], .ok s⟩
  | .logout => ⟨[.logout], .ok { s with state := .unconnected }⟩
  | .change state => ⟨[], .ok { s with state := state }⟩
  | .tick stats =>
    ⟨.tick s.state stats :: if (s.onTimer cfg stats).2 then [.disconnect] else [],
      .ok (s.onTimer cfg stats).1⟩

/-- The history ends with `n` ticks in CONNECTED behind one more tick, all with the same counters and
nothing in between. -/
def IdleFor (n : ℕ) (past : List IdleEvent) : Prop :=
  ∃ state stats, .tick state stats :: List.replicate n (.tick .connected stats) <:+ past

/-- The latest event is a tick in CONNECTED. -/
def Continues (past : List IdleEvent) : Prop := ∃ stats, past.getLast? = some (.tick .connected stats)

/-- A tick in CONNECTED that does not follow another one finds other counters than those remembered,
or nothing is left over and the tick before found the same counters. -/
def StartsAnew (cfg : IdleSettings) (past : List IdleEvent) (s : IdleState) (a : IdleAction) : Prop :=
  ∀ stats, a = .tick stats → s.state = .connected → cfg.disconnectOnIdle → ¬Continues past →
    s.statics.Differs stats ∨
      s.statics.idleCounter = 0 ∧ ∃ state, past.getLast? = some (.tick state stats)

/-- `OnDisconnect` is called only where the connection was idle for more than the time set. -/
def Justified (t : ℕ) (past : List IdleEvent) (ev : IdleEvent) : Prop :=
  ev = .disconnect → IdleFor (t + 1) past

variable {cfg : IdleSettings} {past : List IdleEvent} {s : IdleState} {a : IdleAction}
  {state : ConState} {stats : IpStats} {n t : ℕ} {ev : IdleEvent}

/-- A counter is never below the least `int`, also where it wraps around. -/
theorem le_increment (n : ℤ) : -2 ^ 31 ≤ increment n := by
  have h := Int.le_bmod (x := n + 1) (m := 2 ^ 32) (by decide)
  unfold increment
  omega

/-- The counter may only wrap downwards. -/
theorem increment_le {n : ℤ} (h : -2 ^ 31 ≤ n) : increment n ≤ n + 1 := by
  unfold increment
  rw [Int.bmod_def]
  omega

/-- One tick is the beginning of a row. -/
theorem idleFor_zero (h : past.getLast? = some (.tick state stats)) : IdleFor 0 past := by
  obtain ⟨before, hpast⟩ := List.getLast?_eq_some_iff.mp h
  exact ⟨state, stats, before, hpast.symm⟩

/-- One more tick with the same counters. -/
theorem IdleFor.succ (h : IdleFor n past) (hlast : past.getLast? = some (.tick state stats)) :
    IdleFor (n + 1) (past ++ [.tick .connected stats]) := by
  obtain ⟨first, found, before, hpast⟩ := h
  have hfound : found = stats := by
    rw [← hpast, List.getLast?_append_of_ne_nil _ (by simp)] at hlast
    cases n with
    | zero =>
      cases hlast
      rfl
    | succ n =>
      rw [List.replicate_succ', ← List.cons_append, List.getLast?_concat] at hlast
      cases hlast
      rfl
  subst hfound
  refine ⟨first, found, before, ?_⟩
  rw [← hpast, List.replicate_succ', List.append_assoc]
  rfl

/-- What the static variables hold: the counters of the latest tick if it was one in CONNECTED, and
no more than the number of ticks for which the connection has been idle. -/
structure Remembers (cfg : IdleSettings) (past : List IdleEvent) (s : IdleState) : Prop where
  range : -2 ^ 31 ≤ s.statics.idleCounter
  latest : cfg.disconnectOnIdle → ∀ stats, past.getLast? = some (.tick .connected stats) →
    s.statics.recvPkts = stats.inReceives ∧ s.statics.sentPkts = stats.outRequests
  idle : cfg.disconnectOnIdle → Continues past →
    ∀ n : ℕ, (n : ℤ) ≤ s.statics.idleCounter → IdleFor n past

/-- An event other than a tick in CONNECTED leaves nothing to be said of the counters. -/
theorem Remembers.concat {s' : IdleState} (h : -2 ^ 31 ≤ s'.statics.idleCounter)
    (hev : ∀ stats, ev ≠ .tick .connected stats) : Remembers cfg (past ++ [ev]) s' := by
  have hnone (stats : IpStats) : (past ++ [ev]).getLast? ≠ some (.tick .connected stats) := by
    rw [List.getLast?_concat]
    exact fun heq => hev stats (Option.some.inj heq)
  exact ⟨h, fun _ stats hlast => absurd hlast (hnone stats),
    fun _ hcontinues => absurd hcontinues.choose_spec (hnone _)⟩

/-- A tick in CONNECTED. -/
theorem Remembers.sampled (state : ConState) (h : Remembers cfg past s) (henabled : cfg.disconnectOnIdle)
    (hstart : ¬Continues past → s.statics.Differs stats ∨
      s.statics.idleCounter = 0 ∧ ∃ state, past.getLast? = some (.tick state stats)) :
    Remembers cfg (past ++ [.tick .connected stats]) ⟨state, s.statics.sample stats⟩ := by
  have hlast : (past ++ [IdleEvent.tick .connected stats]).getLast? = some (.tick .connected stats) :=
    List.getLast?_concat
  by_cases hdiffers : s.statics.Differs stats
  · have hsample : s.statics.sample stats = ⟨stats.inReceives, stats.outRequests, 0⟩ := if_pos hdiffers
    rw [hsample]
    refine ⟨(by decide : (-2 ^ 31 : ℤ) ≤ 0), fun _ found hfound => ?_, fun _ _ n hn => ?_⟩
    · cases hlast.symm.trans hfound
      exact ⟨rfl, rfl⟩
    · obtain rfl : n = 0 := by
        dsimp only at hn
        omega
      exact idleFor_zero hlast
  · have hsample : s.statics.sample stats =
        { s.statics with idleCounter := increment s.statics.idleCounter } := if_neg hdiffers
    have hsame : s.statics.recvPkts = stats.inReceives ∧ s.statics.sentPkts = stats.outRequests := by
      unfold IdleStatics.Differs at hdiffers
      simpa only [not_or, not_not] using hdiffers
    rw [hsample]
    refine ⟨le_increment _, fun _ found hfound => ?_, fun _ _ n hn => ?_⟩
    · cases hlast.symm.trans hfound
      exact hsame
    · cases n with
      | zero => exact idleFor_zero hlast
      | succ n =>
        have hle := increment_le h.range
        have hcount : (n : ℤ) ≤ s.statics.idleCounter := by
          dsimp only at hn
          omega
        by_cases hcontinues : Continues past
        · obtain ⟨found, hfound⟩ := hcontinues
          obtain ⟨hrecv, hsent⟩ := h.latest henabled found hfound
          have heq : found = stats := by
            cases found
            cases stats
            simp_all
          rw [heq] at hfound
          exact (h.idle henabled ⟨stats, hfound⟩ n hcount).succ hfound
        · obtain ⟨hzero, first, hfirst⟩ := (hstart hcontinues).resolve_left hdiffers
          obtain rfl : n = 0 := by omega
          exact (idleFor_zero hfirst).succ hfirst

/-- A step that starts anew where it starts calls `OnDisconnect` with good reason. -/
theorem step_extends (h : Remembers cfg past s) (hok : StartsAnew cfg past s a)
    (ht : cfg.idleTimeout = t) :
    (step cfg s a).Extends (Remembers cfg) (Justified t) past := by
  cases a with
  | login =>
    refine ⟨.single (by simp [Justified]), fun s' hs' => ?_⟩
    cases hs'
    exact .concat h.range (by simp)
  | logout =>
    refine ⟨.single (by simp [Justified]), fun s' hs' => ?_⟩
    cases hs'
    exact .concat h.range (by simp)
  | change state =>
    refine ⟨.nil, fun s' hs' => ?_⟩
    cases hs'
    rw [step, List.append_nil]
    exact ⟨h.range, h.latest, h.idle⟩
  | tick stats =>
    have hfirst : Justified t past (.tick s.state stats) := by simp [Justified]
    by_cases hsample : s.state = .connected ∧ cfg.disconnectOnIdle
    · have hsampled := h.sampled s.state hsample.2 (hok stats rfl hsample.1 hsample.2)
      rw [← hsample.1] at hsampled
      by_cases hidle : cfg.idleTimeout < (s.statics.sample stats).idleCounter
      · have htimer : s.onTimer cfg stats =
            (⟨.unconnected, { s.statics.sample stats with idleCounter := 0 }⟩, true) := by
          rw [onTimer, if_pos hsample]
          exact if_pos hidle
        have hgood : IdleFor (t + 1) (past ++ [.tick s.state stats]) := by
          refine hsampled.idle hsample.2 ⟨stats, ?_⟩ (t + 1) (by push_cast; omega)
          rw [List.getLast?_concat, hsample.1]
        rw [step, htimer]
        refine ⟨.cons hfirst (.single fun _ => hgood), fun s' hs' => ?_⟩
        cases hs'
        have hend : Remembers cfg (past ++ [.tick s.state stats] ++ [.disconnect])
            ⟨.unconnected, { s.statics.sample stats with idleCounter := 0 }⟩ :=
          .concat (by decide : (-2 ^ 31 : ℤ) ≤ 0) (by simp)
        rwa [List.append_assoc] at hend
      · have htimer : s.onTimer cfg stats = (⟨s.state, s.statics.sample stats⟩, false) := by
          rw [onTimer, if_pos hsample]
          exact if_neg hidle
        rw [step, htimer]
        refine ⟨.single hfirst, fun s' hs' => ?_⟩
        cases hs'
        exact hsampled
    · have htimer : s.onTimer cfg stats = (s, false) := if_neg hsample
      rw [step, htimer]
      refine ⟨.single hfirst, fun s' hs' => ?_⟩
      cases hs'
      by_cases hstate : s.state = .connected
      · have hdisabled : ¬cfg.disconnectOnIdle := fun henabled => hsample ⟨hstate, henabled⟩
        exact ⟨h.range, fun henabled => absurd henabled hdisabled,
          fun henabled => absurd henabled hdisabled⟩
      · exact .concat h.range fun stats heq => hstate (IdleEvent.tick.inj heq).1

/-- Logins, logouts, changes of the state and ticks in any order, with any counters and any time that
is set: where each row of ticks in CONNECTED starts anew, `OnDisconnect` is called only when there
were more ticks than that in one session, in CONNECTED and without a change of the counters. -/
theorem idle_disconnects_justified (enabled : Bool) (t : ℕ) (actions : List IdleAction)
    (h : Exec.Meets (step ⟨enabled, t⟩) (StartsAnew ⟨enabled, t⟩) [] init actions) :
    Along (Justified t) [] (actions.foldlM (step ⟨enabled, t⟩) init).log := by
  have hinit : Remembers ⟨enabled, t⟩ [] init :=
    ⟨(by decide : (-2 ^ 31 : ℤ) ≤ 0), fun _ _ hlast => absurd hlast (by simp),
      fun _ hcontinues => absurd hcontinues.choose_spec (by simp)⟩
  exact (Exec.Extends.foldlM (fun _ _ _ hI hok => step_extends hI hok rfl) hinit h).along

/-- A session in which nothing is received or sent behind the first tick. -/
def quietSession (ticks : ℕ) : List IdleAction :=
  [.login, .change .connecting, .change .connected] ++ List.replicate ticks (.tick ⟨1, 1⟩)

/-- With a time of one second the third tick of the first session disconnects. -/
theorem idle_disconnects_justified_first :
    Along (Justified 1) [] ((quietSession 3).foldlM (step ⟨true, 1⟩) init).log ∧
      ((quietSession 3).foldlM (step ⟨true, 1⟩) init).log.getLast? = some .disconnect := by
  refine ⟨idle_disconnects_justified true 1 (quietSession 3)
    (Exec.Meets.of_take fun i a ha s hs stats htick _ _ hanew => ?_), by decide⟩
  rcases i with _ | _ | _ | _ | _ | _ | i
  · cases ha; cases htick
  · cases ha; cases htick
  · cases ha; cases htick
  · cases ha
    cases htick
    cases hs
    exact Or.inl (by decide)
  · exact absurd ⟨⟨1, 1⟩, by decide⟩ hanew
  · exact absurd ⟨⟨1, 1⟩, by decide⟩ hanew
  · cases ha

/-- The user logs out of such a session after two ticks and logs in again. The first tick of the new
session disconnects. -/
theorem disconnects_on_first_tick :
    ¬Along (Justified 1) [] ((quietSession 2 ++ .logout :: quietSession 1).foldlM
      (step ⟨true, 1⟩) init).log := by
  intro h
  have hlog : ((quietSession 2 ++ .logout :: quietSession 1).foldlM (step ⟨true, 1⟩) init).log =
      [.login, .tick .connected ⟨1, 1⟩, .tick .connected ⟨1, 1⟩, .logout, .login,
        .tick .connected ⟨1, 1⟩, .disconnect] := by
    decide
  rw [hlog] at h
  obtain ⟨state, stats, before, hbefore⟩ := h.getElem? (i := 6) rfl rfl
  have hsecond := congrArg (fun events => events.reverse[1]?) hbefore
  simp at hsecond

end IdleState

/-! The state that `OnTimer` reads is the one of the listener, and `OnDisconnect` is a `Logout`. -/

/-- The login window over the listener. -/
structure LoginWindow where
  listener : Listener
  statics : IdleStatics

/-- What happens to the window: something that concerns the listener, or a tick. -/
inductive WindowAction
  | listener (a : Action)
  | tick (stats : IpStats)

namespace LoginWindow

open Dot1x.Eap

variable {V : Vtable Handler} {cfg : IdleSettings} {w w' : LoginWindow} {a : WindowAction}

/-- What `OnTimer` sees of the window. -/
def idle (w : LoginWindow) : IdleState := ⟨w.listener.state, w.statics⟩

def step (V : Vtable Handler) (cfg : IdleSettings) (w : LoginWindow) :
    WindowAction → Option LoginWindow
  | .listener a => (w.listener.next V a).map fun l => { w with listener := l }
  | .tick stats =>
    let r := w.idle.onTimer cfg stats
    some ⟨if r.2 then w.listener.logout.1 else w.listener, r.1.statics⟩

/-- What `OnTimer` is concerned with in a step that led to a window. -/
def seen (w' : LoginWindow) : WindowAction → List IdleAction
  | .listener (.login _) => [.login, .change w'.listener.state]
  | .listener (.deliver _) => [.change w'.listener.state]
  | .listener .logout => [.logout]
  | .tick stats => [.tick stats]

/-- A call of `OnDisconnect` is the only change of the state by a tick. -/
private theorem onTimer_state (cfg : IdleSettings) (s : IdleState) (stats : IpStats) :
    (s.onTimer cfg stats).1.state = if (s.onTimer cfg stats).2 then .unconnected else s.state := by
  unfold IdleState.onTimer
  split
  · dsimp only
    split <;> rfl
  · rfl

/-- Every step of the window is one of what `OnTimer` sees of it. -/
theorem step_seen (h : w.step V cfg a = some w') :
    ((w'.seen a).foldlM (IdleState.step cfg) w.idle).result = .ok w'.idle := by
  cases a with
  | tick stats =>
    cases h
    change Except.ok (w.idle.onTimer cfg stats).1 = _
    have hstate := onTimer_state cfg w.idle stats
    generalize w.idle.onTimer cfg stats = r at hstate ⊢
    obtain ⟨⟨state, statics⟩, disconnects⟩ := r
    cases disconnects with
    | false =>
      cases hstate
      rfl
    | true =>
      cases hstate
      rfl
  | listener a =>
    obtain ⟨l, hl, rfl⟩ := Option.map_eq_some_iff.mp h
    cases a with
    | login c => rfl
    | deliver d => rfl
    | logout =>
      cases hl
      rfl

end LoginWindow

end Dot1x.Client
