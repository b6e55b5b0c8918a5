import Xv6.Futex.Wakeup

/-!
The condition variable of uthread.c: cond_wait, cond_signal and cond_broadcast over the
word seq. A signal is a load of seq, an exchange and a futex_wake, so two signals can
overlap and store the same number, and a futex_wake of one thread can find a thread that
came after the signal. Without such overlaps no signal is lost.
-/
namespace Xv6

/-- Where a thread is in the functions of the condition variable; k counts the calls that
    it has finished. -/
inductive CondPc where
  | out (k : Nat)
  /-- cond_wait, before it reads seq -/
  | wait (k : Nat)
  /-- before it unlocks m -/
  | held (k seq : Nat)
  /-- before futex_wait -/
  | released (k seq : Nat)
  /-- after futex_wait, before it locks m again -/
  | woken (k : Nat)
  /-- cond_signal or cond_broadcast, before it reads seq -/
  | signal (k : Nat) (all : Bool)
  /-- before the exchange -/
  | bump (k : Nat) (all : Bool) (seq : Nat)
  /-- before futex_wake -/
  | bumped (k : Nat) (all : Bool)
  deriving DecidableEq, Repr

/-- The argument of futex_wake in cond_signal and cond_broadcast. -/
def wakeCount (all : Bool) : Int := if all then 0 else 1

/-- cond_wait, cond_signal or cond_broadcast. What the mutex m does is left open, so that
    every behaviour of the calls with or without m is a run. -/
def condProg : CondPc → Nat → Option (Instr CondPc)
  | .out k, 0 => some (.skip (.wait k))
  | .out k, 1 => some (.skip (.signal k false))
  | .out k, 2 => some (.skip (.signal k true))
  | .out _, _ => none
  | .wait k, _ => some (.load (.held k))
  | .held k seq, _ => some (.skip (.released k seq))
  | .released k seq, _ => some (.futexWait seq (.woken k))
  | .woken k, _ => some (.skip (.out (k + 1)))
  | .signal k all, _ => some (.load (.bump k all))
  | .bump k all seq, _ => some (.exchange ((seq + 1) % 4294967296) fun _ => .bumped k all)
  | .bumped k all, _ => some (.futexWake (wakeCount all) (.out (k + 1)))

namespace Spot

/-- Has released m in its call k of cond_wait, and has not returned from futex_wait. -/
def Released (k : Nat) : Spot CondPc → Prop
  | .user (.released j _) => j = k
  | .check _ (.woken j) | .translate _ (.woken j) | .acquire _ _ (.woken j) | .locked _ _ (.woken j)
  | .asleep _ _ (.woken j) => j = k
  | _ => False

def Past (k : Nat) : Spot CondPc → Prop
  | .user (.woken j) => k ≤ j
  | .user (.out j) | .user (.wait j) | .user (.held j _) | .user (.released j _) | .user (.signal j _)
  | .user (.bump j _ _) | .user (.bumped j _) => k < j
  | .check _ (.woken j) | .translate _ (.woken j) | .acquire _ _ (.woken j) | .locked _ _ (.woken j)
  | .asleep _ _ (.woken j) => k < j
  | .waking _ (.out j) | .wake _ _ (.out j) => k + 1 < j
  | _ => False

def Signals (k : Nat) (all : Bool) : Spot CondPc → Prop
  | .user (.signal j b) | .user (.bump j b _) | .user (.bumped j b) => j = k ∧ b = all
  | .waking n (.out j) | .wake n _ (.out j) => j = k + 1 ∧ n = wakeCount all
  | _ => False

def signalling : Spot CondPc → Bool
  | .user (.signal _ all) | .user (.bump _ all _) | .user (.bumped _ all) => !all
  | .waking n _ | .wake n _ _ => n == 1
  | _ => false

def Bumped : Spot CondPc → Prop
  | .user (.bumped _ _) | .waking _ _ | .wake _ _ _ => True
  | _ => False

def expects : Spot CondPc → Option Nat
  | .user (.held _ seq) | .user (.released _ seq) | .check seq _ | .translate seq _ | .acquire seq _ _
  | .locked seq _ _ | .asleep seq _ _ => some seq
  | _ => none

/-- In the futex_wait of call k, with the value that it expects. -/
def inWait : Spot CondPc → Option (Nat × Nat)
  | .check e (.woken k) | .translate e (.woken k) | .acquire e _ (.woken k) | .locked e _ (.woken k)
  | .asleep e _ (.woken k) => some (e, k)
  | _ => none

def CondOk : Spot CondPc → Prop
  | .check _ r | .translate _ r | .acquire _ _ r | .locked _ _ r | .asleep _ _ r => ∃ k, r = .woken k
  | .waking _ r | .wake _ _ r => ∃ k, r = .out (k + 1)
  | _ => True

end Spot

namespace Spot
variable {spot : Spot CondPc} {e j k : Nat}

theorem inWait_cases (at' : spot.inWait = some (e, j)) :
    spot = .check e (.woken j) ∨ spot = .translate e (.woken j) ∨ (∃ pa, spot = .acquire e pa (.woken j)) ∨
      (∃ pa, spot = .locked e pa (.woken j)) ∨ ∃ pa, spot = .asleep e pa (.woken j) := by
  unfold inWait at at'
  split at at'
  all_goals cases at'
  · exact Or.inl rfl
  · exact Or.inr (Or.inl rfl)
  · exact Or.inr (Or.inr (Or.inl ⟨_, rfl⟩))
  · exact Or.inr (Or.inr (Or.inr (Or.inl ⟨_, rfl⟩)))
  · exact Or.inr (Or.inr (Or.inr (Or.inr ⟨_, rfl⟩)))

theorem past_inWait (at' : spot.inWait = some (e, j)) : spot.Past k ↔ k < j := by
  rcases inWait_cases at' with rfl | rfl | ⟨pa, rfl⟩ | ⟨pa, rfl⟩ | ⟨pa, rfl⟩
  all_goals rfl

theorem released_inWait (at' : spot.inWait = some (e, j)) : spot.Released k ↔ j = k := by
  rcases inWait_cases at' with rfl | rfl | ⟨pa, rfl⟩ | ⟨pa, rfl⟩ | ⟨pa, rfl⟩
  all_goals rfl

theorem expects_inWait (at' : spot.inWait = some (e, j)) : spot.expects = some e := by
  rcases inWait_cases at' with rfl | rfl | ⟨pa, rfl⟩ | ⟨pa, rfl⟩ | ⟨pa, rfl⟩
  all_goals rfl

theorem signals_inWait (at' : spot.inWait = some (e, j)) {all : Bool} : ¬ spot.Signals k all := by
  rcases inWait_cases at' with rfl | rfl | ⟨pa, rfl⟩ | ⟨pa, rfl⟩ | ⟨pa, rfl⟩
  all_goals exact id

theorem waker_cases {n : Int} {r : CondPc} (at' : spot.waker = some (n, r)) :
    spot = .waking n r ∨ ∃ pa, spot = .wake n pa r := by
  cases spot with
  | waking n' r' =>
    cases at'
    exact Or.inl rfl
  | wake n' pa r' =>
    cases at'
    exact Or.inr ⟨pa, rfl⟩
  | _ => cases at'

theorem not_past_of_signals {all : Bool} (signals : spot.Signals k all) : ¬ spot.Past k := by
  unfold Signals at signals
  split at signals
  all_goals first | exact signals.elim | (intro past; obtain ⟨rfl, -⟩ := signals; exact Nat.lt_irrefl _ past)

theorem signalling_of_signals (signals : spot.Signals k false) : spot.signalling = true := by
  unfold Signals at signals
  split at signals
  all_goals first | exact signals.elim | (obtain ⟨-, rfl⟩ := signals; rfl)

theorem expects_released (released : spot.Released k) : ∃ e, spot.expects = some e := by
  unfold Released at released
  split at released
  all_goals first | exact released.elim | exact ⟨_, rfl⟩

theorem not_past_of_released (released : spot.Released k) : ¬ spot.Past k := by
  unfold Released at released
  split at released
  all_goals first | exact released.elim | (intro past; subst released; exact Nat.lt_irrefl _ past)

end Spot

inductive Hop (s s' : Futex CondPc) (t : Nat) : Prop where
  | rests (spot : s'.spot t = s.spot t) (loaded : s'.loaded t = s.loaded t)
  | calls (k : Nat) (at' : s.spot t = .user (.out k)) (now : s'.spot t = .user (.wait k) ∨ ∃ all, s'.spot t = .user (.signal k all))
  | reads (k : Nat) (at' : s.spot t = .user (.wait k)) (now : s'.spot t = .user (.held k s.word))
      (loaded : s'.loaded t = s.stores)
  | releases (k seq : Nat) (at' : s.spot t = .user (.held k seq)) (now : s'.spot t = .user (.released k seq))
      (loaded : s'.loaded t = s.loaded t)
  | waits (k seq : Nat) (at' : s.spot t = .user (.released k seq)) (now : s'.spot t = .check seq (.woken k))
      (loaded : s'.loaded t = s.loaded t)
  /-- inside futex_wait -/
  | goes (e k : Nat) (at' : (s.spot t).inWait = some (e, k)) (now : (s'.spot t).inWait = some (e, k))
      (loaded : s'.loaded t = s.loaded t) (locks : ∀ pa r, s'.spot t = .locked e pa r → s.word = e)
      (sleeps : ∀ pa r, s'.spot t = .asleep e pa r → s.spot t = .locked e pa r)
  | returns (e k : Nat) (at' : (s.spot t).inWait = some (e, k)) (now : s'.spot t = .user (.woken k))
  | relocks (k : Nat) (at' : s.spot t = .user (.woken k)) (now : s'.spot t = .user (.out (k + 1)))
  | loads (k : Nat) (all : Bool) (at' : s.spot t = .user (.signal k all)) (now : s'.spot t = .user (.bump k all s.word))
  | bumps (k : Nat) (all : Bool) (seq : Nat) (at' : s.spot t = .user (.bump k all seq))
      (now : s'.spot t = .user (.bumped k all)) (stores : s'.stores = s.stores + 1)
  /-- on into futex_wake or inside it -/
  | wakes (k : Nat) (n : Int) (at' : (∃ all, n = wakeCount all ∧ s.spot t = .user (.bumped k all)) ∨ s.spot t = .waking n (.out (k + 1)))
      (now : s'.spot t = .waking n (.out (k + 1)) ∨ ∃ pa, s'.spot t = .wake n pa (.out (k + 1)))
  | ends (k : Nat) (n : Int) (at' : (s.spot t).waker = some (n, .out (k + 1))) (now : s'.spot t = .user (.out (k + 1)))

namespace Hop
variable {s s' : Futex CondPc}

theorem of_rouse (ok : ∀ t, (s.spot t).CondOk) (sys : Sys) {t : Nat} (spot : s'.spot t = Spot.rouse sys.sched t (s.spot t))
    (loaded : s'.loaded t = s.loaded t) : Hop s s' t := by
  cases at' : s.spot t with
  | asleep e pa r =>
    have here := ok t
    rw [at'] at here spot
    obtain ⟨k, rfl⟩ := here
    by_cases still : (sys.sched.proc t).state = .sleeping
    · exact .rests (by rw [spot, at']; exact if_pos still) loaded
    · exact .returns e k (by rw [at']; rfl) (by rw [spot]; exact if_neg still)
  | _ =>
    rw [at'] at spot
    exact .rests (spot.trans at'.symm) loaded

theorem exec {cur choice pa : Nat} {r : CondPc} {i : Instr CondPc} (at' : s.spot cur = .user r)
    (next : condProg r choice = some i) (t : Nat) : Hop s (s.exec cur pa i) t := by
  by_cases here : t = cur
  · subst here
    cases r with
    | out k =>
      match choice, next with
      | 0, next =>
        cases next
        exact .calls k at' (Or.inl (by simp [Futex.exec, Futex.put_spot]))
      | 1, next =>
        cases next
        exact .calls k at' (Or.inr ⟨false, by simp [Futex.exec, Futex.put_spot]⟩)
      | 2, next =>
        cases next
        exact .calls k at' (Or.inr ⟨true, by simp [Futex.exec, Futex.put_spot]⟩)
    | wait k =>
      cases next
      exact .reads k at' (by simp [Futex.exec, Futex.put_spot]) (by simp [Futex.exec, Futex.put])
    | held k seq =>
      cases next
      exact .releases k seq at' (by simp [Futex.exec, Futex.put_spot]) rfl
    | released k seq =>
      cases next
      exact .waits k seq at' (by simp [Futex.exec, Futex.put_spot]) rfl
    | woken k =>
      cases next
      exact .relocks k at' (by simp [Futex.exec, Futex.put_spot])
    | signal k all =>
      cases next
      exact .loads k all at' (by simp [Futex.exec, Futex.put_spot])
    | bump k all seq =>
      cases next
      exact .bumps k all seq at' (by simp [Futex.exec, Futex.put_spot]) rfl
    | bumped k all =>
      cases next
      exact .wakes k _ (Or.inl ⟨all, rfl, at'⟩) (Or.inl (by simp [Futex.exec, Futex.put_spot]))
  · cases i with
    | load => exact .rests (by simp [Futex.exec, Futex.put_spot, here]) (by simp [Futex.exec, Futex.put, here])
    | _ => exact .rests (by simp [Futex.exec, Futex.put_spot, here]) rfl

theorem inside {cur e k : Nat} {new : Spot CondPc} {page : WordPage} {lock : Option Nat}
    (at' : (s.spot cur).inWait = some (e, k)) (now : new.inWait = some (e, k))
    (locks : ∀ pa r, new = .locked e pa r → s.word = e) (up : ∀ pa r, new ≠ .asleep e pa r) (t : Nat) :
    Hop s ({ s with page := page, lock := lock }.put cur new) t := by
  by_cases here : t = cur
  · subst here
    have self : ({ s with page := page, lock := lock }.put t new).spot t = new := by
      rw [Futex.put_spot, if_pos rfl]
    refine .goes e k at' (by rw [self]; exact now) rfl ?_ ?_
    · rw [self]
      exact locks
    · rw [self]
      intro pa r asleep
      exact (up pa r asleep).elim
  · exact .rests (by rw [Futex.put_spot, if_neg here]) rfl

theorem of_move {mine : Nat → Bool} (ok : ∀ t, (s.spot t).CondOk) {a : FutexAct} (m : Futex.Move mine condProg s a s')
    (t : Nat) : Hop s s' t := by
  cases m with
  | sys a sys free clear done => exact of_rouse ok sys rfl rfl
  | exec c cur choice pa r i own on at' next => exact exec at' next t
  | check cur pa e r own at' same =>
    have here := ok cur
    rw [at'] at here
    obtain ⟨k, rfl⟩ := here
    exact inside (by rw [at']; rfl) (by rfl) (by nofun) (by nofun) t
  | translate cur pa e r at' found =>
    have here := ok cur
    rw [at'] at here
    obtain ⟨k, rfl⟩ := here
    exact inside (by rw [at']; rfl) (by rfl) (by nofun) (by nofun) t
  | acquire cur pa e key r own at' free same =>
    have here := ok cur
    rw [at'] at here
    obtain ⟨k, rfl⟩ := here
    exact inside (by rw [at']; rfl) (by rfl) (fun _ _ _ => same) (by nofun) t
  | sleep c cur e key r sys hc on at' done =>
    have here := ok cur
    rw [at'] at here
    obtain ⟨k, rfl⟩ := here
    by_cases self : t = cur
    · subst self
      have now : ({ s.follow sys with lock := none }.put t (.asleep e key (.woken k))).spot t = .asleep e key (.woken k) := by
        rw [Futex.put_spot, if_pos rfl]
      refine .goes e k (by rw [at']; rfl) (by rw [now]; rfl) rfl ?_ ?_
      · rw [now]
        nofun
      · rw [now]
        intro pa r eq
        cases eq
        exact at'
    · refine of_rouse ok sys ?_ rfl
      rw [Futex.put_spot, if_neg self]
      rfl
  | giveUp cur e page r at' read =>
    by_cases self : t = cur
    · subst self
      obtain ⟨k, rfl, inWait⟩ : ∃ k, r = .woken k ∧ (s.spot t).inWait = some (e, k) := by
        have here := ok t
        rcases at' with ⟨at', -⟩ | ⟨at', -⟩ | ⟨key, at', -⟩
        all_goals
          rw [at'] at here ⊢
          obtain ⟨k, rfl⟩ := here
          exact ⟨k, rfl, rfl⟩
      exact .returns e k inWait (by rw [Futex.put_spot, if_pos rfl])
    · exact .rests (by rw [Futex.put_spot, if_neg self]) rfl
  | waking cur pa n r at' found =>
    by_cases self : t = cur
    · subst self
      have here := ok t
      rw [at'] at here
      obtain ⟨k, rfl⟩ := here
      exact .wakes k n (Or.inr at') (Or.inr ⟨pa, by rw [Futex.put_spot, if_pos rfl]⟩)
    · exact .rests (by rw [Futex.put_spot, if_neg self]) rfl
  | noWord cur n r at' none =>
    by_cases self : t = cur
    · subst self
      have here := ok t
      rw [at'] at here
      obtain ⟨k, rfl⟩ := here
      exact .ends k n (by rw [at']; rfl) (by rw [Futex.put_spot, if_pos rfl])
    · exact .rests (by rw [Futex.put_spot, if_neg self]) rfl
  | wake cur key n r sys at' free done =>
    by_cases self : t = cur
    · subst self
      have here := ok t
      rw [at'] at here
      obtain ⟨k, rfl⟩ := here
      exact .ends k n (by rw [at']; rfl) (by rw [Futex.put_spot, if_pos rfl])
    · refine of_rouse ok sys ?_ rfl
      rw [Futex.put_spot, if_neg self]
      rfl

variable {t k : Nat}

theorem past (hop : Hop s s' t) (past : (s.spot t).Past k) : (s'.spot t).Past k := by
  cases hop with
  | rests same => rwa [same]
  | calls j at' now =>
    rw [at'] at past
    rcases now with now | ⟨all, now⟩
    all_goals
      rw [now]
      exact past
  | reads j at' now =>
    rw [at'] at past
    rw [now]
    exact past
  | releases j seq at' now =>
    rw [at'] at past
    rw [now]
    exact past
  | waits j seq at' now =>
    rw [at'] at past
    rw [now]
    exact past
  | goes e j at' now =>
    rw [Spot.past_inWait at'] at past
    rwa [Spot.past_inWait now]
  | returns e j at' now =>
    rw [Spot.past_inWait at'] at past
    rw [now]
    exact Nat.le_of_lt past
  | relocks j at' now =>
    rw [at'] at past
    rw [now]
    exact Nat.lt_succ_of_le past
  | loads j all at' now =>
    rw [at'] at past
    rw [now]
    exact past
  | bumps j all seq at' now =>
    rw [at'] at past
    rw [now]
    exact past
  | wakes j n at' now =>
    have later : k + 1 < j + 1 := by
      rcases at' with ⟨all, -, at'⟩ | at'
      · rw [at'] at past
        exact Nat.succ_lt_succ past
      · rw [at'] at past
        exact past
    rcases now with now | ⟨pa, now⟩
    all_goals
      rw [now]
      exact later
  | ends j n at' now =>
    have later : k + 1 < j + 1 := by
      rcases Spot.waker_cases at' with at' | ⟨pa, at'⟩
      all_goals
        rw [at'] at past
        exact past
    rw [now]
    exact Nat.lt_of_succ_lt later

theorem released (hop : Hop s s' t) (released : (s.spot t).Released k) :
    (s'.spot t).Released k ∧ s'.loaded t = s.loaded t ∨ (s'.spot t).Past k := by
  cases hop with
  | rests same loaded =>
    rw [same]
    exact Or.inl ⟨released, loaded⟩
  | waits j seq at' now loaded =>
    rw [at'] at released
    rw [now]
    exact Or.inl ⟨released, loaded⟩
  | goes e j at' now loaded =>
    rw [Spot.released_inWait at'] at released
    exact Or.inl ⟨(Spot.released_inWait now).mpr released, loaded⟩
  | returns e j at' now =>
    rw [Spot.released_inWait at'] at released
    rw [now]
    exact Or.inr (Nat.le_of_eq released.symm)
  | wakes j n at' now =>
    rcases at' with ⟨all, -, at'⟩ | at'
    all_goals
      rw [at'] at released
      exact released.elim
  | ends j n at' now =>
    rcases Spot.waker_cases at' with at' | ⟨pa, at'⟩
    all_goals
      rw [at'] at released
      exact released.elim
  | calls j at' | reads j at' | releases j seq at' | relocks j at' | loads j all at' | bumps j all seq at' =>
    rw [at'] at released
    exact released.elim

theorem of_released (hop : Hop s s' t) (released : (s'.spot t).Released k) :
    (s.spot t).Released k ∨ ∃ seq, s.spot t = .user (.held k seq) := by
  cases hop with
  | rests same =>
    rw [same] at released
    exact Or.inl released
  | calls j at' now =>
    rcases now with now | ⟨all, now⟩
    all_goals
      rw [now] at released
      exact released.elim
  | releases j seq at' now =>
    rw [now] at released
    obtain rfl : j = k := released
    exact Or.inr ⟨seq, at'⟩
  | waits j seq at' now =>
    rw [now] at released
    rw [at']
    exact Or.inl released
  | goes e j at' now =>
    rw [Spot.released_inWait now] at released
    exact Or.inl ((Spot.released_inWait at').mpr released)
  | wakes j n at' now =>
    rcases now with now | ⟨pa, now⟩
    all_goals
      rw [now] at released
      exact released.elim
  | returns e j at' now | reads j at' now | relocks j at' now | loads j all at' now | bumps j all seq at' now
  | ends j n at' now =>
    rw [now] at released
    exact released.elim

theorem signals (hop : Hop s s' t) {all : Bool} (signals : (s.spot t).Signals k all) :
    (s'.spot t).Signals k all ∧ ((s'.spot t).Bumped → (s.spot t).Bumped ∨ s'.stores = s.stores + 1) ∨
      (s'.spot t).Past k := by
  cases hop with
  | rests same =>
    rw [same]
    exact Or.inl ⟨signals, Or.inl⟩
  | loads j all' at' now =>
    rw [at'] at signals
    rw [now]
    exact Or.inl ⟨signals, False.elim⟩
  | bumps j all' seq at' now stores =>
    rw [at'] at signals
    rw [now]
    exact Or.inl ⟨signals, fun _ => Or.inr stores⟩
  | wakes j n at' now =>
    have call : j + 1 = k + 1 ∧ n = wakeCount all := by
      rcases at' with ⟨all', rfl, at'⟩ | at'
      · rw [at'] at signals
        obtain ⟨rfl, rfl⟩ := signals
        exact ⟨rfl, rfl⟩
      · rw [at'] at signals
        exact signals
    have bumped : (s.spot t).Bumped := by
      rcases at' with ⟨all', -, at'⟩ | at'
      all_goals
        rw [at']
        trivial
    rcases now with now | ⟨pa, now⟩
    all_goals
      rw [now]
      exact Or.inl ⟨call, fun _ => Or.inl bumped⟩
  | ends j n at' now =>
    have call : j + 1 = k + 1 := by
      rcases Spot.waker_cases at' with at' | ⟨pa, at'⟩
      all_goals
        rw [at'] at signals
        exact signals.1
    rw [now]
    exact Or.inr (Nat.lt_of_succ_le (Nat.le_of_eq call.symm))
  | goes e j at' now | returns e j at' now => exact (Spot.signals_inWait at' signals).elim
  | calls j at' | reads j at' | releases j seq at' | waits j seq at' | relocks j at' =>
    rw [at'] at signals
    exact signals.elim

theorem last (hop : Hop s s' t) {all : Bool} (inside : (s.spot t).Signals k all)
    (out : s'.spot t = .user (.out (k + 1))) :
    (s.spot t).waker = some (wakeCount all, .out (k + 1)) ∧ (s.spot t).Bumped := by
  cases hop with
  | ends j n at' now =>
    rw [at']
    rcases Spot.waker_cases at' with h | ⟨pa, h⟩
    all_goals
      rw [h] at inside ⊢
      obtain ⟨eq, rfl⟩ := inside
      rw [eq]
      exact ⟨rfl, trivial⟩
  | rests same =>
    rw [← same, out] at inside
    exact inside.elim
  | goes e j at' now | returns e j at' now => exact (Spot.signals_inWait at' inside).elim
  | relocks j at' now | calls j at' now =>
    rw [at'] at inside
    exact inside.elim
  | wakes j n at' now =>
    rcases now with now | ⟨pa, now⟩
    all_goals
      rw [now] at out
      cases out
  | reads j at' now | releases j seq at' now | waits j seq at' now | loads j all at' now | bumps j all seq at' now =>
    rw [now] at out
    cases out

end Hop

/-- The exchange of cur finds seq as cur has read it, and cur does not unlock m in cond_wait
    during a cond_signal. -/
def Futex.inOrder (s : Futex CondPc) (cur : Nat) : Bool :=
  match s.spot cur with
  | .user (.bump _ _ seq) => s.word == seq
  | .user (.held _ _) => (List.range NPROC).all fun t => !(s.spot t).signalling
  | _ => true

def Orderly (s : Futex CondPc) (a : FutexAct) : Prop :=
  Futex.Settled condProg s a ∧
  match a with
  | .sys _ => True
  | .go c _ _ => ∀ cur, s.sys.sched.cpu c = some cur → s.inOrder cur = true

namespace Orderly
variable {s : Futex CondPc} {c choice pa cur : Nat}

theorem bump (orderly : Orderly s (.go c choice pa)) (on : s.sys.sched.cpu c = some cur) {k seq : Nat} {all : Bool}
    (at' : s.spot cur = .user (.bump k all seq)) : s.word = seq := by
  have order := orderly.2 cur on
  rw [Futex.inOrder, at'] at order
  exact eq_of_beq order

theorem held (orderly : Orderly s (.go c choice pa)) (on : s.sys.sched.cpu c = some cur) {k seq : Nat}
    (at' : s.spot cur = .user (.held k seq)) {t j : Nat} (slot : t < NPROC) : ¬ (s.spot t).Signals j false := by
  have order := orderly.2 cur on
  rw [Futex.inOrder, at'] at order
  have quiet := List.all_eq_true.mp order t (List.mem_range.mpr slot)
  intro signals
  rw [Spot.signalling_of_signals signals] at quiet
  cases quiet

end Orderly

/-- cond_init has run and no thread has called the other functions. -/
structure CondInit (mine : Nat → Bool) (s : Futex CondPc) : Prop extends Futex.Init mine s where
  idle : ∀ t, s.spot t = .away ∨ ∃ k, s.spot t = .user (.out k)
  seq : s.word = 0
  none : s.stores = 0

/-- seq counts the exchanges, and a thread in cond_wait knows how many it has seen. -/
structure CondInv (s : Futex CondPc) : Prop where
  ok : ∀ t, (s.spot t).CondOk
  word : s.word = s.stores % 4294967296
  expects : ∀ t e, (s.spot t).expects = some e → e = s.loaded t % 4294967296 ∧ s.loaded t ≤ s.stores

namespace CondInv
variable {mine : Nat → Bool} {s s' : Futex CondPc} {a : FutexAct}

theorem counts (inv : CondInv s) (orderly : Orderly s a) (m : Futex.Move mine condProg s a s') :
    s.stores ≤ s'.stores ∧ s'.word = s'.stores % 4294967296 := by
  cases m with
  | exec c cur choice pa r i own on at' next =>
    cases i with
    | exchange v after =>
      refine ⟨Nat.le_succ _, ?_⟩
      cases r with
      | bump k all seq =>
        cases next
        have same := orderly.bump on at'
        change (seq + 1) % 4294967296 = (s.stores + 1) % 4294967296
        rw [← same, inv.word]
        omega
      | out k =>
        match choice, next with
        | 0, next | 1, next | 2, next => cases next
      | _ => cases next
    | _ => exact ⟨Nat.le_refl _, inv.word⟩
  | _ => exact ⟨Nat.le_refl _, inv.word⟩

theorem step (inv : CondInv s) (orderly : Orderly s a) (m : Futex.Move mine condProg s a s') : CondInv s' := by
  obtain ⟨grows, word⟩ := inv.counts orderly m
  have hop := Hop.of_move inv.ok m
  refine ⟨?_, word, ?_⟩
  · intro t
    cases hop t with
    | rests same =>
      rw [same]
      exact inv.ok t
    | goes e k at' now =>
      rcases Spot.inWait_cases now with h | h | ⟨pa, h⟩ | ⟨pa, h⟩ | ⟨pa, h⟩
      all_goals
        rw [h]
        exact ⟨k, rfl⟩
    | calls k at' now =>
      rcases now with now | ⟨all, now⟩
      all_goals
        rw [now]
        trivial
    | waits k seq at' now =>
      rw [now]
      exact ⟨k, rfl⟩
    | wakes k n at' now =>
      rcases now with now | ⟨pa, now⟩
      all_goals
        rw [now]
        exact ⟨k, rfl⟩
    | reads k at' now | releases k seq at' now | returns e k at' now | relocks k at' now | loads k all at' now
    | bumps k all seq at' now | ends k n at' now =>
      rw [now]
      trivial
  · intro t e at''
    have same : s'.loaded t = s.loaded t → (s.spot t).expects = some e →
        e = s'.loaded t % 4294967296 ∧ s'.loaded t ≤ s'.stores := by
      intro loaded before
      obtain ⟨value, seen⟩ := inv.expects t e before
      rw [loaded]
      exact ⟨value, Nat.le_trans seen grows⟩
    cases hop t with
    | rests spot loaded =>
      rw [spot] at at''
      exact same loaded at''
    | reads k at' now loaded =>
      rw [now] at at''
      cases at''
      rw [loaded]
      exact ⟨inv.word, grows⟩
    | releases k seq at' now loaded =>
      rw [now] at at''
      exact same loaded (by rw [at']; exact at'')
    | waits k seq at' now loaded =>
      rw [now] at at''
      exact same loaded (by rw [at']; exact at'')
    | goes e' k at' now loaded =>
      rw [Spot.expects_inWait now] at at''
      exact same loaded ((Spot.expects_inWait at').trans at'')
    | calls k at' now =>
      rcases now with now | ⟨all, now⟩
      all_goals
        rw [now] at at''
        cases at''
    | wakes k n at' now =>
      rcases now with now | ⟨pa, now⟩
      all_goals
        rw [now] at at''
        cases at''
    | returns e k at' now | relocks k at' now | loads k all at' now | bumps k all seq at' now | ends k n at' now =>
      rw [now] at at''
      cases at''

theorem init (first : CondInit mine s) : CondInv s := by
  refine ⟨?_, ?_, ?_⟩
  · intro t
    rcases first.idle t with h | ⟨k, h⟩
    all_goals
      rw [h]
      trivial
  · rw [first.seq, first.none]
  · intro t e at'
    rcases first.idle t with h | ⟨k, h⟩
    all_goals
      rw [h] at at'
      cases at'

end CondInv

/-- The thread t does not sleep in the futex_wait of its call k any more: it has returned, or
    seq has changed since it read it. -/
def Passed (t k : Nat) (s : Futex CondPc) : Prop :=
  (s.spot t).Past k ∨ (s.spot t).Released k ∧ s.loaded t < s.stores ∧ (s.spot t).Quiet

namespace Passed
variable {s s' : Futex CondPc} {t k : Nat}

theorem quiet (hop : Hop s s' t) (before : (s.spot t).Quiet) (differs : (s.spot t).expects ≠ some s.word) :
    (s'.spot t).Quiet := by
  cases hop with
  | rests same =>
    rw [same]
    exact before
  | goes e j at' now loaded locks sleeps =>
    rcases Spot.inWait_cases now with h | h | ⟨pa, h⟩ | ⟨pa, h⟩ | ⟨pa, h⟩
    · rw [h]
      trivial
    · rw [h]
      trivial
    · rw [h]
      trivial
    · rw [locks pa _ h] at differs
      exact (differs (Spot.expects_inWait at')).elim
    · rw [sleeps pa _ h] at before
      exact before.elim
  | calls j at' now =>
    rcases now with now | ⟨all, now⟩
    all_goals
      rw [now]
      trivial
  | wakes j n at' now =>
    rcases now with now | ⟨pa, now⟩
    all_goals
      rw [now]
      trivial
  | reads j at' now | releases j seq at' now | waits j seq at' now | returns e j at' now | relocks j at' now
  | loads j all at' now | bumps j all seq at' now | ends j n at' now =>
    rw [now]
    trivial

theorem step (passed : Passed t k s) (inv : CondInv s) (hop : Hop s s' t) (grows : s.stores ≤ s'.stores)
    (few : s'.stores < 4294967296) : Passed t k s' := by
  rcases passed with past | ⟨released, stale, still⟩
  · exact Or.inl (hop.past past)
  · rcases hop.released released with ⟨released', loaded⟩ | past
    · refine Or.inr ⟨released', by rw [loaded]; omega, quiet hop still ?_⟩
      intro expects
      have value := (inv.expects t _ expects).1
      rw [inv.word] at value
      omega
    · exact Or.inl past

theorem awake (passed : Passed t k s) (e pa : Nat) : s.spot t ≠ .asleep e pa (.woken k) := by
  intro asleep
  rcases passed with past | ⟨-, -, quiet⟩
  · rw [asleep] at past
    exact Nat.lt_irrefl k past
  · rw [asleep] at quiet
    exact quiet

end Passed

/-- What holds in the middle of a cond_signal or cond_broadcast of thread b that has begun
    in s₁. -/
structure During (mine : Nat → Bool) (s₁ : Futex CondPc) (b k : Nat) (all : Bool) (s : Futex CondPc) : Prop where
  futex : FutexInv mine s
  current : s.Current
  inv : CondInv s
  waiters : ∀ t j, (s₁.spot t).Released j → (s.spot t).Released j ∨ (s.spot t).Past j
  call : (s.spot b).Past k ∨ (s.spot b).Signals k all ∧
    ((s.spot b).Bumped → ∀ t j, (s₁.spot t).Released j → (s.spot t).Released j → s.loaded t < s.stores) ∧
    (all = false → ∀ t j, (s.spot t).Released j → (s₁.spot t).Released j)

namespace During
variable {mine : Nat → Bool} {s₁ s s' : Futex CondPc} {b k : Nat} {all : Bool} {a : FutexAct}

theorem released_seen (inv : CondInv s) {t j : Nat} (released : (s.spot t).Released j) : s.loaded t ≤ s.stores := by
  obtain ⟨e, expects⟩ := Spot.expects_released released
  exact (inv.expects t e expects).2

theorem step (during : During mine s₁ b k all s) (slot : b < NPROC) (orderly : Orderly s a) (m : Futex.Move mine condProg s a s') :
    During mine s₁ b k all s' := by
  have hop := Hop.of_move during.inv.ok m
  have grows := (during.inv.counts orderly m).1
  refine ⟨during.futex.step m, during.current.step orderly.1 m, during.inv.step orderly m, ?_, ?_⟩
  · intro t j before
    rcases during.waiters t j before with released | past
    · exact ((hop t).released released).imp And.left id
    · exact Or.inr ((hop t).past past)
  · rcases during.call with past | ⟨signals, stale, only⟩
    · exact Or.inl ((hop b).past past)
    · rcases (hop b).signals signals with ⟨signals', bumped⟩ | past
      · refine Or.inr ⟨signals', ?_, ?_⟩
        · intro done t j before now
          -- a thread that is still in futex_wait has not read seq again
          rcases during.waiters t j before with released | past
          · rcases (hop t).released released with ⟨-, loaded⟩ | past
            · rw [loaded]
              rcases bumped done with old | bump
              · exact Nat.lt_of_lt_of_le (stale old t j before released) grows
              · rw [bump]
                exact Nat.lt_succ_of_le (released_seen during.inv released)
            · exact (Spot.not_past_of_released now past).elim
          · exact (Spot.not_past_of_released now ((hop t).past past)).elim
        · intro one t j now
          rcases (hop t).of_released now with released | ⟨seq, held⟩
          · exact only one t j released
          · -- nobody unlocks m during a cond_signal
            obtain ⟨c, choice, pa, rfl, on⟩ := m.ran held (by intro same; rw [same] at now; exact now)
            rw [one] at signals
            exact (orderly.held on held slot signals).elim
      · exact Or.inl past

end During

/-- The thread t never sleeps again in the futex_wait of its call j, as long as there have
    been fewer than 2^32 signals. -/
def Safe (mine : Nat → Bool) (s : Futex CondPc) (t j : Nat) : Prop :=
  ∀ as s', Runs.Path (Futex.step mine condProg) Orderly s as s' → s'.stores < 4294967296 →
    ∀ e pa, s'.spot t ≠ .asleep e pa (.woken j)

theorem Passed.safe {mine : Nat → Bool} {s : Futex CondPc} (inv : CondInv s) {t k : Nat} (passed : Passed t k s) :
    Safe mine s t k := by
  intro as s' path few e pa
  have all : CondInv s' ∧ (s'.stores < 4294967296 → Passed t k s') := by
    refine path.carry (P := fun _ s => CondInv s ∧ (s.stores < 4294967296 → Passed t k s)) ⟨inv, fun _ => passed⟩ ?_
    intro _ s a s' known orderly done
    have m := Futex.step_move done
    have grows := (known.1.counts orderly m).1
    refine ⟨known.1.step orderly m, ?_⟩
    intro few
    exact (known.2 (Nat.lt_of_le_of_lt grows few)).step known.1 (Hop.of_move known.1.ok m t) grows few
  exact (all.2 few).awake e pa

theorem cond_start {mine : Nat → Bool} {sys : Sys}
    (awake : sys.Reachable ∧ ∀ t < NPROC, (sys.sched.proc t).state ≠ .sleeping) (n : Nat) (own : mine 4096 = true) :
    CondInit mine (Futex.start n (.out 0) (.own 4096) sys) := by
  refine ⟨Futex.start_init awake n (CondPc.out 0) ?_, ?_, rfl, rfl⟩
  · intro pa at'
    obtain rfl := Option.some.inj at'
    exact own
  · exact fun t => (Futex.start_spot n (CondPc.out 0) _ sys t).imp id fun at' => ⟨0, at'⟩

/-- The page of the word is private, and the thread that runs is in order. -/
def Futex.tidy (s : Futex CondPc) : FutexAct → Bool
  | .sys _ => true
  | .go c _ _ => decide (s.page = .own 4096) && (s.sys.sched.cpu c).all s.inOrder

theorem Futex.orderly_of_tidy (s : Futex CondPc) (a : FutexAct) (tidy : s.tidy a = true) : Orderly s a := by
  cases a with
  | sys a => exact ⟨trivial, trivial⟩
  | go c choice pa =>
    obtain ⟨own, order⟩ := Bool.and_eq_true_iff.mp tidy
    refine ⟨?_, ?_⟩
    · intro cur r v next old on at' instr shared
      rw [of_decide_eq_true own] at shared
      cases shared
    · intro cur on
      rw [on] at order
      exact order

def Sys.secondClone : List Act :=
  Sys.firstClone ++ [.cloneAlloc 0 0, .cloneStack 0 (some 502), .cloneShare 0, .cloneLink 0, .cloneRun 0]

def FutexAct.switch : List FutexAct := [.sys (.yield 0), .sys (.dispatch 0)]

/-- Thread 0 has read 0 for its signal when thread 1 signals; then thread 2 reads 1 in
    cond_wait and unlocks m, and thread 1 calls cond_broadcast. -/
def overlapBegins : List FutexAct :=
  [.go 0 1 4096, .go 0 0 4096] ++ FutexAct.switch ++ [.go 0 1 4096] ++ List.replicate 5 (.go 0 0 4096) ++
    FutexAct.switch ++ List.replicate 3 (.go 0 0 4096) ++ FutexAct.switch ++ FutexAct.switch ++ [.go 0 2 4096]

/-- The broadcast stores 2, thread 0 stores 1, and the broadcast looks the word up. -/
def overlapStores : List FutexAct :=
  [.go 0 0 4096, .go 0 0 4096] ++ FutexAct.switch ++ FutexAct.switch ++ [.go 0 0 4096] ++ FutexAct.switch ++
    [.go 0 0 4096, .go 0 0 4096]

end Xv6
