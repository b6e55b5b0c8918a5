import Xv6.Futex.Machine

/-!
No lost wakeup. futex_wait sleeps on the physical address that it has looked up before it
takes ptable.lock, and futex_wake looks the address up again. If the word keeps its
address while looked-up addresses are in use, a wake of all finds every thread that sleeps
for a value the word no longer has.
-/
namespace Xv6

def Spot.waker {ρ : Type} : Spot ρ → Option (Int × ρ)
  | .waking n r | .wake n _ r => some (n, r)
  | _ => none

namespace Futex
variable {ρ : Type} {mine : Nat → Bool} {prog : ρ → Nat → Option (Instr ρ)} {s s' : Futex ρ}

/-- A store does not move the word to another frame while some thread uses the address
    that it has looked up. -/
def Settled (prog : ρ → Nat → Option (Instr ρ)) (s : Futex ρ) : FutexAct → Prop
  | .go c choice pa => ∀ cur r v next old, s.sys.sched.cpu c = some cur → s.spot cur = .user r →
      prog r choice = some (.exchange v next) → s.page = .cow old → pa = old ∨ ∀ t, (s.spot t).key = none
  | .sys _ => True

def Current (s : Futex ρ) : Prop := ∀ t pa, (s.spot t).key = some pa → s.page.uva2pa = some pa

def Spares (prog : ρ → Nat → Option (Instr ρ)) (v : Nat) (s : Futex ρ) : FutexAct → Prop
  | .go c choice _ => ∀ cur r w next, s.sys.sched.cpu c = some cur → s.spot cur = .user r →
      prog r choice = some (.exchange w next) → w ≠ v
  | .sys _ => True

namespace Current

theorem put (now : s.Current) {cur : Nat} {spot : Spot ρ} {word stores : Nat} {page : WordPage} {lock : Option Nat}
    {loaded : Nat → Nat} (same : (∀ t, (s.spot t).key = none) ∨ page.uva2pa = s.page.uva2pa)
    (key : ∀ pa, spot.key = some pa → page.uva2pa = some pa) :
    ({ s with word := word, page := page, lock := lock, stores := stores, loaded := loaded }.put cur spot).Current := by
  intro t pa at'
  rw [Futex.put_spot] at at'
  split at at'
  · exact key pa at'
  · rcases same with none | same
    · change (s.spot t).key = some pa at at'
      rw [none t] at at'
      cases at'
    · exact same.trans (now t pa at')

theorem key_rouse {sched : Sched} {t pa : Nat} {spot : Spot ρ} (h : (Spot.rouse sched t spot).key = some pa) :
    spot.key = some pa := by
  cases spot with
  | asleep e pa' r =>
    simp only [Spot.rouse] at h
    split at h
    · exact h
    · cases h
  | _ => exact h

theorem follow (now : s.Current) (sys : Sys) : (s.follow sys).Current := fun t pa h => now t pa (key_rouse h)

theorem read (now : s.Current) (pa : Nat) :
    (∀ t, (s.spot t).key = none) ∨ (s.page.read pa).uva2pa = s.page.uva2pa := by
  cases at' : s.page with
  | absent =>
    left
    intro t
    cases key : (s.spot t).key with
    | none => rfl
    | some pa' =>
      have := now t pa' key
      rw [at'] at this
      cases this
  | _ => exact Or.inr rfl

theorem store (now : s.Current) {pa : Nat} (settled : ∀ old, s.page = .cow old → pa = old ∨ ∀ t, (s.spot t).key = none) :
    (∀ t, (s.spot t).key = none) ∨ (s.page.store pa).uva2pa = s.page.uva2pa := by
  cases at' : s.page with
  | absent =>
    have := now.read pa
    rw [at'] at this
    exact this
  | cow old =>
    rcases settled old at' with rfl | none
    · exact Or.inr rfl
    · exact Or.inl none
  | own => exact Or.inr rfl

theorem read_some {page : WordPage} {key : Nat} (found : page.uva2pa = some key) (pa : Nat) :
    (page.read pa).uva2pa = some key := by
  cases page with
  | absent => cases found
  | _ => exact found

theorem step (now : s.Current) {a : FutexAct} (settled : Settled prog s a) (m : Move mine prog s a s') :
    s'.Current := by
  cases m with
  | sys a sys free clear done => exact now.follow sys
  | exec c cur choice pa r i own on at' next =>
    cases i with
    | skip => exact now.put (Or.inr rfl) nofun
    | load => exact now.put (now.read pa) nofun
    | exchange v after =>
      have still := now.store fun old shared => settled cur r v after old on at' next shared
      exact now.put still nofun
    | futexWait => exact now.put (Or.inr rfl) nofun
    | futexWake => exact now.put (Or.inr rfl) nofun
  | check cur pa e r own at' same => exact now.put (now.read pa) nofun
  | translate cur pa e r at' found =>
    apply now.put (Or.inr rfl)
    intro key eq
    cases eq
    exact found
  | acquire cur pa e key r own at' free same =>
    apply now.put (now.read pa)
    intro key' eq
    exact read_some (now cur key' (by rw [at']; exact eq)) pa
  | sleep c cur e key r sys hc on at' done =>
    apply (now.follow sys).put (Or.inr rfl)
    intro key' eq
    exact now cur key' (by rw [at']; exact eq)
  | giveUp cur e page r at' read =>
    rcases read with rfl | ⟨pa, -, rfl⟩
    · exact now.put (Or.inr rfl) nofun
    · exact now.put (now.read pa) nofun
  | waking cur pa n r at' found =>
    apply now.put (Or.inr rfl)
    intro key eq
    cases eq
    exact found
  | noWord cur n r at' none => exact now.put (Or.inr rfl) nofun
  | wake cur key n r sys at' free done => exact (now.follow sys).put (Or.inr rfl) nofun

end Current

/-- Nobody sleeps, or is about to, because it has found v in the word. -/
structure Clear (v : Nat) (s : Futex ρ) : Prop where
  word : s.word ≠ v
  locked : ∀ t pa r, s.spot t ≠ .locked v pa r
  asleep : ∀ t pa r, s.spot t ≠ .asleep v pa r

theorem Move.word_ne {v : Nat} {a : FutexAct} (m : Move mine prog s a s') (spares : Spares prog v s a)
    (differs : s.word ≠ v) : s'.word ≠ v := by
  cases m with
  | exec c cur choice pa r i own on at' next =>
    cases i with
    | exchange w after => exact spares cur r w after on at' next
    | _ => exact differs
  | _ => exact differs

theorem Clear.put {v : Nat} (clear : s.Clear v) {cur : Nat} {spot : Spot ρ} {word stores : Nat} {page : WordPage}
    {lock : Option Nat} {loaded : Nat → Nat} (differs : word ≠ v) (locked : ∀ pa r, spot ≠ .locked v pa r)
    (asleep : ∀ pa r, spot ≠ .asleep v pa r) :
    ({ s with word := word, page := page, lock := lock, stores := stores, loaded := loaded }.put cur spot).Clear v := by
  refine ⟨differs, ?_, ?_⟩
  · intro t pa r
    rw [Futex.put_spot]
    split
    · exact locked pa r
    · exact clear.locked t pa r
  · intro t pa r
    rw [Futex.put_spot]
    split
    · exact asleep pa r
    · exact clear.asleep t pa r

theorem locked_of_rouse {sched : Sched} {t e pa : Nat} {r : ρ} {spot : Spot ρ}
    (h : Spot.rouse sched t spot = .locked e pa r) : spot = .locked e pa r := by
  cases spot with
  | asleep e' pa' r' =>
    simp only [Spot.rouse] at h
    split at h
    all_goals cases h
  | _ => exact h

theorem Clear.follow {v : Nat} (clear : s.Clear v) (sys : Sys) : (s.follow sys).Clear v :=
  ⟨clear.word, fun t pa r locked => clear.locked t pa r (locked_of_rouse locked),
    fun t pa r asleep => clear.asleep t pa r (FutexInv.asleep_of_rouse asleep).1⟩

/-- futex_wait looks at the word before it sleeps, with the lock that futex_wake needs. -/
theorem Clear.step {v : Nat} (clear : s.Clear v) {a : FutexAct} (spares : Spares prog v s a)
    (m : Move mine prog s a s') : s'.Clear v := by
  have differs := m.word_ne spares clear.word
  cases m with
  | sys a sys free clear' done => exact clear.follow sys
  | exec c cur choice pa r i own on at' next =>
    cases i with
    | _ => exact clear.put differs nofun nofun
  | check => exact clear.put differs nofun nofun
  | translate => exact clear.put differs nofun nofun
  | acquire cur pa e key r own at' free same =>
    apply clear.put differs
    · intro pa' r' eq
      cases eq
      exact clear.word same
    · nofun
  | sleep c cur e key r sys hc on at' done =>
    apply (clear.follow sys).put differs
    · nofun
    · intro pa' r' eq
      cases eq
      exact clear.locked cur key r at'
  | giveUp => exact clear.put differs nofun nofun
  | waking => exact clear.put differs nofun nofun
  | noWord => exact clear.put differs nofun nofun
  | wake cur key n r sys at' free done => exact (clear.follow sys).put differs nofun nofun

theorem Move.returned {a : FutexAct} {b : Nat} {n : Int} {r : ρ} (m : Move mine prog s a s')
    (inside : (s.spot b).waker = some (n, r)) (out : s'.spot b = .user r) :
    s.page.uva2pa = none ∧ s' = s.put b (.user r) ∨
    ∃ key sys, s.spot b = .wake n key r ∧ s.lock = none ∧ s.sys.step (.futexWake key n) = .ok sys ∧
      s' = (s.follow sys).put b (.user r) := by
  have same : ∀ sys, (s.follow sys).spot b = s.spot b := by
    intro sys
    apply FutexInv.rouse_eq
    intro e pa r' asleep
    rw [asleep] at inside
    cases inside
  have busy : s.spot b ≠ .user r := by
    intro user
    rw [user] at inside
    cases inside
  -- only the thread itself leaves the call
  have self : ∀ {x : Futex ρ} {cur spot}, x.spot b = s.spot b → (x.put cur spot).spot b = .user r → b = cur := by
    intro x cur spot same at'
    by_contra other
    rw [Futex.put_spot, if_neg other, same] at at'
    exact busy at'
  cases m with
  | sys a sys free clear done =>
    rw [same sys] at out
    exact (busy out).elim
  | exec c cur choice pa r' i own on at' next =>
    have here : b = cur := by
      cases i with
      | _ => exact self rfl out
    subst here
    rw [at'] at inside
    cases inside
  | check cur pa e r' own at' =>
    obtain rfl := self rfl out
    rw [at'] at inside
    cases inside
  | translate cur pa e r' at' =>
    obtain rfl := self rfl out
    rw [at'] at inside
    cases inside
  | acquire cur pa e key r' own at' =>
    obtain rfl := self rfl out
    rw [at'] at inside
    cases inside
  | sleep c cur e key r' sys hc on at' done =>
    obtain rfl := self (same sys) out
    rw [at'] at inside
    cases inside
  | giveUp cur e page r' at' =>
    obtain rfl := self rfl out
    rcases at' with ⟨at', -⟩ | ⟨at', -⟩ | ⟨key, at', -⟩
    all_goals
      rw [at'] at inside
      cases inside
  | waking cur pa n' r' at' found =>
    obtain rfl := self rfl out
    rw [Futex.put_spot, if_pos rfl] at out
    cases out
  | noWord cur n' r' at' none =>
    obtain rfl := self rfl out
    rw [Futex.put_spot, if_pos rfl] at out
    cases out
    exact Or.inl ⟨none, rfl⟩
  | wake cur key n' r' sys at' free done =>
    obtain rfl := self (same sys) out
    rw [Futex.put_spot, if_pos rfl] at out
    cases out
    rw [at'] at inside
    cases inside
    exact Or.inr ⟨key, sys, at', free, done, rfl⟩

theorem Move.ran {a : FutexAct} {t : Nat} {r : ρ} (m : Move mine prog s a s') (at' : s.spot t = .user r)
    (moved : s'.spot t ≠ .user r) : ∃ c choice pa, a = .go c choice pa ∧ s.sys.sched.cpu c = some t := by
  have same : ∀ sys, (s.follow sys).spot t = .user r := by
    intro sys
    change Spot.rouse sys.sched t (s.spot t) = _
    rw [at']
    rfl
  have other : ∀ {x : Futex ρ} {cur spot}, x.spot t = .user r → (x.put cur spot).spot t ≠ .user r → t = cur := by
    intro x cur spot same moved
    by_contra ne
    rw [Futex.put_spot, if_neg ne] at moved
    exact moved same
  -- the calls move threads that are not in their program
  have busy : ∀ {cur spot}, s.spot cur = spot → t = cur → spot = .user r := by
    rintro cur spot rfl rfl
    exact at'
  cases m with
  | sys a sys free clear done => exact (moved (same sys)).elim
  | exec c cur choice pa r' i own on here next =>
    have eq : t = cur := by
      cases i with
      | _ => exact other at' moved
    subst eq
    exact ⟨c, choice, pa, rfl, on⟩
  | check cur pa e r' own here => cases busy here (other at' moved)
  | translate cur pa e r' here => cases busy here (other at' moved)
  | acquire cur pa e key r' own here => cases busy here (other at' moved)
  | sleep c cur e key r' sys hc on here => cases busy here (other (same sys) moved)
  | giveUp cur e page r' here =>
    have eq : t = cur := other at' moved
    rcases here with ⟨here, -⟩ | ⟨here, -⟩ | ⟨key, here, -⟩
    all_goals cases busy here eq
  | waking cur pa n r' here => cases busy here (other at' moved)
  | noWord cur n r' here => cases busy here (other at' moved)
  | wake cur key n r' sys here => cases busy here (other (same sys) moved)

section
variable {a : FutexAct} {b : Nat} {n : Int} {r : ρ}

theorem Move.unlocked (m : Move mine prog s a s') (futex : FutexInv mine s) (now : s.Current)
    (inside : (s.spot b).waker = some (n, r)) (out : s'.spot b = .user r) (t e pa : Nat) (r' : ρ) :
    s'.spot t ≠ .locked e pa r' := by
  intro locked
  rcases m.returned inside out with ⟨none, rfl⟩ | ⟨key, sys, at', free, done, rfl⟩
  · rw [Futex.put_spot] at locked
    split at locked
    · cases locked
    · have found := now t pa (by rw [locked]; rfl)
      rw [none] at found
      cases found
  · rw [Futex.put_spot] at locked
    split at locked
    · cases locked
    · have holder := (futex.lock t).mp ⟨e, pa, r', locked_of_rouse locked⟩
      rw [free] at holder
      cases holder

theorem Move.slept (m : Move mine prog s a s') (inside : (s.spot b).waker = some (n, r)) (out : s'.spot b = .user r)
    {t e pa : Nat} {r' : ρ} (asleep : s'.spot t = .asleep e pa r') : s.spot t = .asleep e pa r' := by
  rcases m.returned inside out with ⟨-, rfl⟩ | ⟨key, sys, -, -, -, rfl⟩
  · rw [Futex.put_spot] at asleep
    split at asleep
    · cases asleep
    · exact asleep
  · rw [Futex.put_spot] at asleep
    split at asleep
    · cases asleep
    · exact (FutexInv.asleep_of_rouse asleep).1

theorem Move.drained (m : Move mine prog s a s') (futex : FutexInv mine s) (now : s.Current) (all : n ≤ 0)
    (inside : (s.spot b).waker = some (n, r)) (out : s'.spot b = .user r) (t e pa : Nat) (r' : ρ) :
    s'.spot t ≠ .asleep e pa r' := by
  intro asleep
  have found := now t pa (by rw [m.slept inside out asleep]; rfl)
  obtain ⟨slot, still, chan⟩ := (futex.step m).asleep t e pa r' asleep
  rcases m.returned inside out with ⟨none, -⟩ | ⟨key, sys, at', free, done, rfl⟩
  · rw [none] at found
    cases found
  · -- the sleeper and the waker have looked up the same address
    rw [now b key (by rw [at']; rfl)] at found
    obtain rfl := Option.some.inj found
    obtain rfl : s.sys.withSched (s.sys.sched.futexWake key n).2 = sys := Except.ok.inj done
    exact Sched.futexWake_all s.sys.sched key all slot ⟨still, chan⟩

theorem Move.signalled (m : Move mine prog s a s') (futex : FutexInv mine s) (now : s.Current)
    (inside : (s.spot b).waker = some (1, r)) (out : s'.spot b = .user r) {t e pa : Nat} {r' : ρ}
    (asleep : s.spot t = .asleep e pa r') :
    ∃ u e pa r', s.spot u = .asleep e pa r' ∧ s'.spot u = .user r' := by
  have found := now t pa (by rw [asleep]; rfl)
  rcases m.returned inside out with ⟨none, rfl⟩ | ⟨key, sys, at', free, done, rfl⟩
  · rw [none] at found
    cases found
  · rw [now b key (by rw [at']; rfl)] at found
    obtain rfl := Option.some.inj found
    obtain ⟨slot, state, chan⟩ := futex.asleep t e key r' asleep
    have own := futex.key b key (by rw [at']; rfl)
    obtain rfl : s.sys.withSched (s.sys.sched.futexWake key 1).2 = sys := Except.ok.inj done
    rcases Sched.futexWake_one s.sys.sched key with none | ⟨u, hu, slept, up⟩
    · exact (none t slot ⟨state, chan⟩).elim
    · obtain ⟨e', r'', sleeper⟩ := futex.tracked u hu key slept.1 slept.2 own
      refine ⟨u, e', key, r'', sleeper, ?_⟩
      have other : u ≠ b := by
        rintro rfl
        rw [at'] at sleeper
        cases sleeper
      rw [Futex.put_spot, if_neg other]
      change Spot.rouse (s.sys.sched.futexWake key 1).2 u (s.spot u) = _
      rw [sleeper]
      apply if_neg
      intro still
      have same : ((s.sys.sched.futexWake key 1).2.proc u).chan = (s.sys.sched.proc u).chan :=
        Sched.futexWake_chan s.sys.sched key 1 u
      exact up ⟨still, same.trans slept.2⟩

end

/-- Before any thread has made a call; the page of the word may be in any state. -/
structure Init (mine : Nat → Bool) (s : Futex ρ) : Prop where
  reach : s.sys.Reachable
  spots : ∀ t, s.spot t = .away ∨ ∃ r, s.spot t = .user r
  free : s.lock = none
  clear : ∀ t < NPROC, ∀ pa, s.sys.sched.AsleepOn pa t → mine pa = false
  map : ∀ pa, s.page.uva2pa = some pa → mine pa = true

theorem Init.inv (first : Init mine s) : FutexInv mine s ∧ s.Current := by
  refine ⟨FutexInv.init first.reach first.spots first.free first.clear first.map, ?_⟩
  intro t pa key
  rcases first.spots t with h | ⟨r, h⟩
  all_goals
    rw [h] at key
    cases key

theorem start_init {sys : Sys} (awake : sys.Reachable ∧ ∀ t < NPROC, (sys.sched.proc t).state ≠ .sleeping) (n : Nat) (r : ρ)
    {page : WordPage} (map : ∀ pa, page.uva2pa = some pa → mine pa = true) : Init mine (start n r page sys) :=
  ⟨awake.1, fun t => (start_spot n r page sys t).imp id fun at' => ⟨r, at'⟩, rfl,
    fun t slot _ asleep => (awake.2 t slot asleep.1).elim, map⟩

theorem settled_inv {guard : Futex ρ → FutexAct → Prop} (settles : ∀ s a, guard s a → Settled prog s a)
    (reach : Runs.Reachable (Init mine) (step mine prog) guard s) : FutexInv mine s ∧ s.Current := by
  refine Runs.Reachable.invariant (P := fun s => FutexInv mine s ∧ s.Current) (fun _ first => first.inv) ?_ reach
  intro s a s' inv admitted done
  have m := step_move done
  exact ⟨inv.1.step m, inv.2.step (settles s a admitted) m⟩

end Futex

inductive HandoffPc where
  | start
  | stored
  | done
  deriving DecidableEq, Repr

/-- The word is at 4096, or at 8192 if its page is copied. -/
def handoffMine (pa : Nat) : Bool := pa == 4096 || pa == 8192

/-- A thread stores 1 and wakes everyone, or it waits as long as the word is 0. -/
def handoffProg : HandoffPc → Nat → Option (Instr HandoffPc)
  | .start, 0 => some (.exchange 1 fun _ => .stored)
  | .start, _ => some (.futexWait 0 .done)
  | .stored, _ => some (.futexWake 0 .done)
  | .done, _ => none

theorem handoff_spares (s : Futex HandoffPc) (a : FutexAct) : Futex.Spares handoffProg 0 s a := by
  cases a with
  | sys a => trivial
  | go c choice pa =>
    intro cur r w next on at' instr
    match r, choice, instr with
    | .start, 0, instr =>
      cases instr
      decide

theorem handoff_start {sys : Sys} (run : Runs.run Sys.step (Sys.zeroed 1) Sys.firstClone = .ok sys) {page : WordPage}
    (map : page.uva2pa = some 4096) : Futex.Init handoffMine (Futex.start 2 HandoffPc.start page sys) := by
  apply Futex.start_init (Sys.firstClone_awake run)
  intro pa at'
  obtain rfl := Option.some.inj (map.symm.trans at')
  rfl

/-- Thread 1 goes to sleep while the word is 0, then thread 0 stores 1. -/
def handoffStored : List FutexAct :=
  [.sys (.yield 0), .sys (.dispatch 0), .go 0 1 4096, .go 0 0 4096, .go 0 0 4096, .go 0 0 4096, .go 0 0 4096,
    .sys (.dispatch 0), .go 0 0 8192]

theorem handoff_settled (s : Futex HandoffPc) (a : FutexAct) (own : decide (s.page = .own 4096) = true) :
    Futex.Settled handoffProg s a ∧ Futex.Spares handoffProg 0 s a := by
  refine ⟨?_, handoff_spares s a⟩
  cases a with
  | sys a => trivial
  | go c choice pa =>
    intro cur r v next old on at' instr shared
    rw [of_decide_eq_true own] at shared
    cases shared

end Xv6
