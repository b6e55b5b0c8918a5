import Xv6.Process.Directories
import Xv6.Process.QueueSafety

/-!
The life of a page directory. It is set up, becomes some process's pgdir, and is
freed when its last user is reaped or leaves it in exec.
-/
namespace Xv6

variable {s s' : Sys}

/-- Follow d through the history: some true while it is a pgdir, none once it is freed
    without having been adopted since, or adopted twice. -/
def Event.track (d : Nat) : Option Bool → Event → Option Bool
  | none, _ => none
  | some live, .adopt e => if e = d then (if live then none else some true) else some live
  | some live, .freevm e _ => if e = d then (if live then some false else none) else some live

def lifeline (d : Nat) (log : List Event) : Option Bool := log.foldl (Event.track d) (some false)

theorem lifeline_append (d : Nat) (log : List Event) (e : Event) :
    lifeline d (log ++ [e]) = Event.track d (lifeline d log) e := by
  simp [lifeline]

structure LogInv (s : Sys) : Prop where
  life : ∀ d, ∃ live, lifeline d s.log = some live ∧
    (live = true ↔ d ∈ s.dirs ∧ ∀ p, s.pc p ≠ .execLoaded d)
  quiet : ∀ d users, Event.freevm d users ∈ s.log → users = []

namespace LogInv

theorem same (inv : LogInv s) (log : s'.log = s.log) (dirs : s'.dirs = s.dirs)
    (pc : ∀ p d, s'.pc p = .execLoaded d ↔ s.pc p = .execLoaded d) : LogInv s' := by
  refine ⟨?_, by rw [log]; exact inv.quiet⟩
  intro d
  obtain ⟨live, eq, iff⟩ := inv.life d
  refine ⟨live, by rw [log]; exact eq, ?_⟩
  rw [iff, dirs]
  simp only [ne_eq, pc]

theorem adopt (inv : LogInv s) {d : Nat} (log : s'.log = s.log ++ [.adopt d])
    (dirs : s'.dirs = insert d s.dirs) (before : ¬ (d ∈ s.dirs ∧ ∀ p, s.pc p ≠ .execLoaded d))
    (after : ∀ p, s'.pc p ≠ .execLoaded d)
    (pc : ∀ p e, e ≠ d → (s'.pc p = .execLoaded e ↔ s.pc p = .execLoaded e)) : LogInv s' := by
  constructor
  · intro e
    obtain ⟨live, eq, iff⟩ := inv.life e
    rw [log, lifeline_append, eq]
    by_cases here : e = d
    · subst here
      obtain rfl : live = false := by
        rw [← Bool.not_eq_true, iff]
        exact before
      refine ⟨true, by simp [Event.track], ?_⟩
      rw [dirs]
      simp [after]
    · refine ⟨live, by simp [Event.track, Ne.symm here], ?_⟩
      rw [iff, dirs, Finset.mem_insert]
      simp [pc _ e here, here]
  · intro e users member
    rw [log, List.mem_append, List.mem_singleton] at member
    rcases member with old | new
    · exact inv.quiet e users old
    · cases new

theorem freevm (inv : LogInv s) {d : Nat} {left : List Nat} (log : s'.log = s.log ++ [.freevm d left])
    (dirs : s'.dirs = s.dirs.erase d) (none : left = []) (member : d ∈ s.dirs)
    (before : ∀ p, s.pc p ≠ .execLoaded d)
    (pc : ∀ p e, e ≠ d → (s'.pc p = .execLoaded e ↔ s.pc p = .execLoaded e)) : LogInv s' := by
  constructor
  · intro e
    obtain ⟨live, eq, iff⟩ := inv.life e
    rw [log, lifeline_append, eq]
    by_cases here : e = d
    · subst here
      obtain rfl : live = true := iff.mpr ⟨member, before⟩
      refine ⟨false, by simp [Event.track], ?_⟩
      rw [dirs]
      simp
    · refine ⟨live, by simp [Event.track, Ne.symm here], ?_⟩
      rw [iff, dirs, Finset.mem_erase]
      simp [pc _ e here, here]
  · intro e users member'
    rw [log, List.mem_append, List.mem_singleton] at member'
    rcases member' with old | new
    · exact inv.quiet e users old
    · cases new
      exact none

theorem setPc_loaded (s : Sys) (cur : Nat) (next : Pc) (before : ∀ d, s.pc cur ≠ .execLoaded d)
    (after : ∀ d, next ≠ .execLoaded d) (p d : Nat) :
    (s.setPc cur next).pc p = .execLoaded d ↔ s.pc p = .execLoaded d := by
  rw [Sys.setPc_pc]
  split
  · rename_i here
    rw [here]
    exact ⟨fun h => (after d h).elim, fun h => (before d h).elim⟩
  · rfl

theorem not_loaded {pc : Pc} (none : pc.holds = none) (d : Nat) : pc ≠ .execLoaded d := by
  rintro rfl
  cases none

theorem store (inv : LogInv s) {cur : Nat} {sched : Sched} {next : Pc} (before : (s.pc cur).holds = none)
    (after : next.holds = none) : LogInv ((s.withSched sched).setPc cur next) :=
  inv.same rfl rfl (setPc_loaded (s.withSched sched) cur next (not_loaded before) (not_loaded after))

theorem step (inv : LogInv s) (dirs : DirInv s) (kin : KinInv s) (pcs : PcInv s) {joiner : Nat → Prop}
    (m : Move joiner s s') : LogInv s' := by
  have notFresh : ∀ {d}, s.Fresh d → ∀ p, s.pc p ≠ .execLoaded d := by
    intro d fresh p at'
    exact fresh.2 (dirs.held p d (by rw [at']; rfl)).1
  cases m with
  | schedule sched ok keeps => exact inv.same rfl rfl fun _ _ => Iff.rfl
  | userinitAlloc p kstack sched boot alloc => exact inv.same rfl rfl fun _ _ => Iff.rfl
  | userinitRun p d boot fresh =>
    exact inv.adopt rfl rfl (fun h => fresh.2 h.1) (notFresh fresh) fun _ _ _ => Iff.rfl
  | check cur pc run at' next few =>
    rcases next with rfl | rfl
    · exact inv.same rfl rfl (setPc_loaded s cur _ (by rw [at']; exact nofun) nofun)
    · exact inv.same rfl rfl (setPc_loaded s cur _ (by rw [at']; exact nofun) nofun)
  | giveUp cur run slot empty =>
    exact inv.same rfl rfl (setPc_loaded s cur .user (fun d => (empty d).1) (fun d => nofun))
  | claim cur np sched next run at' alloc =>
    rcases at' with ⟨rfl, here⟩ | ⟨⟨stack, rfl⟩, here⟩
    · exact inv.store (by rw [here]; rfl) rfl
    · exact inv.store (by rw [here]; rfl) rfl
  | release cur np f run at' shape =>
    refine inv.store ?_ rfl
    rcases at' with here | here | ⟨stack, here⟩
    · rw [here]; rfl
    · rw [here]; rfl
    · rw [here]; rfl
  | stack cur np kstack next run at' =>
    rcases at' with ⟨here, rfl⟩ | ⟨stack, here, rfl⟩
    · exact inv.store (by rw [here]; rfl) rfl
    · exact inv.store (by rw [here]; rfl) rfl
  | cow cur np d run at' fresh =>
    have loaded := setPc_loaded s cur (.forkCowed np) (by rw [at']; exact nofun) nofun
    refine inv.adopt rfl rfl (fun h => fresh.2 h.1) ?_ fun p e _ => loaded p e
    intro p here
    exact notFresh fresh p ((loaded p d).mp here)
  | share cur np stack run at' => exact inv.store (by rw [at']; rfl) rfl
  | link cur np isthread ustack next run at' =>
    rcases at' with ⟨here, rfl, -⟩ | ⟨here, rfl, -⟩
    · exact inv.store (by rw [here]; rfl) rfl
    · exact inv.store (by rw [here]; rfl) rfl
  | launch cur np run at' =>
    have making : (s.pc cur).making = some np := by
      rcases at' with here | here
      · rw [here]; rfl
      · rw [here]; rfl
    rw [pcs.launch_eq making]
    exact inv.store (Pc.quiet_of_making making).1 rfl
  | load cur d run at' fresh =>
    refine ⟨?_, inv.quiet⟩
    intro e
    obtain ⟨live, eq, iff⟩ := inv.life e
    refine ⟨live, eq, iff.trans ?_⟩
    constructor
    · rintro ⟨member, idle⟩
      refine ⟨Finset.mem_insert_of_mem member, ?_⟩
      intro p here
      rw [Sys.setPc_pc] at here
      split at here
      · cases here
        exact fresh.2 member
      · exact idle p here
    · rintro ⟨member, idle⟩
      rcases Finset.mem_insert.mp member with rfl | old
      · exact (idle cur (by rw [Sys.setPc_pc, if_pos rfl])).elim
      · refine ⟨old, fun p here => ?_⟩
        refine idle p ?_
        rw [Sys.setPc_pc, if_neg]
        · exact here
        · rintro rfl
          rw [at'] at here
          cases here
  | commit cur d sz run at' =>
    refine inv.adopt rfl rfl (fun h => h.2 cur at') ?_ ?_
    · intro p here
      rw [Sys.setPc_pc] at here
      split at here
      · cases here
      · rename_i other
        exact other (dirs.once p cur d (by rw [show s.pc p = _ from here]; rfl) (by rw [at']; rfl))
    · intro p e ne
      rw [Sys.setPc_pc]
      split
      · rename_i here
        rw [here, at']
        exact ⟨nofun, fun eq => (ne (Pc.execLoaded.inj eq).symm).elim⟩
      · rfl
  | free cur old run at' =>
    obtain ⟨member, unused⟩ := dirs.held cur old (by rw [at']; rfl)
    have loaded := setPc_loaded s cur .user (by rw [at']; exact nofun) nofun
    refine inv.freevm rfl rfl ?_ member ?_ fun p e _ => loaded p e
    · rw [List.filter_eq_nil_iff]
      intro i user
      exact (unused i ((kin.users old i).mp user)).elim
    · intro p here
      obtain rfl := dirs.once p cur old (by rw [here]; rfl) (by rw [at']; rfl)
      rw [at'] at here
      cases here
  | exit c cur hc on at' notInit =>
    generalize s.sched.exit c cur = sched
    exact inv.same rfl rfl fun _ _ => Iff.rfl
  | reap cur p run at' found =>
    obtain ⟨lt, -, zombie, -⟩ := Sched.zombieChild_some found
    have used : (s.sched.proc p).state ≠ .unused := by rw [zombie]; decide
    have pos := kin.dir p used (by rw [zombie]; decide)
    split
    · rename_i last
      refine inv.freevm rfl rfl ?_ (dirs.member _ p pos ⟨used, rfl⟩) ?_ fun _ _ _ => Iff.rfl
      · rw [List.filter_eq_nil_iff]
        intro i user
        have := kin.last used pos (Nat.le_of_eq last.2) ((kin.users _ i).mp user)
        simp [this]
      · intro q here
        exact (dirs.held q _ (by rw [here]; rfl)).2 p ⟨used, rfl⟩
    · exact inv.same rfl rfl fun _ _ => Iff.rfl
  | reapThread cur p run at' found may => exact inv.same rfl rfl fun _ _ => Iff.rfl

end LogInv

/-- init runs init.c, which never calls join. -/
def InitNeverJoins (s : Sys) (a : Act) : Prop :=
  ∀ c cur, a = .joinScan c → s.sched.cpu c = some cur → s.sched.initproc ≠ some cur

structure LifeInv (s : Sys) : Prop where
  pcs : PcInv s
  kin : KinInv s
  dirs : DirInv s
  log : LogInv s

namespace LifeInv

theorem init (first : s.Init) : LifeInv s := by
  refine ⟨PcInv.init first, KinInv.start first, ?_, ?_⟩
  · obtain ⟨-, -, proc, -, -, -, pc, -, dirs, -⟩ := first
    have unused : ∀ d i, ¬ s.Uses d i := fun d i use => use.1 (by rw [proc i]; rfl)
    refine ⟨by rw [dirs]; exact Finset.notMem_empty 0, ?_, ?_, ?_, ?_, ?_⟩
    · intro d i _ use
      exact (unused d i use).elim
    · intro d member
      rw [dirs] at member
      cases member
    · intro p d hold
      rw [pc p] at hold
      cases hold
    · intro p q d hold
      rw [pc p] at hold
      cases hold
    · intro p exec
      rw [pc p] at exec
      cases exec
  · obtain ⟨-, -, -, -, -, -, -, -, dirs, log⟩ := first
    constructor
    · intro d
      refine ⟨false, by rw [log]; rfl, ?_⟩
      rw [dirs]
      simp
    · intro d users member
      rw [log] at member
      cases member

theorem step (inv : LifeInv s) {a : Act} (guard : InitNeverJoins s a) (done : s.step a = .ok s') :
    LifeInv s' := by
  have m : Move (fun cur => s.sched.initproc ≠ some cur) s s' := Sys.step_move inv.pcs.sched done guard
  have loaded : ∀ p d, s.pc p = .execLoaded d → d ≠ 0 := by
    rintro p d at' rfl
    exact inv.dirs.null (inv.dirs.held p 0 (by rw [at']; rfl)).1
  exact ⟨inv.pcs.step m, inv.kin.step inv.pcs inv.dirs.alone loaded m, inv.dirs.step inv.kin inv.pcs m,
    inv.log.step inv.dirs inv.kin inv.pcs m⟩

theorem reachable (reach : Runs.Reachable Sys.Init Sys.step InitNeverJoins s) : LifeInv s :=
  Runs.Reachable.invariant (P := LifeInv) (fun _ first => init first)
    (fun _ _ _ inv guard done => inv.step guard done) reach

end LifeInv

/-- In every state that an interleaving reaches, adoptions and frees of a directory
    alternate, no freevm had a user left apart from the zombie being reaped, and a
    directory without users is not alive unless exec is about to free it. -/
theorem address_space_lifetime (s : Sys) (reach : Runs.Reachable Sys.Init Sys.step InitNeverJoins s) :
    (∀ d users, Event.freevm d users ∈ s.log → users = []) ∧
      ∀ d, ∃ live, lifeline d s.log = some live ∧
        (s.sched.users d = [] → (∀ p, s.pc p ≠ .execCommitted d) → live = false) := by
  have inv := LifeInv.reachable reach
  refine ⟨inv.log.quiet, ?_⟩
  intro d
  obtain ⟨live, eq, iff⟩ := inv.log.life d
  refine ⟨live, eq, ?_⟩
  intro none outside
  rw [← Bool.not_eq_true, iff]
  rintro ⟨member, notLoaded⟩
  rcases inv.dirs.used d member with ⟨i, use⟩ | ⟨p, hold⟩
  · have := (inv.kin.users d i).mpr use
    rw [none] at this
    cases this
  · cases at' : s.pc p with
    | execLoaded e =>
      rw [at'] at hold
      exact notLoaded p (by rw [at', Option.some.inj hold])
    | execCommitted e =>
      rw [at'] at hold
      exact outside p (by rw [at', Option.some.inj hold])
    | _ =>
      rw [at'] at hold
      cases hold

def Sys.firstReap : List Act :=
  Sys.firstFork ++ [.waitScan 0, .dispatch 0, .exit 0, .dispatch 0, .waitScan 0]

theorem lifetime_after_wait :
    ∃ s, Runs.run Sys.step (Sys.zeroed 2) Sys.firstReap = .ok s ∧
      s.log = [.adopt 600, .adopt 700, .freevm 700 []] ∧ s.sched.users 700 = [] ∧
      (∀ d users, Event.freevm d users ∈ s.log → users = []) ∧
      ∀ d, ∃ live, lifeline d s.log = some live ∧
        (s.sched.users d = [] → (∀ p, s.pc p ≠ .execCommitted d) → live = false) := by
  have first : Runs.Reachable Sys.Init Sys.step InitNeverJoins (Sys.zeroed 2) :=
    Runs.Reachable.start (Sys.zeroed_init (by decide) (by decide))
  have trace : (Runs.run Sys.step (Sys.zeroed 2) Sys.firstReap).toOption.map
      (fun s => (s.log, s.sched.users 700)) = some ([.adopt 600, .adopt 700, .freevm 700 []], []) := by
    decide +kernel
  obtain ⟨s, done, seen⟩ := Runs.observed trace
  obtain ⟨log, users⟩ := Prod.mk.inj seen
  refine ⟨s, done, log, users, address_space_lifetime s (first.run ?_ done)⟩
  intro s a member c cur join
  subst join
  simp [Sys.firstReap, Sys.firstFork] at member

end Xv6
