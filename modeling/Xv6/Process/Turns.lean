import Xv6.Sched.Aging
import Xv6.Process.Family

/-!
What one action does to one slot of the process table. Every invariant about single
slots follows from this one case analysis.
-/
namespace Xv6

/-- What a process keeps from the time it is linked until it is reaped, kill apart. -/
def Proc.badge (p : Proc) : Nat × Int × Bool × Nat := (p.kstack, p.pid, p.isthread, p.ustack)

def Proc.still (p : Proc) : (Nat × Int × Bool × Nat) × Bool × Option Chan × Nat × Option Nat :=
  (p.badge, p.killed, p.chan, p.pgdir, p.parent)

theorem badge_ageless : Ageless Proc.badge := ⟨⟨⟨fun _ _ _ => rfl⟩, fun _ _ => rfl⟩, fun _ _ _ => rfl⟩

theorem still_ageless : Ageless Proc.still := ⟨⟨⟨fun _ _ _ => rfl⟩, fun _ _ => rfl⟩, fun _ _ _ => rfl⟩

/-- The state after a step that does not put this process to sleep, and does not run it. -/
def Procstate.Rests (st st' : Procstate) : Prop := st' = st ∨ st = .sleeping ∧ st' = .runnable

inductive Lulled (s : Sys) (j c : Nat) : Act → Chan → Prop where
  | sleep (chan : Chan) : Lulled s j c (.sleep c chan) chan
  | futexWait (pa : Nat) : Lulled s j c (.futexWait c pa) (.futex pa)
  | pause (a : Act) (threads : Bool) (call : a.scans = some (c, threads))
      (none : s.sched.zombieChild j threads = none) (spared : (s.sched.proc j).killed = false) :
      Lulled s j c a (.proc j)

inductive Turn (s : Sys) (a : Act) (j : Nat) : Proc → Prop where
  | rests (p : Proc) (state : (s.sched.proc j).state.Rests p.state) (still : p.still = (s.sched.proc j).still) :
      Turn s a j p
  | moves (p : Proc) (run : (s.sched.proc j).state = .running) (state : p.state = .running)
      (badge : p.badge = (s.sched.proc j).badge) (killed : p.killed = (s.sched.proc j).killed)
      (chan : p.chan = (s.sched.proc j).chan) (parent : p.parent = (s.sched.proc j).parent) : Turn s a j p
  | orphaned (p : Proc) (c cur : Nat) (call : a = .exit c) (on : s.sched.cpu c = some cur)
      (state : (s.sched.proc j).state.Rests p.state) (child : (s.sched.proc j).parent = some cur)
      (badge : p.badge = (s.sched.proc j).badge) (killed : p.killed = (s.sched.proc j).killed)
      (chan : p.chan = (s.sched.proc j).chan) (pgdir : p.pgdir = (s.sched.proc j).pgdir)
      (parent : p.parent = s.sched.initproc) : Turn s a j p
  | marked (p : Proc) (call : a = .kill (s.sched.proc j).pid) (slot : j < NPROC)
      (state : (s.sched.proc j).state.Rests p.state) (awake : p.state ≠ .sleeping)
      (still : p.still = { s.sched.proc j with killed := true : Proc }.still) : Turn s a j p
  | runs (p : Proc) (ready : (s.sched.proc j).state = .runnable) (state : p.state = .running)
      (still : p.still = { s.sched.proc j with chan := none : Proc }.still) : Turn s a j p
  | yields (p : Proc) (run : (s.sched.proc j).state = .running) (state : p.state = .runnable)
      (still : p.still = (s.sched.proc j).still) : Turn s a j p
  | sleeps (p : Proc) (c : Nat) (chan : Chan) (hc : c < s.sched.ncpu) (on : s.sched.cpu c = some j)
      (why : Lulled s j c a chan) (state : p.state = .sleeping)
      (still : p.still = { s.sched.proc j with chan := some chan : Proc }.still) : Turn s a j p
  | exits (p : Proc) (c : Nat) (call : a = .exit c) (hc : c < s.sched.ncpu) (on : s.sched.cpu c = some j)
      (state : p.state = .zombie) (still : p.still = (s.sched.proc j).still) : Turn s a j p
  | reaped (p : Proc) (c cur : Nat) (threads : Bool) (call : a.scans = some (c, threads)) (hc : c < s.sched.ncpu)
      (on : s.sched.cpu c = some cur) (found : s.sched.zombieChild cur threads = some j)
      (shape : p = (s.sched.reap j).proc j) : Turn s a j p
  | alloced (p : Proc) (free : (s.sched.proc j).state = .unused) (state : p.state = .embryo)
      (killed : p.killed = (s.sched.proc j).killed) (chan : p.chan = (s.sched.proc j).chan)
      (pgdir : p.pgdir = 0) (parent : p.parent = (s.sched.proc j).parent) (thread : p.isthread = false) : Turn s a j p
  | released (p : Proc) (c cur d : Nat) (call : a.givesUp = some c) (on : s.sched.cpu c = some cur)
      (at' : (s.pc cur).unlinked = some j)
      (pgdir : d = 0 ∨ d = (s.sched.proc j).pgdir ∧
        (s.pc cur = .forkAlloced j ∨ ∃ stack, s.pc cur = .cloneAlloced j stack))
      (shape : p = { s.sched.proc j with pgdir := d, kstack := 0, state := .unused }) : Turn s a j p
  | filled (p : Proc) (cur k d : Nat) (at' : (s.pc cur).making = some j)
      (dir : (s.pc cur).fresh = some j → d = (s.sched.proc j).pgdir)
      (shape : p = { s.sched.proc j with kstack := k, pgdir := d }) : Turn s a j p
  | linked (p : Proc) (cur : Nat) (at' : (s.pc cur).making = some j) (state : p.state = (s.sched.proc j).state)
      (pid : p.pid = (s.sched.proc j).pid) (killed : p.killed = (s.sched.proc j).killed)
      (chan : p.chan = (s.sched.proc j).chan) (pgdir : p.pgdir = (s.sched.proc j).pgdir)
      (thread : p.isthread = true → s.pc cur = .cloneShared j p.ustack) :
      Turn s a j p
  | born (p : Proc) (embryo : (s.sched.proc j).state = .embryo) (state : p.state = .runnable)
      (badge : p.badge = (s.sched.proc j).badge) (killed : p.killed = (s.sched.proc j).killed)
      (chan : p.chan = (s.sched.proc j).chan) (parent : p.parent = (s.sched.proc j).parent) : Turn s a j p

theorem Steady.rests {s s' : Sched} (steady : Steady s s') (j : Nat) :
    (s.proc j).state.Rests (s'.proc j).state := steady.state j

theorem Sched.rouse_state (s : Sched) (i j : Nat) :
    ((s.rouse i).proc j).state = if j = i then .runnable else (s.proc j).state := by
  have pushed : ((s.rouse i).proc j).state = ((s.modify i fun q => { q with state := .runnable }).proc j).state :=
    state_placeless.rqPush (s.modify i fun q => { q with state := .runnable }) _ i j
  rw [pushed]
  by_cases here : j = i
  · subst here
    simp
  · simp [here]

theorem Sched.setRunnable_state (s : Sched) (i j : Nat) :
    ((s.setRunnable i).proc j).state = if j = i then .runnable else (s.proc j).state := by
  have pushed : ((s.setRunnable i).proc j).state =
      ((s.modify i fun q => { q with state := .runnable }).proc j).state :=
    state_placeless.rqPush (s.modify i fun q => { q with state := .runnable }) _ i j
  rw [pushed]
  by_cases here : j = i
  · subst here
    simp
  · simp [here]

namespace Sys
variable {s s' : Sys} {j : Nat}

theorem turn_same {a : Act} {p : Proc} (same : p = s.sched.proc j) : Turn s a j p := by
  rw [same]
  exact .rests _ (Or.inl rfl) rfl

theorem turn_modify {a : Act} {i : Nat} {f : Proc → Proc} (here : Turn s a i (f (s.sched.proc i))) (j : Nat) :
    Turn s a j ((s.sched.modify i f).proc j) := by
  by_cases eq : j = i
  · subst eq
    simpa using here
  · exact turn_same (by simp [eq])

theorem turn_steady {a : Act} {sched : Sched} (steady : Steady s.sched sched) (still : Same Proc.still s.sched sched) :
    Turn s a j (sched.proc j) := .rests _ (steady.rests j) (still j)

theorem turn_sleep {a : Act} {c cur : Nat} {chan : Chan} (hc : c < s.sched.ncpu)
    (on : s.sched.cpu c = some cur) (why : Lulled s cur c a chan) (j : Nat) :
    Turn s a j ((s.sched.sleep c cur chan).proc j) := by
  have asleep : Turn s a j ((s.sched.modify cur fun p => { p with chan := some chan, state := .sleeping }).proc j) :=
    turn_modify (.sleeps _ c chan hc on why rfl rfl) j
  exact asleep

theorem turn_yield {a : Act} {t : Sched} {c cur : Nat} (run : (s.sched.proc cur).state = .running)
    (still : Same Proc.still s.sched t) (state : Same Proc.state s.sched t) (j : Nat) :
    Turn s a j ((t.yield c cur).proc j) := by
  have kept := (still_ageless.yield t c cur j).trans (still j)
  have pushed := state_placeless.rqPush (t.modify cur fun p => { p with state := .runnable }) c cur j
  have after : ((t.yield c cur).proc j).state =
      ((t.modify cur fun p => { p with state := .runnable }).proc j).state := pushed
  by_cases here : j = cur
  · subst here
    exact .yields _ run (by simpa using after) kept
  · refine .rests _ (Or.inl ?_) kept
    rw [after]
    simpa [here] using state j

theorem turn_scheduler (inv : PcInv s) {a : Act} {c : Nat} {sched : Sched} (hc : c < s.sched.ncpu)
    (done : s.sched.scheduler c = .ok sched) (j : Nat) : Turn s a j (sched.proc j) := by
  unfold Sched.scheduler at done
  rcases inv.sched.queues.pick hc with empty | ⟨i, s1, popped, queues, hi, before, ready, calm⟩
  · rw [empty] at done
    cases done
    exact turn_same rfl
  · have still := still_ageless.pickNext s.sched c
    have state := state_placeless.pickNext s.sched c
    rw [popped] at done still state
    simp only [ready, ne_eq, not_true_eq_false, ↓reduceIte] at done
    cases done
    by_cases here : j = i
    · subst here
      refine .runs _ before (by simp) ?_
      have same := still j
      simp only [Proc.still, Proc.badge, Prod.mk.injEq] at same ⊢
      simpa using ⟨same.1, same.2.1, same.2.2.2⟩
    · refine .rests _ (Or.inl ?_) ?_
      · simpa [here] using state j
      · simpa [here] using still j

theorem turn_kill (inv : PcInv s) (pid : Int) (j : Nat) : Turn s (.kill pid) j ((s.sched.kill pid).2.proc j) := by
  have steady := (inv.sched.queues.kill pid).2.toSteady
  unfold Sched.kill at steady ⊢
  cases found : (List.range NPROC).find? fun i => (s.sched.proc i).pid == pid with
  | none => exact turn_same rfl
  | some i =>
    rw [found] at steady
    have slot := List.mem_range.mp (List.mem_of_find?_eq_some found)
    obtain rfl : (s.sched.proc i).pid = pid := by
      have := List.find?_some found
      simpa using this
    simp only at steady ⊢
    split at steady
    · rename_i asleep
      rw [if_pos asleep]
      have still := still_ageless.rouse (s.sched.modify i fun q => { q with killed := true }) i
      by_cases here : j = i
      · subst here
        refine .marked _ rfl slot (steady.rests j) ?_ ?_
        · rw [Sched.rouse_state, if_pos rfl]
          decide
        · rw [still j]
          simp
      · refine .rests _ (steady.rests j) ?_
        rw [still j]
        simp [here]
    · rename_i awake
      rw [if_neg awake]
      apply turn_modify
      exact .marked _ rfl slot (Or.inl rfl) (by simpa using awake) rfl

theorem allocproc_kept {s sched : Sched} {np : Nat} (alloc : s.allocproc = (some np, sched)) :
    (sched.proc np).killed = (s.proc np).killed ∧ (sched.proc np).chan = (s.proc np).chan := by
  unfold Sched.allocproc at alloc
  split at alloc
  · cases alloc
  · cases alloc
    simp

theorem turn_alloc {a : Act} {np : Nat} {sched : Sched} (alloc : s.sched.allocproc = (some np, sched)) (j : Nat) :
    Turn s a j (sched.proc j) := by
  obtain ⟨-, free, embryo, pgdir, thread, parent, other, -⟩ := Sched.allocproc_some alloc
  have kept := allocproc_kept alloc
  by_cases here : j = np
  · subst here
    exact .alloced _ free embryo kept.1 kept.2 pgdir parent thread
  · exact turn_same (other j here)

theorem turn_launch {a : Act} {i : Nat} {f : Proc → Proc} (embryo : (s.sched.proc i).state = .embryo)
    (badge : (f (s.sched.proc i)).badge = (s.sched.proc i).badge)
    (killed : (f (s.sched.proc i)).killed = (s.sched.proc i).killed)
    (chan : (f (s.sched.proc i)).chan = (s.sched.proc i).chan)
    (parent : (f (s.sched.proc i)).parent = (s.sched.proc i).parent) (j : Nat) :
    Turn s a j (((s.sched.modify i f).setRunnable i).proc j) := by
  have still := still_ageless.setRunnable (s.sched.modify i f) i j
  have after := Sched.setRunnable_state (s.sched.modify i f) i j
  by_cases here : j = i
  · subst here
    rw [if_pos rfl] at after
    simp only [Proc.still, Prod.mk.injEq, Sched.modify_proc, Function.update_self] at still
    exact .born _ embryo after (still.1.trans badge) (still.2.1.trans killed)
      (still.2.2.1.trans chan) (still.2.2.2.2.trans parent)
  · refine .rests _ (Or.inl ?_) ?_
    · simpa [here] using after
    · simpa [here] using still

theorem turn_exit (inv : FamilyInv s) {c cur : Nat} (hc : c < s.sched.ncpu) (on : s.sched.cpu c = some cur)
    (notInit : s.sched.initproc ≠ some cur) (j : Nat) : Turn s (.exit c) j ((s.sched.exit c cur).proc j) := by
  obtain ⟨-, -, zombie, -, pgdir, -, parent⟩ := Sched.exit_facts inv.pcs.sched hc on notInit
  obtain ⟨s2, -, steady, shape⟩ := SchedInv.exit_eq inv.pcs.sched.queues c cur
  have badge := badge_ageless.exit (fun _ _ => rfl) s.sched c cur j
  have killedBlind : Blind Proc.killed := ⟨⟨fun _ _ _ => rfl⟩, fun _ _ => rfl⟩
  have chanBlind : Blind Proc.chan := ⟨⟨fun _ _ _ => rfl⟩, fun _ _ => rfl⟩
  have killed := killedBlind.exit (fun _ _ => rfl) s.sched c cur j
  have chan := chanBlind.exit (fun _ _ => rfl) s.sched c cur j
  have state : j ≠ cur → (s.sched.proc j).state.Rests ((s.sched.exit c cur).proc j).state := by
    intro ne
    rw [shape]
    simpa [ne] using steady.rests j
  generalize s.sched.exit c cur = sched at *
  have still : (sched.proc j).parent = (s.sched.proc j).parent → (sched.proc j).still = (s.sched.proc j).still := by
    intro same
    simp only [Proc.still, badge, killed, chan, pgdir j, same]
  by_cases here : j = cur
  · subst here
    refine .exits _ c rfl hc on zombie (still ?_)
    rw [parent j, if_neg]
    rintro ⟨-, own⟩
    exact inv.self j own
  · by_cases child : j < NPROC ∧ (s.sched.proc j).parent = some cur
    · exact .orphaned _ c cur rfl on (state here) child.2 badge killed chan (pgdir j) (by rw [parent j, if_pos child])
    · exact .rests _ (state here) (still (by rw [parent j, if_neg child]))

theorem step_turn (inv : FamilyInv s) {a : Act} (h : s.step a = .ok s') (j : Nat) :
    Turn s a j (s'.sched.proc j) := by
  have effect := step_effect h
  generalize s'.sched = sched at effect ⊢
  generalize s'.pc = pc at effect
  have running : ∀ {c cur : Nat}, c < s.sched.ncpu → s.sched.cpu c = some cur → (s.sched.proc cur).state = .running :=
    fun hc on => (inv.pcs.sched.cpus.on _ hc _ on).2
  cases effect with
  | nothing => exact turn_same rfl
  | wakeup chan => exact turn_steady (inv.pcs.sched.queues.wakeup1 _).2.toSteady (still_ageless.wakeup1 _ _)
  | futexWake pa n =>
    have calm := (inv.pcs.sched.queues.futexWakeLoop pa n (List.range NPROC) (fun p hp => List.mem_range.mp hp) 0).2
    exact turn_steady calm.toSteady (still_ageless.futexWake _ _ _)
  | kill pid => exact turn_kill inv.pcs pid j
  | tick now => exact turn_steady (inv.pcs.sched.queues.schedulerTick now).2.toSteady (still_ageless.schedulerTick _ _)
  | dispatch c _ hc idle done => exact turn_scheduler inv.pcs hc done j
  | yield c cur hc on => exact turn_yield (running hc on) (Same.refl _ _) (Same.refl _ _) j
  | timer c cur hc on =>
    have still : Same Proc.still s.sched (s.sched.modify cur fun p => { p with slice := p.slice - 1 }) :=
      Same.modify s.sched rfl
    have state : Same Proc.state s.sched (s.sched.modify cur fun p => { p with slice := p.slice - 1 }) :=
      Same.modify s.sched rfl
    unfold Sched.timer
    simp only
    split
    · exact turn_yield (running hc on) still state j
    · exact .rests _ (Or.inl (state j)) (still j)
  | setpriority c cur prio hc on =>
    unfold Sched.setpriority
    split
    · exact turn_same rfl
    · exact turn_modify (s := s) (f := fun p =>
        { p with basePrio := prio.toNat, prio := prio.toNat, slice := quantumFor prio.toNat })
        (.rests _ (Or.inl rfl) rfl) j
  | sleep c cur chan hc on => exact turn_sleep hc on (.sleep chan) j
  | futexWait c cur pa hc on => exact turn_sleep hc on (.futexWait pa) j
  | scan => exact turn_same rfl
  | pause _ c cur threads call hc on none spared => exact turn_sleep hc on (.pause _ threads call none spared) j
  | reap _ c cur p threads call hc on found =>
    by_cases here : j = p
    · subst here
      exact .reaped _ c cur threads call hc on found rfl
    · exact turn_same (by simp [Sched.reap, here])
  | own _ c cur sz pgdir _ plain hc on => exact turn_modify (.moves _ (running hc on) (running hc on) rfl rfl rfl rfl) j
  | syncsize c cur hc on =>
    exact turn_steady (SchedInv.syncsize_steady inv.pcs.sched.queues cur).2 (Blind.syncsize (fun _ _ => rfl) s.sched cur)
  | userinitAlloc kstack p sched boot alloc =>
    obtain ⟨-, free, embryo, pgdir, thread, parent, -⟩ := Sched.allocproc_some alloc
    obtain ⟨killed, chan⟩ := allocproc_kept alloc
    by_cases here : j = p
    · subst here
      exact .alloced _ free (by simpa using embryo) (by simpa using killed) (by simpa using chan)
        (by simpa using pgdir) (by simpa using parent) (by simpa using thread)
    · have turn : Turn s (.userinitAlloc kstack) j (sched.proc j) := turn_alloc alloc j
      simpa [here] using turn
  | userinitRun p d boot => exact turn_launch (inv.pcs.boot p boot).2.1 rfl rfl rfl rfl j
  | alloc _ cur np sched next plain run alloc => exact turn_alloc alloc j
  | release _ cur np d plain at' pgdir c call on => exact turn_modify (.released _ c cur d call on at' pgdir rfl) j
  | fill _ cur np k d next plain at' dir => exact turn_modify (.filled _ cur k d (Pc.making_fill at').1 dir rfl) j
  | link _ c cur np isthread ustack next plain hc on at' =>
    refine turn_modify (.linked _ cur (Pc.making_link at').1 rfl rfl rfl rfl rfl ?_) j
    intro thread
    rcases at' with ⟨-, -, no⟩ | ⟨here, -⟩
    · rw [no] at thread
      cases thread
    · exact here
  | launch _ cur np plain at' =>
    have embryo := (inv.pcs.making cur np (Pc.making_launch at')).2
    have turn : Turn s a j (((s.sched.modify np fun q => q).setRunnable np).proc j) :=
      turn_launch embryo rfl rfl rfl rfl j
    rwa [show s.sched.modify np (fun q => q) = s.sched by simp [Sched.modify]] at turn
  | exit c cur hc on user notInit => exact turn_exit inv hc on notInit j

end Sys

namespace Turn
variable {s : Sys} {a : Act} {j : Nat} {p : Proc}

theorem rests_sleeping {st : Procstate} (state : st.Rests .sleeping) : st = .sleeping := by
  rcases state with same | ⟨-, no⟩
  · exact same.symm
  · cases no

theorem asleep (inv : PcInv s) (turn : Turn s a j p) (asleep : p.state = .sleeping) :
    (s.sched.proc j).state = .sleeping ∧ p.chan = (s.sched.proc j).chan ∧ p.killed = (s.sched.proc j).killed ∨
    (s.sched.proc j).state = .running ∧ ∃ c chan, c < s.sched.ncpu ∧ s.sched.cpu c = some j ∧
      Lulled s j c a chan ∧ p.chan = some chan ∧ p.killed = (s.sched.proc j).killed := by
  have embryo : ∀ {cur : Nat}, (s.pc cur).making = some j → (s.sched.proc j).state ≠ .sleeping := by
    intro cur at'
    rw [(inv.making cur j at').2]
    decide
  cases turn with
  | rests state still =>
    rw [asleep] at state
    simp only [Proc.still, Prod.mk.injEq] at still
    exact Or.inl ⟨rests_sleeping state, still.2.2.1, still.2.1⟩
  | orphaned _ _ _ _ state _ _ killed chan =>
    rw [asleep] at state
    exact Or.inl ⟨rests_sleeping state, chan, killed⟩
  | marked _ _ _ awake => exact (awake asleep).elim
  | sleeps c chan hc on why _ still =>
    simp only [Proc.still, Prod.mk.injEq] at still
    exact Or.inr ⟨(inv.sched.cpus.on c hc j on).2, c, chan, hc, on, why, still.2.2.1, still.2.1⟩
  | reaped _ _ _ _ _ _ _ shape => simp [shape, Sched.reap] at asleep
  | released _ _ _ _ _ _ _ shape => simp [shape] at asleep
  | filled cur _ _ at' _ shape =>
    rw [shape] at asleep
    exact (embryo at' asleep).elim
  | linked cur at' state => exact (embryo at' (state.symm.trans asleep)).elim
  | moves _ state => simp [state] at asleep
  | runs _ state => simp [state] at asleep
  | yields _ state => simp [state] at asleep
  | exits _ _ _ _ state => simp [state] at asleep
  | alloced _ state => simp [state] at asleep
  | born _ state => simp [state] at asleep

end Turn
end Xv6
