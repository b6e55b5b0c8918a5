import Xv6.Sched.Dispatch
import Xv6.Process.System

/-!
What one action of the process system can do. Actions that only schedule keep every
process's directory, parent and kind, and move it between the states of a process
that is alive; the others are listed one by one.
-/
namespace Xv6

/-- SLEEPING, RUNNABLE or RUNNING: the process can still execute code. -/
def Procstate.Alive (st : Procstate) : Prop := st = .sleeping ∨ st = .runnable ∨ st = .running

/-- Scheduling moves a process between the states of the living and no others. -/
def Procstate.Shifts (st st' : Procstate) : Prop := st' = st ∨ st.Alive ∧ st'.Alive

theorem Procstate.Shifts.trans {a b c : Procstate} (first : a.Shifts b) (second : b.Shifts c) : a.Shifts c := by
  rcases first with rfl | ⟨before, between⟩
  · exact second
  · rcases second with rfl | ⟨-, after⟩
    · exact Or.inr ⟨before, between⟩
    · exact Or.inr ⟨before, after⟩

theorem Procstate.Shifts.alive {a b : Procstate} (shift : a.Shifts b) (alive : a.Alive) : b.Alive := by
  rcases shift with rfl | both
  · exact alive
  · exact both.2

theorem Procstate.Shifts.fixed {a b st : Procstate} (shift : a.Shifts b) (dead : ¬ st.Alive) :
    b = st ↔ a = st := by
  rcases shift with rfl | ⟨before, after⟩
  · rfl
  · constructor
    · rintro rfl
      exact (dead after).elim
    · rintro rfl
      exact (dead before).elim

theorem Procstate.unused_dead : ¬ Procstate.unused.Alive := by
  rintro (h | h | h)
  all_goals cases h

theorem Procstate.embryo_dead : ¬ Procstate.embryo.Alive := by
  rintro (h | h | h)
  all_goals cases h

theorem Procstate.zombie_dead : ¬ Procstate.zombie.Alive := by
  rintro (h | h | h)
  all_goals cases h

structure Keeps (s s' : Sched) : Prop where
  initproc : s'.initproc = s.initproc
  state : ∀ j, (s.proc j).state.Shifts (s'.proc j).state
  pgdir : ∀ j, (s'.proc j).pgdir = (s.proc j).pgdir
  parent : ∀ j, (s'.proc j).parent = (s.proc j).parent
  isthread : ∀ j, (s'.proc j).isthread = (s.proc j).isthread

namespace Keeps
variable {s s' s'' : Sched}

theorem refl (s : Sched) : Keeps s s :=
  ⟨rfl, fun _ => Or.inl rfl, fun _ => rfl, fun _ => rfl, fun _ => rfl⟩

theorem trans (a : Keeps s s') (b : Keeps s' s'') : Keeps s s'' := by
  exact ⟨b.initproc.trans a.initproc, fun j => (a.state j).trans (b.state j),
    fun j => (b.pgdir j).trans (a.pgdir j), fun j => (b.parent j).trans (a.parent j),
    fun j => (b.isthread j).trans (a.isthread j)⟩

theorem of_calm (k : Calm s s') : Keeps s s' := by
  refine ⟨k.initproc, ?_, fun j => congrArg Core.pgdir (k.core j), fun j => congrArg Core.parent (k.core j),
    fun j => congrArg Core.isthread (k.core j)⟩
  intro j
  rcases k.state j with same | ⟨before, after⟩
  · exact Or.inl same
  · exact Or.inr ⟨Or.inl before, Or.inr (Or.inl after)⟩

theorem modify (s : Sched) {i : Nat} {f : Proc → Proc}
    (state : (s.proc i).state.Shifts (f (s.proc i)).state)
    (pgdir : (f (s.proc i)).pgdir = (s.proc i).pgdir) (parent : (f (s.proc i)).parent = (s.proc i).parent)
    (isthread : (f (s.proc i)).isthread = (s.proc i).isthread) : Keeps s (s.modify i f) := by
  refine ⟨rfl, ?_, ?_, ?_, ?_⟩
  · intro j
    by_cases here : j = i
    · subst here
      simpa using state
    · exact Or.inl (by simp [here])
  all_goals
    intro j
    by_cases here : j = i
    · subst here
      simpa
    · simp [here]

theorem setCpu (s : Sched) (c : Nat) (p : Option Nat) : Keeps s (s.setCpu c p) :=
  ⟨rfl, fun _ => Or.inl rfl, fun _ => rfl, fun _ => rfl, fun _ => rfl⟩

theorem foldl {f : Sched → Nat → Sched} (step : ∀ s i, Keeps s (f s i)) (is : List Nat) (s : Sched) :
    Keeps s (is.foldl f s) := by
  induction is generalizing s with
  | nil => exact refl s
  | cons i is ih => exact (step s i).trans (ih (f s i))

theorem sleep (s : Sched) (c : Nat) {i : Nat} (run : (s.proc i).state = .running) (chan : Chan) :
    Keeps s (s.sleep c i chan) :=
  (modify s (Or.inr ⟨Or.inr (Or.inr run), Or.inl rfl⟩) rfl rfl rfl).trans (setCpu _ c none)

theorem syncsize (s : Sched) (cur : Nat) : Keeps s (s.syncsize cur) := by
  refine foldl ?_ _ s
  intro s i
  unfold Sched.syncsizeIn
  split
  · exact modify s (Or.inl rfl) rfl rfl rfl
  · exact refl s

theorem yield {c i : Nat} (inv : SchedInv s) (hc : c < s.ncpu) (on : s.cpu c = some i) :
    Keeps s (s.yield c i) := by
  obtain ⟨hi, run⟩ := inv.cpus.on c hc i on
  obtain ⟨-, calm⟩ := inv.queues.enqueue (f := fun p => { p with state := .runnable }) hi
    List.not_mem_nil (by rw [run]; decide) rfl (inv.queues.range i) hc
  have ready := modify s (i := i) (f := fun p => { p with state := .runnable })
    (Or.inr ⟨Or.inr (Or.inr run), Or.inr (Or.inl rfl)⟩) rfl rfl rfl
  exact (ready.trans (of_calm calm)).trans (setCpu _ c none)

theorem timer {c i : Nat} (inv : SchedInv s) (hc : c < s.ncpu) (on : s.cpu c = some i) :
    Keeps s (s.timer c i) := by
  have ticked := inv.touch (i := i) (f := fun p => { p with slice := p.slice - 1 }) rfl rfl rfl rfl rfl
  have same := modify s (i := i) (f := fun p => { p with slice := p.slice - 1 }) (Or.inl rfl) rfl rfl rfl
  unfold Sched.timer
  simp only
  split
  · exact same.trans (yield ticked hc on)
  · exact same

theorem setpriority (s : Sched) (i : Nat) (prio : Int) : Keeps s (s.setpriority i prio).2 := by
  unfold Sched.setpriority
  split
  · exact refl s
  · exact modify s (f := fun p =>
      { p with basePrio := prio.toNat, prio := prio.toNat, slice := quantumFor prio.toNat })
      (Or.inl rfl) rfl rfl rfl

theorem scheduler {id : Nat} (inv : SchedInv s) (hid : id < s.ncpu) (done : s.scheduler id = .ok s') :
    Keeps s s' := by
  unfold Sched.scheduler at done
  rcases inv.queues.pick hid with empty | ⟨i, s1, popped, queues, hi, before, run, calm⟩
  · rw [empty] at done
    cases done
    exact refl s
  · rw [popped] at done
    simp only [run, ne_eq, not_true_eq_false, ↓reduceIte] at done
    cases done
    have first := modify s1 (i := i) (f := fun q =>
      { q with rqcpu := id, prio := q.basePrio, waited := 0, slice := quantumFor q.basePrio })
      (Or.inl rfl) rfl rfl rfl
    refine (((of_calm calm).trans first).trans (setCpu _ id (some i))).trans (modify _ (Or.inr ⟨?_, ?_⟩) rfl rfl rfl)
    · exact Or.inr (Or.inl (by simpa using run))
    · exact Or.inr (Or.inr rfl)

end Keeps

/-- The moves of the system; cur is the process that acts, and joiner says which
    processes may call join. -/
inductive Move (joiner : Nat → Prop) (s : Sys) : Sys → Prop where
  | schedule (sched : Sched) (inv : SchedInv sched) (keeps : Keeps s.sched sched) :
      Move joiner s (s.withSched sched)
  | userinitAlloc (p kstack : Nat) (sched : Sched) (boot : s.boot = .start)
      (alloc : s.sched.allocproc = (some p, sched)) :
      Move joiner s { s with
        sched := { sched.modify p fun q => { q with kstack := kstack } with initproc := some p },
        boot := .alloced p }
  | userinitRun (p d : Nat) (boot : s.boot = .alloced p) (fresh : s.Fresh d) :
      Move joiner s { (s.adopt d).withSched ((s.sched.modify p fun q =>
        { q with pgdir := d, sz := PGSIZE }).setRunnable p) with boot := .done }
  | check (cur : Nat) (pc : Pc) (run : (s.sched.proc cur).state = .running) (at' : s.pc cur = .user)
      (next : pc = .forkChecked ∨ pc = .execChecked)
      (few : s.sched.pgdirUsers (s.sched.proc cur).pgdir ≤ 1) : Move joiner s (s.setPc cur pc)
  | giveUp (cur : Nat) (run : (s.sched.proc cur).state = .running) (slot : (s.pc cur).making = none)
      (empty : ∀ d, s.pc cur ≠ .execLoaded d ∧ s.pc cur ≠ .execCommitted d) :
      Move joiner s (s.setPc cur .user)
  | claim (cur np : Nat) (sched : Sched) (next : Pc) (run : (s.sched.proc cur).state = .running)
      (at' : next = .forkAlloced np ∧ s.pc cur = .forkChecked ∨
        (∃ stack, next = .cloneAlloced np stack) ∧ s.pc cur = .user)
      (alloc : s.sched.allocproc = (some np, sched)) : Move joiner s ((s.withSched sched).setPc cur next)
  | release (cur np : Nat) (f : Proc → Proc) (run : (s.sched.proc cur).state = .running)
      (at' : s.pc cur = .forkAlloced np ∨ s.pc cur = .forkStacked np ∨ ∃ stack, s.pc cur = .cloneAlloced np stack)
      (shape : f = (fun p => { p with pgdir := 0, kstack := 0, state := .unused }) ∨
        f = (fun p => { p with kstack := 0, state := .unused })) :
      Move joiner s ((s.withSched (s.sched.modify np f)).setPc cur .user)
  | stack (cur np kstack : Nat) (next : Pc) (run : (s.sched.proc cur).state = .running)
      (at' : s.pc cur = .forkAlloced np ∧ next = .forkStacked np ∨
        ∃ stack, s.pc cur = .cloneAlloced np stack ∧ next = .cloneStacked np stack) :
      Move joiner s ((s.withSched (s.sched.modify np fun p => { p with kstack := kstack })).setPc cur next)
  | cow (cur np d : Nat) (run : (s.sched.proc cur).state = .running) (at' : s.pc cur = .forkStacked np)
      (fresh : s.Fresh d) :
      Move joiner s (((s.adopt d).withSched (s.sched.modify np fun p => { p with pgdir := d })).setPc cur
        (.forkCowed np))
  | share (cur np stack : Nat) (run : (s.sched.proc cur).state = .running)
      (at' : s.pc cur = .cloneStacked np stack) :
      Move joiner s ((s.withSched (s.sched.modify np fun p => { p with pgdir := (s.sched.proc cur).pgdir })).setPc
        cur (.cloneShared np stack))
  | link (cur np : Nat) (isthread : Bool) (ustack : Nat) (next : Pc)
      (run : (s.sched.proc cur).state = .running)
      (at' : s.pc cur = .forkCowed np ∧ next = .forkLinked np ∧ isthread = false ∨
        s.pc cur = .cloneShared np ustack ∧ next = .cloneLinked np ∧ isthread = true) :
      Move joiner s ((s.link cur np isthread ustack).setPc cur next)
  | launch (cur np : Nat) (run : (s.sched.proc cur).state = .running)
      (at' : s.pc cur = .forkLinked np ∨ s.pc cur = .cloneLinked np) : Move joiner s (s.launch cur np)
  | load (cur d : Nat) (run : (s.sched.proc cur).state = .running) (at' : s.pc cur = .execChecked)
      (fresh : s.Fresh d) : Move joiner s ({ s with dirs := insert d s.dirs }.setPc cur (.execLoaded d))
  | commit (cur d sz : Nat) (run : (s.sched.proc cur).state = .running) (at' : s.pc cur = .execLoaded d) :
      Move joiner s (((s.adopt d).withSched (s.sched.modify cur fun p => { p with pgdir := d, sz := sz })).setPc
        cur (.execCommitted (s.sched.proc cur).pgdir))
  | free (cur old : Nat) (run : (s.sched.proc cur).state = .running) (at' : s.pc cur = .execCommitted old) :
      Move joiner s ((s.freevm old none).setPc cur .user)
  | exit (c cur : Nat) (hc : c < s.sched.ncpu) (on : s.sched.cpu c = some cur) (at' : s.pc cur = .user)
      (notInit : s.sched.initproc ≠ some cur) : Move joiner s (s.withSched (s.sched.exit c cur))
  | reap (cur p : Nat) (run : (s.sched.proc cur).state = .running) (at' : s.pc cur = .user)
      (found : s.sched.zombieChild cur false = some p) :
      Move joiner s ((if (s.sched.proc p).pgdir ≠ 0 ∧ s.sched.pgdirUsers (s.sched.proc p).pgdir = 1 then
          s.freevm (s.sched.proc p).pgdir (some p) else s).withSched (s.sched.reap p))
  | reapThread (cur p : Nat) (run : (s.sched.proc cur).state = .running) (at' : s.pc cur = .user)
      (found : s.sched.zombieChild cur true = some p) (may : joiner cur) : Move joiner s (s.withSched (s.sched.reap p))

namespace Sys
variable {s s' : Sys}

theorem onCpu_ok {c : Nat} {k : Nat → Except Stop Sys} (h : s.onCpu c k = .ok s') :
    ∃ cur, c < s.sched.ncpu ∧ s.sched.cpu c = some cur ∧ k cur = .ok s' := by
  unfold onCpu at h
  split at h
  · rename_i hc
    split at h
    · rename_i cur on
      exact ⟨cur, hc, on, h⟩
    · cases h
  · cases h

theorem onAt_ok {c : Nat} {pc : Pc} {k : Nat → Except Stop Sys} (h : s.onAt c pc k = .ok s') :
    ∃ cur, c < s.sched.ncpu ∧ s.sched.cpu c = some cur ∧ s.pc cur = pc ∧ k cur = .ok s' := by
  obtain ⟨cur, hc, on, h⟩ := onCpu_ok h
  split at h
  · rename_i at'
    exact ⟨cur, hc, on, at', h⟩
  · cases h

variable {joiner : Nat → Prop}

theorem move_noZombie (inv : SchedInv s.sched) {c cur : Nat} (hc : c < s.sched.ncpu)
    (on : s.sched.cpu c = some cur) (done : Prop) [Decidable done] :
    Move joiner s (if done then s else s.withSched (s.sched.sleep c cur (.proc cur))) := by
  split
  · exact .schedule s.sched inv (Keeps.refl _)
  · exact .schedule _ (inv.sleep hc on _) (Keeps.sleep _ c (inv.cpus.on c hc cur on).2 _)

theorem move_claim (inv : SchedInv s.sched) {cur : Nat} (run : (s.sched.proc cur).state = .running)
    (next : Nat → Pc) (at' : ∀ np, next np = .forkAlloced np ∧ s.pc cur = .forkChecked ∨
      (∃ stack, next np = .cloneAlloced np stack) ∧ s.pc cur = .user) :
    Move joiner s (s.claim cur next) := by
  unfold claim
  rcases inv.allocproc with none | ⟨np, sched, found, -⟩
  · rw [none]
    refine .giveUp cur run ?_ ?_
    · rcases at' 0 with ⟨-, here⟩ | ⟨-, here⟩
      · rw [here]
        rfl
      · rw [here]
        rfl
    · intro d
      rcases at' 0 with ⟨-, here⟩ | ⟨-, here⟩
      · simp [here]
      · simp [here]
  · rw [found]
    exact .claim cur np sched (next np) run (at' np) found

theorem step_move (inv : SchedInv s.sched) {a : Act} (h : s.step a = .ok s')
    (may : ∀ c cur, a = .joinScan c → s.sched.cpu c = some cur → joiner cur) : Move joiner s s' := by
  have idle : Move joiner s s := .schedule s.sched inv (Keeps.refl _)
  cases a with
  | userinitAlloc kstack =>
    simp only [step] at h
    split at h
    · rename_i boot
      split at h
      · cases h
      · rename_i p sched alloc
        cases h
        exact .userinitAlloc p kstack sched boot alloc
    · cases h
  | userinitRun d =>
    simp only [step] at h
    split at h
    · rename_i p boot
      split at h
      · rename_i fresh
        cases h
        exact .userinitRun p d boot fresh
      · cases h
    · cases h
  | dispatch c =>
    simp only [step] at h
    split at h
    · rename_i free
      obtain ⟨sched, done, inv'⟩ := inv.scheduler free.1 free.2
      rw [done] at h
      cases h
      exact .schedule sched inv' (Keeps.scheduler inv free.1 done)
    · cases h
  | yield c =>
    obtain ⟨cur, hc, on, h⟩ := onCpu_ok h
    cases h
    exact .schedule _ (inv.yield hc on) (Keeps.yield inv hc on)
  | timer c =>
    obtain ⟨cur, hc, on, h⟩ := onCpu_ok h
    cases h
    exact .schedule _ (inv.timer hc on) (Keeps.timer inv hc on)
  | sleep c chan =>
    obtain ⟨cur, hc, on, h⟩ := onCpu_ok h
    cases h
    exact .schedule _ (inv.sleep hc on chan) (Keeps.sleep _ c (inv.cpus.on c hc cur on).2 chan)
  | wakeup chan =>
    obtain rfl : s.withSched (s.sched.wakeup1 (some chan)) = s' := Except.ok.inj h
    exact .schedule _ (inv.wakeup1 _) (Keeps.of_calm (inv.queues.wakeup1 _).2)
  | kill pid =>
    cases h
    exact .schedule _ (inv.kill pid) (Keeps.of_calm (inv.queues.kill pid).2)
  | tick now =>
    cases h
    exact .schedule _ (inv.schedulerTick now) (Keeps.of_calm (inv.queues.schedulerTick now).2)
  | setpriority c prio =>
    obtain ⟨cur, hc, on, -, h⟩ := onAt_ok h
    cases h
    exact .schedule _ (inv.setpriority hc on prio) (Keeps.setpriority _ cur prio)
  | futexWait c pa =>
    obtain ⟨cur, hc, on, -, h⟩ := onAt_ok h
    cases h
    exact .schedule _ (inv.sleep hc on _) (Keeps.sleep _ c (inv.cpus.on c hc cur on).2 _)
  | futexWake pa n =>
    cases h
    exact .schedule _ (inv.futexWake pa n) (Keeps.of_calm
      (inv.queues.futexWakeLoop pa n (List.range NPROC) (fun p hp => List.mem_range.mp hp) 0).2)
  | sbrk c sz =>
    obtain ⟨cur, hc, on, -, h⟩ := onAt_ok h
    cases h
    exact .schedule _ (inv.touch rfl rfl rfl rfl rfl) (Keeps.modify _ (Or.inl rfl) rfl rfl rfl)
  | syncsize c =>
    obtain ⟨cur, hc, on, -, h⟩ := onAt_ok h
    cases h
    exact .schedule _ (inv.syncsize cur) (Keeps.syncsize _ cur)
  | forkCheck c =>
    obtain ⟨cur, hc, on, at', h⟩ := onAt_ok h
    split at h
    · cases h
      exact idle
    · rename_i few
      cases h
      exact .check cur _ (inv.cpus.on c hc cur on).2 at' (Or.inl rfl) (Nat.not_lt.mp few)
  | forkAlloc c =>
    obtain ⟨cur, hc, on, at', h⟩ := onAt_ok h
    cases h
    exact move_claim inv (inv.cpus.on c hc cur on).2 _ fun np => Or.inl ⟨rfl, at'⟩
  | forkStack c kstack =>
    obtain ⟨cur, hc, on, h⟩ := onCpu_ok h
    have run := (inv.cpus.on c hc cur on).2
    split at h
    · rename_i np at'
      cases h
      cases kstack with
      | none => exact .release cur np _ run (Or.inl at') (Or.inr rfl)
      | some f => exact .stack cur np f _ run (Or.inl ⟨at', rfl⟩)
    · cases h
  | forkCow c pgdir =>
    obtain ⟨cur, hc, on, h⟩ := onCpu_ok h
    have run := (inv.cpus.on c hc cur on).2
    cases pgdir with
    | none =>
      cases at' : s.pc cur with
      | forkStacked np =>
        rw [at'] at h
        cases h
        exact .release cur np _ run (Or.inr (Or.inl at')) (Or.inl rfl)
      | _ =>
        rw [at'] at h
        cases h
    | some d =>
      cases at' : s.pc cur with
      | forkStacked np =>
        rw [at'] at h
        simp only at h
        split at h
        · rename_i fresh
          cases h
          exact .cow cur np d run at' fresh
        · cases h
      | _ =>
        rw [at'] at h
        cases h
  | forkLink c =>
    obtain ⟨cur, hc, on, h⟩ := onCpu_ok h
    split at h
    · rename_i np at'
      cases h
      exact .link cur np false 0 _ (inv.cpus.on c hc cur on).2 (Or.inl ⟨at', rfl, rfl⟩)
    · cases h
  | forkRun c =>
    obtain ⟨cur, hc, on, h⟩ := onCpu_ok h
    split at h
    · rename_i np at'
      cases h
      exact .launch cur np (inv.cpus.on c hc cur on).2 (Or.inl at')
    · cases h
  | cloneAlloc c stack =>
    obtain ⟨cur, hc, on, at', h⟩ := onAt_ok h
    split at h
    · cases h
      exact idle
    · split at h
      · cases h
        exact idle
      · cases h
        exact move_claim inv (inv.cpus.on c hc cur on).2 _ fun np => Or.inr ⟨⟨stack, rfl⟩, at'⟩
  | cloneStack c kstack =>
    obtain ⟨cur, hc, on, h⟩ := onCpu_ok h
    have run := (inv.cpus.on c hc cur on).2
    split at h
    · rename_i np stack at'
      cases h
      cases kstack with
      | none => exact .release cur np _ run (Or.inr (Or.inr ⟨stack, at'⟩)) (Or.inr rfl)
      | some f => exact .stack cur np f _ run (Or.inr ⟨stack, at', rfl⟩)
    · cases h
  | cloneShare c =>
    obtain ⟨cur, hc, on, h⟩ := onCpu_ok h
    split at h
    · rename_i np stack at'
      cases h
      exact .share cur np stack (inv.cpus.on c hc cur on).2 at'
    · cases h
  | cloneLink c =>
    obtain ⟨cur, hc, on, h⟩ := onCpu_ok h
    split at h
    · rename_i np stack at'
      cases h
      exact .link cur np true stack _ (inv.cpus.on c hc cur on).2 (Or.inr ⟨at', rfl, rfl⟩)
    · cases h
  | cloneRun c =>
    obtain ⟨cur, hc, on, h⟩ := onCpu_ok h
    split at h
    · rename_i np at'
      cases h
      exact .launch cur np (inv.cpus.on c hc cur on).2 (Or.inr at')
    · cases h
  | execCheck c =>
    obtain ⟨cur, hc, on, at', h⟩ := onAt_ok h
    split at h
    · cases h
      exact idle
    · rename_i few
      cases h
      exact .check cur _ (inv.cpus.on c hc cur on).2 at' (Or.inr rfl) (Nat.not_lt.mp few)
  | execLoad c pgdir =>
    obtain ⟨cur, hc, on, at', h⟩ := onAt_ok h
    have run := (inv.cpus.on c hc cur on).2
    cases pgdir with
    | none =>
      cases h
      exact .giveUp cur run (by rw [at']; rfl) (fun d => by simp [at'])
    | some d =>
      simp only at h
      split at h
      · rename_i fresh
        cases h
        exact .load cur d run at' fresh
      · cases h
  | execCommit c sz =>
    obtain ⟨cur, hc, on, h⟩ := onCpu_ok h
    split at h
    · rename_i d at'
      cases h
      exact .commit cur d sz (inv.cpus.on c hc cur on).2 at'
    · cases h
  | execFree c =>
    obtain ⟨cur, hc, on, h⟩ := onCpu_ok h
    split at h
    · rename_i old at'
      cases h
      exact .free cur old (inv.cpus.on c hc cur on).2 at'
    · cases h
  | exit c =>
    obtain ⟨cur, hc, on, at', h⟩ := onAt_ok h
    split at h
    · cases h
    · rename_i notInit
      obtain rfl : s.withSched (s.sched.exit c cur) = s' := Except.ok.inj h
      exact .exit c cur hc on at' notInit
  | waitScan c =>
    obtain ⟨cur, hc, on, at', h⟩ := onAt_ok h
    cases h
    unfold wait
    split
    · rename_i p found
      simp only
      have sched : (if (s.sched.proc p).pgdir ≠ 0 ∧ s.sched.pgdirUsers (s.sched.proc p).pgdir = 1 then
          s.freevm (s.sched.proc p).pgdir (some p) else s).sched = s.sched := by
        split
        · rfl
        · rfl
      rw [sched]
      exact .reap cur p (inv.cpus.on c hc cur on).2 at' found
    · exact move_noZombie inv hc on _
  | joinScan c =>
    obtain ⟨cur, hc, on, at', h⟩ := onAt_ok h
    cases h
    unfold join
    split
    · rename_i p found
      exact .reapThread cur p (inv.cpus.on c hc cur on).2 at' found (may c cur rfl on)
    · exact move_noZombie inv hc on _

end Sys
end Xv6
