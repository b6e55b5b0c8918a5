import Xv6.Process.Creation

/-!
The run queues in every reachable state: each list is finite, ends at its tail and
holds RUNNABLE processes of its own level and CPU; each RUNNABLE process is queued
once; a process is RUNNING exactly when one CPU runs it.
-/
namespace Xv6

/-- The run queues and the CPUs as they must be at every release of ptable.lock: q c k
    is the list that starts at runq[c].head[k]. -/
structure RunQueuesOk (s : Sched) (q : Nat → Nat → List Nat) : Prop where
  linked : ∀ c < s.ncpu, ∀ k < NPRIO,
    LinkedQueue.Linked (fun i => (s.proc i).rqnext) ((s.runq c).head k) (q c k)
  tail : ∀ c < s.ncpu, ∀ k < NPRIO, (s.runq c).tail k = (q c k).getLast? ∧
    ((s.runq c).head k = none ↔ (s.runq c).tail k = none)
  element : ∀ c < s.ncpu, ∀ k < NPRIO, ∀ i ∈ q c k,
    (s.proc i).state = .runnable ∧ (s.proc i).prio = k ∧ (s.proc i).rqcpu = c
  nready : ∀ c < s.ncpu, (s.runq c).nready = ∑ k ∈ Finset.range NPRIO, ((q c k).length : Int)
  once : ∀ i < NPROC, ∑ c ∈ Finset.range s.ncpu, ∑ k ∈ Finset.range NPRIO, (q c k).count i =
    if (s.proc i).state = .runnable then 1 else 0
  slots : ∀ c < s.ncpu, ∀ k < NPRIO, ∀ i ∈ q c k, i < NPROC
  running : ∀ i < NPROC, (s.proc i).state = .running ↔ ∃! c, c < s.ncpu ∧ s.cpu c = some i

namespace SchedInv
variable {s : Sched}

theorem count_queued {q : Lists} (inv : QueueInv s q []) {i : Nat} (hi : i < NPROC) :
    ∑ c ∈ Finset.range s.ncpu, ∑ k ∈ Finset.range NPRIO, (q c k).count i =
      if (s.proc i).state = .runnable then 1 else 0 := by
  obtain ⟨on, level, -⟩ := inv.range i
  have elsewhere : ∀ c < s.ncpu, ∀ k < NPRIO, ¬ (c = (s.proc i).rqcpu ∧ k = (s.proc i).prio) →
      (q c k).count i = 0 := by
    intro c hc k hk ne
    rw [List.count_eq_zero]
    intro member
    obtain ⟨-, -, prio, rqcpu, -⟩ := inv.member c hc k hk i member
    exact ne ⟨rqcpu.symm, prio.symm⟩
  have here : (q (s.proc i).rqcpu (s.proc i).prio).count i =
      if (s.proc i).state = .runnable then 1 else 0 := by
    by_cases run : (s.proc i).state = .runnable
    · rw [if_pos run]
      exact List.count_eq_one_of_mem (inv.queue _ on _ level).nodup
        (inv.covers i hi run List.not_mem_nil)
    · rw [if_neg run, List.count_eq_zero]
      intro member
      exact run (inv.member _ on _ level i member).2.1
  rw [← here, Finset.sum_eq_single_of_mem _ (Finset.mem_range.mpr on)]
  · refine Finset.sum_eq_single_of_mem _ (Finset.mem_range.mpr level) ?_
    intro k hk ne
    exact elsewhere _ on k (Finset.mem_range.mp hk) fun both => ne both.2
  · intro c hc ne
    refine Finset.sum_eq_zero fun k hk => ?_
    exact elsewhere c (Finset.mem_range.mp hc) k (Finset.mem_range.mp hk) fun both => ne both.1

theorem wellFormed (inv : SchedInv s) : ∃ q, RunQueuesOk s q := by
  obtain ⟨q, queues⟩ := inv.queues
  refine ⟨q, ?_, ?_, ?_, queues.count, fun i hi => count_queued queues hi, ?_, ?_⟩
  · intro c hc k hk
    exact (queues.queue c hc k hk).linked
  · intro c hc k hk
    exact ⟨(queues.queue c hc k hk).last, (queues.queue c hc k hk).null_iff⟩
  · intro c hc k hk i member
    obtain ⟨-, run, prio, rqcpu, -⟩ := queues.member c hc k hk i member
    exact ⟨run, prio, rqcpu⟩
  · intro c hc k hk i member
    exact (queues.member c hc k hk i member).1
  · intro i hi
    constructor
    · intro run
      obtain ⟨c, hc, on⟩ := inv.cpus.running i hi run
      exact ⟨c, ⟨hc, on⟩, fun c' h => inv.cpus.once c' h.1 c hc i h.2 on⟩
    · rintro ⟨c, ⟨hc, on⟩, -⟩
      exact (inv.cpus.on c hc i on).2

end SchedInv

theorem Sys.onCpu_safe {s : Sys} {c : Nat} {k : Nat → Except Stop Sys} {p : Panic}
    (safe : ∀ cur, k cur ≠ .error (.panic p)) : s.onCpu c k ≠ .error (.panic p) := by
  unfold Sys.onCpu
  split
  · split
    · exact safe _
    · intro h
      cases h
  · intro h
    cases h

theorem Sys.onAt_safe {s : Sys} {c : Nat} {pc : Pc} {k : Nat → Except Stop Sys} {p : Panic}
    (safe : ∀ cur, k cur ≠ .error (.panic p)) : s.onAt c pc k ≠ .error (.panic p) := by
  refine Sys.onCpu_safe fun cur => ?_
  split
  · exact safe cur
  · intro h
    cases h

/-- The panic of the scheduler about a queued process cannot happen in a good state. -/
theorem Sys.no_queue_panic {s : Sys} (inv : SchedInv s.sched) (a : Act) :
    s.step a ≠ .error (.panic .schedulerNotRunnable) := by
  cases a with
  | dispatch c =>
    simp only [Sys.step]
    split
    · rename_i free
      obtain ⟨sched, done, -⟩ := inv.scheduler free.1 free.2
      rw [done]
      intro h
      cases h
    · intro h
      cases h
  | userinitAlloc kstack =>
    simp only [Sys.step]
    split
    · split
      · intro h
        cases h
      · intro h
        cases h
    · intro h
      cases h
  | userinitRun d =>
    simp only [Sys.step]
    split
    · split
      · intro h
        cases h
      · intro h
        cases h
    · intro h
      cases h
  | wakeup | kill | tick | futexWake =>
    simp only [Sys.step]
    intro h
    cases h
  | yield | timer | sleep =>
    refine Sys.onCpu_safe fun cur h => ?_
    cases h
  | setpriority | futexWait | sbrk | syncsize | forkAlloc | waitScan | joinScan =>
    refine Sys.onAt_safe fun cur h => ?_
    cases h
  | forkCheck | execCheck | cloneAlloc | exit =>
    refine Sys.onAt_safe fun cur => ?_
    repeat' split
    all_goals
      intro h
      cases h
  | execLoad c pgdir =>
    refine Sys.onAt_safe fun cur => ?_
    cases pgdir with
    | none =>
      intro h
      cases h
    | some d =>
      simp only
      split
      · intro h
        cases h
      · intro h
        cases h
  | forkStack | forkCow | forkLink | forkRun | cloneStack | cloneShare | cloneLink | cloneRun
  | execCommit | execFree =>
    refine Sys.onCpu_safe fun cur => ?_
    repeat' split
    all_goals
      intro h
      cases h

/-- In every state that any interleaving reaches, the run queues are well formed, every
    RUNNABLE process is queued exactly once, and the scheduler never finds another. -/
theorem run_queues_wellFormed (s : Sys) (reach : s.Reachable) :
    (∃ q, RunQueuesOk s.sched q) ∧ ∀ a, s.step a ≠ .error (.panic .schedulerNotRunnable) := by
  have inv := PcInv.reachable reach
  exact ⟨inv.sched.wellFormed, Sys.no_queue_panic inv.sched⟩

def Sys.zeroed (ncpu : Nat) : Sys :=
  { sched := ⟨ncpu, fun _ => Proc.zero, fun _ => ⟨fun _ => none, fun _ => none, 0⟩, fun _ => none, 0, 1, none⟩
    pc := fun _ => .user
    boot := .start
    dirs := ∅
    log := [] }

theorem Sys.zeroed_init {ncpu : Nat} (pos : 0 < ncpu) (few : ncpu ≤ NCPU) : (Sys.zeroed ncpu).Init :=
  ⟨pos, few, fun _ => rfl, fun _ => rfl, fun _ => rfl, rfl, fun _ => rfl, rfl, rfl, rfl⟩

def Sys.firstFork : List Act :=
  [.userinitAlloc 500, .userinitRun 600, .dispatch 0, .forkCheck 0, .forkAlloc 0, .forkStack 0 (some 501),
    .forkCow 0 (some 700), .forkLink 0, .forkRun 0]

theorem run_queues_after_fork :
    ∃ s, Runs.run Sys.step (Sys.zeroed 2) Sys.firstFork = .ok s ∧
      (s.sched.proc 1).state = .runnable ∧ s.sched.cpu 0 = some 0 ∧
      (∃ q, RunQueuesOk s.sched q) ∧ ∀ a, s.step a ≠ .error (.panic .schedulerNotRunnable) := by
  have first : (Sys.zeroed 2).Reachable := Runs.Reachable.start (Sys.zeroed_init (by decide) (by decide))
  have trace : ∃ s, Runs.run Sys.step (Sys.zeroed 2) Sys.firstFork = .ok s ∧
      (s.sched.proc 1).state = .runnable ∧ s.sched.cpu 0 = some 0 := ⟨_, rfl, rfl, rfl⟩
  obtain ⟨s, done, queued, running⟩ := trace
  exact ⟨s, done, queued, running, run_queues_wellFormed s (first.run (fun _ _ _ => trivial) done)⟩

end Xv6
