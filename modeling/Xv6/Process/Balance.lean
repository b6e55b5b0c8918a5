import Xv6.Process.Waiting

/-!
Work stealing. rq_steal takes from the CPU with the most ready processes, if it has more
than one, so a CPU goes idle only when there is next to nothing to take.
-/
namespace Xv6

theorem Sched.scan_steal (s : Sched) (c : Nat) {is : List Nat} {best r : Option Nat} {bestn : Int}
    (more : 1 ≤ bestn) (scan : scanCpus (fun i bestn => decide (i ≠ c) && decide ((s.runq i).nready > bestn))
      (fun i => (s.runq i).nready) is best bestn = r) :
    (r = none → best = none ∧ ∀ i ∈ is, i ≠ c → (s.runq i).nready ≤ bestn) ∧
      ∀ b, r = some b → best = some b ∨ 1 < (s.runq b).nready := by
  induction is generalizing best bestn with
  | nil =>
    cases scan
    simp +contextual [scanCpus]
  | cons i is ih =>
    rw [scanCpus] at scan
    split at scan
    · rename_i better
      simp only [Bool.and_eq_true, decide_eq_true_eq] at better
      obtain ⟨none, some⟩ := ih (by omega) scan
      refine ⟨fun nobody => absurd (none nobody).1 (Option.some_ne_none i), fun b found => Or.inr ?_⟩
      rcases some b found with same | many
      · cases same
        omega
      · exact many
    · rename_i worse
      obtain ⟨none, some⟩ := ih more scan
      refine ⟨fun nobody => ⟨(none nobody).1, ?_⟩, some⟩
      intro j member away
      rcases List.mem_cons.mp member with rfl | later
      · simpa [away] using worse
      · exact (none nobody).2 j later away

theorem QueueInv.idle {s : Sched} {q : Lists} (inv : QueueInv s q []) {c : Nat} (hc : c < s.ncpu)
    (idle : (s.pickNext c).1 = none) :
    q.flat c = [] ∧ ∀ c' < s.ncpu, c' ≠ c → (q.flat c').length ≤ 1 := by
  unfold Sched.pickNext at idle
  rcases inv.pop_flat hc with ⟨run, empty⟩ | ⟨i, s1, k, rest, run, -⟩
  · rw [run] at idle
    refine ⟨empty, ?_⟩
    simp only [Sched.rqSteal] at idle
    split at idle
    · rename_i nobody
      intro c' hc' away
      have few := ((s.scan_steal c (Int.le_refl 1) nobody).1 rfl).2 c' (List.mem_range.mpr hc') away
      rw [inv.flat_sum hc'] at few
      omega
    · rename_i best found
      -- the CPU that was found has processes to give
      have hbest : best < s.ncpu := by
        rcases scanCpus_mem _ _ _ _ _ best found with member | same
        · exact List.mem_range.mp member
        · cases same
      rcases inv.pop_flat hbest with ⟨-, none⟩ | ⟨i, s1, k, rest, run', -⟩
      · rcases (s.scan_steal c (Int.le_refl 1) found).2 best rfl with same | many
        · cases same
        · rw [inv.flat_sum hbest, none] at many
          cases many
      · rw [run'] at idle
        cases idle
  · rw [run] at idle
    cases idle

/-- When a CPU finds nothing to run, no RUNNABLE process is queued on it and no two are
    queued on one other CPU. -/
theorem idle_cpu_justified (s : Sys) (reach : s.Reachable) (c : Nat) (hc : c < s.sched.ncpu)
    (idle : (s.sched.pickNext c).1 = none) (i : Nat) (hi : i < NPROC)
    (ready : (s.sched.proc i).state = .runnable) : (s.sched.proc i).rqcpu ≠ c ∧
      ∀ j < NPROC, (s.sched.proc j).state = .runnable → (s.sched.proc j).rqcpu = (s.sched.proc i).rqcpu → j = i := by
  obtain ⟨q, inv⟩ := (PcInv.reachable reach).sched.queues
  obtain ⟨empty, few⟩ := inv.idle hc idle
  have queued : ∀ j < NPROC, (s.sched.proc j).state = .runnable → j ∈ q.flat (s.sched.proc j).rqcpu :=
    fun j hj run => Lists.mem_flat.mpr ⟨_, (inv.range j).2.1, inv.covers j hj run (by simp)⟩
  have mine := queued i hi ready
  have away : (s.sched.proc i).rqcpu ≠ c := by
    intro same
    rw [same, empty] at mine
    cases mine
  refine ⟨away, fun j hj run same => ?_⟩
  have there := queued j hj run
  rw [same] at there
  obtain ⟨k, only⟩ := List.length_eq_one_iff.mp
    (Nat.le_antisymm (few _ (inv.range i).1 away) (List.length_pos_of_mem mine))
  simp_all

/-- init runs on CPU 0 and its child waits there; CPU 1 leaves it alone. -/
theorem idle_cpu_justified_forked : ∃ s : Sys, s.Reachable ∧ (s.sched.proc 1).state = .runnable ∧
    (s.sched.pickNext 1).1 = none ∧ (s.sched.proc 1).rqcpu ≠ 1 := by
  have forked : ∃ s, Runs.run Sys.step (Sys.zeroed 2) Sys.firstFork = .ok s ∧
      (s.sched.proc 1).state = .runnable ∧ (s.sched.pickNext 1).1 = none ∧ 1 < s.sched.ncpu :=
    ⟨_, rfl, rfl, rfl, by decide⟩
  obtain ⟨s, run, ready, idle, cpus⟩ := forked
  have reach : s.Reachable := (Runs.Reachable.start (Sys.zeroed_init (by decide) (by decide))).run
    (fun _ _ _ => trivial) run
  exact ⟨s, reach, ready, idle, (idle_cpu_justified s reach 1 cpus idle 1 (by decide) ready).1⟩

end Xv6
