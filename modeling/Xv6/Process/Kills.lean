import Xv6.Process.Calls
import Xv6.Process.QueueSafety

/-!
kill and the calls that sleep in proc.c. wait and join look at killed in the lock hold
in which they go to sleep, futex_wait does not.
-/
namespace Xv6

/-- A process that has been killed does not go to sleep in futex_wait. -/
def Kern.spared (k : Kern) : KernAct → Bool
  | .sys (.futexWait c _) => (k.sys.sched.cpu c).all fun cur => !(k.sys.sched.proc cur).killed
  | _ => true

structure KillInv (k : Kern) : Prop where
  family : FamilyInv k.sys
  awake : ∀ p call, k.call p = some call → call ≠ .other → (k.sys.sched.proc p).killed = false

namespace KillInv
variable {k k' : Kern}

theorem step (inv : KillInv k) {b : KernAct} (spared : k.spared b = true) (h : k.step b = .ok k') : KillInv k' := by
  rcases Kern.step_ok h with ⟨a, s, rfl, admitted, done, rfl⟩ | filed
  · refine ⟨inv.family.next done, ?_⟩
    intro p call calls blocking
    obtain ⟨asleep, old⟩ := Call.after_some calls
    rcases (Sys.step_turn inv.family done p).asleep inv.family.pcs asleep with
      ⟨before, -, killed⟩ | ⟨run, c, chan, hc, on, why, -, killed⟩
    · rcases old with ⟨-, same⟩ | ⟨woke, -⟩
      · exact killed.trans (inv.awake p call same blocking)
      · exact (woke before).elim
    · rcases old with ⟨before, -⟩ | ⟨-, new⟩
      · rw [run] at before
        cases before
      · refine killed.trans ?_
        cases why with
        | sleep => exact (blocking new.symm).elim
        | futexWait pa => simpa [Kern.spared, on] using spared
        | pause _ threads scans none clear => exact clear
  · refine ⟨by rw [filed.sys]; exact inv.family, ?_⟩
    intro p call calls blocking
    rw [filed.call] at calls
    rw [filed.sys]
    exact inv.awake p call calls blocking

theorem init (first : k.Init) : KillInv k := by
  obtain ⟨sys, call, -⟩ := first
  refine ⟨FamilyInv.init sys, ?_⟩
  intro p c calls
  rw [call p] at calls
  cases calls

end KillInv

/-- In no state is a killed process asleep in wait, join or futex_wait, if every
    futex_wait that goes to sleep finds its process not killed. -/
theorem kill_wakes_blocked (k : Kern)
    (reach : Runs.Reachable Kern.Init Kern.step (fun k b => k.spared b = true) k) (p : Nat) :
    ¬ ((k.sys.sched.proc p).killed = true ∧ (k.sys.sched.proc p).state = .sleeping ∧
      (k.call p = some .wait ∨ k.call p = some .join ∨ k.call p = some .futex)) := by
  have inv : KillInv k :=
    Runs.Reachable.invariant (fun _ first => KillInv.init first) (fun _ _ _ inv spared done => inv.step spared done) reach
  have no : ∀ call, call ≠ .other → k.call p = some call → (k.sys.sched.proc p).killed ≠ true := by
    intro call blocking calls
    rw [inv.awake p call calls blocking]
    decide
  rintro ⟨killed, -, calls | calls | calls⟩
  · exact no .wait (by decide) calls killed
  · exact no .join (by decide) calls killed
  · exact no .futex (by decide) calls killed

def Kern.childRuns : List KernAct := (Sys.firstFork ++ [Act.waitScan 0, Act.dispatch 0]).map .sys

/-- The child is killed in futex_wait, and killed it can still sleep on a device. -/
theorem kill_wakes_blocked_child :
    ∃ k, Runs.walk Kern.step Kern.spared (Kern.zeroed (Sys.zeroed 2))
        (Kern.childRuns ++ [.sys (.futexWait 0 4096), .sys (.kill 2), .sys (.dispatch 0), .sys (.sleep 0 (.other 7))]) =
        some k ∧
      (k.sys.sched.proc 1).killed = true ∧ (k.sys.sched.proc 1).state = .sleeping ∧
      ¬ (k.call 1 = some .wait ∨ k.call 1 = some .join ∨ k.call 1 = some .futex) := by
  have seen : (Runs.walk Kern.step Kern.spared (Kern.zeroed (Sys.zeroed 2))
      (Kern.childRuns ++ [.sys (.futexWait 0 4096), .sys (.kill 2), .sys (.dispatch 0), .sys (.sleep 0 (.other 7))])).map
        (fun k => ((k.sys.sched.proc 1).killed, (k.sys.sched.proc 1).state)) = some (true, .sleeping) := by
    decide +kernel
  obtain ⟨k, walk, facts⟩ := Option.map_eq_some_iff.mp seen
  obtain ⟨killed, asleep⟩ := Prod.mk.inj facts
  have start : Runs.Reachable Kern.Init Kern.step (fun k b => k.spared b = true) (Kern.zeroed (Sys.zeroed 2)) :=
    .start (Kern.zeroed_init (Sys.zeroed_init (by decide) (by decide)))
  have reach := start.walk (fun _ _ passed => passed) walk
  refine ⟨k, walk, killed, asleep, ?_⟩
  intro calls
  exact kill_wakes_blocked k reach 1 ⟨killed, asleep, calls⟩

/-- The child has checked the word in futex_wait when it is killed, and then sleeps. -/
theorem kill_lost_in_futex_wait :
    ∃ k, Runs.Reachable Kern.Init Kern.step (fun _ _ => True) k ∧ (k.sys.sched.proc 1).killed = true ∧
      (k.sys.sched.proc 1).state = .sleeping ∧ k.call 1 = some .futex := by
  have seen : (Runs.run Kern.step (Kern.zeroed (Sys.zeroed 2))
      (Kern.childRuns ++ [.sys (.kill 2), .sys (.futexWait 0 4096)])).toOption.map
        (fun k => ((k.sys.sched.proc 1).killed, (k.sys.sched.proc 1).state, k.call 1)) =
          some (true, .sleeping, some .futex) := by
    decide +kernel
  obtain ⟨k, run, facts⟩ := Runs.observed seen
  have start : Runs.Reachable Kern.Init Kern.step (fun _ _ => True) (Kern.zeroed (Sys.zeroed 2)) :=
    .start (Kern.zeroed_init (Sys.zeroed_init (by decide) (by decide)))
  have reach := start.run (fun _ _ _ => trivial) run
  exact ⟨k, reach, congrArg Prod.fst facts, congrArg (fun x => x.2.1) facts, congrArg (fun x => x.2.2) facts⟩

end Xv6
