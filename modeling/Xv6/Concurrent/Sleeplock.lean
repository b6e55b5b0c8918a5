import Xv6.Lib.Runs
import Mathlib.Logic.Function.Basic

/-!
Sleeping locks, sleeplock.c. A call holds lk->lk except while it sleeps, and sleep lets go of
it under ptable.lock only, so one step is what a call does between two sleeps. `pid` gives
the pid of each process.
-/
namespace Xv6.Sleeplock

/-- Where a process stands with the lock. -/
inductive Place where
  | outside
  | asleep
  /-- woken in acquiresleep, and about to test lk->locked again -/
  | woken
  | inside
  deriving DecidableEq

structure Users where
  locked : Bool
  pid : Int
  place : Nat → Place

inductive Act where
  | acquiresleep (i : Nat)
  /-- iunlock and brelse call it when holdingsleep says so, and panic if not -/
  | releasesleep (i : Nat)
  | kill (i : Nat)

namespace Users
variable (pid : Nat → Int)

/-- From the call, or from the return of sleep, to the next sleep or the end. -/
def acquiresleep (s : Users) (i : Nat) : Users :=
  if s.locked then { s with place := Function.update s.place i .asleep }
  else ⟨true, pid i, Function.update s.place i .inside⟩

def releasesleep (s : Users) (i : Nat) : Users :=
  ⟨false, 0, fun j => if j = i then .outside else if s.place j = .asleep then .woken else s.place j⟩

def holdingsleep (s : Users) (i : Nat) : Bool := s.locked && s.pid == pid i

def step (s : Users) : Act → Except Unit Users
  | .acquiresleep i =>
    if s.place i = .outside ∨ s.place i = .woken then .ok (s.acquiresleep pid i) else .error ()
  | .releasesleep i => if s.holdingsleep pid i then .ok (s.releasesleep i) else .error ()
  | .kill i =>
    .ok { s with place := Function.update s.place i (if s.place i = .asleep then .woken else s.place i) }

def Init (s : Users) : Prop := s.locked = false ∧ ∀ i, s.place i = .outside

structure Inv (s : Users) : Prop where
  held : s.locked = true → ∃ i, s.place i = .inside
  holder : ∀ i, s.place i = .inside → s.locked = true ∧ s.pid = pid i
  asleep : ∀ i, s.place i = .asleep → s.locked = true

variable {pid} {s s' : Users}

theorem Inv.holding_iff (inv : Inv pid s) (inj : Function.Injective pid) (i : Nat) :
    s.holdingsleep pid i = true ↔ s.place i = .inside := by
  rw [holdingsleep, Bool.and_eq_true, beq_iff_eq]
  constructor
  · rintro ⟨locked, mine⟩
    obtain ⟨j, inside⟩ := inv.held locked
    rwa [inj (mine.symm.trans (inv.holder j inside).2)]
  · exact inv.holder i

theorem Inv.step (inv : Inv pid s) (inj : Function.Injective pid) {a : Act} (done : s.step pid a = .ok s') :
    Inv pid s' := by
  have only := inv.holding_iff inj
  obtain ⟨held, holder, asleep⟩ := inv
  cases a with
  | acquiresleep i =>
    simp only [Users.step, Users.acquiresleep] at done
    split at done <;> cases done
    split
    · constructor <;> simp only [Function.update_apply] <;> grind
    · constructor <;> simp only [Function.update_apply] <;> grind
  | releasesleep i =>
    simp only [Users.step] at done
    split at done <;> cases done
    have inside := (only i).mp ‹_›
    constructor <;> simp only [Users.releasesleep]
    · intro locked
      cases locked
    · intro j there
      have other : s.place j = .inside ∧ j ≠ i := by grind
      exact absurd (inj ((holder j other.1).2.symm.trans (holder i inside).2)) other.2
    · grind
  | kill i =>
    cases done
    constructor <;> simp only [Function.update_apply] <;> grind

/-- One process at a time is inside, the lock is set exactly while one is, nobody sleeps on
    a lock that is free, and holdingsleep tells a process whether it is the one inside. -/
theorem sleeplock_exclusive (pid : Nat → Int) (inj : Function.Injective pid) (s : Users)
    (reach : Runs.Reachable Init (step pid) (fun _ _ => True) s) :
    (∀ i j, s.place i = .inside → s.place j = .inside → i = j) ∧
      (s.locked = true ↔ ∃ i, s.place i = .inside) ∧ (∀ i, s.place i = .asleep → ∃ j, s.place j = .inside) ∧
      ∀ i, s.holdingsleep pid i = true ↔ s.place i = .inside := by
  have inv : Inv pid s := by
    refine Runs.Reachable.invariant (fun s first => ?_) (fun _ _ _ inv _ done => inv.step inj done) reach
    constructor <;> simp [first.1, first.2]
  refine ⟨?_, ⟨inv.held, ?_⟩, fun i sleeps => inv.held (inv.asleep i sleeps), inv.holding_iff inj⟩
  · intro i j one two
    exact inj ((inv.holder i one).2.symm.trans (inv.holder j two).2)
  · rintro ⟨i, inside⟩
    exact (inv.holder i inside).1

/-- Process 2 sleeps until process 1 has released the lock, and then takes it. -/
theorem sleeplock_exclusive_handover : ∃ s : Users, s.place 1 = .outside ∧ s.place 2 = .inside ∧
    s.holdingsleep (fun i => i) 1 = false ∧ s.holdingsleep (fun i => i) 2 = true := by
  have seen : (Runs.run (step fun i => i) ⟨false, 0, fun _ => .outside⟩
      [.acquiresleep 1, .acquiresleep 2, .releasesleep 1, .acquiresleep 2]).toOption.map
        (fun s => (s.place 1, s.place 2)) = some (.outside, .inside) := by decide
  obtain ⟨s, run, seen⟩ := Runs.observed seen
  simp only [Prod.mk.injEq] at seen
  have facts := sleeplock_exclusive (fun i => i) (fun i j => Int.ofNat.inj) s
    ((Runs.Reachable.start ⟨rfl, fun _ => rfl⟩).run (fun _ _ _ => trivial) run)
  refine ⟨s, seen.1, seen.2, Bool.eq_false_iff.mpr fun holds => ?_, (facts.2.2.2 2).mpr seen.2⟩
  have inside := (facts.2.2.2 1).mp holds
  rw [seen.1] at inside
  cases inside

end Users
end Xv6.Sleeplock
