import Xv6.Lib.Runs
import Mathlib.Data.List.Nodup

/-!
Spin locks, spinlock.c. The steps are single exchanges and stores, so the CPUs interleave
inside acquire and release. Switching processes, sched keeps the locks with the CPU and only
brings back intena. `owner`, `held` and `pushed` record what the code does and are read by
no step.
-/
namespace Xv6.Spinlock

structure Cpu where
  /-- FL_IF -/
  interrupts : Bool
  ncli : Nat
  intena : Bool

structure Lock where
  locked : Bool
  cpu : Option Nat

/-- Where a CPU stands in acquire or release. -/
inductive Pc where
  | code
  | spinning (l : Nat)
  /-- the exchange has returned 0 and lk->cpu is still to be stored -/
  | taken (l : Nat)
  /-- lk->cpu is cleared and lk->locked is still set -/
  | clearing (l : Nat)
  deriving DecidableEq

/-- acquire and release have one pushcli of their own open. -/
def Pc.busy : Pc → Nat
  | .code => 0
  | _ => 1

inductive Panic where
  | acquire
  | release
  | popcliInterruptible
  | popcli

inductive Stop where
  | disabled
  | panic (p : Panic)

structure Locks where
  cpu : Nat → Cpu
  lock : Nat → Lock
  pc : Nat → Pc
  /-- the CPU whose exchange took the lock -/
  owner : Nat → Option Nat
  /-- the locks a CPU holds between acquire and release -/
  held : Nat → List Nat
  /-- the calls of pushcli, apart from those of acquire, that popcli has not undone -/
  pushed : Nat → Nat

inductive Act where
  | pushcli (c : Nat)
  | popcli (c : Nat)
  | acquire (c l : Nat)
  | xchg (c : Nat)
  | record (c : Nat)
  | release (c l : Nat)
  | unlock (c : Nat)
  /-- sched has come back and restores intena -/
  | sched (c : Nat) (intena : Bool)
  /-- the gate of an interrupt clears FL_IF -/
  | interrupt (c : Nat)
  /-- the scheduler's sti, or the return from an interrupt -/
  | sti (c : Nat)

def Cpu.pushcli (c : Cpu) : Cpu :=
  ⟨false, c.ncli + 1, if c.ncli = 0 then c.interrupts else c.intena⟩

def Cpu.popcli (c : Cpu) : Except Panic Cpu :=
  if c.interrupts then .error .popcliInterruptible
  else match c.ncli with
    | 0 => .error .popcli
    | n + 1 => .ok ⟨n == 0 && c.intena, n, c.intena⟩

namespace Locks

def setCpu (s : Locks) (c : Nat) (cpu : Cpu) : Locks := { s with cpu := Function.update s.cpu c cpu }

def setLock (s : Locks) (l : Nat) (lock : Lock) : Locks := { s with lock := Function.update s.lock l lock }

def setPc (s : Locks) (c : Nat) (pc : Pc) : Locks := { s with pc := Function.update s.pc c pc }

def holding (s : Locks) (c l : Nat) : Except Panic (Bool × Locks) := do
  let cpu := (s.cpu c).pushcli
  let r := (s.lock l).locked && (s.lock l).cpu == some c
  let cpu ← cpu.popcli
  .ok (r, s.setCpu c cpu)

/-- acquire up to its loop. -/
def acquire (s : Locks) (c l : Nat) : Except Panic Locks := do
  let (r, s) ← (s.setCpu c (s.cpu c).pushcli).holding c l
  if r then .error .acquire else .ok (s.setPc c (.spinning l))

/-- One round of the loop of acquire. -/
def xchg (s : Locks) (c l : Nat) : Locks :=
  let t := s.setLock l { s.lock l with locked := true }
  if (s.lock l).locked then t
  else { t.setPc c (.taken l) with owner := Function.update s.owner l (some c) }

def record (s : Locks) (c l : Nat) : Locks :=
  { (s.setLock l { s.lock l with cpu := some c }).setPc c .code with
    held := Function.update s.held c (l :: s.held c) }

/-- release up to the store of lk->cpu. -/
def release (s : Locks) (c l : Nat) : Except Panic Locks := do
  let (r, s) ← s.holding c l
  if r then
    .ok { (s.setLock l { s.lock l with cpu := none }).setPc c (.clearing l) with
          held := Function.update s.held c ((s.held c).erase l) }
  else .error .release

def unlock (s : Locks) (c l : Nat) : Except Panic Locks := do
  let s := { s.setLock l { s.lock l with locked := false } with owner := Function.update s.owner l none }
  let cpu ← (s.cpu c).popcli
  .ok ((s.setCpu c cpu).setPc c .code)

/-- CPU c makes a call. -/
def call (s : Locks) (c : Nat) (r : Except Panic Locks) : Except Stop Locks :=
  if s.pc c = .code then r.mapError .panic else .error .disabled

def step (s : Locks) : Act → Except Stop Locks
  | .pushcli c => s.call c (.ok { s.setCpu c (s.cpu c).pushcli with
      pushed := Function.update s.pushed c (s.pushed c + 1) })
  | .popcli c => s.call c ((s.cpu c).popcli.map fun cpu =>
      { s.setCpu c cpu with pushed := Function.update s.pushed c (s.pushed c - 1) })
  | .acquire c l => s.call c (s.acquire c l)
  | .xchg c =>
    match s.pc c with
    | .spinning l => .ok (s.xchg c l)
    | _ => .error .disabled
  | .record c =>
    match s.pc c with
    | .taken l => .ok (s.record c l)
    | _ => .error .disabled
  | .release c l => s.call c (s.release c l)
  | .unlock c =>
    match s.pc c with
    | .clearing l => (s.unlock c l).mapError .panic
    | _ => .error .disabled
  | .sched c intena =>
    if (s.cpu c).ncli = 1 ∧ (s.cpu c).interrupts = false then
      s.call c (.ok (s.setCpu c { s.cpu c with intena := intena }))
    else .error .disabled
  | .interrupt c =>
    if (s.cpu c).interrupts then .ok (s.setCpu c { s.cpu c with interrupts := false })
    else .error .disabled
  | .sti c => s.call c (.ok (s.setCpu c { s.cpu c with interrupts := true }))

/-- What the callers see to: popcli undoes a pushcli of theirs, and interrupts are
    switched on only by code that holds no lock. -/
def Balanced (s : Locks) : Act → Prop
  | .popcli c => 0 < s.pushed c
  | .sti c => s.held c = [] ∧ s.pushed c = 0
  | _ => True

def Init (s : Locks) : Prop :=
  (∀ c, s.cpu c = ⟨false, 0, false⟩) ∧ (∀ l, s.lock l = ⟨false, none⟩) ∧ (∀ c, s.pc c = .code) ∧
    (∀ l, s.owner l = none) ∧ (∀ c, s.held c = []) ∧ ∀ c, s.pushed c = 0

def Reachable (s : Locks) : Prop := Runs.Reachable Init step Balanced s

/-- CPU c is between its exchange that took lock l and the store that frees l. -/
def Inside (s : Locks) (c l : Nat) : Prop := l ∈ s.held c ∨ s.pc c = .taken l ∨ s.pc c = .clearing l

/-- How many calls of pushcli are open. -/
def depth (s : Locks) (c : Nat) : Nat :=
  s.pushed c + (s.held c).length + (s.pc c).busy

structure Inv (s : Locks) : Prop where
  owner : ∀ l c, s.owner l = some c ↔ s.Inside c l
  locked : ∀ l, (s.lock l).locked = (s.owner l).isSome
  holder : ∀ l c, (s.lock l).cpu = some c ↔ l ∈ s.held c
  apart : ∀ c l, s.pc c = .taken l ∨ s.pc c = .clearing l → l ∉ s.held c
  nodup : ∀ c, (s.held c).Nodup
  depth : ∀ c, (s.cpu c).ncli = s.depth c
  off : ∀ c, (s.cpu c).ncli ≠ 0 → (s.cpu c).interrupts = false

end Locks

theorem Cpu.popcli_eq {c : Cpu} {n : Nat} (deep : c.ncli = n + 1) (off : c.interrupts = false) :
    c.popcli = .ok ⟨n == 0 && c.intena, n, c.intena⟩ := by
  simp [Cpu.popcli, off, deep]

namespace Locks
variable {s s' : Locks}

theorem holding_ok (s : Locks) (c l : Nat) :
    ∃ cpu, s.holding c l = .ok ((s.lock l).locked && (s.lock l).cpu == some c, s.setCpu c cpu) ∧
      ((s.cpu c).ncli ≠ 0 → (s.cpu c).interrupts = false → cpu = s.cpu c) := by
  refine ⟨_, by rw [holding, Cpu.popcli_eq rfl rfl]; rfl, ?_⟩
  intro deep off
  have same : (⟨false, (s.cpu c).ncli, (s.cpu c).intena⟩ : Cpu) = s.cpu c := by rw [← off]
  have deeper : ((s.cpu c).ncli == 0) = false := beq_false_of_ne deep
  simpa [Cpu.pushcli, deep, deeper] using same

namespace Inv

/-- Both loads of holding see what this CPU has stored, if the lock is its own. -/
theorem holding_iff (inv : Inv s) (c l : Nat) :
    ((s.lock l).locked && (s.lock l).cpu == some c) = true ↔ l ∈ s.held c := by
  rw [Bool.and_eq_true, beq_iff_eq, inv.holder l c, inv.locked l]
  constructor
  · exact fun both => both.2
  · intro mine
    rw [(inv.owner l c).mpr (Or.inl mine)]
    exact ⟨rfl, mine⟩

theorem acquire_eq (inv : Inv s) (c l : Nat) : s.acquire c l =
    if l ∈ s.held c then .error .acquire else .ok ((s.setCpu c (s.cpu c).pushcli).setPc c (.spinning l)) := by
  obtain ⟨cpu, run, same⟩ := holding_ok (s.setCpu c (s.cpu c).pushcli) c l
  have kept := same (by simp [setCpu, Cpu.pushcli]) (by simp [setCpu, Cpu.pushcli])
  rw [acquire, run, kept]
  simp only [← inv.holding_iff c l]
  simp [bind, Except.bind, setCpu]

theorem release_eq (inv : Inv s) (c l : Nat) : s.release c l =
    if l ∈ s.held c then .ok { (s.setLock l { s.lock l with cpu := none }).setPc c (.clearing l) with
      held := Function.update s.held c ((s.held c).erase l) } else .error .release := by
  obtain ⟨cpu, run, same⟩ := holding_ok s c l
  rw [release, run]
  have result := inv.holding_iff c l
  split
  · rename_i mine
    have deep : (s.cpu c).ncli ≠ 0 := by
      have := List.length_pos_of_mem mine
      rw [inv.depth c, Locks.depth]
      omega
    rw [same deep (inv.off c deep), result.mpr mine]
    simp [bind, Except.bind, setCpu]
  · rename_i other
    rw [Bool.eq_false_iff.mpr (mt result.mp other)]
    rfl

/-- A step that only concerns the interrupt flag of CPU c. -/
theorem flag (inv : Inv s) {c n : Nat} (cpu : Cpu) (deep : cpu.ncli = n + (s.held c).length + (s.pc c).busy)
    (off : cpu.ncli ≠ 0 → cpu.interrupts = false) :
    Inv { s.setCpu c cpu with pushed := Function.update s.pushed c n } := by
  have before := inv.depth
  have masked := inv.off
  refine ⟨inv.owner, inv.locked, inv.holder, inv.apart, inv.nodup, ?_, ?_⟩ <;>
    simp only [Locks.depth, setCpu, Function.update_apply]
  all_goals grind [Locks.depth]

theorem acquire (inv : Inv s) {c l : Nat} (at' : s.pc c = .code) :
    Inv ((s.setCpu c (s.cpu c).pushcli).setPc c (.spinning l)) := by
  obtain ⟨owner, locked, holder, apart, nodup, depth, off⟩ := inv
  refine ⟨?_, locked, holder, ?_, nodup, ?_, ?_⟩ <;>
    simp only [Inside, Locks.depth, setCpu, setPc, Function.update_apply]
  all_goals grind [Inside, Locks.depth, Pc.busy, Cpu.pushcli]

theorem xchg (inv : Inv s) {c l : Nat} (at' : s.pc c = .spinning l) : Inv (s.xchg c l) := by
  rw [Locks.xchg]
  split
  · rename_i busy
    have same : s.setLock l { s.lock l with locked := true } = s := by
      simp [setLock, ← busy]
    rw [same]
    exact inv
  · rename_i free
    have none : s.owner l = none := by
      rw [inv.locked l] at free
      simpa using free
    obtain ⟨owner, locked, holder, apart, nodup, depth, off⟩ := inv
    refine ⟨?_, ?_, ?_, ?_, nodup, ?_, off⟩ <;>
      simp only [Inside, Locks.depth, setLock, setPc, Function.update_apply]
    all_goals grind [Inside, Locks.depth, Pc.busy]

theorem record (inv : Inv s) {c l : Nat} (at' : s.pc c = .taken l) : Inv (s.record c l) := by
  obtain ⟨owner, locked, holder, apart, nodup, depth, off⟩ := inv
  refine ⟨?_, ?_, ?_, ?_, ?_, ?_, off⟩ <;>
    simp only [Inside, Locks.depth, Locks.record, setLock, setPc, Function.update_apply]
  all_goals grind [Inside, Locks.depth, Pc.busy]

theorem release (inv : Inv s) {c l : Nat} (at' : s.pc c = .code) (mine : l ∈ s.held c) :
    Inv { (s.setLock l { s.lock l with cpu := none }).setPc c (.clearing l) with
      held := Function.update s.held c ((s.held c).erase l) } := by
  obtain ⟨owner, locked, holder, apart, nodup, depth, off⟩ := inv
  refine ⟨?_, ?_, ?_, ?_, ?_, ?_, off⟩ <;>
    simp only [Inside, Locks.depth, setLock, setPc, Function.update_apply]
  all_goals grind [Inside, Locks.depth, Pc.busy]

theorem unlock (inv : Inv s) {c l : Nat} (at' : s.pc c = .clearing l) :
    ∃ s', s.unlock c l = .ok s' ∧ Inv s' := by
  have deep : (s.cpu c).ncli = s.pushed c + (s.held c).length + 1 := by
    rw [inv.depth c, Locks.depth, at']
    rfl
  have pop := Cpu.popcli_eq deep (inv.off c (by omega))
  refine ⟨_, by rw [Locks.unlock]; exact congrArg (· >>= _) pop, ?_⟩
  obtain ⟨owner, locked, holder, apart, nodup, depth, off⟩ := inv
  refine ⟨?_, ?_, ?_, ?_, nodup, ?_, ?_⟩ <;>
    simp only [Inside, Locks.depth, setCpu, setLock, setPc, Function.update_apply]
  all_goals grind [Inside, Locks.depth, Pc.busy]

theorem popcli (inv : Inv s) {c : Nat} (open' : 0 < s.pushed c) : ∃ cpu, (s.cpu c).popcli = .ok cpu ∧
    Inv { s.setCpu c cpu with pushed := Function.update s.pushed c (s.pushed c - 1) } := by
  have deep : (s.cpu c).ncli = (s.pushed c - 1 + (s.held c).length + (s.pc c).busy) + 1 := by
    rw [inv.depth c, Locks.depth]
    omega
  refine ⟨_, Cpu.popcli_eq deep (inv.off c (by omega)), inv.flag _ rfl ?_⟩
  intro more
  simp [beq_false_of_ne more]

theorem init (first : s.Init) : Inv s := by
  obtain ⟨cpu, lock, pc, owner, held, pushed⟩ := first
  constructor <;> simp [Inside, Locks.depth, Pc.busy, cpu, lock, pc, owner, held, pushed]

end Inv

theorem call_ok {c : Nat} {r : Except Panic Locks} (done : s.call c r = .ok s') :
    s.pc c = .code ∧ r = .ok s' := by
  unfold call at done
  split at done
  · cases r with
    | error p => cases done
    | ok t =>
      cases done
      exact ⟨‹_›, rfl⟩
  · cases done

theorem Inv.step (inv : Inv s) {a : Act} (fair : s.Balanced a) (done : s.step a = .ok s') : Inv s' := by
  have same (c : Nat) : (s.cpu c).ncli = s.pushed c + (s.held c).length + (s.pc c).busy := inv.depth c
  cases a with
  | pushcli c =>
    obtain ⟨-, done⟩ := call_ok done
    cases done
    exact inv.flag _ (by simp [Cpu.pushcli, same c]; omega) fun _ => rfl
  | popcli c =>
    obtain ⟨-, done⟩ := call_ok done
    obtain ⟨cpu, run, next⟩ := inv.popcli fair
    rw [run] at done
    cases done
    exact next
  | acquire c l =>
    obtain ⟨at', done⟩ := call_ok done
    rw [inv.acquire_eq] at done
    split at done <;> cases done
    exact inv.acquire at'
  | xchg c =>
    rw [Locks.step] at done
    split at done <;> cases done
    exact inv.xchg ‹_›
  | record c =>
    rw [Locks.step] at done
    split at done <;> cases done
    exact inv.record ‹_›
  | release c l =>
    obtain ⟨at', done⟩ := call_ok done
    rw [inv.release_eq] at done
    split at done <;> cases done
    exact inv.release at' ‹_›
  | unlock c =>
    rw [Locks.step] at done
    split at done
    · obtain ⟨t, run, next⟩ := inv.unlock ‹_›
      rw [run] at done
      cases done
      exact next
    · cases done
  | sched c intena =>
    rw [Locks.step] at done
    split at done
    · rename_i on
      obtain ⟨-, done⟩ := call_ok done
      cases done
      have next := inv.flag { s.cpu c with intena := intena } (same c) fun _ => on.2
      rwa [Function.update_eq_self] at next
    · cases done
  | interrupt c =>
    rw [Locks.step] at done
    split at done <;> cases done
    have next := inv.flag { s.cpu c with interrupts := false } (same c) fun _ => rfl
    rwa [Function.update_eq_self] at next
  | sti c =>
    obtain ⟨at', done⟩ := call_ok done
    cases done
    have none : (s.cpu c).ncli = 0 := by rw [same c, fair.1, fair.2, at']; rfl
    have next := inv.flag { s.cpu c with interrupts := true } (same c) fun some => absurd none some
    rwa [Function.update_eq_self] at next

theorem Reachable.inv (reach : s.Reachable) : Inv s :=
  Runs.Reachable.invariant (fun _ first => Inv.init first) (fun _ _ _ inv fair done => inv.step fair done) reach

/-- Whatever the other CPUs do meanwhile: a lock has one CPU between taking and freeing it
    if it is set and none if not; acquire panics for a lock this CPU holds and no other,
    and release panics for a lock this CPU does not hold and no other. -/
theorem spinlock_exclusive (s : Locks) (reach : s.Reachable) (l c : Nat) :
    ((s.lock l).locked = true ↔ ∃ c, s.Inside c l) ∧ (∀ c', s.Inside c l → s.Inside c' l → c = c') ∧
      (s.pc c = .code → (s.step (.acquire c l) = .error (.panic .acquire) ↔ l ∈ s.held c) ∧
        (s.step (.release c l) = .error (.panic .release) ↔ l ∉ s.held c)) := by
  have inv := reach.inv
  refine ⟨?_, ?_, ?_⟩
  · rw [inv.locked l, Option.isSome_iff_exists]
    exact exists_congr fun c => inv.owner l c
  · intro c' here there
    exact Option.some.inj (((inv.owner l c).mpr here).symm.trans ((inv.owner l c').mpr there))
  · intro at'
    rw [Locks.step, Locks.step, call, call, if_pos at', if_pos at', inv.acquire_eq, inv.release_eq]
    by_cases mine : l ∈ s.held c <;> simp [mine, Except.mapError]

def start : Locks :=
  ⟨fun _ => ⟨false, 0, false⟩, fun _ => ⟨false, none⟩, fun _ => .code, fun _ => none, fun _ => [], fun _ => 0⟩

/-- CPU 0 has taken lock 7, and CPU 1 waits for it. -/
def contended : List Act := [.acquire 0 7, .xchg 0, .record 0, .acquire 1 7, .xchg 1]

theorem contended_reachable :
    ∃ s : Locks, s.Reachable ∧ s.held 0 = [7] ∧ s.pc 0 = .code ∧ s.pc 1 = .spinning 7 := by
  have seen : (Runs.run step start contended).toOption.map (fun s => (s.held 0, s.pc 0, s.pc 1)) =
      some ([7], .code, .spinning 7) := by decide
  obtain ⟨s, run, seen⟩ := Runs.observed seen
  have first : start.Init := ⟨fun _ => rfl, fun _ => rfl, fun _ => rfl, fun _ => rfl, fun _ => rfl, fun _ => rfl⟩
  simp only [Prod.mk.injEq] at seen
  refine ⟨s, (Runs.Reachable.start first).run ?_ run, seen⟩
  intro t a member
  simp only [contended, List.mem_cons, List.not_mem_nil, or_false] at member
  rcases member with rfl | rfl | rfl | rfl | rfl <;> trivial

theorem spinlock_exclusive_contended : ∃ s : Locks, s.Reachable ∧ s.Inside 0 7 ∧ (s.lock 7).locked = true ∧
    s.step (.acquire 0 7) = .error (.panic .acquire) := by
  obtain ⟨s, reach, held, pc, -⟩ := contended_reachable
  have facts := spinlock_exclusive s reach 7 0
  have inside : s.Inside 0 7 := Or.inl (by simp [held])
  exact ⟨s, reach, inside, facts.1.mpr ⟨0, inside⟩, (facts.2.2 pc).1.mpr (by simp [held])⟩

/-- No interrupt reaches a CPU that holds a lock, waits for one or is about to free one,
    so a handler never finds a lock held by the code it interrupts; and popcli does not
    panic in callers that undo only their own pushcli. -/
theorem holder_uninterrupted (s : Locks) (reach : s.Reachable) :
    (∀ c, s.held c ≠ [] ∨ s.pc c ≠ .code ∨ s.pushed c ≠ 0 → s.step (.interrupt c) = .error .disabled) ∧
      ∀ a, s.Balanced a → s.step a ≠ .error (.panic .popcli) ∧
        s.step a ≠ .error (.panic .popcliInterruptible) := by
  have inv := reach.inv
  refine ⟨?_, ?_⟩
  · intro c busy
    have deep : (s.cpu c).ncli ≠ 0 := by
      rw [inv.depth c, Locks.depth]
      rcases busy with held | pc | pushed
      · have := List.length_pos_of_ne_nil held
        omega
      · cases at' : s.pc c <;> simp_all [Pc.busy]
      · omega
    simp [Locks.step, inv.off c deep]
  · intro a fair
    cases a with
    | popcli c =>
      obtain ⟨cpu, run, -⟩ := inv.popcli fair
      simp only [Locks.step, call, run]
      split <;> simp [Except.map, Except.mapError]
    | unlock c =>
      simp only [Locks.step]
      split
      · obtain ⟨t, run, -⟩ := inv.unlock ‹_›
        simp [run, Except.mapError]
      · simp
    | _ =>
      simp only [Locks.step, call, inv.acquire_eq, inv.release_eq]
      repeat' split
      all_goals simp_all [Except.mapError]

theorem holder_uninterrupted_contended : ∃ s : Locks, s.Reachable ∧ s.held 0 = [7] ∧ s.pc 1 = .spinning 7 ∧
    s.step (.interrupt 0) = .error .disabled ∧ s.step (.interrupt 1) = .error .disabled := by
  obtain ⟨s, reach, held, -, waits⟩ := contended_reachable
  have masked := (holder_uninterrupted s reach).1
  exact ⟨s, reach, held, waits, masked 0 (by simp [held]), masked 1 (by simp [waits])⟩

end Locks
end Xv6.Spinlock
