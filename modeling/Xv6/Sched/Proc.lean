import Xv6.Memory.Frames

/-!
The process table and the per-CPU run queues of proc.c. A process is named by its
slot in ptable.proc, a null pointer is `none`. Every function here is a section
that the source runs while it holds ptable.lock, or a part of one.
-/
namespace Xv6

def NCPU : Nat := 8
def NPRIO : Nat := 4
def QUANTUM_BASE : Nat := 2
def AGING_INTERVAL : Nat := 5
def AGING_TICKS : Nat := 10

inductive Procstate where
  | unused
  | embryo
  | sleeping
  | runnable
  | running
  | zombie
  deriving DecidableEq, Repr

/-- What a process sleeps on: the address of a proc, the physical address of a futex
    word, or some other kernel address. Physical addresses lie below KERNBASE, so
    the three never coincide. -/
inductive Chan where
  | proc (i : Nat)
  | futex (pa : Nat)
  | other (a : Nat)
  deriving DecidableEq, Repr

structure Proc where
  sz : Nat
  pgdir : Nat
  kstack : Nat
  state : Procstate
  pid : Int
  parent : Option Nat
  chan : Option Chan
  killed : Bool
  basePrio : Nat
  prio : Nat
  slice : Int
  waited : Int
  rqcpu : Nat
  rqnext : Option Nat
  isthread : Bool
  ustack : Nat
  deriving DecidableEq, Repr

def Proc.zero : Proc := ⟨0, 0, 0, .unused, 0, none, none, false, 0, 0, 0, 0, 0, none, false, 0⟩

structure Runqueue where
  head : Nat → Option Nat
  tail : Nat → Option Nat
  nready : Int

structure Sched where
  ncpu : Nat
  proc : Nat → Proc
  runq : Nat → Runqueue
  /-- c->proc of every CPU -/
  cpu : Nat → Option Nat
  lastAged : Nat
  nextpid : Int
  initproc : Option Nat

def quantumFor (prio : Nat) : Int := QUANTUM_BASE * ( NPRIO - prio)

namespace Sched

def modify (s : Sched) (i : Nat) (f : Proc → Proc) : Sched :=
  { s with proc := Function.update s.proc i (f (s.proc i)) }

def setRunq (s : Sched) (c : Nat) (rq : Runqueue) : Sched :=
  { s with runq := Function.update s.runq c rq }

def setCpu (s : Sched) (c : Nat) (p : Option Nat) : Sched :=
  { s with cpu := Function.update s.cpu c p }

def rqPush (s : Sched) (cpu p : Nat) : Sched :=
  let prio := (s.proc p).prio
  let s := s.modify p fun q => { q with rqnext := none, rqcpu := cpu }
  let rq := s.runq cpu
  match rq.tail prio with
  | some t =>
    let s := s.modify t fun q => { q with rqnext := some p }
    s.setRunq cpu { rq with tail := Function.update rq.tail prio (some p), nready := rq.nready + 1 }
  | none =>
    s.setRunq cpu ⟨Function.update rq.head prio (some p), Function.update rq.tail prio (some p),
      rq.nready + 1⟩

/-- Pop from the first nonempty level of the list. -/
def rqPopFrom (s : Sched) (cpu : Nat) : List Nat → Option Nat × Sched
  | [] => (none, s)
  | prio :: prios =>
    let rq := s.runq cpu
    match rq.head prio with
    | some p =>
      let head := (s.proc p).rqnext
      let s := s.setRunq cpu ⟨Function.update rq.head prio head,
        Function.update rq.tail prio (if head = none then none else rq.tail prio), rq.nready - 1⟩
      (some p, s.modify p fun q => { q with rqnext := none })
    | none => rqPopFrom s cpu prios

def rqPop (s : Sched) (cpu : Nat) : Option Nat × Sched := s.rqPopFrom cpu (List.range NPRIO)

/-- The scan of least_loaded_cpu and rq_steal: keep the best CPU seen so far. -/
def scanCpus (better : Nat → Int → Bool) (load : Nat → Int) : List Nat → Option Nat → Int → Option Nat
  | [], best, _ => best
  | i :: is, best, bestn =>
    if better i bestn then scanCpus better load is (some i) (load i)
    else scanCpus better load is best bestn

def leastLoadedCpu (s : Sched) : Nat :=
  (scanCpus (fun i bestn => decide ((s.runq i).nready < bestn)) (fun i => (s.runq i).nready)
    (List.range' 1 (s.ncpu - 1)) (some 0) (s.runq 0).nready).getD 0

def rqSteal (s : Sched) (self : Nat) : Option Nat × Sched :=
  match scanCpus (fun i bestn => decide (i ≠ self) && decide ((s.runq i).nready > bestn))
      (fun i => (s.runq i).nready) (List.range s.ncpu) none 1 with
  | none => (none, s)
  | some best => s.rqPop best

/-- The while loop of rq_age: pop at most n processes. -/
def rqDrain (cpu : Nat) : Nat → Sched → List Nat × Sched
  | 0, s => ([], s)
  | n + 1, s =>
    match s.rqPop cpu with
    | (none, s) => ([], s)
    | (some p, s) =>
      let (pending, s) := rqDrain cpu n s
      (p :: pending, s)

/-- waited is an int to which the unsigned elapsed is added. -/
def ageOne (elapsed : Nat) (p : Proc) : Proc :=
  let p := { p with waited := Int.bmod (p.waited + elapsed) 4294967296 }
  if (AGING_TICKS : Int) ≤ p.waited ∧ p.prio > 0 then { p with prio := p.prio - 1, waited := 0 } else p

def rqAgeCpu (elapsed : Nat) (s : Sched) (cpu : Nat) : Sched :=
  let (pending, s) := rqDrain cpu NPROC s
  pending.foldl (fun s p => (s.modify p (ageOne elapsed)).rqPush cpu p) s

def rqAge (s : Sched) (elapsed : Nat) : Sched := (List.range s.ncpu).foldl (rqAgeCpu elapsed) s

def schedulerTick (s : Sched) (now : Nat) : Sched :=
  let elapsed := (now + 4294967296 - s.lastAged) % 4294967296
  if elapsed < AGING_INTERVAL then s else { s with lastAged := now }.rqAge elapsed

def allocproc (s : Sched) : Option Nat × Sched :=
  match (List.range NPROC).find? fun i => (s.proc i).state == .unused with
  | none => (none, s)
  | some i =>
    let s := s.modify i fun p =>
      { p with state := .embryo, pid := s.nextpid, pgdir := 0, isthread := false, ustack := 0,
               basePrio := NPRIO / 2, prio := NPRIO / 2, slice := quantumFor ( NPRIO / 2), waited := 0,
               rqcpu := 0, rqnext := none }
    (some i, { s with nextpid := Int.bmod (s.nextpid + 1) 4294967296 })

def setRunnable (s : Sched) (p : Nat) : Sched :=
  let s := s.modify p fun q => { q with state := .runnable }
  s.rqPush s.leastLoadedCpu p

/-- Make a sleeping process runnable on the CPU it last belonged to. -/
def rouse (s : Sched) (p : Nat) : Sched :=
  let s := s.modify p fun q => { q with state := .runnable }
  s.rqPush (s.proc p).rqcpu p

def wakeupIn (chan : Option Chan) (s : Sched) (p : Nat) : Sched :=
  if (s.proc p).state = .sleeping ∧ (s.proc p).chan = chan then s.rouse p else s

def wakeup1 (s : Sched) (chan : Option Chan) : Sched := (List.range NPROC).foldl (wakeupIn chan) s

/-- The loop of futex_wake over the processes in the list; n ≤ 0 wakes all. -/
def futexWakeLoop (pa : Nat) (n : Int) : List Nat → Nat → Sched → Nat × Sched
  | [], woken, s => (woken, s)
  | p :: ps, woken, s =>
    if (s.proc p).state = .sleeping ∧ (s.proc p).chan = some (.futex pa) then
      let s := s.rouse p
      if n > 0 ∧ (woken + 1 : Nat) ≥ n then (woken + 1, s) else futexWakeLoop pa n ps (woken + 1) s
    else futexWakeLoop pa n ps woken s

def futexWake (s : Sched) (pa : Nat) (n : Int) : Nat × Sched :=
  futexWakeLoop pa n (List.range NPROC) 0 s

def kill (s : Sched) (pid : Int) : Int × Sched :=
  match (List.range NPROC).find? fun i => (s.proc i).pid == pid with
  | none => (-1, s)
  | some p =>
    let s := s.modify p fun q => { q with killed := true }
    (0, if (s.proc p).state = .sleeping then s.rouse p else s)

/-- Processes in a state other than UNUSED that have this directory. -/
def users (s : Sched) (pgdir : Nat) : List Nat :=
  (List.range NPROC).filter fun i => (s.proc i).state ≠ .unused && (s.proc i).pgdir == pgdir

def pgdirUsers (s : Sched) (pgdir : Nat) : Nat := if pgdir = 0 then 0 else (s.users pgdir).length

def syncsizeIn (cur : Nat) (s : Sched) (q : Nat) : Sched :=
  if q ≠ cur ∧ (s.proc q).state ≠ .unused ∧ (s.proc q).pgdir = (s.proc cur).pgdir then
    s.modify q fun p => { p with sz := (s.proc cur).sz }
  else s

def syncsize (s : Sched) (cur : Nat) : Sched := (List.range NPROC).foldl (syncsizeIn cur) s

/-- One iteration of the loop of exit that passes children to init. -/
def reparentIn (cur : Nat) (s : Sched) (p : Nat) : Sched :=
  if (s.proc p).parent = some cur then
    let s := s.modify p fun q => { q with parent := s.initproc }
    if (s.proc p).state = .zombie then s.wakeup1 (s.initproc.map .proc) else s
  else s

/-- The locked part of exit; the CPU goes back to the scheduler. -/
def exit (s : Sched) (c cur : Nat) : Sched :=
  let s := s.wakeup1 ((s.proc cur).parent.map .proc)
  let s := (List.range NPROC).foldl (reparentIn cur) s
  let s := s.modify cur fun p => { p with state := .zombie }
  s.setCpu c none

/-- What wait and join do to the slot of a zombie once its memory is gone. -/
def reap (s : Sched) (p : Nat) : Sched :=
  s.modify p fun q =>
    { q with kstack := 0, pgdir := 0, isthread := false, ustack := 0, pid := 0, parent := none,
             killed := false, state := .unused }

/-- The children the scan of wait, or with threads the scan of join, looks at. -/
def children (s : Sched) (cur : Nat) (threads : Bool) : List Nat :=
  (List.range NPROC).filter fun i =>
    (s.proc i).parent == some cur && (!threads || (s.proc i).isthread)

def zombieChild (s : Sched) (cur : Nat) (threads : Bool) : Option Nat :=
  (s.children cur threads).find? fun i => (s.proc i).state == .zombie

def sleep (s : Sched) (c cur : Nat) (chan : Chan) : Sched :=
  let s := s.modify cur fun p => { p with chan := some chan, state := .sleeping }
  s.setCpu c none

def yield (s : Sched) (c cur : Nat) : Sched :=
  let s := s.modify cur fun p => { p with state := .runnable }
  let s := s.rqPush c cur
  s.setCpu c none

def setpriority (s : Sched) (cur : Nat) (prio : Int) : Int × Sched :=
  if prio < 0 ∨ prio ≥ NPRIO then (-1, s)
  else (0, s.modify cur fun p =>
    { p with basePrio := prio.toNat, prio := prio.toNat, slice := quantumFor prio.toNat })

def timer (s : Sched) (c cur : Nat) : Sched :=
  let s := s.modify cur fun p => { p with slice := p.slice - 1 }
  if (s.proc cur).slice ≤ 0 then s.yield c cur else s

/-- The process the scheduler takes: its own queues first, then another CPU's. -/
def pickNext (s : Sched) (id : Nat) : Option Nat × Sched :=
  match s.rqPop id with
  | (some p, s) => (some p, s)
  | (none, s) => s.rqSteal id

/-- One round of the scheduler on an idle CPU, up to the point where the chosen
    process releases the lock. sleep and futex_wait clear chan when they resume; a
    process that resumes in yield or forkret has no chan. -/
def scheduler (s : Sched) (id : Nat) : Except Panic Sched :=
  match s.pickNext id with
  | (none, s) => .ok s
  | (some p, s) =>
    if (s.proc p).state ≠ .runnable then .error .schedulerNotRunnable
    else
      let s := s.modify p fun q =>
        { q with rqcpu := id, prio := q.basePrio, waited := 0, slice := quantumFor q.basePrio }
      let s := s.setCpu id (some p)
      .ok (s.modify p fun q => { q with state := .running, chan := none })

end Sched
end Xv6
