import Xv6.Lib.Runs
import Xv6.Sched.Proc
import Mathlib.Data.Finset.Basic

/-!
Processes running on several CPUs. An action is a section of kernel code between two
points where another CPU can notice a difference: a section under ptable.lock, or a
store to a slot that its creator still owns. `pc` is where a process stands inside
fork, clone or exec. The results of kalloc, cowuvm and exec's loading are inputs of
the actions; page directories are names, a new one is a name that is not in use.
-/
namespace Xv6

inductive Pc where
  | user
  | forkChecked
  | forkAlloced (np : Nat)
  | forkStacked (np : Nat)
  | forkCowed (np : Nat)
  | forkLinked (np : Nat)
  | cloneAlloced (np stack : Nat)
  | cloneStacked (np stack : Nat)
  | cloneShared (np stack : Nat)
  | cloneLinked (np : Nat)
  | execChecked
  | execLoaded (pgdir : Nat)
  | execCommitted (oldpgdir : Nat)
  deriving DecidableEq, Repr

def Pc.making : Pc → Option Nat
  | .forkAlloced np | .forkStacked np | .forkCowed np | .forkLinked np => some np
  | .cloneAlloced np _ | .cloneStacked np _ | .cloneShared np _ | .cloneLinked np => some np
  | _ => none

inductive Boot where
  | start
  | alloced (p : Nat)
  | done
  deriving DecidableEq, Repr

/-- The history of page directories: one becomes some process's pgdir, or is passed
    to freevm while the listed processes, apart from a zombie being reaped, use it. -/
inductive Event where
  | adopt (pgdir : Nat)
  | freevm (pgdir : Nat) (users : List Nat)
  deriving DecidableEq, Repr

structure Sys where
  sched : Sched
  pc : Nat → Pc
  boot : Boot
  /-- directories that have been set up and not been freed -/
  dirs : Finset Nat
  log : List Event

inductive Act where
  | userinitAlloc (kstack : Nat)
  | userinitRun (pgdir : Nat)
  | dispatch (c : Nat)
  | yield (c : Nat)
  | timer (c : Nat)
  | sleep (c : Nat) (chan : Chan)
  | wakeup (chan : Chan)
  | kill (pid : Int)
  | tick (now : Nat)
  | setpriority (c : Nat) (prio : Int)
  | futexWait (c pa : Nat)
  | futexWake (pa : Nat) (n : Int)
  | sbrk (c sz : Nat)
  | syncsize (c : Nat)
  | forkCheck (c : Nat)
  | forkAlloc (c : Nat)
  | forkStack (c : Nat) (kstack : Option Nat)
  | forkCow (c : Nat) (pgdir : Option Nat)
  | forkLink (c : Nat)
  | forkRun (c : Nat)
  | cloneAlloc (c stack : Nat)
  | cloneStack (c : Nat) (kstack : Option Nat)
  | cloneShare (c : Nat)
  | cloneLink (c : Nat)
  | cloneRun (c : Nat)
  | execCheck (c : Nat)
  | execLoad (c : Nat) (pgdir : Option Nat)
  | execCommit (c sz : Nat)
  | execFree (c : Nat)
  | exit (c : Nat)
  | waitScan (c : Nat)
  | joinScan (c : Nat)
  deriving Repr

inductive Stop where
  | disabled
  | panic (p : Panic)
  deriving DecidableEq, Repr

namespace Sys

def setPc (s : Sys) (p : Nat) (pc : Pc) : Sys := { s with pc := Function.update s.pc p pc }

def onCpu (s : Sys) (c : Nat) (k : Nat → Except Stop Sys) : Except Stop Sys :=
  if c < s.sched.ncpu then
    match s.sched.cpu c with
    | some cur => k cur
    | none => .error .disabled
  else .error .disabled

def onAt (s : Sys) (c : Nat) (pc : Pc) (k : Nat → Except Stop Sys) : Except Stop Sys :=
  s.onCpu c fun cur => if s.pc cur = pc then k cur else .error .disabled

def withSched (s : Sys) (sched : Sched) : Sys := { s with sched }

/-- A name for a new directory: setupkvm never returns null here or a frame in use. -/
def Fresh (s : Sys) (d : Nat) : Prop := d ≠ 0 ∧ d ∉ s.dirs

instance (s : Sys) (d : Nat) : Decidable (s.Fresh d) := inferInstanceAs (Decidable (_ ∧ _))

def adopt (s : Sys) (d : Nat) : Sys :=
  { s with dirs := insert d s.dirs, log := s.log ++ [.adopt d] }

/-- freevm(d); a zombie being reaped is not counted as a user. -/
def freevm (s : Sys) (d : Nat) (zombie : Option Nat) : Sys :=
  { s with dirs := s.dirs.erase d,
           log := s.log ++ [.freevm d ((s.sched.users d).filter fun i => some i ≠ zombie)] }

def abandon (s : Sys) (cur np : Nat) : Sys :=
  (s.withSched (s.sched.modify np fun p => { p with pgdir := 0, kstack := 0, state := .unused })).setPc
    cur .user

def link (s : Sys) (cur np : Nat) (isthread : Bool) (ustack : Nat) : Sys :=
  s.withSched (s.sched.modify np fun p =>
    { p with sz := (s.sched.proc cur).sz, parent := some cur, isthread := isthread, ustack := ustack,
             basePrio := (s.sched.proc cur).basePrio, prio := (s.sched.proc cur).basePrio })

/-- The last critical section of fork and clone. -/
def launch (s : Sys) (cur np : Nat) : Sys :=
  ((s.withSched (s.sched.setRunnable np)).setPc np .user).setPc cur .user

/-- The scan of wait; a process with nothing to wait for returns, else it sleeps. -/
def wait (s : Sys) (c cur : Nat) : Sys :=
  match s.sched.zombieChild cur false with
  | some p =>
    let d := (s.sched.proc p).pgdir
    let s := if d ≠ 0 ∧ s.sched.pgdirUsers d = 1 then s.freevm d (some p) else s
    s.withSched (s.sched.reap p)
  | none =>
    if (s.sched.children cur false).isEmpty ∨ (s.sched.proc cur).killed then s
    else s.withSched (s.sched.sleep c cur (.proc cur))

def join (s : Sys) (c cur : Nat) : Sys :=
  match s.sched.zombieChild cur true with
  | some p => s.withSched (s.sched.reap p)
  | none =>
    if (s.sched.children cur true).isEmpty ∨ (s.sched.proc cur).killed then s
    else s.withSched (s.sched.sleep c cur (.proc cur))

/-- allocproc in fork or clone: on success the creator stands at next np. -/
def claim (s : Sys) (cur : Nat) (next : Nat → Pc) : Sys :=
  match s.sched.allocproc with
  | (none, sched) => (s.withSched sched).setPc cur .user
  | (some np, sched) => (s.withSched sched).setPc cur (next np)

/-- The kernel stack of a new process, or the failure of kalloc. -/
def giveStack (s : Sys) (cur np : Nat) (kstack : Option Nat) (next : Pc) : Sys :=
  match kstack with
  | none => (s.withSched (s.sched.modify np fun p => { p with kstack := 0, state := .unused })).setPc cur .user
  | some f => (s.withSched (s.sched.modify np fun p => { p with kstack := f })).setPc cur next

def step (s : Sys) : Act → Except Stop Sys
  | .userinitAlloc kstack =>
    if s.boot = .start then
      match s.sched.allocproc with
      | (none, _) => .error .disabled
      | (some p, sched) =>
        let sched := { sched.modify p fun q => { q with kstack := kstack } with initproc := some p }
        .ok { s with sched := sched, boot := .alloced p }
    else .error .disabled
  | .userinitRun d =>
    match s.boot with
    | .alloced p =>
      if s.Fresh d then
        let s := s.adopt d
        let s := s.withSched (s.sched.modify p fun q => { q with pgdir := d, sz := PGSIZE })
        .ok { s.withSched (s.sched.setRunnable p) with boot := .done }
      else .error .disabled
    | _ => .error .disabled
  | .dispatch c =>
    if c < s.sched.ncpu ∧ s.sched.cpu c = none then
      match s.sched.scheduler c with
      | .ok sched => .ok (s.withSched sched)
      | .error p => .error (.panic p)
    else .error .disabled
  | .yield c => s.onCpu c fun cur => .ok (s.withSched (s.sched.yield c cur))
  | .timer c => s.onCpu c fun cur => .ok (s.withSched (s.sched.timer c cur))
  | .sleep c chan => s.onCpu c fun cur => .ok (s.withSched (s.sched.sleep c cur chan))
  | .wakeup chan => .ok (s.withSched (s.sched.wakeup1 (some chan)))
  | .kill pid => .ok (s.withSched (s.sched.kill pid).2)
  | .tick now => .ok (s.withSched (s.sched.schedulerTick now))
  | .setpriority c prio => s.onAt c .user fun cur => .ok (s.withSched (s.sched.setpriority cur prio).2)
  | .futexWait c pa => s.onAt c .user fun cur => .ok (s.withSched (s.sched.sleep c cur (.futex pa)))
  | .futexWake pa n => .ok (s.withSched (s.sched.futexWake pa n).2)
  | .sbrk c sz =>
    s.onAt c .user fun cur => .ok (s.withSched (s.sched.modify cur fun p => { p with sz := sz }))
  | .syncsize c => s.onAt c .user fun cur => .ok (s.withSched (s.sched.syncsize cur))
  | .forkCheck c => s.onAt c .user fun cur =>
    if s.sched.pgdirUsers (s.sched.proc cur).pgdir > 1 then .ok s else .ok (s.setPc cur .forkChecked)
  | .forkAlloc c => s.onAt c .forkChecked fun cur => .ok (s.claim cur .forkAlloced)
  | .forkStack c kstack => s.onCpu c fun cur =>
    match s.pc cur with
    | .forkAlloced np => .ok (s.giveStack cur np kstack (.forkStacked np))
    | _ => .error .disabled
  | .forkCow c pgdir => s.onCpu c fun cur =>
    match s.pc cur, pgdir with
    | .forkStacked np, none => .ok (s.abandon cur np)
    | .forkStacked np, some d =>
      if s.Fresh d then
        let s := s.adopt d
        .ok ((s.withSched (s.sched.modify np fun p => { p with pgdir := d })).setPc cur (.forkCowed np))
      else .error .disabled
    | _, _ => .error .disabled
  | .forkLink c => s.onCpu c fun cur =>
    match s.pc cur with
    | .forkCowed np => .ok ((s.link cur np false 0).setPc cur (.forkLinked np))
    | _ => .error .disabled
  | .forkRun c => s.onCpu c fun cur =>
    match s.pc cur with
    | .forkLinked np => .ok (s.launch cur np)
    | _ => .error .disabled
  | .cloneAlloc c stack => s.onAt c .user fun cur =>
    if stack % PGSIZE ≠ 0 then .ok s
    else if stack ≥ (s.sched.proc cur).sz ∨ (stack + PGSIZE) % 4294967296 > (s.sched.proc cur).sz then .ok s
    else .ok (s.claim cur fun np => .cloneAlloced np stack)
  | .cloneStack c kstack => s.onCpu c fun cur =>
    match s.pc cur with
    | .cloneAlloced np stack => .ok (s.giveStack cur np kstack (.cloneStacked np stack))
    | _ => .error .disabled
  | .cloneShare c => s.onCpu c fun cur =>
    match s.pc cur with
    | .cloneStacked np stack =>
      .ok ((s.withSched (s.sched.modify np fun p => { p with pgdir := (s.sched.proc cur).pgdir })).setPc cur
        (.cloneShared np stack))
    | _ => .error .disabled
  | .cloneLink c => s.onCpu c fun cur =>
    match s.pc cur with
    | .cloneShared np stack => .ok ((s.link cur np true stack).setPc cur (.cloneLinked np))
    | _ => .error .disabled
  | .cloneRun c => s.onCpu c fun cur =>
    match s.pc cur with
    | .cloneLinked np => .ok (s.launch cur np)
    | _ => .error .disabled
  | .execCheck c => s.onAt c .user fun cur =>
    if s.sched.pgdirUsers (s.sched.proc cur).pgdir > 1 then .ok s else .ok (s.setPc cur .execChecked)
  | .execLoad c pgdir => s.onAt c .execChecked fun cur =>
    match pgdir with
    | none => .ok (s.setPc cur .user)
    | some d =>
      if s.Fresh d then .ok ({ s with dirs := insert d s.dirs }.setPc cur (.execLoaded d))
      else .error .disabled
  | .execCommit c sz => s.onCpu c fun cur =>
    match s.pc cur with
    | .execLoaded d =>
      let old := (s.sched.proc cur).pgdir
      let s := s.adopt d
      .ok ((s.withSched (s.sched.modify cur fun p => { p with pgdir := d, sz := sz })).setPc cur
        (.execCommitted old))
    | _ => .error .disabled
  | .execFree c => s.onCpu c fun cur =>
    match s.pc cur with
    | .execCommitted old => .ok ((s.freevm old none).setPc cur .user)
    | _ => .error .disabled
  | .exit c => s.onAt c .user fun cur =>
    if s.sched.initproc = some cur then .error (.panic .initExiting)
    else .ok (s.withSched (s.sched.exit c cur))
  | .waitScan c => s.onAt c .user fun cur => .ok (s.wait c cur)
  | .joinScan c => s.onAt c .user fun cur => .ok (s.join c cur)

/-- Before userinit: the table is zeroed, every run queue empty, every CPU idle. -/
def Init (s : Sys) : Prop :=
  0 < s.sched.ncpu ∧ s.sched.ncpu ≤ NCPU ∧ (∀ i, s.sched.proc i = Proc.zero) ∧
    (∀ c, s.sched.runq c = ⟨fun _ => none, fun _ => none, 0⟩) ∧ (∀ c, s.sched.cpu c = none) ∧
    s.sched.initproc = none ∧ (∀ i, s.pc i = .user) ∧ s.boot = .start ∧ s.dirs = ∅ ∧ s.log = []

def Reachable (s : Sys) : Prop := Runs.Reachable Init step (fun _ _ => True) s

end Sys
end Xv6
