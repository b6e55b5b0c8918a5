import Xv6.Lib.Runs
import Xv6.Memory.Image
import Mathlib.Data.Finset.Basic

/-!
Memory as system calls and page faults change it, one completed call at a time. A used
slot of the process table is a tenant; the rest of struct proc does not matter here. A
call of a slot that is not running changes nothing, and so does a call that fails
before it touches memory.
-/
namespace Xv6

structure Tenant where
  space : Space
  kstack : Nat
  parent : Option Nat
  isthread : Bool
  zombie : Bool
  deriving DecidableEq, Repr

structure Mem where
  phys : Phys
  kpgdir : Nat
  initproc : Nat
  slot : Nat → Option Tenant
  /-- the stacks startothers gave to the other processors -/
  apstacks : Finset Nat
  pipes : Finset Nat

inductive Op where
  | fork (p : Nat)
  | clone (p stack arg : Nat)
  | exec (p : Nat) (ip : List UInt8) (argv : List (List UInt8))
  | sbrk (p : Nat) (n : Int)
  /-- one byte at va is read, or b is written there, by user code or by the kernel -/
  | access (p va : Nat) (wr u : Bool) (b : UInt8)
  | exit (p : Nat)
  | wait (p : Nat)
  | join (p : Nat)
  | pipealloc
  | pipeclose (f : Nat)
  deriving Repr

namespace Phys
variable [layout : Layout]

/-- One access to a user page: if the CPU refuses it, the page fault handler runs and the
    instruction is tried again. -/
def touch (s : Phys) (space : Space) (va : Nat) (wr u : Bool) : Except Panic (Bool × Phys) :=
  let pte := s.found space.pgdir va
  if pte.permits wr u then .ok (true, s)
  else do
    let (r, s) ← s.pagefault (some space) va (pte.faultCode wr u)
    .ok (decide (r = 0) && (s.found space.pgdir va).permits wr u, s)

/-- The kernel stores bytes that lie in one user page; a fault it cannot resolve is fatal. -/
def store (s : Phys) (space : Space) (va : Nat) (bs : List UInt8) : Except Panic Phys := do
  let (done, s) ← s.touch space va true false
  if done then
    let f := (s.found space.pgdir va).frame
    .ok (s.setPage f ((s.page f).write (va % PGSIZE) bs))
  else .error .kernelPageFault

end Phys

namespace Mem

def setSlot (m : Mem) (i : Nat) (t : Option Tenant) : Mem :=
  { m with slot := Function.update m.slot i t }

/-- The first slot that passes the test, in the order of the scans of proc.c. -/
def scan (m : Mem) (test : Option Tenant → Bool) : Option Nat :=
  (List.range NPROC).find? fun i => test (m.slot i)

def pgdirUsers (m : Mem) (d : Nat) : Nat :=
  ((List.range NPROC).filter fun i => (m.slot i).any fun t => t.space.pgdir = d).length

/-- Give every thread on directory d the break sz: the store of curproc->sz and syncsize. -/
def setSize (m : Mem) (d sz : Nat) : Mem :=
  { m with slot := fun i => (m.slot i).map fun t => if t.space.pgdir = d then { t with space := ⟨d, sz⟩ } else t }

def running (m : Mem) (p : Nat) (k : Tenant → Except Panic Mem) : Except Panic Mem :=
  match m.slot p with
  | some t => if p < NPROC ∧ ¬ t.zombie then k t else .ok m
  | none => .ok m

def allocproc (m : Mem) : Option (Nat × Nat) × Mem :=
  match m.scan Option.isNone with
  | none => (none, m)
  | some np =>
    match m.phys.kalloc with
    | (none, s) => (none, { m with phys := s })
    | (some kstack, s) => (some (np, kstack), { m with phys := s })

variable [layout : Layout]

def fork (m : Mem) (p : Nat) (t : Tenant) : Except Panic Mem :=
  if m.pgdirUsers t.space.pgdir > 1 then .ok m
  else match m.allocproc with
    | (none, m) => .ok m
    | (some (np, kstack), m) => do
      match ← m.phys.cowuvm t.space.pgdir t.space.sz with
      | (none, s) =>
        let s ← s.kfree kstack
        .ok { m with phys := s }
      | (some d, s) =>
        .ok ({ m with phys := s }.setSlot np (some ⟨⟨d, t.space.sz⟩, kstack, some p, false, false⟩))

def clone (m : Mem) (p : Nat) (t : Tenant) (stack arg : Nat) : Except Panic Mem :=
  if stack % PGSIZE ≠ 0 then .ok m
  else if stack ≥ t.space.sz ∨ (stack + PGSIZE) % 4294967296 > t.space.sz then .ok m
  else match m.allocproc with
    | (none, m) => .ok m
    | (some (np, kstack), m) => do
      let s ← m.phys.store t.space (stack + PGSIZE - 4) (word arg)
      let s ← s.store t.space (stack + PGSIZE - 8) (word 0xffffffff)
      .ok ({ m with phys := s }.setSlot np (some ⟨t.space, kstack, some p, true, false⟩))

def exec (m : Mem) (p : Nat) (t : Tenant) (ip : List UInt8) (argv : List (List UInt8)) :
    Except Panic Mem :=
  if m.pgdirUsers t.space.pgdir > 1 then .ok m
  else do
    match ← m.phys.execImage ip argv with
    | (none, s) => .ok { m with phys := s }
    | (some image, s) =>
      let s ← s.freevm t.space.pgdir
      .ok ({ m with phys := s }.setSlot p (some { t with space := ⟨image.pgdir, image.sz⟩ }))

/-- The break sz moved by n, as a uint. -/
def moved (sz : Nat) (n : Int) : Nat := ((sz + n) % 4294967296).toNat

/-- sys_sbrk. Growth only moves the break; growproc gives pages back, and takes a new
    break of 0 for a failure. -/
def sbrk (m : Mem) (t : Tenant) (n : Int) : Except Panic Mem :=
  if n < 0 then do
    let (sz, s) ← m.phys.deallocuvm t.space.pgdir t.space.sz (moved t.space.sz n)
    if sz = 0 then .ok { m with phys := s }
    else .ok ({ m with phys := s }.setSize t.space.pgdir sz)
  else if moved t.space.sz n ≥ KERNBASE ∨ moved t.space.sz n < t.space.sz then .ok m
  else .ok (m.setSize t.space.pgdir (moved t.space.sz n))

/-- A user access that stays refused kills the process; it exits later. -/
def access (m : Mem) (t : Tenant) (va : Nat) (wr u : Bool) (b : UInt8) : Except Panic Mem :=
  if va < KERNBASE then do
    let (done, s) ← m.phys.touch t.space va wr u
    if done then
      .ok { m with phys := if wr then s.setByte (s.found t.space.pgdir va).frame (va % PGSIZE) b else s }
    else if u then .ok { m with phys := s }
    else .error .kernelPageFault
  else .ok m

/-- The byte an access leaves in the register, if it completes. -/
def read (m : Mem) (t : Tenant) (va : Nat) (u : Bool) : Except Panic (Option UInt8) := do
  let (done, s) ← m.phys.touch t.space va false u
  .ok (if done then some ((s.page (s.found t.space.pgdir va).frame).byte (va % PGSIZE)) else none)

def exit (m : Mem) (p : Nat) (t : Tenant) : Except Panic Mem :=
  if p = m.initproc then .error .initExiting
  else
    let orphan (c : Tenant) := if c.parent = some p then { c with parent := some m.initproc } else c
    .ok ({ m with slot := fun i => (m.slot i).map orphan }.setSlot p (some { orphan t with zombie := true }))

def isZombieOf (p : Nat) (c : Option Tenant) : Bool := c.any fun t => t.parent = some p ∧ t.zombie

def wait (m : Mem) (p : Nat) : Except Panic Mem :=
  match m.scan (isZombieOf p) with
  | none => .ok m
  | some q =>
    match m.slot q with
    | none => .ok m
    | some t => do
      let s ← m.phys.kfree t.kstack
      let s ← if m.pgdirUsers t.space.pgdir = 1 then s.freevm t.space.pgdir else .ok s
      .ok ({ m with phys := s }.setSlot q none)

/-- join leaves the directory to the creator. initproc runs init.c, which never joins. -/
def join (m : Mem) (p : Nat) : Except Panic Mem :=
  if p = m.initproc then .ok m
  else match m.scan fun c => isZombieOf p c && c.any Tenant.isthread with
    | none => .ok m
    | some q =>
      match m.slot q with
      | none => .ok m
      | some t => do
        let s ← m.phys.kfree t.kstack
        .ok ({ m with phys := s }.setSlot q none)

def step (m : Mem) : Op → Except Panic Mem
  | .fork p => m.running p (m.fork p)
  | .clone p stack arg => m.running p fun t => m.clone p t stack arg
  | .exec p ip argv => m.running p fun t => m.exec p t ip argv
  | .sbrk p n => m.running p fun t => m.sbrk t n
  | .access p va wr u b => m.running p fun t => m.access t va wr u b
  | .exit p => m.running p (m.exit p)
  | .wait p => m.running p fun _ => m.wait p
  | .join p => m.running p fun _ => m.join p
  | .pipealloc =>
    match m.phys.kalloc with
    | (none, s) => .ok { m with phys := s }
    | (some f, s) => .ok { m with phys := s, pipes := insert f m.pipes }
  | .pipeclose f =>
    if f ∈ m.pipes then do
      let s ← m.phys.kfree f
      .ok { m with phys := s, pipes := m.pipes.erase f }
    else .ok m

/-- startothers takes a stack for each of n processors. -/
def startothers : Nat → Phys → Option (Finset Nat) × Phys
  | 0, s => (some ∅, s)
  | n + 1, s =>
    match s.kalloc with
    | (none, s) => (none, s)
    | (some f, s) =>
      match startothers n s with
      | (none, s) => (none, s)
      | (some fs, s) => (some (insert f fs), s)

def first (s : Phys) (kpgdir d kstack : Nat) (apstacks : Finset Nat) : Mem :=
  ⟨s, kpgdir, 0, fun i => if i = 0 then some ⟨⟨d, PGSIZE⟩, kstack, none, false, false⟩ else none, apstacks, ∅⟩

/-- main up to userinit, on memory that kinit has put on the free list. -/
def main (s : Phys) (naps : Nat) (initcode : List UInt8) : Except Panic Mem := do
  match ← s.setupkvm with
  | (none, _) => .error .kernelPageFault
  | (some kpgdir, s) =>
    match startothers naps s with
    | (none, _) => .error .kernelPageFault
    | (some apstacks, s) =>
      match s.kalloc with
      | (none, _) => .error .kernelPageFault
      | (some kstack, s) => do
        match ← s.setupkvm with
        | (none, _) => .error .userinit
        | (some d, s) =>
          let s ← s.inituvm d initcode
          .ok (first s kpgdir d kstack apstacks)

/-- What kinit leaves: every frame it manages is free. -/
structure Empty (s : Phys) : Prop where
  ref : ∀ f, s.ref f = 0
  free : ∀ f, f ∈ s.freelist ↔ Phys.Managed f
  nodup : s.freelist.Nodup

/-- The first process is about to run, and no kalloc has failed so far. -/
def Start (m : Mem) : Prop :=
  ∃ s naps initcode, Empty s ∧ main s naps initcode = .ok m ∧ m.phys.oom = false

/-- Every memory that some sequence of calls, accesses and faults leads to. -/
def Reachable (m : Mem) : Prop := Runs.Reachable Start step (fun _ _ => True) m

end Mem
end Xv6
