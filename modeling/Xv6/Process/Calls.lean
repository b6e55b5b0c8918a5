import Xv6.Process.Turns

/-!
The process system with what the system calls on top of it leave behind: the call in
which a process sleeps, the open files and the directory of every slot, the pids of
creations that failed, and for every slot notes about the processes that lived in it.
-/
namespace Xv6

inductive Call where
  | wait
  | join
  | futex
  | other
  deriving DecidableEq, Repr

def Act.call : Act → Call
  | .waitScan _ => .wait
  | .joinScan _ => .join
  | .futexWait _ _ => .futex
  | _ => .other

/-- One step in the life of a process, noted at its slot. A report holds what wait or
    join returns: the pid and, for join, the stack. -/
inductive Note where
  | alloc (pid : Int) (stack : Option Nat)
  | failed
  | born
  | exited
  | reported (caller : Nat) (parent : Option Nat) (pid : Int) (stack : Option Nat)
  deriving DecidableEq, Repr

structure Kern where
  sys : Sys
  call : Nat → Option Call
  ofile : Nat → Fin NOFILE → Option Nat
  cwd : Nat → Option Nat
  /-- pids given to processes whose creation then failed -/
  lost : List Int
  notes : Nat → List Note

inductive KernAct where
  | sys (a : Act)
  | openFile (c : Nat) (fd : Fin NOFILE) (file : Nat)
  | closeFile (c : Nat) (fd : Fin NOFILE)
  | chdir (c ip : Nat)
  /-- exit drops its directory -/
  | iput (c : Nat)
  deriving Repr

/-- sleep on the address of a process is wait and join, on a physical address futex_wait. -/
def Act.allowed : Act → Bool
  | .sleep _ (.other _) => true
  | .sleep _ _ => false
  | _ => true

def Call.after (old : Option Call) (st st' : Procstate) (new : Call) : Option Call :=
  if st' = .sleeping then if st = .sleeping then old else some new else none

theorem Call.after_some {old : Option Call} {st st' : Procstate} {new x : Call}
    (h : Call.after old st st' new = some x) :
    st' = .sleeping ∧ (st = .sleeping ∧ old = some x ∨ st ≠ .sleeping ∧ new = x) := by
  unfold Call.after at h
  split at h
  · rename_i asleep
    refine ⟨asleep, ?_⟩
    split at h
    · rename_i before
      exact Or.inl ⟨before, h⟩
    · rename_i awake
      exact Or.inr ⟨awake, Option.some.inj h⟩
  · cases h

def Note.change (p p' : Proc) (stack : Option Nat) : List Note :=
  match p.state, p'.state with
  | .unused, .embryo => [.alloc p'.pid stack]
  | .embryo, .unused => [.failed]
  | .embryo, .runnable => [.born]
  | .running, .zombie => [.exited]
  | _, _ => []

namespace Sys

/-- What a scan returns: the slot of the zombie, its pid and, for join, its stack. -/
def report (s : Sys) (a : Act) : Option (Nat × Note) :=
  match a.scans with
  | none => none
  | some (c, threads) =>
    match s.sched.cpu c with
    | none => none
    | some cur =>
      match s.sched.zombieChild cur threads with
      | none => none
      | some p =>
        let z := s.sched.proc p
        some (p, .reported cur z.parent z.pid (if threads then some z.ustack else none))

/-- The caller and the new process at the point where fork and clone copy the files. -/
def linking (s : Sys) : Act → Option (Nat × Nat)
  | .forkLink c =>
    match s.sched.cpu c with
    | none => none
    | some cur =>
      match s.pc cur with
      | .forkCowed np => some (cur, np)
      | _ => none
  | .cloneLink c =>
    match s.sched.cpu c with
    | none => none
    | some cur =>
      match s.pc cur with
      | .cloneShared np _ => some (cur, np)
      | _ => none
  | _ => none

def rooting (s : Sys) : Act → Option Nat
  | .userinitRun _ =>
    match s.boot with
    | .alloced p => some p
    | _ => none
  | _ => none

def exiter (s : Sys) : Act → Option Nat
  | .exit c => s.sched.cpu c
  | _ => none

end Sys

namespace Kern

/-- The open files of the slot j after fork or clone has copied those of the caller. -/
def nextOfile (k : Kern) (a : Act) (j : Nat) (fd : Fin NOFILE) : Option Nat :=
  match k.sys.linking a with
  | some (cur, np) => if j = np ∧ (k.ofile cur fd).isSome then k.ofile cur fd else k.ofile j fd
  | none => k.ofile j fd

def nextCwd (k : Kern) (a : Act) (j : Nat) : Option Nat :=
  match k.sys.linking a with
  | some (cur, np) => if j = np then k.cwd cur else k.cwd j
  | none => if k.sys.rooting a = some j then some ROOTINO else k.cwd j

def nextNotes (k : Kern) (a : Act) (s : Sys) (j : Nat) : List Note :=
  Note.change (k.sys.sched.proc j) (s.sched.proc j) a.stack ++
    match k.sys.report a with
    | some (p, note) => if p = j then [note] else []
    | none => []

def failing (k : Kern) (s : Sys) : List Nat :=
  (List.range NPROC).filter fun j => (k.sys.sched.proc j).state == .embryo && (s.sched.proc j).state == .unused

def record (k : Kern) (a : Act) (s : Sys) : Kern where
  sys := s
  call j := Call.after (k.call j) (k.sys.sched.proc j).state (s.sched.proc j).state a.call
  ofile := k.nextOfile a
  cwd := k.nextCwd a
  lost := k.lost ++ (k.failing s).map fun j => (k.sys.sched.proc j).pid
  notes j := k.notes j ++ k.nextNotes a s j

def Bare (k : Kern) (j : Nat) : Prop := (∀ fd, k.ofile j fd = none) ∧ k.cwd j = none

instance (k : Kern) (j : Nat) : Decidable (k.Bare j) := inferInstanceAs (Decidable (_ ∧ _))

def onCpu (k : Kern) (c : Nat) (f : Nat → Kern) : Except Stop Kern :=
  if c < k.sys.sched.ncpu then
    match k.sys.sched.cpu c with
    | some cur => .ok (f cur)
    | none => .error .disabled
  else .error .disabled

/-- exit has closed the files and put the directory before it takes the lock. -/
def admits (k : Kern) (a : Act) : Bool := a.allowed && (k.sys.exiter a).all fun cur => decide (k.Bare cur)

def step (k : Kern) : KernAct → Except Stop Kern
  | .sys a =>
    if k.admits a then
      match k.sys.step a with
      | .ok s => .ok (k.record a s)
      | .error e => .error e
    else .error .disabled
  | .openFile c fd file => k.onCpu c fun cur =>
    { k with ofile := Function.update k.ofile cur (Function.update (k.ofile cur) fd (some file)) }
  | .closeFile c fd => k.onCpu c fun cur =>
    { k with ofile := Function.update k.ofile cur (Function.update (k.ofile cur) fd none) }
  | .chdir c ip => k.onCpu c fun cur => { k with cwd := Function.update k.cwd cur (some ip) }
  | .iput c => k.onCpu c fun cur => { k with cwd := Function.update k.cwd cur none }

def Init (k : Kern) : Prop :=
  k.sys.Init ∧ (∀ j, k.call j = none) ∧ (∀ j, k.Bare j) ∧ k.lost = [] ∧ ∀ j, k.notes j = []

def zeroed (sys : Sys) : Kern := ⟨sys, fun _ => none, fun _ _ => none, fun _ => none, [], fun _ => []⟩

theorem zeroed_init {sys : Sys} (first : sys.Init) : (zeroed sys).Init :=
  ⟨first, fun _ => rfl, fun _ => ⟨fun _ => rfl, rfl⟩, rfl, fun _ => rfl⟩

variable {k k' : Kern}

/-- An action on files is by a running process and touches nothing else. -/
structure Filed (k k' : Kern) : Prop where
  sys : k'.sys = k.sys
  call : k'.call = k.call
  lost : k'.lost = k.lost
  notes : k'.notes = k.notes
  files : ∃ c cur, c < k.sys.sched.ncpu ∧ k.sys.sched.cpu c = some cur ∧
    ∀ j, j ≠ cur → k'.ofile j = k.ofile j ∧ k'.cwd j = k.cwd j

theorem onCpu_filed {c : Nat} {f : Nat → Kern} (h : k.onCpu c f = .ok k')
    (kept : ∀ cur, (f cur).sys = k.sys ∧ (f cur).call = k.call ∧ (f cur).lost = k.lost ∧ (f cur).notes = k.notes ∧
      ∀ j, j ≠ cur → (f cur).ofile j = k.ofile j ∧ (f cur).cwd j = k.cwd j) : Filed k k' := by
  unfold onCpu at h
  split at h
  · rename_i hc
    split at h
    · rename_i cur on
      cases h
      obtain ⟨sys, call, lost, notes, files⟩ := kept cur
      exact ⟨sys, call, lost, notes, c, cur, hc, on, files⟩
    · cases h
  · cases h

theorem step_ok {b : KernAct} (h : k.step b = .ok k') :
    (∃ a s, b = .sys a ∧ k.admits a ∧ k.sys.step a = .ok s ∧ k' = k.record a s) ∨ Filed k k' := by
  cases b with
  | sys a =>
    left
    simp only [step] at h
    split at h
    · rename_i admitted
      split at h
      · rename_i s done
        cases h
        exact ⟨a, s, rfl, admitted, done, rfl⟩
      · cases h
    · cases h
  | openFile c fd file => exact Or.inr (onCpu_filed h fun cur => ⟨rfl, rfl, rfl, rfl, fun j ne => by simp [ne]⟩)
  | closeFile c fd => exact Or.inr (onCpu_filed h fun cur => ⟨rfl, rfl, rfl, rfl, fun j ne => by simp [ne]⟩)
  | chdir c ip => exact Or.inr (onCpu_filed h fun cur => ⟨rfl, rfl, rfl, rfl, fun j ne => by simp [ne]⟩)
  | iput c => exact Or.inr (onCpu_filed h fun cur => ⟨rfl, rfl, rfl, rfl, fun j ne => by simp [ne]⟩)

end Kern

theorem FamilyInv.next {s s' : Sys} (inv : FamilyInv s) {a : Act} (h : s.step a = .ok s') : FamilyInv s' := by
  have move : Move (fun _ => True) s s' := Sys.step_move inv.pcs.sched h fun _ _ _ _ => trivial
  exact inv.step move

/-- Where a creator stands after the step: it has not moved, it has just been given the
    slot, it has filled in the slot, or it has linked it. -/
inductive Came (s : Sys) (a : Act) (p np : Nat) : Pc → Prop where
  | same : Came s a p np (s.pc p)
  | fork (free : (s.sched.proc np).state = .unused) (none : a.stack = none) : Came s a p np (.forkAlloced np)
  | clone (stack : Nat) (free : (s.sched.proc np).state = .unused) (some : a.stack = some stack) :
      Came s a p np (.cloneAlloced np stack)
  | fill (pc : Pc) (at' : s.pc p = .forkAlloced np ∧ pc = .forkStacked np ∨
        s.pc p = .forkStacked np ∧ pc = .forkCowed np ∨
        ∃ stack, s.pc p = .cloneAlloced np stack ∧ pc = .cloneStacked np stack ∨
          s.pc p = .cloneStacked np stack ∧ pc = .cloneShared np stack) : Came s a p np pc
  | linked (pc : Pc) (at' : pc = .forkLinked np ∨ pc = .cloneLinked np) : Came s a p np pc

theorem Sys.step_came {s s' : Sys} {a : Act} (h : s.step a = .ok s') {p np : Nat}
    (making : (s'.pc p).making = some np) : Came s a p np (s'.pc p) := by
  have effect := step_effect h
  generalize s'.sched = sched at effect
  generalize s'.pc = pc at effect making ⊢
  have quiet : pc p = s.pc p ∨ (pc p).making = none → Came s a p np (pc p) := by
    rintro (same | none)
    · rw [same]
      exact .same
    · rw [none] at making
      cases making
  -- the pc of one process cur changes to next, which builds np'
  have update : ∀ {cur np' : Nat} {next : Pc}, pc = Function.update s.pc cur next → next.making = some np' →
      Came s a cur np' next → Came s a p np (pc p) := by
    intro cur np' next shape builds came
    rw [shape] at making ⊢
    by_cases here : p = cur
    · subst here
      rw [Function.update_self] at making ⊢
      rw [builds] at making
      obtain rfl := Option.some.inj making
      exact came
    · rw [Function.update_of_ne here]
      exact .same
  cases effect with
  | nothing _ _ _ still => exact quiet (still p)
  | own _ _ _ _ _ _ _ _ _ still => exact quiet (still p)
  | alloc _ cur i _ next _ _ alloc new =>
    obtain ⟨-, free, -⟩ := Sched.allocproc_some alloc
    rcases new with ⟨rfl, none⟩ | ⟨stack, rfl, some⟩
    · exact update rfl rfl (.fork free none)
    · exact update rfl rfl (.clone stack free some)
  | release _ cur => exact quiet (quiet_setPc s cur rfl p)
  | fill _ cur i _ _ next _ at' => exact update rfl (Pc.making_fill at').2 (.fill next at')
  | link _ _ cur i _ _ next _ _ _ at' =>
    refine update rfl (Pc.making_link at').2 (.linked next ?_)
    rcases at' with ⟨-, rfl, -⟩ | ⟨-, rfl, -⟩
    · exact Or.inl rfl
    · exact Or.inr rfl
  | launch _ cur i =>
    apply quiet
    by_cases here : p = cur
    · subst here
      exact Or.inr (by simp [Pc.making])
    · rw [Function.update_of_ne here]
      exact quiet_setPc s i rfl p
  | _ => exact .same

end Xv6
