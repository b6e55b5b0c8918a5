import Xv6.Fs.Inodes

/-!
Open files, file.c, and the system calls of sysfile.c with what fork, clone, exec, exit
and wait do to files. A call is one step. Calls whose arguments do not pass argfd or
argstr, and fork and clone without a free slot, change nothing and are left out; whether
kalloc and the rest of exec succeed is part of the action.
-/
namespace Xv6

def NFILE : Nat := 100

namespace Fs

inductive FdType where
  | none
  | pipe (p : Nat)
  | inode (e : Nat)
  deriving DecidableEq, Repr

structure File where
  type : FdType
  ref : Nat
  readable : Bool
  writable : Bool
  deriving DecidableEq, Repr

structure PipeEnds where
  readopen : Bool
  writeopen : Bool
  /-- how often the page was freed -/
  freed : Nat
  deriving DecidableEq, Repr

/-- A process that is neither unused nor being made. -/
structure Task where
  pgdir : Nat
  ofile : Nat → Option Nat
  /-- null in a zombie -/
  cwd : Option Nat
  zombie : Bool

structure Sys where
  fs : Inodes
  file : Nat → File
  pipe : Nat → PipeEnds
  npipes : Nat
  proc : Nat → Option Task
  /-- page directories made so far -/
  npgdirs : Nat

namespace Sys

def O_WRONLY : Nat := 0x001

def O_RDWR : Nat := 0x002

def O_CREATE : Nat := 0x200

inductive Act where
  | openFile (i : Nat) (path : List UInt8) (omode : Nat)
  | close (i fd : Nat)
  | dup (i fd : Nat)
  | pipe (i : Nat) (memory : Bool)
  | chdir (i : Nat) (path : List UInt8)
  | link (i : Nat) (old new : List UInt8)
  | unlink (i : Nat) (path : List UInt8)
  | mkdir (i : Nat) (path : List UInt8)
  | mknod (i : Nat) (path : List UInt8) (major minor : Int)
  | fork (i j : Nat)
  | clone (i j : Nat)
  | exec (i : Nat) (path : List UInt8) (good : Bool)
  | exit (i : Nat)
  /-- wait or join finds zombie j -/
  | reap (i j : Nat)
  deriving DecidableEq, Repr

def setFile (s : Sys) (f : Nat) (v : File) : Sys := { s with file := Function.update s.file f v }

def setProc (s : Sys) (i : Nat) (t : Option Task) : Sys := { s with proc := Function.update s.proc i t }

def filealloc (s : Sys) : Option (Nat × Sys) :=
  ((List.range NFILE).find? fun f => (s.file f).ref = 0).map fun f => (f, s.setFile f { s.file f with ref := 1 })

def filedup (s : Sys) (f : Nat) : Except Stop Sys :=
  if (s.file f).ref < 1 then .error .filedup
  else .ok (s.setFile f { s.file f with ref := (s.file f).ref + 1 })

def pipeclose (s : Sys) (p : Nat) (writable : Bool) : Sys :=
  let e := if writable then { s.pipe p with writeopen := false } else { s.pipe p with readopen := false }
  let e := if e.readopen = false ∧ e.writeopen = false then { e with freed := e.freed + 1 } else e
  { s with pipe := Function.update s.pipe p e }

def fileclose (s : Sys) (f : Nat) : Except Stop Sys :=
  let ff := s.file f
  if ff.ref < 1 then .error .fileclose
  else if ff.ref - 1 > 0 then .ok (s.setFile f { ff with ref := ff.ref - 1 })
  else
    let s := s.setFile f { ff with ref := 0, type := .none }
    match ff.type with
    | .none => .ok s
    | .pipe p => .ok (s.pipeclose p ff.writable)
    | .inode e => do
      let fs ← s.fs.iput e
      return { s with fs := fs }

def fdalloc (t : Task) : Option Nat := (List.range NOFILE).find? fun fd => (t.ofile fd).isNone

def setFd (t : Task) (fd : Nat) (f : Option Nat) : Task := { t with ofile := Function.update t.ofile fd f }

def caller (s : Sys) (i : Nat) : Option (Task × Nat) :=
  (s.proc i).bind fun t => if t.zombie then none else t.cwd.map fun cwd => (t, cwd)

def argfd (t : Task) (fd : Nat) : Option Nat := if fd < NOFILE then t.ofile fd else none

/-- sys_open up to the file: the inode, locked. -/
def openInode (fs : Inodes) (cwd : Nat) (path : List UInt8) (omode : Nat) : Except Stop (Option Nat × Inodes) :=
  if omode &&& O_CREATE ≠ 0 then fs.create cwd path .file 0 0
  else do
    match ← fs.namei cwd path with
    | (none, fs) => return (none, fs)
    | (some ip, fs) =>
      let fs ← fs.ilock ip
      if (fs.node ip).type = .dir ∧ omode ≠ 0 then
        let fs ← fs.iunlockput ip
        return (none, fs)
      else return (some ip, fs)

def sys_open (s : Sys) (i : Nat) (t : Task) (cwd : Nat) (path : List UInt8) (omode : Nat) : Except Stop Sys := do
  match ← openInode s.fs cwd path omode with
  | (none, fs) => return { s with fs := fs }
  | (some ip, fs) =>
    let s := { s with fs := fs }
    match s.filealloc with
    | none =>
      let fs ← s.fs.iunlockput ip
      return { s with fs := fs }
    | some (f, s) =>
      match fdalloc t with
      | none =>
        let s ← s.fileclose f
        let fs ← s.fs.iunlockput ip
        return { s with fs := fs }
      | some fd =>
        let fs ← s.fs.iunlock ip
        let readable := omode &&& O_WRONLY = 0
        let writable := omode &&& O_WRONLY ≠ 0 ∨ omode &&& O_RDWR ≠ 0
        return ({ s with fs := fs }.setFile f
          { s.file f with type := .inode ip, readable := readable, writable := writable }).setProc i
            (some (setFd t fd (some f)))

def sys_close (s : Sys) (i : Nat) (t : Task) (fd : Nat) : Except Stop Sys :=
  match argfd t fd with
  | none => .ok s
  | some f => (s.setProc i (some (setFd t fd none))).fileclose f

def sys_dup (s : Sys) (i : Nat) (t : Task) (fd : Nat) : Except Stop Sys :=
  match argfd t fd with
  | none => .ok s
  | some f =>
    match fdalloc t with
    | none => .ok s
    | some fd' => (s.setProc i (some (setFd t fd' (some f)))).filedup f

def closeAll : List Nat → Sys → Except Stop Sys
  | [], s => .ok s
  | f :: fs, s => do
    let s ← s.fileclose f
    closeAll fs s

/-- The read and the write end; memory says whether kalloc succeeds. -/
def pipealloc (s : Sys) (memory : Bool) : Except Stop (Option (Nat × Nat) × Sys) := do
  match s.filealloc with
  | none => return (none, s)
  | some (f0, s) =>
    match s.filealloc with
    | none =>
      let s ← s.fileclose f0
      return (none, s)
    | some (f1, s) =>
      if memory then
        let p := s.npipes
        let s := { s with npipes := p + 1, pipe := Function.update s.pipe p ⟨true, true, 0⟩ }
        let s := s.setFile f0 { s.file f0 with type := .pipe p, readable := true, writable := false }
        let s := s.setFile f1 { s.file f1 with type := .pipe p, readable := false, writable := true }
        return (some (f0, f1), s)
      else
        let s ← closeAll [f0, f1] s
        return (none, s)

def sys_pipe (s : Sys) (i : Nat) (t : Task) (memory : Bool) : Except Stop Sys := do
  match ← s.pipealloc memory with
  | (none, s) => return s
  | (some (rf, wf), s) =>
    match fdalloc t with
    | none => closeAll [rf, wf] s
    | some fd0 =>
      let t := setFd t fd0 (some rf)
      match fdalloc t with
      | none => closeAll [rf, wf] (s.setProc i (some (setFd t fd0 none)))
      | some fd1 => return s.setProc i (some (setFd t fd1 (some wf)))

def sys_chdir (s : Sys) (i : Nat) (t : Task) (cwd : Nat) (path : List UInt8) : Except Stop Sys := do
  match ← s.fs.namei cwd path with
  | (none, fs) => return { s with fs := fs }
  | (some ip, fs) =>
    let fs ← fs.ilock ip
    if (fs.node ip).type ≠ .dir then
      let fs ← fs.iunlockput ip
      return { s with fs := fs }
    else
      let fs ← fs.iunlock ip
      let fs ← fs.iput cwd
      return { s with fs := fs }.setProc i (some { t with cwd := some ip })

def make (s : Sys) (cwd : Nat) (path : List UInt8) (type : Itype) (major minor : Int) : Except Stop Sys := do
  match ← s.fs.create cwd path type major minor with
  | (none, fs) => return { s with fs := fs }
  | (some ip, fs) =>
    let fs ← fs.iunlockput ip
    return { s with fs := fs }

def shared (s : Sys) (i pgdir : Nat) : Bool :=
  (List.range NPROC).any fun j => j ≠ i && (s.proc j).any fun t => t.pgdir = pgdir

def dupAll : List Nat → Sys → Except Stop Sys
  | [], s => .ok s
  | f :: fs, s => do
    let s ← s.filedup f
    dupAll fs s

def files (t : Task) : List Nat := (List.range NOFILE).filterMap t.ofile

/-- The new process of fork or clone gets the files and the directory of its parent. -/
def copy (s : Sys) (j : Nat) (t : Task) (cwd pgdir : Nat) : Except Stop Sys := do
  let s ← dupAll (files t) s
  return { s with fs := s.fs.idup cwd }.setProc j
    (some { pgdir := pgdir, ofile := t.ofile, cwd := some cwd, zombie := false })

def exec (s : Sys) (i : Nat) (t : Task) (cwd : Nat) (path : List UInt8) (good : Bool) : Except Stop Sys := do
  if s.shared i t.pgdir then return s
  else
    match ← s.fs.namei cwd path with
    | (none, fs) => return { s with fs := fs }
    | (some ip, fs) =>
      let fs ← fs.ilock ip
      let fs ← fs.iunlockput ip
      let s := { s with fs := fs }
      if good then return { s with npgdirs := s.npgdirs + 1 }.setProc i (some { t with pgdir := s.npgdirs })
      else return s

def exit (s : Sys) (i : Nat) (t : Task) (cwd : Nat) : Except Stop Sys := do
  if i = 0 then throw .initExiting
  let s ← closeAll (files t) s
  let fs ← s.fs.iput cwd
  return { s with fs := fs }.setProc i (some { t with ofile := fun _ => none, cwd := none, zombie := true })

def step (s : Sys) (a : Act) : Except Stop Sys :=
  let call (i : Nat) (f : Task → Nat → Except Stop Sys) : Except Stop Sys :=
    match s.caller i with
    | some (t, cwd) => f t cwd
    | none => .ok s
  let namespace_ (r : Except Stop (Bool × Inodes)) : Except Stop Sys := do
    let (_, fs) ← r
    return { s with fs := fs }
  match a with
  | .openFile i path omode => call i fun t cwd => s.sys_open i t cwd path omode
  | .close i fd => call i fun t _ => s.sys_close i t fd
  | .dup i fd => call i fun t _ => s.sys_dup i t fd
  | .pipe i memory => call i fun t _ => s.sys_pipe i t memory
  | .chdir i path => call i fun t cwd => s.sys_chdir i t cwd path
  | .link i old new => call i fun _ cwd => namespace_ (s.fs.sys_link cwd old new)
  | .unlink i path => call i fun _ cwd => namespace_ (s.fs.sys_unlink cwd path)
  | .mkdir i path => call i fun _ cwd => s.make cwd path .dir 0 0
  | .mknod i path major minor => call i fun _ cwd => s.make cwd path .dev major minor
  | .fork i j => call i fun t cwd =>
    if s.shared i t.pgdir ∨ ¬ (j < NPROC ∧ (s.proc j).isNone) then .ok s
    else { s with npgdirs := s.npgdirs + 1 }.copy j t cwd s.npgdirs
  | .clone i j => call i fun t cwd =>
    if ¬ (j < NPROC ∧ (s.proc j).isNone) then .ok s else s.copy j t cwd t.pgdir
  | .exec i path good => call i fun t cwd => s.exec i t cwd path good
  | .exit i => call i fun t cwd => s.exit i t cwd
  | .reap i j => call i fun _ _ =>
    match s.proc j with
    | some t => if t.zombie then .ok (s.setProc j none) else .ok s
    | none => .ok s

section
variable {s s' : Sys}

theorem filealloc_proc {f : Nat} (done : s.filealloc = some (f, s')) : s'.proc = s.proc ∧ s'.npgdirs = s.npgdirs := by
  obtain ⟨g, -, same⟩ := Option.map_eq_some_iff.mp done
  cases same
  exact ⟨rfl, rfl⟩

theorem filedup_proc {f : Nat} (done : s.filedup f = .ok s') : s'.proc = s.proc ∧ s'.npgdirs = s.npgdirs := by
  unfold filedup at done
  split at done
  · cases done
  · cases done
    exact ⟨rfl, rfl⟩

theorem fileclose_proc {f : Nat} (done : s.fileclose f = .ok s') : s'.proc = s.proc ∧ s'.npgdirs = s.npgdirs := by
  simp only [fileclose] at done
  split at done
  · cases done
  split at done
  · cases done
    exact ⟨rfl, rfl⟩
  split at done
  · cases done
    exact ⟨rfl, rfl⟩
  · cases done
    exact ⟨rfl, rfl⟩
  · obtain ⟨fs, -, rest⟩ := Runs.bind_eq_ok done
    cases rest
    exact ⟨rfl, rfl⟩

theorem closeAll_proc {fs : List Nat} (done : closeAll fs s = .ok s') : s'.proc = s.proc ∧ s'.npgdirs = s.npgdirs := by
  induction fs generalizing s with
  | nil =>
    cases done
    exact ⟨rfl, rfl⟩
  | cons f fs ih =>
    obtain ⟨s₁, first, rest⟩ := Runs.bind_eq_ok done
    have one := fileclose_proc first
    have two := ih rest
    exact ⟨two.1.trans one.1, two.2.trans one.2⟩

theorem dupAll_proc {fs : List Nat} (done : dupAll fs s = .ok s') : s'.proc = s.proc ∧ s'.npgdirs = s.npgdirs := by
  induction fs generalizing s with
  | nil =>
    cases done
    exact ⟨rfl, rfl⟩
  | cons f fs ih =>
    obtain ⟨s₁, first, rest⟩ := Runs.bind_eq_ok done
    have one := filedup_proc first
    have two := ih rest
    exact ⟨two.1.trans one.1, two.2.trans one.2⟩

end

/-- The kernel after userinit: initproc has no files, and its directory is the root. -/
structure Start (s : Sys) : Prop where
  init : ∃ t, s.proc 0 = some t ∧ t.pgdir < s.npgdirs ∧ t.ofile = (fun _ => none) ∧ t.cwd = some 0 ∧ t.zombie = false
  procs : ∀ i, i ≠ 0 → s.proc i = none
  files : ∀ f, (s.file f).ref = 0 ∧ (s.file f).type = .none
  root : s.fs.icache 0 = ⟨ROOTDEV, ROOTINO, 1, false, false⟩
  icache : ∀ e, e ≠ 0 → (s.fs.icache e).ref = 0 ∧ (s.fs.icache e).locked = false
  pipes : s.npipes = 0

end Sys
end Fs
end Xv6
