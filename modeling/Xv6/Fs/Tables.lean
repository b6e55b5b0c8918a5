import Xv6.Fs.Files

/-!
Descriptor tables and directories of threads. clone copies them, so threads of one
process agree as long as nobody who shares its page directory changes its own copy.
-/
namespace Xv6
namespace Fs
namespace Sys
variable {s s' : Sys} {a : Act}

/-- The process whose own table or directory the call may change. -/
def Act.changes : Act → Option Nat
  | .openFile i _ _ | .close i _ | .dup i _ | .pipe i _ | .chdir i _ => some i
  | _ => none

/-- What a call does to the processes and to the number of page directories. -/
inductive Procs (s : Sys) (a : Act) : (Nat → Option Task) → Nat → Prop where
  | same : Procs s a s.proc s.npgdirs
  | own (i : Nat) (t t' : Task) (mine : a.changes = some i) (was : s.proc i = some t) (same : t'.pgdir = t.pgdir) :
      Procs s a (Function.update s.proc i (some t')) s.npgdirs
  /-- a new page directory: fork or exec -/
  | fresh (i : Nat) (t : Task) (new : t.pgdir = s.npgdirs) :
      Procs s a (Function.update s.proc i (some t)) (s.npgdirs + 1)
  | clone (i j : Nat) (t : Task) (was : s.proc i = some t) : Procs s a (Function.update s.proc j (some t)) s.npgdirs
  | exit (i : Nat) (t t' : Task) (was : s.proc i = some t) (same : t'.pgdir = t.pgdir) (gone : t'.zombie = true) :
      Procs s a (Function.update s.proc i (some t')) s.npgdirs
  | reap (j : Nat) : Procs s a (Function.update s.proc j none) s.npgdirs

theorem caller_eq {i cwd : Nat} {t : Task} (is : s.caller i = some (t, cwd)) :
    s.proc i = some t ∧ t.zombie = false ∧ t.cwd = some cwd := by
  obtain ⟨u, was, rest⟩ := Option.bind_eq_some_iff.mp is
  split at rest
  · cases rest
  rename_i live
  obtain ⟨c, has, same⟩ := Option.map_eq_some_iff.mp rest
  cases same
  exact ⟨was, Bool.eq_false_iff.mpr live, has⟩

theorem Procs.quiet (proc : s'.proc = s.proc) (count : s'.npgdirs = s.npgdirs) : Procs s a s'.proc s'.npgdirs := by
  rw [proc, count]
  exact .same

section
variable {i cwd : Nat} {t : Task}

theorem Procs.store {s₁ : Sys} {t' : Task} (proc : s₁.proc = s.proc) (count : s₁.npgdirs = s.npgdirs)
    (mine : a.changes = some i) (was : s.proc i = some t) (same : t'.pgdir = t.pgdir) :
    Procs s a (s₁.setProc i (some t')).proc (s₁.setProc i (some t')).npgdirs := by
  change Procs s a (Function.update s₁.proc i (some t')) s₁.npgdirs
  rw [proc, count]
  exact .own i t t' mine was same

theorem sys_open_procs {path : List UInt8} {omode : Nat} (was : s.proc i = some t)
    (done : s.sys_open i t cwd path omode = .ok s') : Procs s (.openFile i path omode) s'.proc s'.npgdirs := by
  obtain ⟨⟨found, fs⟩, -, rest⟩ := Runs.bind_eq_ok done
  cases found with
  | none =>
    cases rest
    exact .same
  | some ip =>
    simp only at rest
    split at rest
    · obtain ⟨fs', -, rest⟩ := Runs.bind_eq_ok rest
      cases rest
      exact .same
    · rename_i f s₁ allocated
      have one := filealloc_proc allocated
      split at rest
      · obtain ⟨s₂, closed, rest⟩ := Runs.bind_eq_ok rest
        have two := fileclose_proc closed
        obtain ⟨fs', -, rest⟩ := Runs.bind_eq_ok rest
        cases rest
        exact .quiet (two.1.trans one.1) (two.2.trans one.2)
      · obtain ⟨fs', -, rest⟩ := Runs.bind_eq_ok rest
        cases rest
        exact .store one.1 one.2 rfl was rfl

theorem sys_close_procs {fd : Nat} (was : s.proc i = some t) (done : s.sys_close i t fd = .ok s') :
    Procs s (.close i fd) s'.proc s'.npgdirs := by
  unfold sys_close at done
  split at done
  · cases done
    exact .same
  · have closed := fileclose_proc done
    rw [closed.1, closed.2]
    exact .store rfl rfl rfl was rfl

theorem sys_dup_procs {fd : Nat} (was : s.proc i = some t) (done : s.sys_dup i t fd = .ok s') :
    Procs s (.dup i fd) s'.proc s'.npgdirs := by
  unfold sys_dup at done
  split at done
  · cases done
    exact .same
  split at done
  · cases done
    exact .same
  · have duped := filedup_proc done
    rw [duped.1, duped.2]
    exact .store rfl rfl rfl was rfl

theorem pipealloc_proc {memory : Bool} {r : Option (Nat × Nat)} (done : s.pipealloc memory = .ok (r, s')) :
    s'.proc = s.proc ∧ s'.npgdirs = s.npgdirs := by
  unfold pipealloc at done
  split at done
  · cases done
    exact ⟨rfl, rfl⟩
  rename_i f0 s₁ first
  have one := filealloc_proc first
  split at done
  · obtain ⟨s₂, closed, rest⟩ := Runs.bind_eq_ok done
    have two := fileclose_proc closed
    cases rest
    exact ⟨two.1.trans one.1, two.2.trans one.2⟩
  rename_i f1 s₂ second
  have two := filealloc_proc second
  split at done
  · cases done
    exact ⟨two.1.trans one.1, two.2.trans one.2⟩
  · obtain ⟨s₃, closed, rest⟩ := Runs.bind_eq_ok done
    have three := closeAll_proc closed
    cases rest
    exact ⟨three.1.trans (two.1.trans one.1), three.2.trans (two.2.trans one.2)⟩

theorem sys_pipe_procs {memory : Bool} (was : s.proc i = some t) (done : s.sys_pipe i t memory = .ok s') :
    Procs s (.pipe i memory) s'.proc s'.npgdirs := by
  obtain ⟨⟨found, s₁⟩, made, rest⟩ := Runs.bind_eq_ok done
  have one := pipealloc_proc made
  cases found with
  | none =>
    cases rest
    exact .quiet one.1 one.2
  | some ends =>
    obtain ⟨rf, wf⟩ := ends
    simp only at rest
    split at rest
    · have two := closeAll_proc rest
      exact .quiet (two.1.trans one.1) (two.2.trans one.2)
    split at rest
    · have two := closeAll_proc rest
      rw [two.1, two.2]
      exact .store one.1 one.2 rfl was rfl
    · cases rest
      exact .store one.1 one.2 rfl was rfl

theorem sys_chdir_procs {path : List UInt8} (was : s.proc i = some t) (done : s.sys_chdir i t cwd path = .ok s') :
    Procs s (.chdir i path) s'.proc s'.npgdirs := by
  obtain ⟨⟨found, fs⟩, -, rest⟩ := Runs.bind_eq_ok done
  cases found with
  | none =>
    cases rest
    exact .same
  | some ip =>
    obtain ⟨fs₁, -, rest⟩ := Runs.bind_eq_ok rest
    split at rest
    · obtain ⟨fs₂, -, rest⟩ := Runs.bind_eq_ok rest
      cases rest
      exact .same
    · obtain ⟨fs₂, -, rest⟩ := Runs.bind_eq_ok rest
      obtain ⟨fs₃, -, rest⟩ := Runs.bind_eq_ok rest
      cases rest
      exact .own i t _ rfl was rfl

theorem make_procs {path : List UInt8} {type : Itype} {major minor : Int}
    (done : s.make cwd path type major minor = .ok s') : Procs s a s'.proc s'.npgdirs := by
  obtain ⟨⟨found, fs⟩, -, rest⟩ := Runs.bind_eq_ok done
  cases found with
  | none =>
    cases rest
    exact .same
  | some ip =>
    obtain ⟨fs₁, -, rest⟩ := Runs.bind_eq_ok rest
    cases rest
    exact .same

theorem copy_procs {j pgdir : Nat} (done : s.copy j t cwd pgdir = .ok s') : s'.npgdirs = s.npgdirs ∧
    s'.proc = Function.update s.proc j (some { pgdir := pgdir, ofile := t.ofile, cwd := some cwd, zombie := false }) := by
  obtain ⟨s₁, duped, rest⟩ := Runs.bind_eq_ok done
  have one := dupAll_proc duped
  cases rest
  refine ⟨one.2, ?_⟩
  rw [← one.1]
  rfl

theorem exec_procs {path : List UInt8} {good : Bool} (done : s.exec i t cwd path good = .ok s') :
    Procs s a s'.proc s'.npgdirs := by
  unfold exec at done
  split at done
  · cases done
    exact .same
  obtain ⟨⟨found, fs⟩, -, rest⟩ := Runs.bind_eq_ok done
  cases found with
  | none =>
    cases rest
    exact .same
  | some ip =>
    obtain ⟨fs₁, -, rest⟩ := Runs.bind_eq_ok rest
    obtain ⟨fs₂, -, rest⟩ := Runs.bind_eq_ok rest
    split at rest
    · cases rest
      exact .fresh i _ rfl
    · cases rest
      exact .same

theorem exit_procs (was : s.proc i = some t) (done : s.exit i t cwd = .ok s') : Procs s a s'.proc s'.npgdirs := by
  unfold exit at done
  split at done
  · cases done
  obtain ⟨s₁, closed, rest⟩ := Runs.bind_eq_ok done
  have one := closeAll_proc closed
  obtain ⟨fs, -, rest⟩ := Runs.bind_eq_ok rest
  cases rest
  change Procs s a (Function.update s₁.proc i _) s₁.npgdirs
  rw [one.1, one.2]
  exact .exit i t _ was rfl rfl

end

theorem step_call {f : Task → Nat → Except Stop Sys} {i : Nat}
    (done : (match s.caller i with | some (t, cwd) => f t cwd | none => .ok s) = .ok s') :
    s' = s ∨ ∃ t cwd, s.proc i = some t ∧ t.zombie = false ∧ t.cwd = some cwd ∧ f t cwd = .ok s' := by
  split at done
  · rename_i t cwd is
    obtain ⟨was, live, dir⟩ := caller_eq is
    exact Or.inr ⟨t, cwd, was, live, dir, done⟩
  · cases done
    exact Or.inl rfl

theorem step_procs (done : s.step a = .ok s') : Procs s a s'.proc s'.npgdirs := by
  cases a with
  | openFile i path omode =>
    obtain rfl | ⟨t, cwd, was, -, -, done⟩ := step_call done
    · exact .same
    · exact sys_open_procs was done
  | close i fd =>
    obtain rfl | ⟨t, cwd, was, -, -, done⟩ := step_call done
    · exact .same
    · exact sys_close_procs was done
  | dup i fd =>
    obtain rfl | ⟨t, cwd, was, -, -, done⟩ := step_call done
    · exact .same
    · exact sys_dup_procs was done
  | pipe i memory =>
    obtain rfl | ⟨t, cwd, was, -, -, done⟩ := step_call done
    · exact .same
    · exact sys_pipe_procs was done
  | chdir i path =>
    obtain rfl | ⟨t, cwd, was, -, -, done⟩ := step_call done
    · exact .same
    · exact sys_chdir_procs was done
  | link i old new =>
    obtain rfl | ⟨t, cwd, -, -, -, done⟩ := step_call done
    · exact .same
    · obtain ⟨⟨_, fs⟩, -, rest⟩ := Runs.bind_eq_ok done
      cases rest
      exact .same
  | unlink i path =>
    obtain rfl | ⟨t, cwd, -, -, -, done⟩ := step_call done
    · exact .same
    · obtain ⟨⟨_, fs⟩, -, rest⟩ := Runs.bind_eq_ok done
      cases rest
      exact .same
  | mkdir i path =>
    obtain rfl | ⟨t, cwd, -, -, -, done⟩ := step_call done
    · exact .same
    · exact make_procs done
  | mknod i path major minor =>
    obtain rfl | ⟨t, cwd, -, -, -, done⟩ := step_call done
    · exact .same
    · exact make_procs done
  | fork i j =>
    obtain rfl | ⟨t, cwd, was, live, dir, done⟩ := step_call done
    · exact .same
    split at done
    · cases done
      exact .same
    · obtain ⟨count, proc⟩ := copy_procs done
      rw [count, proc]
      exact .fresh j _ rfl
  | clone i j =>
    obtain rfl | ⟨t, cwd, was, live, dir, done⟩ := step_call done
    · exact .same
    split at done
    · cases done
      exact .same
    · obtain ⟨count, proc⟩ := copy_procs done
      rw [count, proc, ← live, ← dir]
      exact .clone i j t was
  | exec i path good =>
    obtain rfl | ⟨t, cwd, -, -, -, done⟩ := step_call done
    · exact .same
    · exact exec_procs done
  | exit i =>
    obtain rfl | ⟨t, cwd, was, -, -, done⟩ := step_call done
    · exact .same
    · exact exit_procs was done
  | reap i j =>
    obtain rfl | ⟨t, cwd, -, -, -, done⟩ := step_call done
    · exact .same
    split at done
    · split at done
      · cases done
        exact .reap j
      · cases done
        exact .same
    · cases done
      exact .same

/-- Live processes with one page directory have the same files and the same directory. -/
def Agree (s : Sys) : Prop :=
  ∀ i j t u, s.proc i = some t → s.proc j = some u → t.zombie = false → u.zombie = false → t.pgdir = u.pgdir →
    (∀ fd, fd < NOFILE → t.ofile fd = u.ofile fd) ∧ t.cwd = u.cwd

/-- Nobody else uses the page directory of a process that changes its own table or directory. -/
def Alone (s : Sys) (a : Act) : Prop :=
  ∀ i, a.changes = some i → ∀ t, s.proc i = some t → ∀ j u, j ≠ i → s.proc j = some u → u.zombie = false →
    u.pgdir ≠ t.pgdir

structure Agreeing (s : Sys) : Prop where
  agree : s.Agree
  known : ∀ i t, s.proc i = some t → t.pgdir < s.npgdirs

theorem Agree.update {i : Nat} {t : Task} (agree : s.Agree) (proc : s'.proc = Function.update s.proc i (some t))
    (fits : t.zombie = false → ∀ j u, j ≠ i → s.proc j = some u → u.zombie = false → u.pgdir = t.pgdir →
      (∀ fd, fd < NOFILE → t.ofile fd = u.ofile fd) ∧ t.cwd = u.cwd) : s'.Agree := by
  intro j k u v one two liveU liveV same
  rw [proc, Function.update_apply] at one two
  split at one
  · cases one
    split at two
    · cases two
      exact ⟨fun _ _ => rfl, rfl⟩
    · rename_i ne
      exact fits liveU k v ne two liveV same.symm
  · rename_i ne
    split at two
    · cases two
      obtain ⟨files, dir⟩ := fits liveV j u ne one liveU same
      exact ⟨fun fd low => (files fd low).symm, dir.symm⟩
    · exact agree j k u v one two liveU liveV same

theorem Agreeing.next (inv : s.Agreeing) (alone : s.Alone a) (done : s.step a = .ok s') : s'.Agreeing := by
  have procs := step_procs done
  have known : ∀ i (t : Task), t.pgdir < s'.npgdirs → s'.proc = Function.update s.proc i (some t) →
      s.npgdirs ≤ s'.npgdirs → ∀ j u, s'.proc j = some u → u.pgdir < s'.npgdirs := by
    intro i t low proc more j u is
    rw [proc, Function.update_apply] at is
    split at is
    · cases is
      exact low
    · exact Nat.lt_of_lt_of_le (inv.known j u is) more
  generalize proc : s'.proc = p at procs
  generalize count : s'.npgdirs = n at procs
  cases procs with
  | same =>
    refine ⟨?_, fun i t is => ?_⟩
    · intro i j t u one two
      rw [proc] at one two
      exact inv.agree i j t u one two
    · rw [proc] at is
      rw [count]
      exact inv.known i t is
  | own i t t' mine was same =>
    refine ⟨inv.agree.update proc fun _ j u ne is live pgdir => ?_, known i t' ?_ proc (Nat.le_of_eq count.symm)⟩
    · exact (alone i mine t was j u ne is live (pgdir.trans same)).elim
    · rw [same, count]
      exact inv.known i t was
  | fresh i t new =>
    refine ⟨inv.agree.update proc fun _ j u _ is _ pgdir => ?_, known i t ?_ proc ?_⟩
    · have low := inv.known j u is
      rw [pgdir, new] at low
      exact (Nat.lt_irrefl _ low).elim
    · rw [new, count]
      exact Nat.lt_succ_self _
    · rw [count]
      exact Nat.le_succ _
  | clone i j t was =>
    refine ⟨inv.agree.update proc fun live k u _ is live' pgdir => ?_, known j t ?_ proc (Nat.le_of_eq count.symm)⟩
    · exact inv.agree i k t u was is live live' pgdir.symm
    · rw [count]
      exact inv.known i t was
  | exit i t t' was same gone =>
    refine ⟨inv.agree.update proc fun live => ?_, known i t' ?_ proc (Nat.le_of_eq count.symm)⟩
    · cases gone.symm.trans live
    · rw [same, count]
      exact inv.known i t was
  | reap j =>
    have old : ∀ i t, s'.proc i = some t → s.proc i = some t := by
      intro i t is
      rw [proc, Function.update_apply] at is
      split at is
      · cases is
      · exact is
    refine ⟨fun i k t u one two => inv.agree i k t u (old i t one) (old k u two), fun i t is => ?_⟩
    rw [count]
    exact inv.known i t (old i t is)

theorem Agreeing.start (first : Start s) : s.Agreeing := by
  obtain ⟨t, init, low, -⟩ := first.init
  have only : ∀ i u, s.proc i = some u → i = 0 ∧ u = t := by
    intro i u is
    by_cases zero : i = 0
    · subst zero
      cases init.symm.trans is
      exact ⟨rfl, rfl⟩
    · cases (first.procs i zero).symm.trans is
  refine ⟨fun i j u v one two _ _ _ => ?_, fun i u is => ?_⟩
  · rw [(only i u one).2, (only j v two).2]
    exact ⟨fun _ _ => rfl, rfl⟩
  · rw [(only i u is).2]
    exact low

def Reachable (cond : Sys → Act → Prop) (s : Sys) : Prop := Runs.Reachable Start step cond s

def booted : Sys where
  fs := ⟨fun _ => ⟨.free, 0, 0, 0⟩, fun _ => [], fun e => ⟨ROOTDEV, ROOTINO, if e = 0 then 1 else 0, false, false⟩⟩
  file := fun _ => ⟨.none, 0, false, false⟩
  pipe := fun _ => ⟨false, false, 0⟩
  npipes := 0
  proc := fun i => if i = 0 then some ⟨0, fun _ => none, some 0, false⟩ else none
  npgdirs := 1

theorem booted_start : Start booted := by
  refine ⟨⟨_, rfl, Nat.zero_lt_one, rfl, rfl, rfl⟩, fun i ne => if_neg ne, fun _ => ⟨rfl, rfl⟩, rfl, fun e ne => ?_, rfl⟩
  exact ⟨if_neg ne, rfl⟩

end Sys
end Fs
end Xv6
