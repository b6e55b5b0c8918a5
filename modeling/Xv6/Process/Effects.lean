import Xv6.Sched.Fields
import Xv6.Process.Creation

/-!
What one action does to the process table, with the action named where a later
argument asks which system call was made. `Move` says less: it forgets which function
of the scheduler ran.
-/
namespace Xv6

/-- The CPU of a scan by wait, or with `true` by join. -/
def Act.scans : Act → Option (Nat × Bool)
  | .waitScan c => some (c, false)
  | .joinScan c => some (c, true)
  | _ => none

def Act.plain : Act → Bool
  | .timer _ | .waitScan _ | .joinScan _ => false
  | _ => true

def Act.stack : Act → Option Nat
  | .cloneAlloc _ stack => some stack
  | _ => none

/-- The CPU on which fork or clone fails and gives its slot back. -/
def Act.givesUp : Act → Option Nat
  | .forkStack c none | .cloneStack c none | .forkCow c none => some c
  | _ => none

/-- The slot np before fork or clone has linked it to its parent. -/
def Pc.unlinked : Pc → Option Nat
  | .forkAlloced np | .forkStacked np | .forkCowed np => some np
  | .cloneAlloced np _ | .cloneStacked np _ | .cloneShared np _ => some np
  | _ => none

theorem Pc.making_of_unlinked {pc : Pc} {np : Nat} (h : pc.unlinked = some np) : pc.making = some np := by
  cases pc <;> simp_all [Pc.unlinked, Pc.making]

/-- The slot of a creator that has not yet asked for a kernel stack. -/
def Pc.fresh : Pc → Option Nat
  | .forkAlloced np | .cloneAlloced np _ => some np
  | _ => none

inductive Effect (s : Sys) : Act → Sched → (Nat → Pc) → Prop where
  | nothing (a : Act) (pc : Nat → Pc) (plain : a.plain = true)
      (quiet : ∀ p, pc p = s.pc p ∨ (pc p).making = none) : Effect s a s.sched pc
  | wakeup (chan : Chan) : Effect s (.wakeup chan) (s.sched.wakeup1 (some chan)) s.pc
  | futexWake (pa : Nat) (n : Int) : Effect s (.futexWake pa n) (s.sched.futexWake pa n).2 s.pc
  | kill (pid : Int) : Effect s (.kill pid) (s.sched.kill pid).2 s.pc
  | tick (now : Nat) : Effect s (.tick now) (s.sched.schedulerTick now) s.pc
  | dispatch (c : Nat) (sched : Sched) (hc : c < s.sched.ncpu) (idle : s.sched.cpu c = none)
      (done : s.sched.scheduler c = .ok sched) : Effect s (.dispatch c) sched s.pc
  | yield (c cur : Nat) (hc : c < s.sched.ncpu) (on : s.sched.cpu c = some cur) :
      Effect s (.yield c) (s.sched.yield c cur) s.pc
  | timer (c cur : Nat) (hc : c < s.sched.ncpu) (on : s.sched.cpu c = some cur) :
      Effect s (.timer c) (s.sched.timer c cur) s.pc
  | setpriority (c cur : Nat) (prio : Int) (hc : c < s.sched.ncpu) (on : s.sched.cpu c = some cur) :
      Effect s (.setpriority c prio) (s.sched.setpriority cur prio).2 s.pc
  | sleep (c cur : Nat) (chan : Chan) (hc : c < s.sched.ncpu) (on : s.sched.cpu c = some cur) :
      Effect s (.sleep c chan) (s.sched.sleep c cur chan) s.pc
  | futexWait (c cur pa : Nat) (hc : c < s.sched.ncpu) (on : s.sched.cpu c = some cur) :
      Effect s (.futexWait c pa) (s.sched.sleep c cur (.futex pa)) s.pc
  | scan (a : Act) (c cur : Nat) (threads : Bool) (call : a.scans = some (c, threads))
      (hc : c < s.sched.ncpu) (on : s.sched.cpu c = some cur)
      (none : s.sched.zombieChild cur threads = none) : Effect s a s.sched s.pc
  | pause (a : Act) (c cur : Nat) (threads : Bool) (call : a.scans = some (c, threads))
      (hc : c < s.sched.ncpu) (on : s.sched.cpu c = some cur)
      (none : s.sched.zombieChild cur threads = none) (spared : (s.sched.proc cur).killed = false) :
      Effect s a (s.sched.sleep c cur (.proc cur)) s.pc
  | reap (a : Act) (c cur p : Nat) (threads : Bool) (call : a.scans = some (c, threads))
      (hc : c < s.sched.ncpu) (on : s.sched.cpu c = some cur)
      (found : s.sched.zombieChild cur threads = some p) : Effect s a (s.sched.reap p) s.pc
  | own (a : Act) (c cur sz pgdir : Nat) (pc : Nat → Pc) (plain : a.plain = true) (hc : c < s.sched.ncpu)
      (on : s.sched.cpu c = some cur) (quiet : ∀ p, pc p = s.pc p ∨ (pc p).making = none) :
      Effect s a (s.sched.modify cur fun p => { p with pgdir := pgdir, sz := sz }) pc
  | syncsize (c cur : Nat) (hc : c < s.sched.ncpu) (on : s.sched.cpu c = some cur) :
      Effect s (.syncsize c) (s.sched.syncsize cur) s.pc
  | userinitAlloc (kstack p : Nat) (sched : Sched) (boot : s.boot = .start)
      (alloc : s.sched.allocproc = (some p, sched)) : Effect s (.userinitAlloc kstack)
        { sched.modify p fun q => { q with kstack := kstack } with initproc := some p } s.pc
  | userinitRun (p d : Nat) (boot : s.boot = .alloced p) : Effect s (.userinitRun d)
        ((s.sched.modify p fun q => { q with pgdir := d, sz := PGSIZE }).setRunnable p) s.pc
  | alloc (a : Act) (cur np : Nat) (sched : Sched) (next : Pc) (plain : a.plain = true)
      (run : ∃ c < s.sched.ncpu, s.sched.cpu c = some cur) (alloc : s.sched.allocproc = (some np, sched))
      (new : next = .forkAlloced np ∧ a.stack = none ∨ ∃ stack, next = .cloneAlloced np stack ∧ a.stack = some stack) :
      Effect s a sched (Function.update s.pc cur next)
  | release (a : Act) (cur np d : Nat) (plain : a.plain = true) (at' : (s.pc cur).unlinked = some np)
      (pgdir : d = 0 ∨ d = (s.sched.proc np).pgdir ∧
        (s.pc cur = .forkAlloced np ∨ ∃ stack, s.pc cur = .cloneAlloced np stack))
      (c : Nat) (call : a.givesUp = some c) (on : s.sched.cpu c = some cur) :
      Effect s a (s.sched.modify np fun p => { p with pgdir := d, kstack := 0, state := .unused })
        (Function.update s.pc cur .user)
  | fill (a : Act) (cur np k d : Nat) (next : Pc) (plain : a.plain = true)
      (at' : s.pc cur = .forkAlloced np ∧ next = .forkStacked np ∨ s.pc cur = .forkStacked np ∧ next = .forkCowed np ∨
        ∃ stack, s.pc cur = .cloneAlloced np stack ∧ next = .cloneStacked np stack ∨
          s.pc cur = .cloneStacked np stack ∧ next = .cloneShared np stack)
      (dir : (s.pc cur).fresh = some np → d = (s.sched.proc np).pgdir) :
      Effect s a (s.sched.modify np fun p => { p with kstack := k, pgdir := d }) (Function.update s.pc cur next)
  | link (a : Act) (c cur np : Nat) (isthread : Bool) (ustack : Nat) (next : Pc) (plain : a.plain = true)
      (hc : c < s.sched.ncpu) (on : s.sched.cpu c = some cur)
      (at' : s.pc cur = .forkCowed np ∧ next = .forkLinked np ∧ isthread = false ∨
        s.pc cur = .cloneShared np ustack ∧ next = .cloneLinked np ∧ isthread = true) :
      Effect s a (s.sched.modify np fun p =>
        { p with sz := (s.sched.proc cur).sz, parent := some cur, isthread := isthread, ustack := ustack,
                 basePrio := (s.sched.proc cur).basePrio, prio := (s.sched.proc cur).basePrio })
        (Function.update s.pc cur next)
  | launch (a : Act) (cur np : Nat) (plain : a.plain = true)
      (at' : s.pc cur = .forkLinked np ∨ s.pc cur = .cloneLinked np) :
      Effect s a (s.sched.setRunnable np) (Function.update (Function.update s.pc np .user) cur .user)
  | exit (c cur : Nat) (hc : c < s.sched.ncpu) (on : s.sched.cpu c = some cur) (at' : s.pc cur = .user)
      (notInit : s.sched.initproc ≠ some cur) : Effect s (.exit c) (s.sched.exit c cur) s.pc

theorem Pc.making_fill {pc next : Pc} {np : Nat}
    (at' : pc = .forkAlloced np ∧ next = .forkStacked np ∨ pc = .forkStacked np ∧ next = .forkCowed np ∨
      ∃ stack, pc = .cloneAlloced np stack ∧ next = .cloneStacked np stack ∨
        pc = .cloneStacked np stack ∧ next = .cloneShared np stack) :
    pc.making = some np ∧ next.making = some np := by
  rcases at' with ⟨rfl, rfl⟩ | ⟨rfl, rfl⟩ | ⟨stack, ⟨rfl, rfl⟩ | ⟨rfl, rfl⟩⟩
  all_goals exact ⟨rfl, rfl⟩

theorem Pc.making_link {pc next : Pc} {np ustack : Nat} {isthread : Bool}
    (at' : pc = .forkCowed np ∧ next = .forkLinked np ∧ isthread = false ∨
      pc = .cloneShared np ustack ∧ next = .cloneLinked np ∧ isthread = true) :
    pc.making = some np ∧ next.making = some np := by
  rcases at' with ⟨rfl, rfl, -⟩ | ⟨rfl, rfl, -⟩
  all_goals exact ⟨rfl, rfl⟩

theorem Pc.making_launch {pc : Pc} {np : Nat} (at' : pc = .forkLinked np ∨ pc = .cloneLinked np) :
    pc.making = some np := by
  rcases at' with rfl | rfl
  all_goals rfl

namespace Sys
variable {s s' : Sys}

theorem dispatch_ok {c : Nat} (h : s.step (.dispatch c) = .ok s') :
    c < s.sched.ncpu ∧ s.sched.cpu c = none ∧ s.sched.scheduler c = .ok s'.sched := by
  simp only [step] at h
  split at h
  · rename_i free
    split at h
    · rename_i sched done
      cases h
      exact ⟨free.1, free.2, done⟩
    · cases h
  · cases h

theorem dispatch_pc {c : Nat} (h : s.step (.dispatch c) = .ok s') : s'.pc = s.pc := by
  simp only [step] at h
  split at h
  · split at h
    · cases h
      rfl
    · cases h
  · cases h

theorem tick_ok {now : Nat} (h : s.step (.tick now) = .ok s') : s'.sched = s.sched.schedulerTick now := by
  obtain rfl : s.withSched (s.sched.schedulerTick now) = s' := Except.ok.inj h
  rw [withSched_sched]

theorem quiet_setPc (s : Sys) (cur : Nat) {pc : Pc} (none : pc.making = none) (p : Nat) :
    Function.update s.pc cur pc p = s.pc p ∨ (Function.update s.pc cur pc p).making = .none := by
  by_cases here : p = cur
  · subst here
    exact Or.inr (by simpa using none)
  · exact Or.inl (by simp [here])

theorem claim_effect {a : Act} (plain : a.plain = true) {c cur : Nat} (hc : c < s.sched.ncpu)
    (on : s.sched.cpu c = some cur) (next : Nat → Pc)
    (new : ∀ np, next np = .forkAlloced np ∧ a.stack = none ∨
      ∃ stack, next np = .cloneAlloced np stack ∧ a.stack = some stack) :
    Effect s a (s.claim cur next).sched (s.claim cur next).pc := by
  unfold claim
  cases alloc : s.sched.allocproc with
  | mk found sched =>
    cases found with
    | none =>
      have same : sched = s.sched := by
        unfold Sched.allocproc at alloc
        split at alloc
        · cases alloc
          rfl
        · cases alloc
      rw [same]
      exact .nothing a _ plain (quiet_setPc s cur rfl)
    | some np => exact .alloc a cur np sched _ plain ⟨c, hc, on⟩ alloc (new np)

theorem giveStack_effect {a : Act} (plain : a.plain = true) {c cur np : Nat} (kstack : Option Nat) {next : Pc}
    (on : s.sched.cpu c = some cur) (call : kstack = none → a.givesUp = some c)
    (at' : s.pc cur = .forkAlloced np ∧ next = .forkStacked np ∨
      ∃ stack, s.pc cur = .cloneAlloced np stack ∧ next = .cloneStacked np stack) :
    Effect s a (s.giveStack cur np kstack next).sched (s.giveStack cur np kstack next).pc := by
  cases kstack with
  | none =>
    refine .release a cur np (s.sched.proc np).pgdir plain ?_ (Or.inr ⟨rfl, ?_⟩) c (call rfl) on
    · rcases at' with ⟨here, -⟩ | ⟨stack, here, -⟩
      all_goals
        rw [here]
        rfl
    · rcases at' with ⟨here, -⟩ | ⟨stack, here, -⟩
      · exact Or.inl here
      · exact Or.inr ⟨stack, here⟩
  | some k =>
    refine .fill a cur np k (s.sched.proc np).pgdir next plain ?_ fun _ => rfl
    rcases at' with both | ⟨stack, both⟩
    · exact Or.inl both
    · exact Or.inr (Or.inr ⟨stack, Or.inl both⟩)

theorem step_effect {a : Act} (h : s.step a = .ok s') : Effect s a s'.sched s'.pc := by
  cases a with
  | userinitAlloc kstack =>
    simp only [step] at h
    split at h
    · rename_i boot
      split at h
      · cases h
      · rename_i p sched alloc
        cases h
        exact .userinitAlloc kstack p sched boot alloc
    · cases h
  | userinitRun d =>
    simp only [step] at h
    split at h
    · rename_i p boot
      split at h
      · cases h
        exact .userinitRun p d boot
      · cases h
    · cases h
  | dispatch c =>
    obtain ⟨hc, idle, done⟩ := dispatch_ok h
    rw [dispatch_pc h]
    exact .dispatch c _ hc idle done
  | yield c =>
    obtain ⟨cur, hc, on, h⟩ := onCpu_ok h
    cases h
    exact .yield c cur hc on
  | timer c =>
    obtain ⟨cur, hc, on, h⟩ := onCpu_ok h
    cases h
    exact .timer c cur hc on
  | sleep c chan =>
    obtain ⟨cur, hc, on, h⟩ := onCpu_ok h
    cases h
    exact .sleep c cur chan hc on
  | wakeup chan =>
    obtain rfl : s.withSched (s.sched.wakeup1 (some chan)) = s' := Except.ok.inj h
    rw [withSched_sched, withSched_pc]
    exact .wakeup chan
  | kill pid =>
    obtain rfl : s.withSched (s.sched.kill pid).2 = s' := Except.ok.inj h
    rw [withSched_sched, withSched_pc]
    exact .kill pid
  | tick now =>
    obtain rfl : s.withSched (s.sched.schedulerTick now) = s' := Except.ok.inj h
    rw [withSched_sched, withSched_pc]
    exact .tick now
  | setpriority c prio =>
    obtain ⟨cur, hc, on, -, h⟩ := onAt_ok h
    cases h
    exact .setpriority c cur prio hc on
  | futexWait c pa =>
    obtain ⟨cur, hc, on, -, h⟩ := onAt_ok h
    cases h
    exact .futexWait c cur pa hc on
  | futexWake pa n =>
    obtain rfl : s.withSched (s.sched.futexWake pa n).2 = s' := Except.ok.inj h
    rw [withSched_sched, withSched_pc]
    exact .futexWake pa n
  | sbrk c sz =>
    obtain ⟨cur, hc, on, -, h⟩ := onAt_ok h
    cases h
    exact .own _ c cur sz (s.sched.proc cur).pgdir _ rfl hc on fun _ => Or.inl rfl
  | syncsize c =>
    obtain ⟨cur, hc, on, -, h⟩ := onAt_ok h
    obtain rfl : s.withSched (s.sched.syncsize cur) = s' := Except.ok.inj h
    rw [withSched_sched, withSched_pc]
    exact .syncsize c cur hc on
  | forkCheck c =>
    obtain ⟨cur, hc, on, at', h⟩ := onAt_ok h
    split at h
    · cases h
      exact .nothing _ _ rfl fun _ => Or.inl rfl
    · cases h
      exact .nothing _ _ rfl (quiet_setPc s cur rfl)
  | forkAlloc c =>
    obtain ⟨cur, hc, on, at', h⟩ := onAt_ok h
    cases h
    exact claim_effect rfl hc on _ fun np => Or.inl ⟨rfl, rfl⟩
  | forkStack c kstack =>
    obtain ⟨cur, hc, on, h⟩ := onCpu_ok h
    split at h
    · rename_i np at'
      cases h
      exact giveStack_effect rfl kstack on (fun none => by rw [none]; rfl) (Or.inl ⟨at', rfl⟩)
    · cases h
  | forkCow c pgdir =>
    obtain ⟨cur, hc, on, h⟩ := onCpu_ok h
    cases at' : s.pc cur with
    | forkStacked np =>
      rw [at'] at h
      cases pgdir with
      | none =>
        cases h
        exact .release _ cur np 0 rfl (by rw [at']; rfl) (Or.inl rfl) c rfl on
      | some d =>
        simp only at h
        split at h
        · cases h
          exact .fill _ cur np (s.sched.proc np).kstack d _ rfl (Or.inr (Or.inl ⟨at', rfl⟩)) (by simp [at', Pc.fresh])
        · cases h
    | _ =>
      rw [at'] at h
      cases h
  | forkLink c =>
    obtain ⟨cur, hc, on, h⟩ := onCpu_ok h
    split at h
    · rename_i np at'
      cases h
      exact .link _ c cur np false 0 _ rfl hc on (Or.inl ⟨at', rfl, rfl⟩)
    · cases h
  | forkRun c =>
    obtain ⟨cur, hc, on, h⟩ := onCpu_ok h
    split at h
    · rename_i np at'
      cases h
      exact .launch _ cur np rfl (Or.inl at')
    · cases h
  | cloneAlloc c stack =>
    obtain ⟨cur, hc, on, at', h⟩ := onAt_ok h
    split at h
    · cases h
      exact .nothing _ _ rfl fun _ => Or.inl rfl
    · split at h
      · cases h
        exact .nothing _ _ rfl fun _ => Or.inl rfl
      · cases h
        exact claim_effect rfl hc on _ fun np => Or.inr ⟨stack, rfl, rfl⟩
  | cloneStack c kstack =>
    obtain ⟨cur, hc, on, h⟩ := onCpu_ok h
    split at h
    · rename_i np stack at'
      cases h
      exact giveStack_effect rfl kstack on (fun none => by rw [none]; rfl) (Or.inr ⟨stack, at', rfl⟩)
    · cases h
  | cloneShare c =>
    obtain ⟨cur, hc, on, h⟩ := onCpu_ok h
    split at h
    · rename_i np stack at'
      cases h
      exact .fill _ cur np (s.sched.proc np).kstack (s.sched.proc cur).pgdir _ rfl
        (Or.inr (Or.inr ⟨stack, Or.inr ⟨at', rfl⟩⟩)) (by simp [at', Pc.fresh])
    · cases h
  | cloneLink c =>
    obtain ⟨cur, hc, on, h⟩ := onCpu_ok h
    split at h
    · rename_i np stack at'
      cases h
      exact .link _ c cur np true stack _ rfl hc on (Or.inr ⟨at', rfl, rfl⟩)
    · cases h
  | cloneRun c =>
    obtain ⟨cur, hc, on, h⟩ := onCpu_ok h
    split at h
    · rename_i np at'
      cases h
      exact .launch _ cur np rfl (Or.inr at')
    · cases h
  | execCheck c =>
    obtain ⟨cur, hc, on, at', h⟩ := onAt_ok h
    split at h
    · cases h
      exact .nothing _ _ rfl fun _ => Or.inl rfl
    · cases h
      exact .nothing _ _ rfl (quiet_setPc s cur rfl)
  | execLoad c pgdir =>
    obtain ⟨cur, hc, on, at', h⟩ := onAt_ok h
    split at h
    · cases h
      exact .nothing _ _ rfl (quiet_setPc s cur rfl)
    · split at h
      · cases h
        exact .nothing _ _ rfl (quiet_setPc s cur rfl)
      · cases h
  | execCommit c sz =>
    obtain ⟨cur, hc, on, h⟩ := onCpu_ok h
    split at h
    · rename_i d at'
      cases h
      exact .own _ c cur sz d _ rfl hc on (quiet_setPc s cur rfl)
    · cases h
  | execFree c =>
    obtain ⟨cur, hc, on, h⟩ := onCpu_ok h
    split at h
    · cases h
      exact .nothing _ _ rfl (quiet_setPc s cur rfl)
    · cases h
  | exit c =>
    obtain ⟨cur, hc, on, at', h⟩ := onAt_ok h
    split at h
    · cases h
    · rename_i notInit
      obtain rfl : s.withSched (s.sched.exit c cur) = s' := Except.ok.inj h
      rw [withSched_sched, withSched_pc]
      exact .exit c cur hc on at' notInit
  | waitScan c =>
    obtain ⟨cur, hc, on, at', h⟩ := onAt_ok h
    cases h
    unfold wait
    split
    · rename_i p found
      simp only
      split
      · exact .reap _ c cur p false rfl hc on found
      · exact .reap _ c cur p false rfl hc on found
    · rename_i none
      split
      · exact .scan _ c cur false rfl hc on none
      · rename_i both
        exact .pause _ c cur false rfl hc on none (by simpa using (not_or.mp both).2)
  | joinScan c =>
    obtain ⟨cur, hc, on, at', h⟩ := onAt_ok h
    cases h
    unfold join
    split
    · rename_i p found
      exact .reap _ c cur p true rfl hc on found
    · rename_i none
      split
      · exact .scan _ c cur true rfl hc on none
      · rename_i both
        exact .pause _ c cur true rfl hc on none (by simpa using (not_or.mp both).2)

end Sys
end Xv6
