import Xv6.Process.Effects
import Xv6.Process.QueueSafety

/-!
The quantum of a process. The timer takes one from the slice of the running process,
and only dispatch and setpriority fill it up. As long as no setpriority adds to the
slice, a process leaves its CPU after at most QUANTUM_BASE * NPRIO timer interrupts.
-/
namespace Xv6

/-- CPU c keeps its process p, and p keeps what is left of its slice. -/
structure Undisturbed (c p : Nat) (s s' : Sched) : Prop where
  ncpu : s'.ncpu = s.ncpu
  cpu : s'.cpu c = s.cpu c
  slice : (s'.proc p).slice = (s.proc p).slice

theorem slice_ageless : Ageless Proc.slice :=
  ⟨⟨⟨fun _ _ _ => rfl⟩, fun _ _ => rfl⟩, fun _ _ _ => rfl⟩

namespace Undisturbed
variable {c p : Nat} {s s' s'' : Sched}

theorem refl (c p : Nat) (s : Sched) : Undisturbed c p s s := ⟨rfl, rfl, rfl⟩

theorem trans (first : Undisturbed c p s s') (second : Undisturbed c p s' s'') : Undisturbed c p s s'' :=
  ⟨second.ncpu.trans first.ncpu, second.cpu.trans first.cpu, second.slice.trans first.slice⟩

theorem steady (steady : Steady s s') (same : Same Proc.slice s s') : Undisturbed c p s s' :=
  ⟨steady.ncpu, by rw [steady.cpu], same p⟩

theorem modify (c : Nat) (s : Sched) {i : Nat} (f : Proc → Proc) (other : p ≠ i) :
    Undisturbed c p s (s.modify i f) := ⟨rfl, rfl, by simp [other]⟩

theorem elsewhere {d : Nat} (ncpu : s'.ncpu = s.ncpu) (cpu : s'.cpu = Function.update s.cpu d none)
    (other : c ≠ d) (same : Same Proc.slice s s') : Undisturbed c p s s' := by
  refine ⟨ncpu, ?_, same p⟩
  rw [cpu]
  simp [other]

end Undisturbed

theorem CpuInv.left {s s' : Sched} (inv : CpuInv s) (after : CpuInv s') {c p : Nat} (hc : c < s.ncpu)
    (on : s.cpu c = some p) (ncpu : s'.ncpu = s.ncpu) (cpu : s'.cpu = Function.update s.cpu c none) :
    (s'.proc p).state ≠ .running := by
  intro run
  obtain ⟨d, hd, at'⟩ := after.running p (inv.on c hc p on).1 run
  rw [ncpu] at hd
  rw [cpu] at at'
  by_cases here : d = c
  · subst here
    simp at at'
  · simp only [here, ne_eq, not_false_eq_true, Function.update_of_ne] at at'
    exact here (inv.once d hd c hc p at' on)

theorem Sched.yield_cpu (s : Sched) (c i : Nat) :
    (s.yield c i).ncpu = s.ncpu ∧ (s.yield c i).cpu = Function.update s.cpu c none := by
  obtain ⟨cpu, ncpu, -⟩ := QueueInv.push_cpu (s.modify i fun p => { p with state := .runnable }) c i
  exact ⟨ncpu, by rw [Sched.yield, Sched.setCpu_cpu, cpu, Sched.modify_cpu]⟩

/-- What happens to the running process p of CPU c, as far as its quantum goes. -/
inductive Spends (c p : Nat) (s : Sys) : Act → Sched → Prop where
  | kept (a : Act) (sched : Sched) (other : a ≠ .timer c) (same : Undisturbed c p s.sched sched) :
      Spends c p s a sched
  | left (a : Act) (sched : Sched) (other : a ≠ .timer c) (gone : (sched.proc p).state ≠ .running) :
      Spends c p s a sched
  | timer : Spends c p s (.timer c) (s.sched.timer c p)
  | setpriority (prio : Int) (legal : 0 ≤ prio ∧ prio < NPRIO) :
      Spends c p s (.setpriority c prio) (s.sched.setpriority p prio).2

namespace Sys
variable {s s' : Sys} {c p : Nat}

theorem plain_timer {a : Act} (plain : a.plain = true) : a ≠ .timer c := by
  rintro rfl
  cases plain

theorem scans_timer {a : Act} {d : Nat} {threads : Bool} (call : a.scans = some (d, threads)) : a ≠ .timer c := by
  rintro rfl
  cases call

theorem spends_suspend (inv : PcInv s) (hc : c < s.sched.ncpu) (on : s.sched.cpu c = some p) {a : Act} {d : Nat}
    {sched : Sched} (other : a ≠ .timer c) (ok : SchedInv sched) (ncpu : sched.ncpu = s.sched.ncpu)
    (cpu : sched.cpu = Function.update s.sched.cpu d none) (same : Same Proc.slice s.sched sched) :
    Spends c p s a sched := by
  by_cases here : c = d
  · subst here
    exact .left a sched other (inv.sched.cpus.left ok.cpus hc on ncpu cpu)
  · exact .kept a sched other (.elsewhere ncpu cpu here same)

theorem running_ne (inv : PcInv s) (hc : c < s.sched.ncpu) (on : s.sched.cpu c = some p) {i : Nat}
    (idle : (s.sched.proc i).state ≠ .running) : p ≠ i := by
  rintro rfl
  exact idle (inv.sched.cpus.on c hc p on).2

theorem spends_alloc (inv : PcInv s) (hc : c < s.sched.ncpu) (on : s.sched.cpu c = some p) {np : Nat}
    {sched : Sched} (alloc : s.sched.allocproc = (some np, sched)) : Undisturbed c p s.sched sched := by
  obtain ⟨-, free, -⟩ := Sched.allocproc_some alloc
  have ne := running_ne inv hc on (i := np) (by rw [free]; decide)
  unfold Sched.allocproc at alloc
  split at alloc
  · cases alloc
  · cases alloc
    exact ⟨rfl, rfl, by simp [ne]⟩

theorem spends_launch {s : Sched} (ok : SchedInv s) (hc : c < s.ncpu) (on : s.cpu c = some p) {i : Nat}
    (hi : i < NPROC) (embryo : (s.proc i).state = .embryo) : Undisturbed c p s (s.setRunnable i) := by
  have ne : p ≠ i := by
    rintro rfl
    rw [(ok.cpus.on c hc p on).2] at embryo
    cases embryo
  obtain ⟨-, calm⟩ := ok.queues.setRunnable hi (by rw [embryo]; decide) ok.pos
  have ready := Undisturbed.modify c s (fun q => { q with state := .runnable }) ne
  exact ⟨calm.ncpu.trans ready.ncpu, by rw [calm.cpu]; rfl, slice_ageless.setRunnable s i p⟩

theorem step_spends (inv : PcInv s) (hc : c < s.sched.ncpu) (on : s.sched.cpu c = some p) {a : Act}
    (h : s.step a = .ok s') : Spends c p s a s'.sched := by
  have run := (inv.sched.cpus.on c hc p on).2
  have embryo : ∀ {cur np : Nat}, (s.pc cur).making = some np → p ≠ np := fun {cur np} at' =>
    running_ne inv hc on (by rw [(inv.making cur np at').2]; decide)
  have effect := step_effect h
  generalize s'.sched = sched at effect ⊢
  generalize s'.pc = pc at effect
  cases effect with
  | nothing _ _ plain => exact .kept _ _ (plain_timer plain) (.refl c p _)
  | wakeup chan =>
    exact .kept _ _ (by simp) (.steady (inv.sched.queues.wakeup1 _).2.toSteady (slice_ageless.wakeup1 _ _))
  | futexWake pa n =>
    have calm := (inv.sched.queues.futexWakeLoop pa n (List.range NPROC) (fun p hp => List.mem_range.mp hp) 0).2
    exact .kept _ _ (by simp) (.steady calm.toSteady (slice_ageless.futexWake _ _ _))
  | kill pid =>
    have calm := (inv.sched.queues.kill pid).2
    refine .kept _ _ (by simp) (.steady calm.toSteady ?_)
    rcases slice_ageless.kill s.sched pid with ⟨none, -⟩ | ⟨i, -, -, -, same⟩
    · rw [none]
      exact Same.refl _ _
    · exact (Same.modify s.sched rfl).trans same
  | tick now =>
    exact .kept _ _ (by simp)
      (.steady (inv.sched.queues.schedulerTick now).2.toSteady (slice_ageless.schedulerTick _ _))
  | dispatch d _ hd idle done =>
    have ne : c ≠ d := by
      rintro rfl
      rw [on] at idle
      cases idle
    refine .kept _ _ (by simp) ?_
    unfold Sched.scheduler at done
    rcases inv.sched.queues.pick hd with empty | ⟨i, s1, popped, queues, hi, before, ready, calm⟩
    · rw [empty] at done
      cases done
      exact .refl c p _
    · have same := slice_ageless.pickNext s.sched d
      rw [popped] at done same
      simp only [ready, ne_eq, not_true_eq_false, ↓reduceIte] at done
      cases done
      have off : p ≠ i := running_ne inv hc on (by rw [before]; decide)
      refine (Undisturbed.steady calm.toSteady same).trans ⟨rfl, ?_, ?_⟩
      · simp [ne]
      · simp [off]
  | yield d cur hd at' =>
    obtain ⟨ncpu, cpu⟩ := Sched.yield_cpu s.sched d cur
    exact spends_suspend inv hc on (by simp) (inv.sched.yield hd at') ncpu cpu (slice_ageless.yield _ _ _)
  | timer d cur hd at' =>
    by_cases here : d = c
    · subst here
      obtain rfl : p = cur := Option.some.inj (on.symm.trans at')
      exact .timer
    · have off : p ≠ cur := by
        rintro rfl
        exact here (inv.sched.cpus.once d hd c hc p at' on)
      have ticked := Undisturbed.modify c s.sched (fun q => { q with slice := q.slice - 1 }) off
      refine .kept _ _ (by simp [here]) ?_
      unfold Sched.timer
      simp only
      split
      · obtain ⟨ncpu, cpu⟩ :=
          Sched.yield_cpu (s.sched.modify cur fun q => { q with slice := q.slice - 1 }) d cur
        exact ticked.trans (.elsewhere ncpu cpu (Ne.symm here) (slice_ageless.yield _ _ _))
      · exact ticked
  | setpriority d cur prio hd at' =>
    by_cases legal : prio < 0 ∨ prio ≥ NPRIO
    · rw [Sched.setpriority, if_pos legal]
      exact .kept _ _ (by simp) (.refl c p _)
    · by_cases here : d = c
      · subst here
        obtain rfl : p = cur := Option.some.inj (on.symm.trans at')
        exact .setpriority prio (by omega)
      · have off : p ≠ cur := by
          rintro rfl
          exact here (inv.sched.cpus.once d hd c hc p at' on)
        have kept := Undisturbed.modify c s.sched (fun q =>
          { q with basePrio := prio.toNat, prio := prio.toNat, slice := quantumFor prio.toNat }) off
        rw [Sched.setpriority, if_neg legal]
        exact .kept _ _ (by simp) kept
  | sleep d cur chan hd at' =>
    exact spends_suspend inv hc on (by simp) (inv.sched.sleep hd at' chan) rfl rfl
      (slice_ageless.sleep (fun _ _ => rfl) _ _ _ _)
  | futexWait d cur pa hd at' =>
    exact spends_suspend inv hc on (by simp) (inv.sched.sleep hd at' _) rfl rfl
      (slice_ageless.sleep (fun _ _ => rfl) _ _ _ _)
  | scan _ d cur threads call => exact .kept _ _ (scans_timer call) (.refl c p _)
  | pause _ d cur threads call hd at' none spared =>
    exact spends_suspend inv hc on (scans_timer call) (inv.sched.sleep hd at' _) rfl rfl
      (slice_ageless.sleep (fun _ _ => rfl) _ _ _ _)
  | reap _ d cur i threads call hd at' found =>
    obtain ⟨-, -, dead, -⟩ := Sched.zombieChild_some found
    exact .kept _ _ (scans_timer call) (.modify c s.sched _ (running_ne inv hc on (by rw [dead]; decide)))
  | own _ d cur sz pgdir _ plain hd at' =>
    have slice : Same Proc.slice s.sched (s.sched.modify cur fun p => { p with sz := sz, pgdir := pgdir }) := Same.modify s.sched rfl
    exact .kept _ _ (plain_timer plain) ⟨rfl, rfl, slice p⟩
  | syncsize d cur hd at' =>
    exact .kept _ _ (by simp) (.steady (SchedInv.syncsize_steady inv.sched.queues cur).2
      (Blind.syncsize (fun _ _ => rfl) s.sched cur))
  | userinitAlloc kstack i sched boot alloc =>
    have first := spends_alloc inv hc on alloc
    obtain ⟨-, free, -⟩ := Sched.allocproc_some alloc
    have ne := running_ne inv hc on (i := i) (by rw [free]; decide)
    exact .kept _ _ (by simp) ⟨first.ncpu, first.cpu, by simpa [ne] using first.slice⟩
  | userinitRun i d boot =>
    obtain ⟨hi, embryo', -⟩ := inv.boot i boot
    have ne := running_ne inv hc on (i := i) (by rw [embryo']; decide)
    have stored := Undisturbed.modify c s.sched (fun q => { q with pgdir := d, sz := PGSIZE }) ne
    have ok := inv.sched.touch (i := i) (f := fun q => { q with pgdir := d, sz := PGSIZE }) rfl rfl rfl rfl rfl
    exact .kept _ _ (by simp) (stored.trans (spends_launch ok hc on hi (by simpa using embryo')))
  | alloc _ cur np sched next plain run alloc => exact .kept _ _ (plain_timer plain) (spends_alloc inv hc on alloc)
  | release _ cur np d plain at' =>
    exact .kept _ _ (plain_timer plain) (.modify c s.sched _ (embryo (Pc.making_of_unlinked at')))
  | fill _ cur np k d next plain at' =>
    exact .kept _ _ (plain_timer plain) (.modify c s.sched _ (embryo (Pc.making_fill at').1))
  | link _ d cur np isthread ustack next plain hd on' at' =>
    exact .kept _ _ (plain_timer plain) (.modify c s.sched _ (embryo (Pc.making_link at').1))
  | launch _ cur np plain at' =>
    obtain ⟨lt, built⟩ := inv.making cur np (Pc.making_launch at')
    exact .kept _ _ (plain_timer plain) (spends_launch inv.sched hc on lt built)
  | exit d cur hd at' user notInit =>
    obtain ⟨s2, -, steady, shape⟩ := SchedInv.exit_eq inv.sched.queues d cur
    refine spends_suspend (d := d) inv hc on (by simp) (inv.sched.exit hd at') ?_ ?_
      (slice_ageless.exit (fun _ _ => rfl) _ _ _)
    · rw [shape, Sched.setCpu_ncpu, Sched.modify_ncpu, steady.ncpu]
    · rw [shape, Sched.setCpu_cpu, Sched.modify_cpu, steady.cpu]

end Sys

def Act.ticks (c : Nat) : Act → Bool
  | .timer d => d == c
  | _ => false

/-- A setpriority that succeeds leaves its caller no more ticks than it had left. -/
def NoRefill (s : Sys) : Act → Prop
  | .setpriority c prio => ∀ cur, s.sched.cpu c = some cur → 0 ≤ prio → prio < NPRIO →
      quantumFor prio.toNat ≤ (s.sched.proc cur).slice
  | _ => True

/-- The interrupts taken so far and what is left of the slice make at most one quantum. -/
structure QuantumInv (c p : Nat) (as : List Act) (s : Sys) : Prop where
  pcs : PcInv s
  taken : as.countP (Act.ticks c) ≤ QUANTUM_BASE * NPRIO
  rest : (s.sched.proc p).state = .running → c < s.sched.ncpu ∧ s.sched.cpu c = some p ∧
    0 < (s.sched.proc p).slice ∧ as.countP (Act.ticks c) + (s.sched.proc p).slice ≤ QUANTUM_BASE * NPRIO

namespace QuantumInv
variable {c p : Nat} {as : List Act} {s s' : Sys}

theorem quantum_le (k : Nat) : quantumFor k ≤ QUANTUM_BASE * NPRIO := by
  unfold quantumFor QUANTUM_BASE NPRIO
  omega

theorem quantum_pos {k : Nat} (level : k < NPRIO) : 0 < quantumFor k := by
  unfold quantumFor QUANTUM_BASE
  omega

theorem ticks_other {a : Act} (other : a ≠ .timer c) (as : List Act) :
    (as ++ [a]).countP (Act.ticks c) = as.countP (Act.ticks c) := by
  have no : Act.ticks c a = false := by
    cases a with
    | timer d =>
      have ne : d ≠ c := by
        rintro rfl
        exact other rfl
      simpa [Act.ticks] using ne
    | _ => rfl
  simp [no]

theorem ticks_timer (c : Nat) (as : List Act) :
    (as ++ [Act.timer c]).countP (Act.ticks c) = as.countP (Act.ticks c) + 1 := by
  simp [Act.ticks]

/-- A process that survives a timer interrupt has one tick less and at least one left. -/
theorem timer_slice (inv : SchedInv s.sched) (hc : c < s.sched.ncpu) (on : s.sched.cpu c = some p)
    (run : ((s.sched.timer c p).proc p).state = .running) :
    (s.sched.timer c p).ncpu = s.sched.ncpu ∧ (s.sched.timer c p).cpu = s.sched.cpu ∧
      ((s.sched.timer c p).proc p).slice = (s.sched.proc p).slice - 1 ∧
      0 < ((s.sched.timer c p).proc p).slice := by
  have ticked := inv.touch (i := p) (f := fun q => { q with slice := q.slice - 1 }) rfl rfl rfl rfl rfl
  obtain ⟨ncpu, cpu⟩ := Sched.yield_cpu (s.sched.modify p fun q => { q with slice := q.slice - 1 }) c p
  have gone := ticked.cpus.left (ticked.yield hc on).cpus hc on ncpu cpu
  unfold Sched.timer at run ⊢
  simp only at run ⊢
  split at run
  · exact (gone run).elim
  · rename_i more
    rw [if_neg more]
    exact ⟨rfl, rfl, by simp, not_le.mp more⟩

theorem step (inv : QuantumInv c p as s) {a : Act} (run : (s.sched.proc p).state = .running)
    (thrifty : NoRefill s a) (h : s.step a = .ok s') : QuantumInv c p (as ++ [a]) s' := by
  obtain ⟨hc, on, pos, sum⟩ := inv.rest run
  have move : Move (fun _ => True) s s' := Sys.step_move inv.pcs.sched h fun _ _ _ _ => trivial
  have pcs : PcInv s' := inv.pcs.step move
  have effect := Sys.step_spends inv.pcs hc on h
  generalize after : s'.sched = sched at effect
  cases effect with
  | kept _ _ other same =>
    rw [← after] at same
    refine ⟨pcs, by rw [ticks_other other]; exact inv.taken, ?_⟩
    intro _
    rw [ticks_other other, same.ncpu, same.cpu, same.slice]
    exact ⟨hc, on, pos, sum⟩
  | left _ _ other gone =>
    rw [← after] at gone
    exact ⟨pcs, by rw [ticks_other other]; exact inv.taken, fun still => (gone still).elim⟩
  | timer =>
    refine ⟨pcs, by rw [ticks_timer]; omega, ?_⟩
    intro still
    rw [after] at still
    obtain ⟨ncpu, cpu, less, more⟩ := timer_slice inv.pcs.sched hc on still
    rw [ticks_timer, after, ncpu, cpu, less]
    exact ⟨hc, on, by omega, by push_cast; omega⟩
  | setpriority prio legal =>
    have other : Act.setpriority c prio ≠ .timer c := by simp
    refine ⟨pcs, by rw [ticks_other other]; exact inv.taken, ?_⟩
    intro _
    have less := thrifty p on legal.1 legal.2
    have slice : ((s.sched.setpriority p prio).2.proc p).slice = quantumFor prio.toNat := by
      rw [Sched.setpriority, if_neg (by omega)]
      simp
    have level := quantum_pos (k := prio.toNat) (by omega)
    rw [ticks_other other, after, slice, Sched.setpriority, if_neg (by omega)]
    exact ⟨hc, on, level, by omega⟩

theorem start (inv : PcInv s) (h : s.step (.dispatch c) = .ok s') (on : s'.sched.cpu c = some p) :
    QuantumInv c p [] s' := by
  have move : Move (fun _ => True) s s' := Sys.step_move inv.sched h fun _ _ _ _ => trivial
  have pcs : PcInv s' := inv.step move
  obtain ⟨hc, idle, done⟩ := Sys.dispatch_ok h
  refine ⟨pcs, by simp, ?_⟩
  intro _
  unfold Sched.scheduler at done
  rcases inv.sched.queues.pick hc with empty | ⟨i, s1, popped, queues, hi, before, ready, calm⟩
  · rw [empty] at done
    rw [← Except.ok.inj done, idle] at on
    cases on
  · rw [popped] at done
    simp only [ready, ne_eq, not_true_eq_false, ↓reduceIte] at done
    rw [← Except.ok.inj done] at on ⊢
    obtain rfl : i = p := by simpa using on
    have full := quantum_le (s1.proc i).basePrio
    have level := quantum_pos (queues.range i).2.2
    refine ⟨?_, on, ?_, ?_⟩
    · simpa [calm.ncpu] using hc
    · simpa using level
    · simpa using full

end QuantumInv

/-- In every run in which no setpriority adds to its caller's slice: from a dispatch of p
    on, while p stays RUNNING, its CPU takes at most QUANTUM_BASE * NPRIO timer
    interrupts, counting the one that makes p yield. -/
theorem quantum_bounded (s s₁ s₂ : Sys) (c p : Nat) (as : List Act) (reach : s.Reachable)
    (dispatched : s.step (.dispatch c) = .ok s₁) (on : s₁.sched.cpu c = some p)
    (stretch : Runs.Path Sys.step (fun s a => (s.sched.proc p).state = .running ∧ NoRefill s a) s₁ as s₂) :
    as.countP (Act.ticks c) ≤ QUANTUM_BASE * NPRIO := by
  have inv : QuantumInv c p as s₂ := stretch.carry (QuantumInv.start (PcInv.reachable reach) dispatched on)
    fun _ _ _ _ inv cond done => inv.step cond.1 cond.2 done
  exact inv.taken

/-- init forks and waits, so that CPU 0 is free for the child in slot 1. -/
def Sys.childReady : List Act := Sys.firstFork ++ [.waitScan 0]

def Sys.spendsOn (s : Sys) : Act → Bool
  | .setpriority _ _ => false
  | _ => (s.sched.proc 1).state == .running

theorem quantum_bounded_child :
    ∃ s s₁ s₂ : Sys, s.Reachable ∧ s.step (.dispatch 0) = .ok s₁ ∧ s₁.sched.cpu 0 = some 1 ∧
      Runs.Path Sys.step (fun s a => (s.sched.proc 1).state = .running ∧ NoRefill s a) s₁
        (List.replicate 4 (.timer 0)) s₂ ∧ (s₂.sched.proc 1).state = .runnable ∧
      (List.replicate 4 (Act.timer 0)).countP (Act.ticks 0) ≤ QUANTUM_BASE * NPRIO := by
  have first : (Sys.zeroed 2).Reachable := Runs.Reachable.start (Sys.zeroed_init (by decide) (by decide))
  have trace : ∃ s s₁ s₂ : Sys, Runs.run Sys.step (Sys.zeroed 2) Sys.childReady = .ok s ∧
      s.step (.dispatch 0) = .ok s₁ ∧ s₁.sched.cpu 0 = some 1 ∧
      Runs.walk Sys.step Sys.spendsOn s₁ (List.replicate 4 (.timer 0)) = some s₂ ∧
      (s₂.sched.proc 1).state = .runnable := ⟨_, _, _, rfl, rfl, rfl, rfl, rfl⟩
  obtain ⟨s, s₁, s₂, ready, dispatched, on, walked, left⟩ := trace
  have reach := first.run (fun _ _ _ => trivial) ready
  have stretch : Runs.Path Sys.step (fun s a => (s.sched.proc 1).state = .running ∧ NoRefill s a) s₁
      (List.replicate 4 (.timer 0)) s₂ := by
    refine Runs.Path.of_walk ?_ walked
    intro s a passed
    cases a with
    | setpriority c prio => cases passed
    | _ => exact ⟨by simpa [Sys.spendsOn] using passed, trivial⟩
  exact ⟨s, s₁, s₂, reach, dispatched, on, stretch, left,
    quantum_bounded s s₁ s₂ 0 1 _ reach dispatched on stretch⟩

/-- The child sets its own priority to what it is each time one tick is left. -/
def Sys.refills : List Act :=
  [.timer 0, .timer 0, .timer 0, .setpriority 0 2, .timer 0, .timer 0, .timer 0, .setpriority 0 2,
    .timer 0, .timer 0, .timer 0]

theorem quantum_refilled :
    ∃ s s₁ s₂ : Sys, s.Reachable ∧ s.step (.dispatch 0) = .ok s₁ ∧ s₁.sched.cpu 0 = some 1 ∧
      Runs.Path Sys.step (fun s _ => (s.sched.proc 1).state = .running) s₁ Sys.refills s₂ ∧
      (s₂.sched.proc 1).state = .running ∧
      QUANTUM_BASE * NPRIO < Sys.refills.countP (Act.ticks 0) := by
  have first : (Sys.zeroed 2).Reachable := Runs.Reachable.start (Sys.zeroed_init (by decide) (by decide))
  have trace : ∃ s s₁ s₂ : Sys, Runs.run Sys.step (Sys.zeroed 2) Sys.childReady = .ok s ∧
      s.step (.dispatch 0) = .ok s₁ ∧ s₁.sched.cpu 0 = some 1 ∧
      Runs.walk Sys.step (fun s _ => (s.sched.proc 1).state == .running) s₁ Sys.refills = some s₂ ∧
      (s₂.sched.proc 1).state = .running := ⟨_, _, _, rfl, rfl, rfl, rfl, rfl⟩
  obtain ⟨s, s₁, s₂, ready, dispatched, on, walked, still⟩ := trace
  exact ⟨s, s₁, s₂, first.run (fun _ _ _ => trivial) ready, dispatched, on,
    Runs.Path.of_walk (fun s a passed => by simpa using passed) walked, still, by decide⟩

end Xv6
