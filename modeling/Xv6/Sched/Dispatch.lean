import Xv6.Sched.RunQueue

/-!
Every function of proc.c that touches the run queues keeps their invariant. Most of
them change nothing of a process but its place in the queues and, when it is woken,
its state: that is the relation `Calm`.
-/
namespace Xv6
open LinkedQueue

structure Core where
  sz : Nat
  pgdir : Nat
  kstack : Nat
  pid : Int
  parent : Option Nat
  isthread : Bool
  ustack : Nat

def Proc.core (p : Proc) : Core := ⟨p.sz, p.pgdir, p.kstack, p.pid, p.parent, p.isthread, p.ustack⟩

/-- The CPUs keep their processes, and states change by waking up only. -/
structure Steady (s s' : Sched) : Prop where
  ncpu : s'.ncpu = s.ncpu
  cpu : s'.cpu = s.cpu
  initproc : s'.initproc = s.initproc
  state : ∀ j, (s'.proc j).state = (s.proc j).state ∨
    (s.proc j).state = .sleeping ∧ (s'.proc j).state = .runnable

structure Calm (s s' : Sched) : Prop extends Steady s s' where
  core : ∀ j, (s'.proc j).core = (s.proc j).core

namespace Steady
variable {s s' s'' : Sched}

theorem refl (s : Sched) : Steady s s := ⟨rfl, rfl, rfl, fun _ => Or.inl rfl⟩

theorem trans (a : Steady s s') (b : Steady s' s'') : Steady s s'' := by
  refine ⟨b.ncpu.trans a.ncpu, b.cpu.trans a.cpu, b.initproc.trans a.initproc, ?_⟩
  intro j
  rcases b.state j with same | ⟨before, after⟩
  · rw [same]
    exact a.state j
  · rcases a.state j with same | ⟨-, after'⟩
    · exact Or.inr ⟨same ▸ before, after⟩
    · rw [after'] at before
      cases before

theorem state_eq (a : Steady s s') {j : Nat} {st : Procstate} (h : st ≠ .sleeping) (h' : st ≠ .runnable) :
    (s'.proc j).state = st ↔ (s.proc j).state = st := by
  rcases a.state j with same | ⟨before, after⟩
  · rw [same]
  · rw [before, after]
    exact ⟨fun eq => (h' eq.symm).elim, fun eq => (h eq.symm).elim⟩

end Steady

theorem Calm.refl (s : Sched) : Calm s s := ⟨Steady.refl s, fun _ => rfl⟩

theorem Calm.trans {s s' s'' : Sched} (a : Calm s s') (b : Calm s' s'') : Calm s s'' :=
  ⟨a.toSteady.trans b.toSteady, fun j => (b.core j).trans (a.core j)⟩

theorem Steady.modify (s : Sched) {i : Nat} {f : Proc → Proc}
    (state : (f (s.proc i)).state = (s.proc i).state ∨
      (s.proc i).state = .sleeping ∧ (f (s.proc i)).state = .runnable) : Steady s (s.modify i f) := by
  refine ⟨rfl, rfl, rfl, ?_⟩
  intro j
  by_cases here : j = i
  · subst here
    simpa using state
  · exact Or.inl (by simp [here])

theorem Calm.modify (s : Sched) {i : Nat} {f : Proc → Proc} (core : (f (s.proc i)).core = (s.proc i).core)
    (state : (f (s.proc i)).state = (s.proc i).state ∨
      (s.proc i).state = .sleeping ∧ (f (s.proc i)).state = .runnable) : Calm s (s.modify i f) := by
  refine ⟨Steady.modify s state, ?_⟩
  intro j
  by_cases here : j = i
  · subst here
    simpa using core
  · simp [here]

theorem Calm.push (s : Sched) (c i : Nat) (away : (s.runq c).tail (s.proc i).prio ≠ some i) :
    Calm s (s.rqPush c i) := by
  obtain ⟨cpu, ncpu, initproc⟩ := QueueInv.push_cpu s c i
  have fields : ∀ j, ((s.rqPush c i).proc j).core = (s.proc j).core ∧
      ((s.rqPush c i).proc j).state = (s.proc j).state := by
    intro j
    rw [QueueInv.push_proc s c i away j]
    split
    · exact ⟨rfl, rfl⟩
    · split
      · exact ⟨rfl, rfl⟩
      · exact ⟨rfl, rfl⟩
  exact ⟨⟨ncpu, cpu, initproc, fun j => Or.inl (fields j).2⟩, fun j => (fields j).1⟩

/-- The run queues are well formed except for the processes in out. -/
def RunqInv (s : Sched) (out : List Nat) : Prop := ∃ q, QueueInv s q out

namespace RunqInv
variable {s : Sched} {out : List Nat}

theorem range (inv : RunqInv s out) (i : Nat) :
    (s.proc i).rqcpu < s.ncpu ∧ (s.proc i).prio < NPRIO ∧ (s.proc i).basePrio < NPRIO := by
  obtain ⟨q, inv⟩ := inv
  exact inv.range i

theorem leave (inv : RunqInv s out) {i : Nat} (idle : (s.proc i).state ≠ .runnable) :
    RunqInv s (i :: out) := by
  obtain ⟨q, inv⟩ := inv
  exact ⟨q, inv.leave idle⟩

theorem enter {i : Nat} (inv : RunqInv s (i :: out)) (idle : (s.proc i).state ≠ .runnable) :
    RunqInv s out := by
  obtain ⟨q, inv⟩ := inv
  exact ⟨q, inv.enter idle⟩

theorem modify (inv : RunqInv s out) {i : Nat} (off : i ∈ out) {f : Proc → Proc}
    (range : (f (s.proc i)).rqcpu < s.ncpu ∧ (f (s.proc i)).prio < NPRIO ∧
      (f (s.proc i)).basePrio < NPRIO) : RunqInv (s.modify i f) out := by
  obtain ⟨q, inv⟩ := inv
  exact ⟨q, inv.modify off range⟩

theorem change (inv : RunqInv s out) {i : Nat} {f : Proc → Proc}
    (idle : (s.proc i).state ≠ .runnable) (still : (f (s.proc i)).state ≠ .runnable)
    (range : (f (s.proc i)).rqcpu < s.ncpu ∧ (f (s.proc i)).prio < NPRIO ∧
      (f (s.proc i)).basePrio < NPRIO) : RunqInv (s.modify i f) out := by
  obtain ⟨q, inv⟩ := inv
  exact ⟨q, inv.change idle still range⟩

theorem touch (inv : RunqInv s out) {i : Nat} {f : Proc → Proc}
    (state : (f (s.proc i)).state = (s.proc i).state) (prio : (f (s.proc i)).prio = (s.proc i).prio)
    (base : (f (s.proc i)).basePrio = (s.proc i).basePrio)
    (rqcpu : (f (s.proc i)).rqcpu = (s.proc i).rqcpu)
    (rqnext : (f (s.proc i)).rqnext = (s.proc i).rqnext) : RunqInv (s.modify i f) out := by
  obtain ⟨q, inv⟩ := inv
  exact ⟨q, inv.touch state prio base rqcpu rqnext⟩

theorem push {i c : Nat} (inv : RunqInv s (i :: out)) (hi : i < NPROC) (off : i ∉ out)
    (run : (s.proc i).state = .runnable) (hc : c < s.ncpu) :
    RunqInv (s.rqPush c i) out ∧ Calm s (s.rqPush c i) := by
  obtain ⟨q, inv⟩ := inv
  refine ⟨⟨_, inv.push hi off run hc⟩, Calm.push s c i ?_⟩
  have level := (inv.range i).2.1
  rw [(inv.queue c hc _ level).last]
  intro last
  exact (inv.member c hc _ level i (List.mem_of_getLast? last)).2.2.2.2 List.mem_cons_self

theorem enqueue {i c : Nat} (inv : RunqInv s out) (hi : i < NPROC) (off : i ∉ out)
    (idle : (s.proc i).state ≠ .runnable) {f : Proc → Proc}
    (run : (f (s.proc i)).state = .runnable)
    (range : (f (s.proc i)).rqcpu < s.ncpu ∧ (f (s.proc i)).prio < NPRIO ∧
      (f (s.proc i)).basePrio < NPRIO) (hc : c < s.ncpu) :
    RunqInv ((s.modify i f).rqPush c i) out ∧ Calm (s.modify i f) ((s.modify i f).rqPush c i) := by
  have ready := (inv.leave idle).modify (f := f) List.mem_cons_self range
  exact ready.push hi off (by simpa using run) hc

theorem pop {c : Nat} (inv : RunqInv s out) (hc : c < s.ncpu) :
    s.rqPop c = (none, s) ∨
    ∃ i s', s.rqPop c = (some i, s') ∧ RunqInv s' (i :: out) ∧ i < NPROC ∧ i ∉ out ∧
      (s.proc i).state = .runnable ∧ (s'.proc i).state = .runnable ∧ Calm s s' := by
  obtain ⟨q, inv⟩ := inv
  rcases inv.popFrom hc (List.range NPRIO) (fun k hk => List.mem_range.mp hk) with
    ⟨run, -⟩ | ⟨i, s', k, rest, run, ⟨above, below, order, -⟩, split, inv', lt, state, ncpu, cpu, initproc, other,
      self⟩
  · exact Or.inl run
  · have hk : k ∈ List.range NPRIO := by
      rw [order]
      exact List.mem_append_right above List.mem_cons_self
    have member := inv.member c hc k (List.mem_range.mp hk) i (by rw [split]; exact List.mem_cons_self)
    have fields : ∀ j, (s'.proc j).core = (s.proc j).core ∧ (s'.proc j).state = (s.proc j).state := by
      intro j
      by_cases here : j = i
      · subst here
        rw [self]
        exact ⟨rfl, rfl⟩
      · rw [other j here]
        exact ⟨rfl, rfl⟩
    exact Or.inr ⟨i, s', run, ⟨_, inv'⟩, lt, member.2.2.2.2, state, by rw [self]; exact state,
      ⟨ncpu, cpu, initproc, fun j => Or.inl (fields j).2⟩, fun j => (fields j).1⟩

theorem rouse {i : Nat} (inv : RunqInv s []) (hi : i < NPROC) (asleep : (s.proc i).state = .sleeping) :
    RunqInv (s.rouse i) [] ∧ Calm s (s.rouse i) := by
  have idle : (s.proc i).state ≠ .runnable := by
    rw [asleep]
    decide
  obtain ⟨keep, calm⟩ := inv.enqueue hi List.not_mem_nil idle
    (f := fun q => { q with state := .runnable }) rfl (inv.range i) (inv.range i).1
  have cpu : ((s.modify i fun q => { q with state := .runnable }).proc i).rqcpu = (s.proc i).rqcpu := by
    simp
  have shape : s.rouse i = (s.modify i fun q => { q with state := .runnable }).rqPush (s.proc i).rqcpu i := by
    simp only [Sched.rouse, cpu]
  rw [shape]
  exact ⟨keep, (Calm.modify s rfl (Or.inr ⟨asleep, rfl⟩)).trans calm⟩

theorem foldl {r : Sched → Sched → Prop} (refl : ∀ s, r s s)
    (trans : ∀ {a b c}, r a b → r b c → r a c) {f : Sched → Nat → Sched} {is : List Nat}
    (step : ∀ s, ∀ i ∈ is, RunqInv s [] → RunqInv (f s i) [] ∧ r s (f s i)) (inv : RunqInv s []) :
    RunqInv (is.foldl f s) [] ∧ r s (is.foldl f s) := by
  induction is generalizing s with
  | nil => exact ⟨inv, refl s⟩
  | cons i is ih =>
    obtain ⟨first, one⟩ := step s i List.mem_cons_self inv
    obtain ⟨rest, more⟩ := ih (fun s j hj => step s j (List.mem_cons_of_mem i hj)) first
    exact ⟨rest, trans one more⟩

theorem wakeup1 (inv : RunqInv s []) (chan : Option Chan) :
    RunqInv (s.wakeup1 chan) [] ∧ Calm s (s.wakeup1 chan) := by
  refine foldl Calm.refl Calm.trans ?_ inv
  intro s i hi inv
  unfold Sched.wakeupIn
  split
  · rename_i asleep
    exact inv.rouse (List.mem_range.mp hi) asleep.1
  · exact ⟨inv, Calm.refl s⟩

theorem futexWakeLoop (pa : Nat) (n : Int) (ps : List Nat) (slots : ∀ p ∈ ps, p < NPROC) (woken : Nat)
    (inv : RunqInv s []) : RunqInv (Sched.futexWakeLoop pa n ps woken s).2 [] ∧
      Calm s (Sched.futexWakeLoop pa n ps woken s).2 := by
  induction ps generalizing woken s with
  | nil => exact ⟨inv, Calm.refl s⟩
  | cons p ps ih =>
    have slots' := fun i hi => slots i (List.mem_cons_of_mem p hi)
    rw [Sched.futexWakeLoop]
    split
    · rename_i asleep
      obtain ⟨first, calm⟩ := inv.rouse (slots p List.mem_cons_self) asleep.1
      simp only
      split
      · exact ⟨first, calm⟩
      · obtain ⟨rest, calm'⟩ := ih slots' (woken + 1) first
        exact ⟨rest, calm.trans calm'⟩
    · exact ih slots' woken inv

theorem kill (inv : RunqInv s []) (pid : Int) : RunqInv (s.kill pid).2 [] ∧ Calm s (s.kill pid).2 := by
  unfold Sched.kill
  cases found : (List.range NPROC).find? fun i => (s.proc i).pid == pid with
  | none => exact ⟨inv, Calm.refl s⟩
  | some p =>
    have hp := List.mem_range.mp (List.mem_of_find?_eq_some found)
    have marked := inv.touch (i := p) (f := fun q => { q with killed := true }) rfl rfl rfl rfl rfl
    have calm := Calm.modify s (i := p) (f := fun q => { q with killed := true }) rfl (Or.inl rfl)
    simp only
    split
    · rename_i asleep
      obtain ⟨rest, calm'⟩ := marked.rouse hp asleep
      exact ⟨rest, calm.trans calm'⟩
    · exact ⟨marked, calm⟩

theorem drain {c : Nat} (n : Nat) (inv : RunqInv s out) (hc : c < s.ncpu) :
    ∃ pending s', Sched.rqDrain c n s = (pending, s') ∧ RunqInv s' (pending.reverse ++ out) ∧
      (∀ p ∈ pending, p < NPROC ∧ p ∉ out ∧ (s'.proc p).state = .runnable) ∧ pending.Nodup ∧ Calm s s' := by
  induction n generalizing s out with
  | zero => exact ⟨[], s, rfl, inv, fun p hp => (List.not_mem_nil hp).elim, List.nodup_nil, Calm.refl s⟩
  | succ n ih =>
    rw [Sched.rqDrain]
    rcases inv.pop hc with empty | ⟨i, s1, popped, inv1, lt, off, -, run, calm1⟩
    · rw [empty]
      exact ⟨[], s, rfl, inv, fun p hp => (List.not_mem_nil hp).elim, List.nodup_nil, Calm.refl s⟩
    · rw [popped]
      obtain ⟨rest, s', loop, inv', facts, nodup, calm'⟩ := ih inv1 (by rw [calm1.ncpu]; exact hc)
      refine ⟨i :: rest, s', by simp only [loop], ?_, ?_, ?_, calm1.trans calm'⟩
      · simpa using inv'
      · intro p hp
        rcases List.mem_cons.mp hp with rfl | hp
        · exact ⟨lt, off, (calm'.state p).elim (fun same => same.trans run) fun both => both.2⟩
        · obtain ⟨lt', off', run'⟩ := facts p hp
          exact ⟨lt', fun member => off' (List.mem_cons_of_mem i member), run'⟩
      · rw [List.nodup_cons]
        refine ⟨?_, nodup⟩
        intro member
        exact (facts i member).2.1 List.mem_cons_self

theorem congr {out' : List Nat} (inv : RunqInv s out) (same : ∀ i, i ∈ out' ↔ i ∈ out) :
    RunqInv s out' := by
  obtain ⟨q, inv⟩ := inv
  refine ⟨q, inv.queue, ?_, ?_, inv.count, inv.range⟩
  · intro c hc k hk i hi
    rw [same i]
    exact inv.member c hc k hk i hi
  · intro i hi run off
    rw [same i] at off
    exact inv.covers i hi run off

end RunqInv

theorem ageOne_fields (elapsed : Nat) (p : Proc) : (Sched.ageOne elapsed p).core = p.core ∧
    (Sched.ageOne elapsed p).state = p.state ∧ (Sched.ageOne elapsed p).prio ≤ p.prio ∧
    (Sched.ageOne elapsed p).basePrio = p.basePrio ∧ (Sched.ageOne elapsed p).rqcpu = p.rqcpu := by
  unfold Sched.ageOne
  simp only
  split
  · exact ⟨rfl, rfl, Nat.sub_le _ _, rfl, rfl⟩
  · exact ⟨rfl, rfl, Nat.le_refl _, rfl, rfl⟩

namespace RunqInv
variable {s : Sched} {out : List Nat}

theorem repush (elapsed : Nat) {c : Nat} (pending : List Nat) (nodup : pending.Nodup)
    (facts : ∀ p ∈ pending, p < NPROC ∧ (s.proc p).state = .runnable) (inv : RunqInv s pending)
    (hc : c < s.ncpu) :
    RunqInv (pending.foldl (fun s p => (s.modify p (Sched.ageOne elapsed)).rqPush c p) s) [] ∧
      Calm s (pending.foldl (fun s p => (s.modify p (Sched.ageOne elapsed)).rqPush c p) s) := by
  induction pending generalizing s with
  | nil => exact ⟨inv, Calm.refl s⟩
  | cons p rest ih =>
    rw [List.nodup_cons] at nodup
    obtain ⟨lt, run⟩ := facts p List.mem_cons_self
    obtain ⟨core, state, prio, base, rqcpu⟩ := ageOne_fields elapsed (s.proc p)
    have range := inv.range p
    have aged := inv.modify (f := Sched.ageOne elapsed) List.mem_cons_self
      ⟨by rw [rqcpu]; exact range.1, by omega, by rw [base]; exact range.2.2⟩
    have calm := Calm.modify s (i := p) (f := Sched.ageOne elapsed) core (Or.inl state)
    obtain ⟨pushed, calm'⟩ := aged.push lt nodup.1 (by simp [state, run]) (by simpa using hc)
    have both := calm.trans calm'
    obtain ⟨done, calm''⟩ := ih nodup.2 (fun i hi => by
      obtain ⟨lt', run'⟩ := facts i (List.mem_cons_of_mem p hi)
      exact ⟨lt', (both.state i).elim (fun same => same.trans run') fun woken => woken.2⟩) pushed
      (by rw [both.ncpu]; exact hc)
    exact ⟨done, both.trans calm''⟩

theorem ageCpu (elapsed : Nat) {c : Nat} (inv : RunqInv s []) (hc : c < s.ncpu) :
    RunqInv (Sched.rqAgeCpu elapsed s c) [] ∧ Calm s (Sched.rqAgeCpu elapsed s c) := by
  obtain ⟨pending, s', loop, inv', facts, nodup, calm⟩ := inv.drain NPROC hc
  unfold Sched.rqAgeCpu
  rw [loop]
  have held : RunqInv s' pending := inv'.congr fun i => by simp
  obtain ⟨done, calm'⟩ := held.repush elapsed pending nodup
    (fun p hp => ⟨(facts p hp).1, (facts p hp).2.2⟩) (by rw [calm.ncpu]; exact hc)
  exact ⟨done, calm.trans calm'⟩

theorem ageCpus (elapsed : Nat) (cs : List Nat) (inv : RunqInv s []) (cpus : ∀ c ∈ cs, c < s.ncpu) :
    RunqInv (cs.foldl (Sched.rqAgeCpu elapsed) s) [] ∧ Calm s (cs.foldl (Sched.rqAgeCpu elapsed) s) := by
  induction cs generalizing s with
  | nil => exact ⟨inv, Calm.refl s⟩
  | cons c cs ih =>
    obtain ⟨first, calm⟩ := inv.ageCpu elapsed (cpus c List.mem_cons_self)
    obtain ⟨rest, calm'⟩ := ih first fun c' hc' => by
      rw [calm.ncpu]
      exact cpus c' (List.mem_cons_of_mem c hc')
    exact ⟨rest, calm.trans calm'⟩

theorem schedulerTick (inv : RunqInv s []) (now : Nat) :
    RunqInv (s.schedulerTick now) [] ∧ Calm s (s.schedulerTick now) := by
  unfold Sched.schedulerTick
  simp only
  split
  · exact ⟨inv, Calm.refl s⟩
  · have stamped : RunqInv { s with lastAged := now } [] := by
      obtain ⟨q, inv⟩ := inv
      exact ⟨q, inv.queue, inv.member, inv.covers, inv.count, inv.range⟩
    have calm : Calm s { s with lastAged := now } := ⟨⟨rfl, rfl, rfl, fun _ => Or.inl rfl⟩, fun _ => rfl⟩
    obtain ⟨done, calm'⟩ := stamped.ageCpus ((now + 4294967296 - s.lastAged) % 4294967296)
      (List.range s.ncpu) (fun c hc => List.mem_range.mp hc)
    exact ⟨done, calm.trans calm'⟩

end RunqInv

theorem scanCpus_mem (better : Nat → Int → Bool) (load : Nat → Int) (is : List Nat) (best : Option Nat)
    (bestn : Int) (i : Nat) (found : Sched.scanCpus better load is best bestn = some i) :
    i ∈ is ∨ best = some i := by
  induction is generalizing best bestn with
  | nil => exact Or.inr found
  | cons j is ih =>
    rw [Sched.scanCpus] at found
    split at found
    · rcases ih _ _ found with member | same
      · exact Or.inl (List.mem_cons_of_mem j member)
      · cases same
        exact Or.inl List.mem_cons_self
    · rcases ih _ _ found with member | same
      · exact Or.inl (List.mem_cons_of_mem j member)
      · exact Or.inr same

theorem leastLoadedCpu_lt (s : Sched) (pos : 0 < s.ncpu) : s.leastLoadedCpu < s.ncpu := by
  unfold Sched.leastLoadedCpu
  cases found : Sched.scanCpus (fun i bestn => decide ((s.runq i).nready < bestn))
      (fun i => (s.runq i).nready) (List.range' 1 (s.ncpu - 1)) (some 0) (s.runq 0).nready with
  | none => exact pos
  | some i =>
    rcases scanCpus_mem _ _ _ _ _ i found with member | same
    · rw [List.mem_range'_1] at member
      simp only [Option.getD_some]
      omega
    · cases same
      exact pos

namespace RunqInv
variable {s : Sched}

theorem setRunnable {i : Nat} (inv : RunqInv s []) (hi : i < NPROC)
    (idle : (s.proc i).state ≠ .runnable) (pos : 0 < s.ncpu) : RunqInv (s.setRunnable i) [] ∧
      Calm (s.modify i fun q => { q with state := .runnable }) (s.setRunnable i) := by
  have cpu : (s.modify i fun q => { q with state := .runnable }).leastLoadedCpu < s.ncpu :=
    leastLoadedCpu_lt _ pos
  exact inv.enqueue hi List.not_mem_nil idle (f := fun q => { q with state := .runnable }) rfl
    (inv.range i) cpu

theorem pick {id : Nat} (inv : RunqInv s []) (hid : id < s.ncpu) :
    s.pickNext id = (none, s) ∨
    ∃ i s', s.pickNext id = (some i, s') ∧ RunqInv s' [i] ∧ i < NPROC ∧
      (s.proc i).state = .runnable ∧ (s'.proc i).state = .runnable ∧ Calm s s' := by
  unfold Sched.pickNext
  rcases inv.pop hid with empty | ⟨i, s', popped, inv', lt, -, run, run', calm⟩
  · rw [empty]
    simp only
    unfold Sched.rqSteal
    cases found : Sched.scanCpus (fun i bestn => decide (i ≠ id) && decide ((s.runq i).nready > bestn))
        (fun i => (s.runq i).nready) (List.range s.ncpu) none 1 with
    | none => exact Or.inl rfl
    | some best =>
      have hbest : best < s.ncpu := by
        rcases scanCpus_mem _ _ _ _ _ best found with member | same
        · exact List.mem_range.mp member
        · cases same
      rcases inv.pop hbest with none | ⟨i, s', popped, inv', lt, -, run, run', calm⟩
      · exact Or.inl none
      · exact Or.inr ⟨i, s', popped, inv', lt, run, run', calm⟩
  · rw [popped]
    exact Or.inr ⟨i, s', rfl, inv', lt, run, run', calm⟩

end RunqInv

/-- A process is RUNNING exactly when it is the process of one CPU. -/
structure CpuInv (s : Sched) : Prop where
  running : ∀ i < NPROC, (s.proc i).state = .running → ∃ c < s.ncpu, s.cpu c = some i
  on : ∀ c < s.ncpu, ∀ i, s.cpu c = some i → i < NPROC ∧ (s.proc i).state = .running
  once : ∀ c < s.ncpu, ∀ c' < s.ncpu, ∀ i, s.cpu c = some i → s.cpu c' = some i → c = c'

namespace CpuInv
variable {s s' : Sched}

theorem steady (inv : CpuInv s) (k : Steady s s') : CpuInv s' := by
  have state : ∀ j, (s'.proc j).state = .running ↔ (s.proc j).state = .running :=
    fun j => k.state_eq (by decide) (by decide)
  constructor
  · intro i hi run
    rw [k.ncpu, k.cpu]
    exact inv.running i hi ((state i).mp run)
  · intro c hc i on
    rw [k.ncpu] at hc
    rw [k.cpu] at on
    exact ⟨(inv.on c hc i on).1, (state i).mpr (inv.on c hc i on).2⟩
  · rw [k.ncpu, k.cpu]
    exact inv.once

theorem modify (inv : CpuInv s) {i : Nat} {f : Proc → Proc}
    (same : (f (s.proc i)).state = .running ↔ (s.proc i).state = .running) : CpuInv (s.modify i f) := by
  have state : ∀ j, ((s.modify i f).proc j).state = .running ↔ (s.proc j).state = .running := by
    intro j
    by_cases here : j = i
    · subst here
      simpa using same
    · simp [here]
  refine ⟨fun j hj run => inv.running j hj ((state j).mp run), ?_, inv.once⟩
  intro c hc j on
  exact ⟨(inv.on c hc j on).1, (state j).mpr (inv.on c hc j on).2⟩

theorem stop (inv : CpuInv s) {c i : Nat} (hc : c < s.ncpu) (on : s.cpu c = some i) (ncpu : s'.ncpu = s.ncpu)
    (cpu : s'.cpu = Function.update s.cpu c none)
    (state : ∀ j, (s'.proc j).state = .running ↔ (s.proc j).state = .running ∧ j ≠ i) : CpuInv s' := by
  have still : ∀ d < s.ncpu, ∀ j, s'.cpu d = some j → d ≠ c ∧ s.cpu d = some j := by
    intro d _ j on'
    rw [cpu] at on'
    by_cases here : d = c
    · subst here
      simp at on'
    · simp only [here, ne_eq, not_false_eq_true, Function.update_of_ne] at on'
      exact ⟨here, on'⟩
  constructor
  · intro j hj run
    obtain ⟨was, ne⟩ := (state j).mp run
    obtain ⟨d, hd, at'⟩ := inv.running j hj was
    refine ⟨d, by rw [ncpu]; exact hd, ?_⟩
    have other : d ≠ c := by
      rintro rfl
      rw [on] at at'
      exact ne (Option.some.inj at').symm
    rw [cpu]
    simpa [other] using at'
  · intro d hd j on'
    rw [ncpu] at hd
    obtain ⟨ne, at'⟩ := still d hd j on'
    obtain ⟨lt, run⟩ := inv.on d hd j at'
    refine ⟨lt, (state j).mpr ⟨run, ?_⟩⟩
    rintro rfl
    exact ne (inv.once d hd c hc j at' on)
  · intro d hd d' hd' j on' on''
    rw [ncpu] at hd hd'
    exact inv.once d hd d' hd' j (still d hd j on').2 (still d' hd' j on'').2

theorem start (inv : CpuInv s) {c i : Nat} (hc : c < s.ncpu) (idle : s.cpu c = none) (hi : i < NPROC)
    (not : (s.proc i).state ≠ .running) (ncpu : s'.ncpu = s.ncpu)
    (cpu : s'.cpu = Function.update s.cpu c (some i))
    (state : ∀ j, (s'.proc j).state = .running ↔ (s.proc j).state = .running ∨ j = i) : CpuInv s' := by
  have here : s'.cpu c = some i := by simp [cpu]
  have other : ∀ d, d ≠ c → s'.cpu d = s.cpu d := fun d ne => by simp [cpu, ne]
  have away : ∀ d < s.ncpu, s.cpu d ≠ some i := fun d hd on => not (inv.on d hd i on).2
  constructor
  · intro j hj run
    rcases (state j).mp run with was | rfl
    · obtain ⟨d, hd, on⟩ := inv.running j hj was
      refine ⟨d, by rw [ncpu]; exact hd, ?_⟩
      rw [other d ?_]
      · exact on
      · rintro rfl
        rw [idle] at on
        cases on
    · exact ⟨c, by rw [ncpu]; exact hc, here⟩
  · intro d hd j on
    rw [ncpu] at hd
    by_cases same : d = c
    · subst same
      rw [here] at on
      cases on
      exact ⟨hi, (state i).mpr (Or.inr rfl)⟩
    · rw [other d same] at on
      exact ⟨(inv.on d hd j on).1, (state j).mpr (Or.inl (inv.on d hd j on).2)⟩
  · intro d hd d' hd' j on on'
    rw [ncpu] at hd hd'
    by_cases same : d = c
    · by_cases same' : d' = c
      · rw [same, same']
      · rw [same, here] at on
        rw [other d' same'] at on'
        cases on
        exact (away d' hd' on').elim
    · rw [other d same] at on
      by_cases same' : d' = c
      · rw [same', here] at on'
        cases on'
        exact (away d hd on).elim
      · rw [other d' same'] at on'
        exact inv.once d hd d' hd' j on on'

end CpuInv

structure SchedInv (s : Sched) : Prop where
  pos : 0 < s.ncpu
  queues : RunqInv s []
  cpus : CpuInv s

namespace SchedInv
variable {s s' : Sched}

theorem steady (inv : SchedInv s) (queues : RunqInv s' []) (k : Steady s s') : SchedInv s' :=
  ⟨by rw [k.ncpu]; exact inv.pos, queues, inv.cpus.steady k⟩

theorem wakeup1 (inv : SchedInv s) (chan : Option Chan) : SchedInv (s.wakeup1 chan) := by
  obtain ⟨queues, calm⟩ := inv.queues.wakeup1 chan
  exact inv.steady queues calm.toSteady

theorem futexWake (inv : SchedInv s) (pa : Nat) (n : Int) : SchedInv (s.futexWake pa n).2 := by
  obtain ⟨queues, calm⟩ := inv.queues.futexWakeLoop pa n (List.range NPROC)
    (fun p hp => List.mem_range.mp hp) 0
  exact inv.steady queues calm.toSteady

theorem kill (inv : SchedInv s) (pid : Int) : SchedInv (s.kill pid).2 := by
  obtain ⟨queues, calm⟩ := inv.queues.kill pid
  exact inv.steady queues calm.toSteady

theorem schedulerTick (inv : SchedInv s) (now : Nat) : SchedInv (s.schedulerTick now) := by
  obtain ⟨queues, calm⟩ := inv.queues.schedulerTick now
  exact inv.steady queues calm.toSteady

theorem touch (inv : SchedInv s) {i : Nat} {f : Proc → Proc}
    (state : (f (s.proc i)).state = (s.proc i).state) (prio : (f (s.proc i)).prio = (s.proc i).prio)
    (base : (f (s.proc i)).basePrio = (s.proc i).basePrio)
    (rqcpu : (f (s.proc i)).rqcpu = (s.proc i).rqcpu)
    (rqnext : (f (s.proc i)).rqnext = (s.proc i).rqnext) : SchedInv (s.modify i f) :=
  inv.steady (inv.queues.touch state prio base rqcpu rqnext) (Steady.modify s (Or.inl state))

theorem change (inv : SchedInv s) {i : Nat} {f : Proc → Proc} (idle : (s.proc i).state ≠ .runnable)
    (still : (f (s.proc i)).state ≠ .runnable)
    (same : (f (s.proc i)).state = .running ↔ (s.proc i).state = .running)
    (range : (f (s.proc i)).rqcpu < s.ncpu ∧ (f (s.proc i)).prio < NPRIO ∧
      (f (s.proc i)).basePrio < NPRIO) : SchedInv (s.modify i f) :=
  ⟨inv.pos, inv.queues.change idle still range, inv.cpus.modify same⟩

theorem syncsize_steady (queues : RunqInv s []) (cur : Nat) :
    RunqInv (s.syncsize cur) [] ∧ Steady s (s.syncsize cur) := by
  refine RunqInv.foldl Steady.refl Steady.trans ?_ queues
  intro s i _ queues
  unfold Sched.syncsizeIn
  split
  · exact ⟨queues.touch rfl rfl rfl rfl rfl, Steady.modify s (Or.inl rfl)⟩
  · exact ⟨queues, Steady.refl s⟩

theorem syncsize (inv : SchedInv s) (cur : Nat) : SchedInv (s.syncsize cur) := by
  obtain ⟨queues, steady⟩ := syncsize_steady inv.queues cur
  exact inv.steady queues steady

theorem allocproc (inv : SchedInv s) :
    s.allocproc = (none, s) ∨
    ∃ i s', s.allocproc = (some i, s') ∧ SchedInv s' ∧ i < NPROC ∧ (s.proc i).state = .unused := by
  unfold Sched.allocproc
  cases found : (List.range NPROC).find? fun i => (s.proc i).state == .unused with
  | none => exact Or.inl rfl
  | some i =>
    have hi := List.mem_range.mp (List.mem_of_find?_eq_some found)
    have free : (s.proc i).state = .unused := by
      have := List.find?_some found
      simpa using this
    refine Or.inr ⟨i, _, rfl, ?_, hi, free⟩
    have changed := inv.change (i := i) (f := fun p =>
        { p with state := .embryo, pid := s.nextpid, pgdir := 0, isthread := false, ustack := 0,
                 basePrio := NPRIO / 2, prio := NPRIO / 2, slice := quantumFor ( NPRIO / 2), waited := 0,
                 rqcpu := 0, rqnext := none })
      (by simp [free]) (by simp) (by simp [free]) ⟨inv.pos, show NPRIO / 2 < NPRIO by decide, show NPRIO / 2 < NPRIO by decide⟩
    obtain ⟨pos, ⟨q, queue⟩, cpus⟩ := changed
    exact ⟨pos, ⟨q, queue.queue, queue.member, queue.covers, queue.count, queue.range⟩,
      ⟨cpus.running, cpus.on, cpus.once⟩⟩

theorem setRunnable (inv : SchedInv s) {i : Nat} (hi : i < NPROC) (embryo : (s.proc i).state = .embryo) :
    SchedInv (s.setRunnable i) := by
  obtain ⟨queues, calm⟩ := inv.queues.setRunnable hi (by rw [embryo]; decide) inv.pos
  have cpus : CpuInv (s.modify i fun q => { q with state := .runnable }) :=
    inv.cpus.modify (by simp [embryo])
  exact ⟨by rw [calm.ncpu]; exact inv.pos, queues, cpus.steady calm.toSteady⟩

theorem suspend (inv : SchedInv s) {c i : Nat} (hc : c < s.ncpu) (on : s.cpu c = some i)
    {f : Proc → Proc} (still : (f (s.proc i)).state ≠ .runnable) (stop : (f (s.proc i)).state ≠ .running)
    (range : (f (s.proc i)).rqcpu < s.ncpu ∧ (f (s.proc i)).prio < NPRIO ∧
      (f (s.proc i)).basePrio < NPRIO) : SchedInv ((s.modify i f).setCpu c none) := by
  have run := (inv.cpus.on c hc i on).2
  obtain ⟨q, queue⟩ := inv.queues.change (f := f) (by rw [run]; decide) still range
  refine ⟨inv.pos, ⟨q, queue.queue, queue.member, queue.covers, queue.count, queue.range⟩,
    inv.cpus.stop hc on rfl rfl ?_⟩
  intro j
  by_cases here : j = i
  · subst here
    simp [stop]
  · simp [here]

theorem sleep (inv : SchedInv s) {c i : Nat} (hc : c < s.ncpu) (on : s.cpu c = some i) (chan : Chan) :
    SchedInv (s.sleep c i chan) :=
  inv.suspend hc on (by simp) (by simp) (inv.queues.range i)

theorem reparent (cur : Nat) (queues : RunqInv s []) :
    RunqInv ((List.range NPROC).foldl (Sched.reparentIn cur) s) [] ∧
      Steady s ((List.range NPROC).foldl (Sched.reparentIn cur) s) := by
  refine RunqInv.foldl Steady.refl Steady.trans ?_ queues
  intro s i _ queues
  unfold Sched.reparentIn
  split
  · have moved := queues.touch (i := i) (f := fun q => { q with parent := s.initproc }) rfl rfl rfl rfl rfl
    have same := Steady.modify s (i := i) (f := fun q => { q with parent := s.initproc }) (Or.inl rfl)
    simp only
    split
    · obtain ⟨woken, calm⟩ := moved.wakeup1
        ((s.modify i fun q => { q with parent := s.initproc }).initproc.map Chan.proc)
      exact ⟨woken, same.trans calm.toSteady⟩
    · exact ⟨moved, same⟩
  · exact ⟨queues, Steady.refl s⟩

theorem exit_eq (queues : RunqInv s []) (c i : Nat) : ∃ s2, RunqInv s2 [] ∧ Steady s s2 ∧
    s.exit c i = (s2.modify i fun p => { p with state := .zombie }).setCpu c none := by
  simp only [Sched.exit]
  obtain ⟨woken, calm⟩ := queues.wakeup1 ((s.proc i).parent.map Chan.proc)
  generalize s.wakeup1 ((s.proc i).parent.map Chan.proc) = s1 at *
  obtain ⟨moved, steady⟩ := reparent i woken
  generalize (List.range NPROC).foldl (Sched.reparentIn i) s1 = s2 at *
  exact ⟨s2, moved, calm.toSteady.trans steady, rfl⟩

theorem exit (inv : SchedInv s) {c i : Nat} (hc : c < s.ncpu) (on : s.cpu c = some i) :
    SchedInv (s.exit c i) := by
  obtain ⟨s2, queues, same, shape⟩ := exit_eq inv.queues c i
  have inv' := inv.steady queues same
  rw [shape]
  refine inv'.suspend (f := fun p => { p with state := .zombie }) ?_ ?_ (by simp) (by simp)
    (inv'.queues.range i)
  · rw [same.ncpu]
    exact hc
  · rw [same.cpu]
    exact on

theorem yield (inv : SchedInv s) {c i : Nat} (hc : c < s.ncpu) (on : s.cpu c = some i) :
    SchedInv (s.yield c i) := by
  obtain ⟨hi, run⟩ := inv.cpus.on c hc i on
  obtain ⟨⟨q, queue⟩, calm⟩ := inv.queues.enqueue (f := fun p => { p with state := .runnable }) hi
    List.not_mem_nil (by rw [run]; decide) rfl (inv.queues.range i) hc
  refine ⟨by rw [Sched.yield, Sched.setCpu_ncpu, calm.ncpu]; exact inv.pos,
    ⟨q, queue.queue, queue.member, queue.covers, queue.count, queue.range⟩,
    inv.cpus.stop hc on calm.ncpu ?_ ?_⟩
  · rw [Sched.yield, Sched.setCpu_cpu, calm.cpu]
    rfl
  · intro j
    refine (calm.state_eq (by decide) (by decide)).trans ?_
    by_cases here : j = i
    · subst here
      simp
    · simp [here]

theorem timer (inv : SchedInv s) {c i : Nat} (hc : c < s.ncpu) (on : s.cpu c = some i) :
    SchedInv (s.timer c i) := by
  have ticked := inv.touch (i := i) (f := fun p => { p with slice := p.slice - 1 }) rfl rfl rfl rfl rfl
  unfold Sched.timer
  simp only
  split
  · exact ticked.yield hc on
  · exact ticked

theorem setpriority (inv : SchedInv s) {c i : Nat} (hc : c < s.ncpu) (on : s.cpu c = some i) (prio : Int) :
    SchedInv (s.setpriority i prio).2 := by
  unfold Sched.setpriority
  split
  · exact inv
  · rename_i legal
    have run := (inv.cpus.on c hc i on).2
    have level : prio.toNat < NPRIO := by
      simp only [ NPRIO] at *
      omega
    exact inv.change (f := fun p =>
        { p with basePrio := prio.toNat, prio := prio.toNat, slice := quantumFor prio.toNat })
      (by rw [run]; decide) (by simp [run]) (by simp) ⟨(inv.queues.range i).1, level, level⟩

theorem reap (inv : SchedInv s) {i : Nat} (dead : (s.proc i).state = .zombie) : SchedInv (s.reap i) :=
  inv.change (by rw [dead]; decide) (by simp) (by simp [dead]) (inv.queues.range i)

theorem scheduler (inv : SchedInv s) {id : Nat} (hid : id < s.ncpu) (idle : s.cpu id = none) :
    ∃ s', s.scheduler id = .ok s' ∧ SchedInv s' := by
  unfold Sched.scheduler
  rcases inv.queues.pick hid with empty | ⟨i, s1, popped, queues, hi, before, run, calm⟩
  · rw [empty]
    exact ⟨s, rfl, inv⟩
  · rw [popped]
    simp only [run, ne_eq, not_true_eq_false, ↓reduceIte]
    refine ⟨_, rfl, by simpa [calm.ncpu] using inv.pos, ?_, ?_⟩
    · have range := queues.range i
      have first := queues.modify (f := fun q =>
          { q with rqcpu := id, prio := q.basePrio, waited := 0, slice := quantumFor q.basePrio })
        List.mem_cons_self ⟨by rw [calm.ncpu]; exact hid, range.2.2, range.2.2⟩
      have second := first.modify (f := fun q => { q with state := .running, chan := none })
        List.mem_cons_self (first.range i)
      obtain ⟨q, queue⟩ := second.enter (by simp)
      exact ⟨q, queue.queue, queue.member, queue.covers, queue.count, queue.range⟩
    · have cpus := inv.cpus.steady calm.toSteady
      refine cpus.start (c := id) (i := i) (by rw [calm.ncpu]; exact hid)
        (by rw [calm.cpu]; exact idle) hi (by rw [run]; decide) rfl rfl ?_
      intro j
      by_cases here : j = i
      · subst here
        simp
      · simp [here]

end SchedInv
end Xv6
