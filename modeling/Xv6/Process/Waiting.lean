import Xv6.Sched.Aging
import Xv6.Process.Quantum

/-!
How long a queued process waits. CPU 0 calls scheduler_tick with every new value of
ticks, so an aging pass comes after exactly AGING_INTERVAL ticks and every second pass
moves a waiting process up one level. At level 0 nothing overtakes it.
-/
namespace Xv6

/-- The CPU from whose queues the scheduler of CPU id takes its next process. -/
def Sched.source (s : Sched) (id : Nat) : Option Nat := (s.pickNext id).1.map fun p => (s.proc p).rqcpu

/-- The process system with the clock of trap.c. passes counts the aging passes and
    takes c the processes that a dispatch has taken from the queues of CPU c. -/
structure Timed where
  sys : Sys
  ticks : Nat
  passes : Nat
  takes : Nat → Nat

namespace Timed

/-- What scheduler_tick(now) computes before it decides to age. -/
def elapsed (s : Timed) (now : Nat) : Nat := (now + 4294967296 - s.sys.sched.lastAged) % 4294967296

def step (s : Timed) (a : Act) : Except Stop Timed :=
  match s.sys.step a with
  | .error e => .error e
  | .ok sys =>
    match a with
    | .tick now =>
      if now = (s.ticks + 1) % 4294967296 then
        .ok { s with sys := sys, ticks := now,
                     passes := if s.elapsed now < AGING_INTERVAL then s.passes else s.passes + 1 }
      else .error .disabled
    | .dispatch id =>
      .ok { s with sys := sys,
                   takes := match s.sys.sched.source id with
                     | some c => Function.update s.takes c (s.takes c + 1)
                     | none => s.takes }
    | _ => .ok { s with sys := sys }

def Init (s : Timed) : Prop := s.sys.Init ∧ s.sys.sched.lastAged = 0 ∧ s.ticks = 0

def Reachable (s : Timed) : Prop := Runs.Reachable Init step (fun _ _ => True) s

end Timed

theorem waited_blind : Blind Proc.waited := ⟨⟨fun _ _ _ => rfl⟩, fun _ _ => rfl⟩

/-- The lists grow, and a process keeps its waiting time or starts anew off the queues. -/
structure Ordinary (s s' : Sched) : Prop where
  grows : Grows s s'
  waited : ∀ j, (s'.proc j).waited = (s.proc j).waited ∨
    (s'.proc j).waited = 0 ∧ (s'.proc j).state ≠ .runnable

namespace Ordinary
variable {s s' : Sched}

theorem of_same (grows : Grows s s') (same : Same Proc.waited s s') : Ordinary s s' :=
  ⟨grows, fun j => Or.inl (same j)⟩

theorem store (s : Sched) {i : Nat} {f : Proc → Proc} (idle : (s.proc i).state ≠ .runnable)
    (still : (f (s.proc i)).state ≠ .runnable)
    (range : (s.proc i).rqcpu < s.ncpu ∧ (s.proc i).prio < NPRIO ∧ (s.proc i).basePrio < NPRIO →
      (f (s.proc i)).rqcpu < s.ncpu ∧ (f (s.proc i)).prio < NPRIO ∧ (f (s.proc i)).basePrio < NPRIO)
    (waited : (f (s.proc i)).waited = (s.proc i).waited) : Ordinary s (s.modify i f) :=
  of_same (Grows.change s idle still range) (Same.modify s waited)

theorem alloc {i : Nat} (pos : 0 < s.ncpu) (alloc : s.allocproc = (some i, s')) : Ordinary s s' := by
  refine ⟨Grows.allocproc pos alloc, ?_⟩
  obtain ⟨-, -, embryo, -, -, -, other, -⟩ := Sched.allocproc_some alloc
  intro j
  by_cases here : j = i
  · subst here
    right
    refine ⟨?_, by rw [embryo]; decide⟩
    unfold Sched.allocproc at alloc
    split at alloc
    · cases alloc
    · cases alloc
      simp
  · rw [other j here]
    exact Or.inl rfl

end Ordinary

namespace Sys
variable {s s' : Sys}

theorem step_ordinary (inv : PcInv s) {a : Act} (h : s.step a = .ok s') (notDispatch : ∀ c, a ≠ .dispatch c)
    (notTick : ∀ now, a ≠ .tick now) : Ordinary s.sched s'.sched := by
  have pos := inv.sched.pos
  have running : ∀ {c cur : Nat}, c < s.sched.ncpu → s.sched.cpu c = some cur →
      cur < NPROC ∧ (s.sched.proc cur).state = .running := fun hc on => inv.sched.cpus.on _ hc _ on
  have sleeping : ∀ {c cur : Nat} (chan : Chan), c < s.sched.ncpu → s.sched.cpu c = some cur →
      Ordinary s.sched (s.sched.sleep c cur chan) := fun {c cur} chan hc on =>
    .of_same (Grows.sleep _ c (running hc on).2 chan) (waited_blind.sleep (fun _ _ => rfl) _ _ _ _)
  have building : ∀ {cur np : Nat}, (s.pc cur).making = some np → (s.sched.proc np).state ≠ .runnable :=
    fun {cur np} at' => by rw [(inv.making cur np at').2]; decide
  have effect := step_effect h
  generalize s'.sched = sched at effect ⊢
  generalize s'.pc = pc at effect
  cases effect with
  | nothing => exact .of_same (Grows.refl _) (Same.refl _ _)
  | wakeup chan => exact .of_same (Grows.wakeup1 _ _) (waited_blind.wakeup1 _ _)
  | futexWake pa n => exact .of_same (Grows.futexWake _ pa n) (waited_blind.futexWake _ pa n)
  | kill pid =>
    refine .of_same (Grows.kill _ pid) ?_
    rcases waited_blind.kill s.sched pid with ⟨none, -⟩ | ⟨i, -, -, -, same⟩
    · rw [none]
      exact Same.refl _ _
    · exact (Same.modify s.sched rfl).trans same
  | tick now => exact (notTick now rfl).elim
  | dispatch c => exact (notDispatch c rfl).elim
  | yield c cur hc on =>
    exact .of_same (Grows.yield _ (running hc on).1 (running hc on).2 hc) (waited_blind.yield _ c cur)
  | timer c cur hc on =>
    refine .of_same (Grows.timer _ (running hc on).1 (running hc on).2 hc) ?_
    have ticked : Same Proc.waited s.sched (s.sched.modify cur fun p => { p with slice := p.slice - 1 }) :=
      Same.modify s.sched rfl
    unfold Sched.timer
    simp only
    split
    · exact ticked.trans (waited_blind.yield _ c cur)
    · exact ticked
  | setpriority c cur prio hc on =>
    refine .of_same (Grows.setpriority _ (running hc on).2 prio) ?_
    unfold Sched.setpriority
    split
    · exact Same.refl _ _
    · exact Same.modify s.sched (f := fun p =>
        { p with basePrio := prio.toNat, prio := prio.toNat, slice := quantumFor prio.toNat }) rfl
  | sleep c cur chan hc on => exact sleeping chan hc on
  | futexWait c cur pa hc on => exact sleeping _ hc on
  | scan => exact .of_same (Grows.refl _) (Same.refl _ _)
  | pause _ c cur threads call hc on => exact sleeping _ hc on
  | reap _ c cur p threads call hc on found =>
    obtain ⟨-, -, dead, -⟩ := Sched.zombieChild_some found
    exact .store _ (by rw [dead]; decide) (by simp) (fun range => range) rfl
  | own _ c cur sz pgdir _ plain hc on =>
    have run := (running hc on).2
    exact .store _ (by rw [run]; decide) (by simp [run]) (fun range => range) rfl
  | syncsize c cur => exact .of_same (Grows.syncsize _ cur) (Blind.syncsize (fun _ _ => rfl) _ cur)
  | userinitAlloc kstack p sched boot alloc =>
    have claimed := Ordinary.alloc pos alloc
    obtain ⟨-, -, embryo, -⟩ := Sched.allocproc_some alloc
    have filled : Grows sched (sched.modify p fun q => { q with kstack := kstack }) :=
      Grows.touch sched rfl rfl rfl rfl rfl
    refine ⟨(claimed.grows.trans filled).trans (Grows.of_inv rfl rfl fun _ inv => inv.of_eq rfl rfl rfl), ?_⟩
    intro j
    rcases claimed.waited j with same | ⟨zero, idle⟩
    · left
      rw [← same]
      have waited : Same Proc.waited sched (sched.modify p fun q => { q with kstack := kstack }) := Same.modify sched rfl
      exact waited j
    · right
      by_cases here : j = p
      · subst here
        exact ⟨by simpa using zero, by simpa using idle⟩
      · exact ⟨by simpa [here] using zero, by simpa [here] using idle⟩
  | userinitRun p d boot =>
    obtain ⟨hp, embryo, -⟩ := inv.boot p boot
    have filled : Grows s.sched (s.sched.modify p fun q => { q with pgdir := d, sz := PGSIZE }) :=
      Grows.touch s.sched rfl rfl rfl rfl rfl
    have stored : Same Proc.waited s.sched (s.sched.modify p fun q => { q with pgdir := d, sz := PGSIZE }) :=
      Same.modify s.sched rfl
    exact .of_same (filled.trans (Grows.setRunnable _ hp (by simpa using embryo) pos))
      (stored.trans (waited_blind.setRunnable _ p))
  | alloc _ cur np sched next plain run alloc => exact .alloc pos alloc
  | release _ cur np d plain at' => exact .store _ (building (Pc.making_of_unlinked at')) (by simp) (fun range => range) rfl
  | fill _ cur np k d next plain at' =>
    have idle := building (Pc.making_fill at').1
    exact .store _ idle (by simpa using idle) (fun range => range) rfl
  | link _ c cur np isthread ustack next plain hc on at' =>
    have idle := building (Pc.making_link at').1
    refine .of_same ⟨rfl, rfl, ?_⟩ (Same.modify s.sched rfl)
    intro q queue
    have base := (queue.range cur).2.2
    refine ⟨q, queue.change idle idle ⟨(queue.range np).1, base, base⟩,
      fun _ _ _ _ => List.prefix_rfl⟩
  | launch _ cur np plain at' =>
    obtain ⟨lt, built⟩ := inv.making cur np (Pc.making_launch at')
    exact .of_same (Grows.setRunnable _ lt built pos) (waited_blind.setRunnable _ np)
  | exit c cur hc on => exact .of_same (Grows.exit inv.sched hc on) (waited_blind.exit (fun _ _ => rfl) _ c cur)

end Sys

namespace QueueInv
variable {s s' : Sched} {q : Lists}

theorem pick_lists {id : Nat} (inv : QueueInv s q []) (hid : id < s.ncpu) :
    s.pickNext id = (none, s) ∨
    ∃ i s1 c k rest, s.pickNext id = (some i, s1) ∧ c < s.ncpu ∧ k < NPRIO ∧ q c k = i :: rest ∧
      q.flat c = i :: (q.set c k rest).flat c ∧ QueueInv s1 (q.set c k rest) [i] ∧ s1.ncpu = s.ncpu ∧
      s1.lastAged = s.lastAged := by
  have popped : ∀ {c i : Nat} {s1 : Sched}, s.rqPop c = (some i, s1) → s1.lastAged = s.lastAged := by
    intro c i s1 run
    rw [← s.rqPopFrom_lastAged c (List.range NPRIO)]
    exact congrArg (fun r => r.2.lastAged) run.symm
  unfold Sched.pickNext
  rcases inv.pop_flat hid with ⟨run, -⟩ | ⟨i, s1, k, rest, run, hk, split, flat, inv1, ncpu⟩
  · rw [run]
    simp only
    unfold Sched.rqSteal
    split
    · exact Or.inl rfl
    · rename_i best found
      have hbest : best < s.ncpu := by
        rcases scanCpus_mem _ _ _ _ _ best found with member | same
        · exact List.mem_range.mp member
        · cases same
      rcases inv.pop_flat hbest with ⟨run', -⟩ | ⟨i, s1, k, rest, run', hk, split, flat, inv1, ncpu⟩
      · exact Or.inl run'
      · exact Or.inr ⟨i, s1, best, k, rest, run', hbest, hk, split, flat, inv1, ncpu, popped run'⟩
  · rw [run]
    exact Or.inr ⟨i, s1, id, k, rest, rfl, hid, hk, split, flat, inv1, ncpu, popped run⟩

theorem scheduler_lists {id : Nat} (inv : QueueInv s q []) (hid : id < s.ncpu)
    (done : s.scheduler id = .ok s') :
    s' = s ∧ s.source id = none ∨
    ∃ i c k rest, c < s.ncpu ∧ k < NPRIO ∧ s.source id = some c ∧ q c k = i :: rest ∧
      q.flat c = i :: (q.set c k rest).flat c ∧ QueueInv s' (q.set c k rest) [] ∧ s'.ncpu = s.ncpu ∧
      s'.lastAged = s.lastAged ∧ (s'.proc i).state = .running ∧ (s'.proc i).waited = 0 ∧
      ∀ j, j ≠ i → (s'.proc j).credit = (s.proc j).credit ∧ (s'.proc j).state = (s.proc j).state := by
  have credit := credit_blind.pickNext s id
  have state := state_placeless.pickNext s id
  unfold Sched.scheduler at done
  rcases inv.pick_lists hid with none | ⟨i, s1, c, k, rest, some', hc, hk, split, flat, inv1, ncpu, lastAged⟩
  · rw [none] at done
    cases done
    exact Or.inl ⟨rfl, by rw [Sched.source, none]; rfl⟩
  · obtain ⟨-, ready, -, on, -⟩ := inv.member c hc k hk i (by rw [split]; exact List.mem_cons_self)
    rw [some'] at done credit state
    have run : (s1.proc i).state = .runnable := (state i).trans ready
    simp only [run, ne_eq, not_true_eq_false, ↓reduceIte] at done
    have source : s.source id = some c := by
      rw [Sched.source, some', ← on]
      rfl
    have range := inv1.range i
    have first := inv1.modify (f := fun q =>
        { q with rqcpu := id, prio := q.basePrio, waited := 0, slice := quantumFor q.basePrio })
      List.mem_cons_self ⟨by rw [ncpu]; exact hid, range.2.2, range.2.2⟩
    have placed : QueueInv ((s1.modify i fun q =>
        { q with rqcpu := id, prio := q.basePrio, waited := 0, slice := quantumFor q.basePrio }).setCpu id (some i)) _ _ :=
      first.of_eq rfl rfl rfl
    have second := (placed.modify (f := fun q => { q with state := .running, chan := none })
      List.mem_cons_self (placed.range i)).enter (by simp)
    obtain rfl := Except.ok.inj done
    refine Or.inr ⟨i, c, k, rest, hc, hk, source, split, flat, second, ncpu, lastAged, ?_, ?_, ?_⟩
    · simp
    · simp
    · intro j ne
      have same := credit j
      have still := state j
      constructor
      · simpa [ne] using same
      · simpa [ne] using still

theorem head_zero {c k i : Nat} {rest more : List Nat} (inv : QueueInv s q []) (hc : c < s.ncpu) (hk : k < NPRIO)
    (split : q c k = i :: rest) (flat : q.flat c = i :: more) (busy : q c 0 ≠ []) : k = 0 := by
  obtain ⟨others, zero⟩ := q.flat_zero c
  cases top : q c 0 with
  | nil => exact (busy top).elim
  | cons a l =>
    have same : a = i := by
      rw [top, flat] at zero
      exact (List.cons.inj zero).1.symm
    subst same
    exact (inv.place hc hk hc (by decide) (by rw [split]; exact List.mem_cons_self)
      (by rw [top]; exact List.mem_cons_self)).2

end QueueInv

/-- The passes a queued process still needs to get to level 0. -/
def Proc.debt (p : Proc) : Nat := if p.waited = AGING_INTERVAL then 2 * p.prio - 1 else 2 * p.prio

theorem debt_zero {p : Proc} (none : p.debt = 0) : p.prio = 0 := by
  unfold Proc.debt at none
  split at none
  · omega
  · omega

theorem debt_credit {p p' : Proc} (same : p'.credit = p.credit) : p'.debt = p.debt := by
  have prio : p'.prio = p.prio := congrArg Prod.fst same
  have waited : p'.waited = p.waited := congrArg Prod.snd same
  unfold Proc.debt
  rw [prio, waited]

theorem ageOne_interval (p : Proc) (waits : 0 < p.prio → p.waited = 0 ∨ p.waited = AGING_INTERVAL) :
    (Sched.ageOne AGING_INTERVAL p).debt ≤ p.debt - 1 ∧
      (0 < (Sched.ageOne AGING_INTERVAL p).prio → (Sched.ageOne AGING_INTERVAL p).waited = 0 ∨
        (Sched.ageOne AGING_INTERVAL p).waited = AGING_INTERVAL) := by
  by_cases top : p.prio = 0
  · have prio : (Sched.ageOne AGING_INTERVAL p).prio = 0 := by
      have := (ageOne_fields AGING_INTERVAL p).2.2.1
      omega
    constructor
    · unfold Proc.debt
      rw [prio]
      split
      · omega
      · omega
    · intro pos
      omega
  · rcases waits (by omega) with zero | five
    · have aged : Sched.ageOne AGING_INTERVAL p = { p with waited := AGING_INTERVAL } := by
        have sum : Int.bmod (p.waited + (AGING_INTERVAL : Nat)) 4294967296 = AGING_INTERVAL := by
          rw [zero]
          decide
        unfold Sched.ageOne
        simp only [sum]
        rw [if_neg]
        simp [AGING_TICKS, AGING_INTERVAL]
      rw [aged]
      have not : (0 : Int) ≠ AGING_INTERVAL := by decide
      constructor
      · simp [Proc.debt, zero, not]
      · intro _
        exact Or.inr rfl
    · have aged : Sched.ageOne AGING_INTERVAL p = { p with prio := p.prio - 1, waited := 0 } := by
        have sum : Int.bmod (p.waited + (AGING_INTERVAL : Nat)) 4294967296 = AGING_TICKS := by
          rw [five]
          decide
        unfold Sched.ageOne
        simp only [sum]
        rw [if_pos]
        exact ⟨le_refl _, by omega⟩
      rw [aged]
      have not : (0 : Int) ≠ AGING_INTERVAL := by decide
      constructor
      · simp only [Proc.debt, five, if_pos, if_neg not]
        omega
      · intro _
        exact Or.inl rfl

namespace Timed
variable {s s' : Timed}

theorem step_ok {a : Act} (h : s.step a = .ok s') : s.sys.step a = .ok s'.sys ∧
    ((∀ c, a ≠ .dispatch c) ∧ (∀ now, a ≠ .tick now) ∧ s'.ticks = s.ticks ∧ s'.passes = s.passes ∧
        s'.takes = s.takes ∨
      (∃ now, a = .tick now ∧ now = (s.ticks + 1) % 4294967296 ∧ s'.ticks = now ∧ s'.takes = s.takes ∧
        s'.passes = if s.elapsed now < AGING_INTERVAL then s.passes else s.passes + 1) ∨
      ∃ id, a = .dispatch id ∧ s'.ticks = s.ticks ∧ s'.passes = s.passes ∧
        s'.takes = match s.sys.sched.source id with
          | some c => Function.update s.takes c (s.takes c + 1)
          | none => s.takes) := by
  unfold step at h
  cases done : s.sys.step a with
  | error e =>
    rw [done] at h
    cases h
  | ok sys =>
    rw [done] at h
    cases a with
    | tick now =>
      simp only at h
      split at h
      · rename_i next
        cases h
        exact ⟨rfl, Or.inr (Or.inl ⟨now, rfl, next, rfl, rfl, rfl⟩)⟩
      · cases h
    | dispatch id =>
      cases h
      exact ⟨rfl, Or.inr (Or.inr ⟨id, rfl, rfl, rfl, rfl⟩)⟩
    | _ =>
      cases h
      exact ⟨rfl, Or.inl ⟨by simp, by simp, rfl, rfl, rfl⟩⟩

end Timed

/-- The clock is less than one interval past the last pass, and waiting times are the
    whole intervals spent on the queues. -/
structure TimedInv (s : Timed) : Prop where
  pcs : PcInv s.sys
  range : s.ticks < 4294967296 ∧ s.sys.sched.lastAged < 4294967296
  clock : s.elapsed s.ticks < AGING_INTERVAL
  idle : ∀ i < NPROC, (s.sys.sched.proc i).state ≠ .runnable → (s.sys.sched.proc i).waited = 0
  waits : ∀ i < NPROC, (s.sys.sched.proc i).state = .runnable → 0 < (s.sys.sched.proc i).prio →
    (s.sys.sched.proc i).waited = 0 ∨ (s.sys.sched.proc i).waited = AGING_INTERVAL

/-- What a step means for the process p that is queued on CPU c. -/
inductive Waits (s : Timed) (q : Lists) (c p : Nat) : Timed → Prop where
  | left (s' : Timed) (gone : (s'.sys.sched.proc p).state ≠ .runnable) : Waits s q c p s'
  | stayed (s' : Timed) (q' : Lists) (inv : QueueInv s'.sys.sched q' [])
      (credit : (s'.sys.sched.proc p).credit = (s.sys.sched.proc p).credit)
      (lists : ∀ k < NPRIO, q c k <+: q' c k) (passes : s'.passes = s.passes)
      (takes : s'.takes c = s.takes c) : Waits s q c p s'
  | passed (s' : Timed) (q' : Lists) (inv : QueueInv s'.sys.sched q' [])
      (credit : (s'.sys.sched.proc p).credit = (Sched.ageOne AGING_INTERVAL (s.sys.sched.proc p)).credit)
      (zero : q c 0 <+: q' c 0) (passes : s'.passes = s.passes + 1) (takes : s'.takes c = s.takes c)
      (still : ∃ k < NPRIO, p ∈ q' c k) : Waits s q c p s'
  | taken (s' : Timed) (i k : Nat) (rest : List Nat) (hk : k < NPRIO) (inv : QueueInv s'.sys.sched (q.set c k rest) [])
      (split : q c k = i :: rest) (flat : q.flat c = i :: (q.set c k rest).flat c) (other : i ≠ p)
      (credit : (s'.sys.sched.proc p).credit = (s.sys.sched.proc p).credit) (passes : s'.passes = s.passes)
      (takes : s'.takes c = s.takes c + 1) : Waits s q c p s'

end Xv6
