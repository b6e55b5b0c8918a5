import Xv6.Lib.LinkedQueue
import Xv6.Sched.Proc
import Mathlib.Algebra.BigOperators.Group.Finset.Basic
import Mathlib.Algebra.BigOperators.Group.Finset.Piecewise

/-!
The run queue invariant. `q c k` is the list behind level k of CPU c, and `out` holds
the processes that a function has taken off the queues and not yet put back or
given another state. Four facts about popping, pushing, changing a process that is
off the queues, and leaving or entering `out` carry every function of proc.c.
-/
namespace Xv6
open LinkedQueue

namespace Sched

@[simp] theorem modify_proc (s : Sched) (i : Nat) (f : Proc → Proc) :
    (s.modify i f).proc = Function.update s.proc i (f (s.proc i)) := rfl
@[simp] theorem modify_runq (s : Sched) (i : Nat) (f : Proc → Proc) : (s.modify i f).runq = s.runq := rfl
@[simp] theorem modify_cpu (s : Sched) (i : Nat) (f : Proc → Proc) : (s.modify i f).cpu = s.cpu := rfl
@[simp] theorem modify_ncpu (s : Sched) (i : Nat) (f : Proc → Proc) : (s.modify i f).ncpu = s.ncpu := rfl
@[simp] theorem modify_initproc (s : Sched) (i : Nat) (f : Proc → Proc) :
    (s.modify i f).initproc = s.initproc := rfl
@[simp] theorem setRunq_proc (s : Sched) (c : Nat) (rq : Runqueue) : (s.setRunq c rq).proc = s.proc := rfl
@[simp] theorem setRunq_runq (s : Sched) (c : Nat) (rq : Runqueue) :
    (s.setRunq c rq).runq = Function.update s.runq c rq := rfl
@[simp] theorem setRunq_cpu (s : Sched) (c : Nat) (rq : Runqueue) : (s.setRunq c rq).cpu = s.cpu := rfl
@[simp] theorem setRunq_ncpu (s : Sched) (c : Nat) (rq : Runqueue) : (s.setRunq c rq).ncpu = s.ncpu := rfl
@[simp] theorem setRunq_initproc (s : Sched) (c : Nat) (rq : Runqueue) :
    (s.setRunq c rq).initproc = s.initproc := rfl
@[simp] theorem setCpu_proc (s : Sched) (c : Nat) (p : Option Nat) : (s.setCpu c p).proc = s.proc := rfl
@[simp] theorem setCpu_runq (s : Sched) (c : Nat) (p : Option Nat) : (s.setCpu c p).runq = s.runq := rfl
@[simp] theorem setCpu_cpu (s : Sched) (c : Nat) (p : Option Nat) :
    (s.setCpu c p).cpu = Function.update s.cpu c p := rfl
@[simp] theorem setCpu_ncpu (s : Sched) (c : Nat) (p : Option Nat) : (s.setCpu c p).ncpu = s.ncpu := rfl
@[simp] theorem setCpu_initproc (s : Sched) (c : Nat) (p : Option Nat) :
    (s.setCpu c p).initproc = s.initproc := rfl

end Sched

/-- The lists behind the run queues. -/
abbrev Lists := Nat → Nat → List Nat

def Lists.set (q : Lists) (c k : Nat) (l : List Nat) : Lists :=
  fun c' k' => if c' = c ∧ k' = k then l else q c' k'

theorem Lists.set_here (q : Lists) (c k : Nat) (l : List Nat) : q.set c k l c k = l := by
  simp [Lists.set]

theorem Lists.set_off (q : Lists) {c k c' k' : Nat} (l : List Nat) (ne : ¬ (c' = c ∧ k' = k)) :
    q.set c k l c' k' = q c' k' := by
  rw [Lists.set, if_neg ne]

theorem Lists.sum_set (q : Lists) (c : Nat) {k : Nat} (l : List Nat) (hk : k < NPRIO) :
    ∑ j ∈ Finset.range NPRIO, ((q.set c k l c j).length : Int) =
      ∑ j ∈ Finset.range NPRIO, ((q c j).length : Int) + l.length - (q c k).length := by
  have member := Finset.mem_range.mpr hk
  rw [← Finset.add_sum_erase _ _ member, ← Finset.add_sum_erase _ (fun j => ((q c j).length : Int)) member,
    q.set_here]
  have rest : ∑ j ∈ (Finset.range NPRIO).erase k, ((q.set c k l c j).length : Int) =
      ∑ j ∈ (Finset.range NPRIO).erase k, ((q c j).length : Int) := by
    refine Finset.sum_congr rfl fun j hj => ?_
    rw [q.set_off l fun both => Finset.ne_of_mem_erase hj both.2]
  rw [rest]
  omega

structure QueueInv (s : Sched) (q : Lists) (out : List Nat) : Prop where
  queue : ∀ c < s.ncpu, ∀ k < NPRIO,
    IsQueue (fun i => (s.proc i).rqnext) ((s.runq c).head k) ((s.runq c).tail k) (q c k)
  member : ∀ c < s.ncpu, ∀ k < NPRIO, ∀ i ∈ q c k, i < NPROC ∧ (s.proc i).state = .runnable ∧
    (s.proc i).prio = k ∧ (s.proc i).rqcpu = c ∧ i ∉ out
  covers : ∀ i < NPROC, (s.proc i).state = .runnable → i ∉ out →
    i ∈ q (s.proc i).rqcpu (s.proc i).prio
  count : ∀ c < s.ncpu, (s.runq c).nready = ∑ k ∈ Finset.range NPRIO, ((q c k).length : Int)
  range : ∀ i, (s.proc i).rqcpu < s.ncpu ∧ (s.proc i).prio < NPRIO ∧ (s.proc i).basePrio < NPRIO

namespace QueueInv
variable {s : Sched} {q : Lists} {out : List Nat}

theorem leave (inv : QueueInv s q out) {i : Nat} (idle : (s.proc i).state ≠ .runnable) :
    QueueInv s q (i :: out) := by
  refine ⟨inv.queue, ?_, ?_, inv.count, inv.range⟩
  · intro c hc k hk j hj
    obtain ⟨lt, run, prio, cpu, off⟩ := inv.member c hc k hk j hj
    refine ⟨lt, run, prio, cpu, ?_⟩
    rw [List.mem_cons, not_or]
    refine ⟨?_, off⟩
    rintro rfl
    exact idle run
  · intro j hj run off
    rw [List.mem_cons, not_or] at off
    exact inv.covers j hj run off.2

theorem enter (inv : QueueInv s q (i :: out)) (idle : (s.proc i).state ≠ .runnable) :
    QueueInv s q out := by
  refine ⟨inv.queue, ?_, ?_, inv.count, inv.range⟩
  · intro c hc k hk j hj
    obtain ⟨lt, run, prio, cpu, off⟩ := inv.member c hc k hk j hj
    exact ⟨lt, run, prio, cpu, fun member => off (List.mem_cons_of_mem i member)⟩
  · intro j hj run off
    refine inv.covers j hj run ?_
    rw [List.mem_cons, not_or]
    refine ⟨?_, off⟩
    rintro rfl
    exact idle run

theorem modify (inv : QueueInv s q out) {i : Nat} (off : i ∈ out) {f : Proc → Proc}
    (range : (f (s.proc i)).rqcpu < s.ncpu ∧ (f (s.proc i)).prio < NPRIO ∧
      (f (s.proc i)).basePrio < NPRIO) : QueueInv (s.modify i f) q out := by
  have away : ∀ c < s.ncpu, ∀ k < NPRIO, ∀ j ∈ q c k, j ≠ i := by
    intro c hc k hk j hj same
    exact (inv.member c hc k hk j hj).2.2.2.2 (same ▸ off)
  have other : ∀ j, j ≠ i → (s.modify i f).proc j = s.proc j := fun j ne => by simp [ne]
  constructor
  · intro c hc k hk
    refine (inv.queue c hc k hk).congr fun j hj => ?_
    rw [other j (away c hc k hk j hj)]
  · intro c hc k hk j hj
    rw [other j (away c hc k hk j hj)]
    exact inv.member c hc k hk j hj
  · intro j hj run here
    have ne : j ≠ i := fun same => here (same ▸ off)
    rw [other j ne] at run ⊢
    exact inv.covers j hj run here
  · exact inv.count
  · intro j
    by_cases same : j = i
    · subst same
      simpa using range
    · rw [other j same]
      exact inv.range j

theorem change (inv : QueueInv s q out) {i : Nat} {f : Proc → Proc}
    (idle : (s.proc i).state ≠ .runnable) (still : (f (s.proc i)).state ≠ .runnable)
    (range : (f (s.proc i)).rqcpu < s.ncpu ∧ (f (s.proc i)).prio < NPRIO ∧
      (f (s.proc i)).basePrio < NPRIO) : QueueInv (s.modify i f) q out := by
  refine ((inv.leave idle).modify List.mem_cons_self range).enter ?_
  simpa using still

theorem touch (inv : QueueInv s q out) {i : Nat} {f : Proc → Proc}
    (state : (f (s.proc i)).state = (s.proc i).state) (prio : (f (s.proc i)).prio = (s.proc i).prio)
    (base : (f (s.proc i)).basePrio = (s.proc i).basePrio)
    (rqcpu : (f (s.proc i)).rqcpu = (s.proc i).rqcpu)
    (rqnext : (f (s.proc i)).rqnext = (s.proc i).rqnext) : QueueInv (s.modify i f) q out := by
  have same : ∀ j, ((s.modify i f).proc j).state = (s.proc j).state ∧
      ((s.modify i f).proc j).prio = (s.proc j).prio ∧
      ((s.modify i f).proc j).basePrio = (s.proc j).basePrio ∧
      ((s.modify i f).proc j).rqcpu = (s.proc j).rqcpu ∧
      ((s.modify i f).proc j).rqnext = (s.proc j).rqnext := by
    intro j
    by_cases here : j = i
    · subst here
      simp [state, prio, base, rqcpu, rqnext]
    · simp [here]
  refine ⟨?_, ?_, ?_, inv.count, ?_⟩
  · intro c hc k hk
    exact (inv.queue c hc k hk).congr fun j _ => (same j).2.2.2.2
  · intro c hc k hk j hj
    obtain ⟨a, b, -, d, -⟩ := same j
    rw [a, b, d]
    exact inv.member c hc k hk j hj
  · intro j hj run off
    obtain ⟨a, b, -, d, -⟩ := same j
    rw [a] at run
    rw [b, d]
    exact inv.covers j hj run off
  · intro j
    obtain ⟨-, b, e, d, -⟩ := same j
    rw [b, d, e]
    exact inv.range j

theorem popFrom (inv : QueueInv s q out) {c : Nat} (hc : c < s.ncpu) (ks : List Nat)
    (levels : ∀ k ∈ ks, k < NPRIO) :
    (s.rqPopFrom c ks = (none, s) ∧ ∀ k ∈ ks, q c k = []) ∨
    ∃ i s' k rest, s.rqPopFrom c ks = (some i, s') ∧
      (∃ above below, ks = above ++ k :: below ∧ ∀ j ∈ above, q c j = []) ∧ q c k = i :: rest ∧
      QueueInv s' (q.set c k rest) (i :: out) ∧
      i < NPROC ∧ (s.proc i).state = .runnable ∧ s'.ncpu = s.ncpu ∧ s'.cpu = s.cpu ∧
      s'.initproc = s.initproc ∧ (∀ j, j ≠ i → s'.proc j = s.proc j) ∧
      s'.proc i = { s.proc i with rqnext := none } := by
  induction ks with
  | nil =>
    refine Or.inl ⟨rfl, ?_⟩
    intro k hk
    cases hk
  | cons k ks ih =>
    have hk := levels k List.mem_cons_self
    have queue := inv.queue c hc k hk
    rw [Sched.rqPopFrom]
    simp only
    cases head : (s.runq c).head k with
    | none =>
      have empty : q c k = [] := by
        have := queue.head_eq
        rw [head] at this
        exact List.head?_eq_none_iff.mp this.symm
      rcases ih fun j hj => levels j (List.mem_cons_of_mem k hj) with ⟨run, rest⟩ | found
      · refine Or.inl ⟨run, ?_⟩
        intro j hj
        rcases List.mem_cons.mp hj with rfl | hj
        · exact empty
        · exact rest j hj
      · obtain ⟨i, s', j, rest, run, ⟨above, below, split, none⟩, more⟩ := found
        refine Or.inr ⟨i, s', j, rest, run, ⟨k :: above, below, by rw [split]; rfl, ?_⟩, more⟩
        intro l hl
        rcases List.mem_cons.mp hl with rfl | hl
        · exact empty
        · exact none l hl
    | some i =>
      right
      rw [head] at queue
      obtain ⟨rest, split, fresh, tail⟩ := queue.pop
      obtain ⟨lt, run, prio, cpu, off⟩ := inv.member c hc k hk i (by rw [split]; exact List.mem_cons_self)
      refine ⟨i, _, k, rest, rfl, ⟨[], ks, rfl, fun j hj => (List.not_mem_nil hj).elim⟩, split, ?_, lt, run,
        rfl, rfl, rfl, ?_, ?_⟩
      · -- only level k of c lists the process that leaves
        have here : ∀ c' < s.ncpu, ∀ k' < NPRIO, ¬ (c' = c ∧ k' = k) → i ∉ q c' k' := by
          intro c' hc' k' hk' ne member
          obtain ⟨-, -, level, on, -⟩ := inv.member c' hc' k' hk' i member
          exact ne ⟨on.symm.trans cpu, level.symm.trans prio⟩
        constructor
        · intro c' hc' k' hk'
          by_cases same : c' = c ∧ k' = k
          · obtain ⟨rfl, rfl⟩ := same
            have rest' := tail (fun j => (((s.setRunq c' ⟨Function.update (s.runq c').head k' (s.proc i).rqnext,
              Function.update (s.runq c').tail k'
                (if (s.proc i).rqnext = none then none else (s.runq c').tail k'),
              (s.runq c').nready - 1⟩).modify i fun p => { p with rqnext := none }).proc j).rqnext) (by
                intro j hj
                have ne : j ≠ i := fun same => fresh (same ▸ hj)
                simp [ne])
            simpa [q.set_here] using rest'
          · rw [q.set_off _ same]
            have old : IsQueue (fun j => (Function.update s.proc i { s.proc i with rqnext := none } j).rqnext)
                ((s.runq c').head k') ((s.runq c').tail k') (q c' k') := by
              refine (inv.queue c' hc' k' hk').congr ?_
              intro j hj
              have ne : j ≠ i := fun eq => here c' hc' k' hk' same (eq ▸ hj)
              simp [ne]
            by_cases on : c' = c
            · subst on
              have level : k' ≠ k := fun eq => same ⟨rfl, eq⟩
              simpa [level] using old
            · simpa [on] using old
        · intro c' hc' k' hk' j hj
          have inq : j ∈ q c' k' ∧ j ≠ i := by
            by_cases same : c' = c ∧ k' = k
            · obtain ⟨rfl, rfl⟩ := same
              rw [q.set_here] at hj
              exact ⟨by rw [split]; exact List.mem_cons_of_mem i hj, fun eq => fresh (eq ▸ hj)⟩
            · rw [q.set_off _ same] at hj
              exact ⟨hj, fun eq => here c' hc' k' hk' same (eq ▸ hj)⟩
          obtain ⟨lt', run', prio', cpu', off'⟩ := inv.member c' hc' k' hk' j inq.1
          have ne := inq.2
          refine ⟨lt', ?_, ?_, ?_, ?_⟩
          · simpa [ne] using run'
          · simpa [ne] using prio'
          · simpa [ne] using cpu'
          · simp [ne, off']
        · intro j hj run' off'
          rw [List.mem_cons, not_or] at off'
          have ne := off'.1
          simp only [Sched.modify_proc, ne, ne_eq, not_false_eq_true, Function.update_of_ne,
            Sched.setRunq_proc] at run' ⊢
          have old := inv.covers j hj run' off'.2
          by_cases same : (s.proc j).rqcpu = c ∧ (s.proc j).prio = k
          · obtain ⟨rfl, rfl⟩ := same
            rw [split] at old
            rw [q.set_here]
            exact (List.mem_cons.mp old).resolve_left ne
          · rw [q.set_off _ same]
            exact old
        · intro c' hc'
          have old := inv.count c' hc'
          by_cases on : c' = c
          · subst on
            rw [q.sum_set c' rest hk, split]
            simp only [Sched.modify_runq, Sched.setRunq_runq, Function.update_self, List.length_cons]
            omega
          · have same : ∑ j ∈ Finset.range NPRIO, ((q.set c k rest c' j).length : Int) =
                ∑ j ∈ Finset.range NPRIO, ((q c' j).length : Int) := by
              refine Finset.sum_congr rfl fun j _ => ?_
              rw [q.set_off _ fun both => on both.1]
            rw [same]
            simpa [on] using old
        · intro j
          by_cases same : j = i
          · subst same
            simpa using inv.range j
          · simpa [same] using inv.range j
      · intro j ne
        simp [ne]
      · simp

theorem push_proc (s : Sched) (c i : Nat) (away : (s.runq c).tail (s.proc i).prio ≠ some i) (j : Nat) :
    (s.rqPush c i).proc j =
      if j = i then { s.proc j with rqnext := none, rqcpu := c }
      else if (s.runq c).tail (s.proc i).prio = some j then { s.proc j with rqnext := some i }
      else s.proc j := by
  unfold Sched.rqPush
  simp only [Sched.modify_runq]
  cases tail : (s.runq c).tail (s.proc i).prio with
  | none =>
    by_cases same : j = i
    · subst same
      simp
    · simp [same]
  | some t =>
    have ne : i ≠ t := by
      rintro rfl
      exact away tail
    by_cases same : j = i
    · subst same
      simp [ne]
    · by_cases last : j = t
      · subst last
        simp [same]
      · simp [same, last, Ne.symm last]

theorem push_runq (s : Sched) (c i c' : Nat) :
    (s.rqPush c i).runq c' =
      if c' = c then
        ⟨Function.update (s.runq c).head (s.proc i).prio
            (if (s.runq c).tail (s.proc i).prio = none then some i
              else (s.runq c).head (s.proc i).prio),
          Function.update (s.runq c).tail (s.proc i).prio (some i), (s.runq c).nready + 1⟩
      else s.runq c' := by
  unfold Sched.rqPush
  simp only [Sched.modify_runq]
  cases tail : (s.runq c).tail (s.proc i).prio with
  | none =>
    by_cases on : c' = c
    · subst on
      simp
    · simp [on]
  | some t =>
    by_cases on : c' = c
    · subst on
      simp
    · simp [on]

theorem push_cpu (s : Sched) (c i : Nat) : (s.rqPush c i).cpu = s.cpu ∧ (s.rqPush c i).ncpu = s.ncpu ∧
    (s.rqPush c i).initproc = s.initproc := by
  unfold Sched.rqPush
  simp only [Sched.modify_runq]
  cases (s.runq c).tail (s.proc i).prio with
  | none => exact ⟨rfl, rfl, rfl⟩
  | some t => exact ⟨rfl, rfl, rfl⟩

theorem push {i c : Nat} (inv : QueueInv s q (i :: out)) (hi : i < NPROC) (off : i ∉ out)
    (run : (s.proc i).state = .runnable) (hc : c < s.ncpu) :
    QueueInv (s.rqPush c i) (q.set c (s.proc i).prio (q c (s.proc i).prio ++ [i])) out := by
  obtain ⟨-, level, base⟩ := inv.range i
  have absent : ∀ c' < s.ncpu, ∀ k' < NPRIO, i ∉ q c' k' := fun c' hc' k' hk' member =>
    (inv.member c' hc' k' hk' i member).2.2.2.2 List.mem_cons_self
  have queue := inv.queue c hc _ level
  have away : (s.runq c).tail (s.proc i).prio ≠ some i := by
    rw [queue.last]
    intro last
    exact absent c hc _ level (List.mem_of_getLast? last)
  have proc := push_proc s c i away
  have runq := push_runq s c i
  obtain ⟨-, ncpu, -⟩ := push_cpu s c i
  have fields : ∀ j, j ≠ i → ((s.rqPush c i).proc j).state = (s.proc j).state ∧
      ((s.rqPush c i).proc j).prio = (s.proc j).prio ∧
      ((s.rqPush c i).proc j).rqcpu = (s.proc j).rqcpu ∧
      ((s.rqPush c i).proc j).basePrio = (s.proc j).basePrio := by
    intro j ne
    rw [proc j, if_neg ne]
    split
    · exact ⟨rfl, rfl, rfl, rfl⟩
    · exact ⟨rfl, rfl, rfl, rfl⟩
  have self : (s.rqPush c i).proc i = { s.proc i with rqnext := none, rqcpu := c } := by
    rw [proc i, if_pos rfl]
  generalize level' : (s.proc i).prio = k at *
  constructor
  · rw [ncpu]
    intro c' hc' k' hk'
    by_cases same : c' = c ∧ k' = k
    · obtain ⟨rfl, rfl⟩ := same
      rw [q.set_here, runq c', if_pos rfl]
      simp only [Function.update_self]
      refine queue.push (absent c' hc k' hk') (by rw [self]) ?_ ?_
      · intro t last
        have ne : t ≠ i := by
          rintro rfl
          exact away last
        rw [proc t, if_neg ne, if_pos last]
      · intro b hb notLast
        have ne : b ≠ i := by
          rintro rfl
          exact absent c' hc k' hk' hb
        rw [proc b, if_neg ne, if_neg notLast]
    · rw [q.set_off _ same]
      have old : IsQueue (fun j => ((s.rqPush c i).proc j).rqnext) ((s.runq c').head k')
          ((s.runq c').tail k') (q c' k') := by
        refine (inv.queue c' hc' k' hk').congr fun b hb => ?_
        have ne : b ≠ i := by
          rintro rfl
          exact absent c' hc' k' hk' hb
        -- the tail of level k on c is on no other list
        have notLast : (s.runq c).tail k ≠ some b := by
          rw [queue.last]
          intro last
          obtain ⟨-, -, one, on, -⟩ := inv.member c hc k level b (List.mem_of_getLast? last)
          obtain ⟨-, -, two, on', -⟩ := inv.member c' hc' k' hk' b hb
          exact same ⟨on'.symm.trans on, two.symm.trans one⟩
        rw [proc b, if_neg ne, if_neg notLast]
      rw [runq c']
      by_cases on : c' = c
      · subst on
        have other : k' ≠ k := fun eq => same ⟨rfl, eq⟩
        simpa [other] using old
      · simpa [on] using old
  · rw [ncpu]
    intro c' hc' k' hk' j hj
    by_cases here : j = i
    · subst here
      have same : c' = c ∧ k' = k := by
        by_contra ne
        rw [q.set_off _ ne] at hj
        exact absent c' hc' k' hk' hj
      obtain ⟨rfl, rfl⟩ := same
      rw [self]
      exact ⟨hi, run, level', rfl, off⟩
    · have old : j ∈ q c' k' := by
        by_cases same : c' = c ∧ k' = k
        · obtain ⟨rfl, rfl⟩ := same
          rw [q.set_here, List.mem_append, List.mem_singleton] at hj
          exact hj.resolve_right here
        · rw [q.set_off _ same] at hj
          exact hj
      obtain ⟨state, prio, rqcpu, -⟩ := fields j here
      rw [state, prio, rqcpu]
      obtain ⟨lt, a, b, d, e⟩ := inv.member c' hc' k' hk' j old
      exact ⟨lt, a, b, d, fun member => e (List.mem_cons_of_mem i member)⟩
  · intro j hj run' off'
    by_cases here : j = i
    · subst here
      rw [self]
      simp only [level']
      rw [q.set_here]
      exact List.mem_append_right _ List.mem_cons_self
    · obtain ⟨state, prio, rqcpu, -⟩ := fields j here
      rw [state] at run'
      rw [prio, rqcpu]
      have old := inv.covers j hj run' (by rw [List.mem_cons, not_or]; exact ⟨here, off'⟩)
      by_cases same : (s.proc j).rqcpu = c ∧ (s.proc j).prio = k
      · obtain ⟨rfl, rfl⟩ := same
        rw [q.set_here]
        exact List.mem_append_left _ old
      · rw [q.set_off _ same]
        exact old
  · rw [ncpu]
    intro c' hc'
    have old := inv.count c' hc'
    rw [runq c']
    by_cases on : c' = c
    · subst on
      rw [q.sum_set c' _ level]
      simp only [↓reduceIte, List.length_append, List.length_cons, List.length_nil]
      omega
    · have same : ∑ j ∈ Finset.range NPRIO, ((q.set c k (q c k ++ [i]) c' j).length : Int) =
          ∑ j ∈ Finset.range NPRIO, ((q c' j).length : Int) := by
        refine Finset.sum_congr rfl fun j _ => ?_
        rw [q.set_off _ fun both => on both.1]
      rw [same, if_neg on]
      exact old
  · rw [ncpu]
    intro j
    by_cases here : j = i
    · subst here
      rw [self]
      exact ⟨hc, by rw [level']; exact level, base⟩
    · obtain ⟨-, prio, rqcpu, basePrio⟩ := fields j here
      rw [prio, rqcpu, basePrio]
      exact inv.range j

end QueueInv
end Xv6
