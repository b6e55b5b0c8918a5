import Xv6.Process.Waiting

/-!
No starvation. A process that stays queued on a CPU is at level 0 after 2 * (NPRIO - 1)
aging passes, and from then on only the processes that were ahead of it are taken from
that CPU before it.
-/
namespace Xv6

namespace TimedInv
variable {s s' : Timed}

theorem next_tick (inv : TimedInv s) {now : Nat} (next : now = (s.ticks + 1) % 4294967296) :
    now < 4294967296 ∧ s.elapsed now ≤ AGING_INTERVAL := by
  have clock := inv.clock
  have range := inv.range
  unfold Timed.elapsed AGING_INTERVAL at *
  omega

theorem elapsed_self {now : Nat} : (now + 4294967296 - now) % 4294967296 < AGING_INTERVAL := by
  unfold AGING_INTERVAL
  omega

theorem move (inv : TimedInv s) {a : Act} (h : s.sys.step a = .ok s'.sys) : PcInv s'.sys := by
  have move : Move (fun _ => True) s.sys s'.sys := Sys.step_move inv.pcs.sched h fun _ _ _ _ => trivial
  exact inv.pcs.step move

/-- A process that is queued before an ordinary step is queued in the same place after it. -/
theorem stays_queued {sched sched' : Sched} {q : Lists} (ordinary : Ordinary sched sched') (queue : QueueInv sched q [])
    {i : Nat} (hi : i < NPROC) (run : (sched.proc i).state = .runnable) :
    (sched'.proc i).state = .runnable ∧ (sched'.proc i).credit = (sched.proc i).credit := by
  obtain ⟨q', queue', more⟩ := ordinary.grows.lists q queue
  obtain ⟨on, level, -⟩ := queue.range i
  have member := (more _ on _ level).subset (queue.covers i hi run List.not_mem_nil)
  obtain ⟨-, run', prio, -⟩ := queue'.member _ (by rw [ordinary.grows.ncpu]; exact on) _ level i member
  refine ⟨run', ?_⟩
  rcases ordinary.waited i with same | ⟨-, idle⟩
  · exact Prod.ext prio same
  · exact (idle run').elim

theorem ordinary (inv : TimedInv s) {a : Act} (h : s.sys.step a = .ok s'.sys) (ticks : s'.ticks = s.ticks)
    (ordinary : Ordinary s.sys.sched s'.sys.sched) : TimedInv s' := by
  have aged := ordinary.grows.lastAged
  obtain ⟨q, queue⟩ := inv.pcs.sched.queues
  refine ⟨inv.move h, by rw [ticks, aged]; exact inv.range, ?_, ?_, ?_⟩
  · have clock := inv.clock
    unfold Timed.elapsed at clock ⊢
    rw [ticks, aged]
    exact clock
  · intro i hi idle'
    have idle : (s.sys.sched.proc i).state ≠ .runnable := fun run =>
      idle' (stays_queued ordinary queue hi run).1
    rcases ordinary.waited i with same | ⟨zero, -⟩
    · rw [same]
      exact inv.idle i hi idle
    · exact zero
  · intro i hi run' level
    by_cases run : (s.sys.sched.proc i).state = .runnable
    · have credit := (stays_queued ordinary queue hi run).2
      have prio : (s'.sys.sched.proc i).prio = (s.sys.sched.proc i).prio := congrArg Prod.fst credit
      have waited : (s'.sys.sched.proc i).waited = (s.sys.sched.proc i).waited := congrArg Prod.snd credit
      rw [prio] at level
      rw [waited]
      exact inv.waits i hi run level
    · left
      rcases ordinary.waited i with same | ⟨zero, -⟩
      · rw [same]
        exact inv.idle i hi run
      · exact zero

theorem dispatch (inv : TimedInv s) {id : Nat} (h : s.sys.step (.dispatch id) = .ok s'.sys)
    (ticks : s'.ticks = s.ticks) : TimedInv s' := by
  have pcs := inv.move h
  obtain ⟨hc, -, done⟩ := Sys.dispatch_ok h
  obtain ⟨q, queue⟩ := inv.pcs.sched.queues
  rcases queue.scheduler_lists hc done with ⟨same, -⟩ |
      ⟨i, c, k, rest, hc', hk, -, split, -, queue', ncpu, lastAged, run, zero, others⟩
  · exact inv.ordinary h ticks (by rw [same]; exact .of_same (Grows.refl _) (Same.refl _ _))
  · refine ⟨pcs, by rw [ticks, lastAged]; exact inv.range, ?_, ?_, ?_⟩
    · have clock := inv.clock
      unfold Timed.elapsed at clock ⊢
      rw [ticks, lastAged]
      exact clock
    · intro j hj idle'
      by_cases here : j = i
      · rw [here, zero]
      · obtain ⟨credit, state⟩ := others j here
        have waited : (s'.sys.sched.proc j).waited = (s.sys.sched.proc j).waited := congrArg Prod.snd credit
        rw [state] at idle'
        rw [waited]
        exact inv.idle j hj idle'
    · intro j hj run' level
      by_cases here : j = i
      · rw [here, zero]
        exact Or.inl rfl
      · obtain ⟨credit, state⟩ := others j here
        have prio : (s'.sys.sched.proc j).prio = (s.sys.sched.proc j).prio := congrArg Prod.fst credit
        have waited : (s'.sys.sched.proc j).waited = (s.sys.sched.proc j).waited := congrArg Prod.snd credit
        rw [state] at run'
        rw [prio] at level
        rw [waited]
        exact inv.waits j hj run' level

theorem tick_cases (inv : TimedInv s) {now : Nat} (h : s.sys.step (.tick now) = .ok s'.sys)
    (next : now = (s.ticks + 1) % 4294967296) :
    s.elapsed now < AGING_INTERVAL ∧ s'.sys.sched = s.sys.sched ∨
      ¬ s.elapsed now < AGING_INTERVAL ∧
        s'.sys.sched = { s.sys.sched with lastAged := now }.rqAge AGING_INTERVAL := by
  have late := (inv.next_tick next).2
  have shape := Sys.tick_ok h
  unfold Sched.schedulerTick at shape
  change s'.sys.sched = if s.elapsed now < AGING_INTERVAL then s.sys.sched else
    { s.sys.sched with lastAged := now }.rqAge (s.elapsed now) at shape
  by_cases early : s.elapsed now < AGING_INTERVAL
  · rw [if_pos early] at shape
    exact Or.inl ⟨early, shape⟩
  · rw [if_neg early] at shape
    have whole : s.elapsed now = AGING_INTERVAL := by omega
    rw [whole] at shape
    exact Or.inr ⟨early, shape⟩

theorem tick (inv : TimedInv s) {now : Nat} (h : s.sys.step (.tick now) = .ok s'.sys)
    (next : now = (s.ticks + 1) % 4294967296) (ticks : s'.ticks = now) : TimedInv s' := by
  have pcs := inv.move h
  obtain ⟨small, late⟩ := inv.next_tick next
  have steady := (inv.pcs.sched.queues.schedulerTick now).2.toSteady
  rw [← Sys.tick_ok h] at steady
  rcases inv.tick_cases h next with ⟨early, same⟩ | ⟨-, same⟩
  · refine ⟨pcs, by rw [ticks, same]; exact ⟨small, inv.range.2⟩, ?_, ?_, ?_⟩
    · unfold Timed.elapsed at early ⊢
      rw [ticks, same]
      exact early
    · rw [same]
      exact inv.idle
    · rw [same]
      exact inv.waits
  · obtain ⟨q, queue⟩ := inv.pcs.sched.queues
    have stamped : QueueInv { s.sys.sched with lastAged := now } q [] := queue.of_eq rfl rfl rfl
    obtain ⟨q', -, -, lastAged, -, aged, kept⟩ := stamped.rqAge_lists AGING_INTERVAL
    rw [← same] at lastAged aged kept
    have idle : ∀ i, (s.sys.sched.proc i).state ≠ .runnable →
        (s'.sys.sched.proc i).waited = (s.sys.sched.proc i).waited :=
      fun i idle => congrArg Prod.snd (kept i idle)
    refine ⟨pcs, by rw [ticks, lastAged]; exact ⟨small, small⟩, ?_, ?_, ?_⟩
    · unfold Timed.elapsed
      rw [ticks, lastAged]
      exact elapsed_self
    · intro i hi idle'
      have was : (s.sys.sched.proc i).state ≠ .runnable := by
        intro run
        rcases steady.state i with still | ⟨asleep, -⟩
        · exact idle' (still.trans run)
        · rw [run] at asleep
          cases asleep
      rw [idle i was]
      exact inv.idle i hi was
    · intro i hi run' level
      by_cases run : (s.sys.sched.proc i).state = .runnable
      · have credit := aged i hi run
        have prio : (s'.sys.sched.proc i).prio = _ := congrArg Prod.fst credit
        have waited : (s'.sys.sched.proc i).waited = _ := congrArg Prod.snd credit
        rw [prio] at level
        rw [waited]
        exact (ageOne_interval _ (inv.waits i hi run)).2 level
      · left
        rw [idle i run]
        exact inv.idle i hi run

theorem init (first : s.Init) : TimedInv s := by
  obtain ⟨sys, lastAged, ticks⟩ := first
  refine ⟨PcInv.init sys, by rw [ticks, lastAged]; decide, ?_, ?_, ?_⟩
  · unfold Timed.elapsed
    rw [ticks, lastAged]
    decide
  · intro i _ _
    rw [sys.2.2.1 i]
    rfl
  · intro i _ run
    rw [sys.2.2.1 i] at run
    cases run

theorem step (inv : TimedInv s) {a : Act} (h : s.step a = .ok s') : TimedInv s' := by
  obtain ⟨done, ⟨notDispatch, notTick, ticks, -⟩ | ⟨now, rfl, next, ticks, -⟩ | ⟨id, rfl, ticks, -⟩⟩ := Timed.step_ok h
  · exact inv.ordinary done ticks (Sys.step_ordinary inv.pcs done notDispatch notTick)
  · exact inv.tick done next ticks
  · exact inv.dispatch done ticks

theorem reachable (reach : s.Reachable) : TimedInv s :=
  Runs.Reachable.invariant (P := TimedInv) (fun _ first => init first) (fun _ _ _ inv _ done => inv.step done) reach

theorem step_waits (inv : TimedInv s) {q : Lists} {a : Act} {c k p : Nat} (queue : QueueInv s.sys.sched q [])
    (hc : c < s.sys.sched.ncpu) (hk : k < NPRIO) (member : p ∈ q c k) (h : s.step a = .ok s') :
    Waits s q c p s' := by
  obtain ⟨hp, run, -, -, -⟩ := queue.member c hc k hk p member
  obtain ⟨done, ⟨notDispatch, notTick, -, passes, takes⟩ | ⟨now, rfl, next, -, takes, passes⟩ |
    ⟨id, rfl, -, passes, takes⟩⟩ := Timed.step_ok h
  · have ordinary := Sys.step_ordinary inv.pcs done notDispatch notTick
    obtain ⟨q', queue', more⟩ := ordinary.grows.lists q queue
    exact .stayed s' q' queue' (stays_queued ordinary queue hp run).2 (more c hc) passes (by rw [takes])
  · rcases inv.tick_cases done next with ⟨early, same⟩ | ⟨late, same⟩
    · rw [if_pos early] at passes
      exact .stayed s' q (by rw [same]; exact queue) (by rw [same]) (fun _ _ => List.prefix_rfl) passes
        (by rw [takes])
    · rw [if_neg late] at passes
      have stamped : QueueInv { s.sys.sched with lastAged := now } q [] := queue.of_eq rfl rfl rfl
      obtain ⟨q', queue', ncpu, -, lists, aged, -⟩ := stamped.rqAge_lists AGING_INTERVAL
      rw [← same] at queue' ncpu aged
      have flat : p ∈ q.flat c := Lists.mem_flat.mpr ⟨k, hk, member⟩
      have level : (Sched.ageOne AGING_INTERVAL (s.sys.sched.proc p)).prio < NPRIO := by
        have less := (ageOne_fields AGING_INTERVAL (s.sys.sched.proc p)).2.2.1
        have range := (queue.range p).2.1
        omega
      refine .passed s' q' queue' (aged p hp run) ?_ passes (by rw [takes]) ⟨_, level, ?_⟩
      · rw [lists c hc 0 (by decide)]
        exact stamped.agedTo_zero AGING_INTERVAL hc
      · rw [lists c hc _ level]
        exact List.mem_filter.mpr ⟨flat, by simp⟩
  · obtain ⟨hid, -, picked⟩ := Sys.dispatch_ok done
    rcases queue.scheduler_lists hid picked with ⟨same, none⟩ |
        ⟨i, d, l, rest, hd, hl, source, split, flat, queue', -, -, running, -, others⟩
    · rw [none] at takes
      exact .stayed s' q (by rw [same]; exact queue) (by rw [same]) (fun _ _ => List.prefix_rfl) passes
        (by rw [takes])
    · rw [source] at takes
      by_cases this : i = p
      · subst this
        exact .left s' (by rw [running]; decide)
      · have credit := (others p (Ne.symm this)).1
        by_cases here : d = c
        · subst here
          exact .taken s' i l rest hl queue' split flat this credit passes (by rw [takes]; simp)
        · refine .stayed s' _ queue' credit ?_ passes (by rw [takes]; simp [Ne.symm here])
          intro j _
          rw [q.set_off rest fun both => here both.1.symm]

end TimedInv

structure Climbs (c p : Nat) (s₀ s : Timed) : Prop where
  inv : TimedInv s
  later : s₀.passes ≤ s.passes
  up : (s.sys.sched.proc p).state = .runnable → c < s.sys.sched.ncpu ∧ (s.sys.sched.proc p).rqcpu = c ∧
    (s.sys.sched.proc p).debt ≤ 2 * ( NPRIO - 1) - (s.passes - s₀.passes)

/-- p is at level 0 of CPU c, and n counts the dispatches from c that may still come
    before its own. -/
structure Ahead (c p n : Nat) (s : Timed) : Prop where
  inv : TimedInv s
  order : (s.sys.sched.proc p).state = .runnable → c < s.sys.sched.ncpu ∧
    ∃ q pre post, QueueInv s.sys.sched q [] ∧ q c 0 = pre ++ p :: post ∧ s.takes c + pre.length ≤ n

theorem Timed.step_ncpu {s s' : Timed} (inv : TimedInv s) {a : Act} (h : s.step a = .ok s') :
    s'.sys.sched.ncpu = s.sys.sched.ncpu := by
  obtain ⟨done, ⟨notDispatch, notTick, -⟩ | ⟨now, rfl, next, -⟩ | ⟨id, rfl, -⟩⟩ := Timed.step_ok h
  · exact (Sys.step_ordinary inv.pcs done notDispatch notTick).grows.ncpu
  · rw [Sys.tick_ok done]
    exact (inv.pcs.sched.queues.schedulerTick now).2.ncpu
  · obtain ⟨hid, -, picked⟩ := Sys.dispatch_ok done
    obtain ⟨q, queue⟩ := inv.pcs.sched.queues
    rcases queue.scheduler_lists hid picked with ⟨same, -⟩ | ⟨_, _, _, _, _, _, _, _, _, _, ncpu, _⟩
    · rw [same]
    · exact ncpu

theorem Climbs.step {c p : Nat} {s₀ s s' : Timed} (inv : Climbs c p s₀ s) {a : Act} (hp : p < NPROC)
    (run : (s.sys.sched.proc p).state = .runnable) (h : s.step a = .ok s') : Climbs c p s₀ s' := by
  obtain ⟨hc, on, debt⟩ := inv.up run
  have later := inv.later
  have ncpu := Timed.step_ncpu inv.inv h
  obtain ⟨q, queue⟩ := inv.inv.pcs.sched.queues
  have level := (queue.range p).2.1
  have member := queue.covers p hp run List.not_mem_nil
  rw [on] at member
  have place : ∀ {q' : Lists} {k : Nat}, QueueInv s'.sys.sched q' [] → k < NPRIO → p ∈ q' c k →
      (s'.sys.sched.proc p).rqcpu = c := fun queue' hk member' =>
    (queue'.member c (by rw [ncpu]; exact hc) _ hk p member').2.2.2.1
  cases inv.inv.step_waits queue hc level member h with
  | left gone =>
    refine ⟨inv.inv.step h, ?_, fun run' => (gone run').elim⟩
    obtain ⟨-, ⟨-, -, -, passes, -⟩ | ⟨now, -, -, -, -, passes⟩ | ⟨id, -, -, passes, -⟩⟩ := Timed.step_ok h
    · omega
    · rw [passes]
      split
      · omega
      · omega
    · omega
  | stayed q' queue' credit lists passes takes =>
    refine ⟨inv.inv.step h, by omega, fun _ => ⟨by rw [ncpu]; exact hc, ?_, ?_⟩⟩
    · exact place queue' level ((lists _ level).subset member)
    · rw [debt_credit credit, passes]
      exact debt
  | passed q' queue' credit zero passes takes still =>
    obtain ⟨k, hk, member'⟩ := still
    refine ⟨inv.inv.step h, by omega, fun _ => ⟨by rw [ncpu]; exact hc, place queue' hk member', ?_⟩⟩
    have less := (ageOne_interval _ (inv.inv.waits p hp run)).1
    rw [debt_credit credit, passes]
    omega
  | taken i k rest hk queue' split flat other credit passes takes =>
    refine ⟨inv.inv.step h, by omega, fun _ => ⟨by rw [ncpu]; exact hc, ?_, ?_⟩⟩
    · by_cases same : (s.sys.sched.proc p).prio = k
      · have rest' : p ∈ q.set c k rest c k := by
          rw [same, split] at member
          rw [q.set_here]
          exact (List.mem_cons.mp member).resolve_left (Ne.symm other)
        exact place queue' hk rest'
      · have still : p ∈ q.set c k rest c (s.sys.sched.proc p).prio := by
          rw [q.set_off rest fun both => same both.2]
          exact member
        exact place queue' level still
    · rw [debt_credit credit, passes]
      exact debt

theorem Ahead.step {c p n : Nat} {s s' : Timed} (inv : Ahead c p n s) {a : Act}
    (run : (s.sys.sched.proc p).state = .runnable) (h : s.step a = .ok s') : Ahead c p n s' := by
  obtain ⟨hc, q, pre, post, queue, order, bound⟩ := inv.order run
  have ncpu := Timed.step_ncpu inv.inv h
  have hc' : c < s'.sys.sched.ncpu := by rw [ncpu]; exact hc
  have member : p ∈ q c 0 := by
    rw [order]
    exact List.mem_append_right pre List.mem_cons_self
  -- what comes behind p does not matter
  have longer : ∀ {q' : Lists}, q c 0 <+: q' c 0 → ∃ post', q' c 0 = pre ++ p :: post' := by
    rintro q' ⟨more, same⟩
    exact ⟨post ++ more, by rw [← same, order]; simp⟩
  cases inv.inv.step_waits queue hc (by decide) member h with
  | left gone => exact ⟨inv.inv.step h, fun run' => (gone run').elim⟩
  | stayed q' queue' credit lists passes takes =>
    obtain ⟨post', order'⟩ := longer (lists 0 (by decide))
    exact ⟨inv.inv.step h, fun _ => ⟨hc', q', pre, post', queue', order', by omega⟩⟩
  | passed q' queue' credit zero passes takes still =>
    obtain ⟨post', order'⟩ := longer zero
    exact ⟨inv.inv.step h, fun _ => ⟨hc', q', pre, post', queue', order', by omega⟩⟩
  | taken i k rest hk queue' split flat other credit passes takes =>
    obtain rfl := queue.head_zero hc hk split flat (List.ne_nil_of_mem member)
    rw [order] at split
    cases pre with
    | nil => exact (other (List.cons.inj split).1.symm).elim
    | cons a pre =>
      have rest' : rest = pre ++ p :: post := (List.cons.inj split).2.symm
      refine ⟨inv.inv.step h, fun _ => ⟨hc', _, pre, post, queue', by rw [q.set_here, rest'], ?_⟩⟩
      rw [List.length_cons] at bound
      omega

/-- From any reachable state in which p is queued on CPU c, as long as p stays queued:
    2 * (NPRIO - 1) aging passes bring p to level 0 of c; and if the list of level 0 has
    pre ahead of p, no more than pre.length dispatches take a process from c. -/
theorem bounded_bypass (s s' : Timed) (c p : Nat) (as : List Act) (reach : s.Reachable) (hp : p < NPROC)
    (on : (s.sys.sched.proc p).rqcpu = c)
    (stays : Runs.Path Timed.step (fun s _ => (s.sys.sched.proc p).state = .runnable) s as s')
    (still : (s'.sys.sched.proc p).state = .runnable) :
    (s.passes + 2 * ( NPRIO - 1) ≤ s'.passes →
      (s'.sys.sched.proc p).prio = 0 ∧ (s'.sys.sched.proc p).rqcpu = c) ∧
    ∀ pre post, LinkedQueue.Linked (fun i => (s.sys.sched.proc i).rqnext) ((s.sys.sched.runq c).head 0)
      (pre ++ p :: post) → s'.takes c ≤ s.takes c + pre.length := by
  have inv := TimedInv.reachable reach
  obtain ⟨q, queue⟩ := inv.pcs.sched.queues
  obtain ⟨hc, level, -⟩ := queue.range p
  rw [on] at hc
  constructor
  · intro enough
    have start : Climbs c p s s := by
      refine ⟨inv, le_refl _, fun _ => ⟨hc, on, ?_⟩⟩
      unfold Proc.debt
      split
      · omega
      · omega
    have finish : Climbs c p s s' := stays.carry (P := fun _ s' => Climbs c p s s') start
      fun _ _ _ _ climbs run done => climbs.step hp run done
    obtain ⟨-, on', debt⟩ := finish.up still
    exact ⟨debt_zero (by omega), on'⟩
  · intro pre post list
    have order : q c 0 = pre ++ p :: post := (queue.queue c hc 0 (by decide)).linked.unique list
    have start : Ahead c p (s.takes c + pre.length) s := ⟨inv, fun _ => ⟨hc, q, pre, post, queue, order, le_refl _⟩⟩
    have finish : Ahead c p (s.takes c + pre.length) s' :=
      stays.carry (P := fun _ s' => Ahead c p (s.takes c + pre.length) s') start
        fun _ _ _ _ ahead run done => ahead.step run done
    obtain ⟨-, _, pre', _, -, -, bound⟩ := finish.order still
    omega

def Timed.zeroed (ncpu : Nat) : Timed := ⟨Sys.zeroed ncpu, 0, 0, fun _ => 0⟩

def Timed.sixPasses : List Act := (List.range 30).map fun i => .tick (i + 1)

/-- The child of init waits behind its parent, which keeps CPU 0. -/
theorem bounded_bypass_child :
    ∃ s s' : Timed, s.Reachable ∧ (s.sys.sched.proc 1).prio = 2 ∧ s'.passes = s.passes + 2 * ( NPRIO - 1) ∧
      Runs.Path Timed.step (fun s _ => (s.sys.sched.proc 1).state = .runnable) s Timed.sixPasses s' ∧
      ((s'.sys.sched.proc 1).prio = 0 ∧ (s'.sys.sched.proc 1).rqcpu = 0) ∧
      ∀ pre post, LinkedQueue.Linked (fun i => (s.sys.sched.proc i).rqnext) ((s.sys.sched.runq 0).head 0)
        (pre ++ 1 :: post) → s'.takes 0 ≤ s.takes 0 + pre.length := by
  have first : (Timed.zeroed 2).Reachable :=
    Runs.Reachable.start ⟨Sys.zeroed_init (by decide) (by decide), rfl, rfl⟩
  have forked : ∃ s, Runs.run Timed.step (Timed.zeroed 2) Sys.firstFork = .ok s ∧
      (s.sys.sched.proc 1).prio = 2 ∧ (s.sys.sched.proc 1).rqcpu = 0 ∧ s.passes = 0 ∧
      (Runs.walk Timed.step (fun s _ => (s.sys.sched.proc 1).state == .runnable) s Timed.sixPasses).map
        (fun s => ((s.sys.sched.proc 1).state, s.passes)) = some (.runnable, 6) :=
    ⟨_, rfl, rfl, rfl, rfl, by decide +kernel⟩
  obtain ⟨s, done, low, on, none, trace⟩ := forked
  obtain ⟨s', walked, seen⟩ := Option.map_eq_some_iff.mp trace
  obtain ⟨still, passes⟩ := Prod.mk.inj seen
  have reach := first.run (fun _ _ _ => trivial) done
  have stays : Runs.Path Timed.step (fun s _ => (s.sys.sched.proc 1).state = .runnable) s Timed.sixPasses s' :=
    Runs.Path.of_walk (fun s a passed => by simpa using passed) walked
  have six : s'.passes = s.passes + 2 * ( NPRIO - 1) := by rw [passes, none]; rfl
  obtain ⟨climbed, order⟩ := bounded_bypass s s' 0 1 _ reach (by decide) on stays still
  exact ⟨s, s', reach, low, six, stays, climbed (le_of_eq six.symm), order⟩

end Xv6
