import Xv6.Sched.Dispatch

/-!
Between two dispatches the run queues only grow at their ends. Every function of proc.c
other than the scheduler and the aging pass leaves each list of each CPU as a prefix of
what it is afterwards.
-/
namespace Xv6

structure Grows (s s' : Sched) : Prop where
  ncpu : s'.ncpu = s.ncpu
  lastAged : s'.lastAged = s.lastAged
  lists : ∀ q, QueueInv s q [] →
    ∃ q', QueueInv s' q' [] ∧ ∀ c < s.ncpu, ∀ k < NPRIO, q c k <+: q' c k

theorem QueueInv.of_eq {s s' : Sched} {q : Lists} {out : List Nat} (inv : QueueInv s q out)
    (ncpu : s'.ncpu = s.ncpu) (proc : s'.proc = s.proc) (runq : s'.runq = s.runq) : QueueInv s' q out := by
  obtain ⟨queue, member, covers, count, range⟩ := inv
  constructor
  · rw [ncpu, proc, runq]
    exact queue
  · rw [ncpu, proc]
    exact member
  · rw [proc]
    exact covers
  · rw [ncpu, runq]
    exact count
  · rw [ncpu, proc]
    exact range

theorem Sched.rqPush_lastAged (s : Sched) (c i : Nat) : (s.rqPush c i).lastAged = s.lastAged := by
  unfold Sched.rqPush
  simp only
  split
  · rfl
  · rfl

namespace Grows
variable {s s' s'' : Sched}

theorem refl (s : Sched) : Grows s s :=
  ⟨rfl, rfl, fun q inv => ⟨q, inv, fun _ _ _ _ => List.prefix_rfl⟩⟩

theorem trans (first : Grows s s') (second : Grows s' s'') : Grows s s'' := by
  refine ⟨second.ncpu.trans first.ncpu, second.lastAged.trans first.lastAged, ?_⟩
  intro q inv
  obtain ⟨q', inv', more⟩ := first.lists q inv
  obtain ⟨q'', inv'', again⟩ := second.lists q' inv'
  refine ⟨q'', inv'', ?_⟩
  intro c hc k hk
  exact (more c hc k hk).trans (again c (by rw [first.ncpu]; exact hc) k hk)

theorem of_inv (ncpu : s'.ncpu = s.ncpu) (lastAged : s'.lastAged = s.lastAged)
    (keep : ∀ q, QueueInv s q [] → QueueInv s' q []) : Grows s s' :=
  ⟨ncpu, lastAged, fun q inv => ⟨q, keep q inv, fun _ _ _ _ => List.prefix_rfl⟩⟩

theorem setCpu (s : Sched) (c : Nat) (p : Option Nat) : Grows s (s.setCpu c p) :=
  of_inv rfl rfl fun _ inv => inv.of_eq rfl rfl rfl

theorem touch (s : Sched) {i : Nat} {f : Proc → Proc}
    (state : (f (s.proc i)).state = (s.proc i).state) (prio : (f (s.proc i)).prio = (s.proc i).prio)
    (base : (f (s.proc i)).basePrio = (s.proc i).basePrio)
    (rqcpu : (f (s.proc i)).rqcpu = (s.proc i).rqcpu)
    (rqnext : (f (s.proc i)).rqnext = (s.proc i).rqnext) : Grows s (s.modify i f) :=
  of_inv rfl rfl fun _ inv => inv.touch state prio base rqcpu rqnext

theorem change (s : Sched) {i : Nat} {f : Proc → Proc} (idle : (s.proc i).state ≠ .runnable)
    (still : (f (s.proc i)).state ≠ .runnable)
    (range : (s.proc i).rqcpu < s.ncpu ∧ (s.proc i).prio < NPRIO ∧ (s.proc i).basePrio < NPRIO →
      (f (s.proc i)).rqcpu < s.ncpu ∧ (f (s.proc i)).prio < NPRIO ∧ (f (s.proc i)).basePrio < NPRIO) :
    Grows s (s.modify i f) :=
  of_inv rfl rfl fun _ inv => inv.change idle still (range (inv.range i))

theorem enqueue (s : Sched) {i c : Nat} (hi : i < NPROC) (idle : (s.proc i).state ≠ .runnable)
    (on : ∀ q, QueueInv s q [] → c < s.ncpu) :
    Grows s ((s.modify i fun p => { p with state := .runnable }).rqPush c i) := by
  obtain ⟨-, ncpu, -⟩ := QueueInv.push_cpu (s.modify i fun p => { p with state := .runnable }) c i
  refine ⟨ncpu, Sched.rqPush_lastAged _ c i, ?_⟩
  intro q inv
  have ready := (inv.leave idle).modify (f := fun p => { p with state := .runnable }) List.mem_cons_self
    (inv.range i)
  refine ⟨_, ready.push hi List.not_mem_nil (by simp) (on q inv), ?_⟩
  intro c' _ k' _
  generalize ((s.modify i fun p => { p with state := .runnable }).proc i).prio = k
  by_cases same : c' = c ∧ k' = k
  · obtain ⟨rfl, rfl⟩ := same
    rw [q.set_here]
    exact List.prefix_append _ _
  · rw [q.set_off _ same]

theorem foldl {f : Sched → Nat → Sched} {is : List Nat} (step : ∀ s, ∀ i ∈ is, Grows s (f s i)) (s : Sched) :
    Grows s (is.foldl f s) := by
  induction is generalizing s with
  | nil => exact refl s
  | cons i is ih =>
    exact (step s i List.mem_cons_self).trans (ih (fun s j hj => step s j (List.mem_cons_of_mem i hj)) (f s i))

theorem rouse (s : Sched) {i : Nat} (hi : i < NPROC) (asleep : (s.proc i).state = .sleeping) :
    Grows s (s.rouse i) := by
  have cpu : ((s.modify i fun q => { q with state := .runnable }).proc i).rqcpu = (s.proc i).rqcpu := by simp
  unfold Sched.rouse
  simp only [cpu]
  exact enqueue s hi (by rw [asleep]; decide) fun q inv => (inv.range i).1

theorem wakeup1 (s : Sched) (chan : Option Chan) : Grows s (s.wakeup1 chan) := by
  apply foldl
  intro s i hi
  unfold Sched.wakeupIn
  split
  · rename_i asleep
    exact rouse s (List.mem_range.mp hi) asleep.1
  · exact refl s

theorem futexWakeLoop (pa : Nat) (n : Int) (ps : List Nat) (slots : ∀ p ∈ ps, p < NPROC) (woken : Nat)
    (s : Sched) : Grows s (Sched.futexWakeLoop pa n ps woken s).2 := by
  induction ps generalizing woken s with
  | nil => exact refl s
  | cons p ps ih =>
    have slots' := fun i hi => slots i (List.mem_cons_of_mem p hi)
    rw [Sched.futexWakeLoop]
    split
    · rename_i asleep
      have first := rouse s (slots p List.mem_cons_self) asleep.1
      simp only
      split
      · exact first
      · exact first.trans (ih slots' (woken + 1) (s.rouse p))
    · exact ih slots' woken s

theorem futexWake (s : Sched) (pa : Nat) (n : Int) : Grows s (s.futexWake pa n).2 :=
  futexWakeLoop pa n _ (fun _ hp => List.mem_range.mp hp) 0 s

theorem kill (s : Sched) (pid : Int) : Grows s (s.kill pid).2 := by
  unfold Sched.kill
  cases found : (List.range NPROC).find? fun i => (s.proc i).pid == pid with
  | none => exact refl s
  | some p =>
    have hp := List.mem_range.mp (List.mem_of_find?_eq_some found)
    have marked : Grows s (s.modify p fun q => { q with killed := true }) := touch s rfl rfl rfl rfl rfl
    simp only
    split
    · rename_i asleep
      exact marked.trans (rouse _ hp asleep)
    · exact marked

theorem syncsize (s : Sched) (cur : Nat) : Grows s (s.syncsize cur) := by
  apply foldl
  intro s i _
  unfold Sched.syncsizeIn
  split
  · exact touch s rfl rfl rfl rfl rfl
  · exact refl s

theorem yield (s : Sched) {c i : Nat} (hi : i < NPROC) (run : (s.proc i).state = .running) (hc : c < s.ncpu) :
    Grows s (s.yield c i) :=
  (enqueue s hi (by rw [run]; decide) fun _ _ => hc).trans (setCpu _ c none)

theorem timer (s : Sched) {c i : Nat} (hi : i < NPROC) (run : (s.proc i).state = .running) (hc : c < s.ncpu) :
    Grows s (s.timer c i) := by
  have ticked : Grows s (s.modify i fun p => { p with slice := p.slice - 1 }) := touch s rfl rfl rfl rfl rfl
  unfold Sched.timer
  simp only
  split
  · exact ticked.trans (yield _ hi (by simpa using run) hc)
  · exact ticked

theorem setpriority (s : Sched) {i : Nat} (run : (s.proc i).state = .running) (prio : Int) :
    Grows s (s.setpriority i prio).2 := by
  unfold Sched.setpriority
  split
  · exact refl s
  · rename_i legal
    have level : prio.toNat < NPRIO := by omega
    exact change s (f := fun p =>
        { p with basePrio := prio.toNat, prio := prio.toNat, slice := quantumFor prio.toNat })
      (by rw [run]; decide) (by simp [run]) fun range => ⟨range.1, level, level⟩

theorem sleep (s : Sched) (c : Nat) {i : Nat} (run : (s.proc i).state = .running) (chan : Chan) :
    Grows s (s.sleep c i chan) :=
  (change s (by rw [run]; decide) (by simp) fun range => range).trans (setCpu _ c none)

theorem setRunnable (s : Sched) {i : Nat} (hi : i < NPROC) (embryo : (s.proc i).state = .embryo)
    (pos : 0 < s.ncpu) : Grows s (s.setRunnable i) :=
  enqueue s hi (by rw [embryo]; decide) fun _ _ =>
    leastLoadedCpu_lt (s.modify i fun q => { q with state := .runnable }) pos

theorem allocproc {i : Nat} (pos : 0 < s.ncpu) (alloc : s.allocproc = (some i, s')) : Grows s s' := by
  unfold Sched.allocproc at alloc
  cases found : (List.range NPROC).find? fun i => (s.proc i).state == .unused with
  | none =>
    rw [found] at alloc
    cases alloc
  | some k =>
    rw [found] at alloc
    cases alloc
    have free : (s.proc i).state = .unused := by
      have := List.find?_some found
      simpa using this
    have level : NPRIO / 2 < NPRIO := by decide
    have taken := change s (i := i) (f := fun p =>
      { p with state := .embryo, pid := s.nextpid, pgdir := 0, isthread := false, ustack := 0,
               basePrio := NPRIO / 2, prio := NPRIO / 2, slice := quantumFor ( NPRIO / 2), waited := 0,
               rqcpu := 0, rqnext := none })
      (by rw [free]; decide) (by simp) fun _ => ⟨pos, level, level⟩
    exact taken.trans (of_inv rfl rfl fun _ inv => inv.of_eq rfl rfl rfl)

theorem reparent (s : Sched) (cur : Nat) : Grows s ((List.range NPROC).foldl (Sched.reparentIn cur) s) := by
  apply foldl
  intro s i _
  unfold Sched.reparentIn
  split
  · have moved : Grows s (s.modify i fun q => { q with parent := s.initproc }) := touch s rfl rfl rfl rfl rfl
    simp only
    split
    · exact moved.trans (wakeup1 _ _)
    · exact moved
  · exact refl s

theorem exit (inv : SchedInv s) {c i : Nat} (hc : c < s.ncpu) (on : s.cpu c = some i) : Grows s (s.exit c i) := by
  have run := (inv.cpus.on c hc i on).2
  have woken := wakeup1 s ((s.proc i).parent.map .proc)
  have moved := reparent (s.wakeup1 ((s.proc i).parent.map .proc)) i
  obtain ⟨queues, calm⟩ := inv.queues.wakeup1 ((s.proc i).parent.map Chan.proc)
  simp only [Sched.exit]
  generalize s.wakeup1 ((s.proc i).parent.map .proc) = s1 at *
  obtain ⟨-, steady⟩ := SchedInv.reparent i queues
  generalize (List.range NPROC).foldl (Sched.reparentIn i) s1 = s2 at *
  have still : (s2.proc i).state = .running :=
    ((calm.toSteady.trans steady).state_eq (by decide) (by decide)).mpr run
  have dead : Grows s2 (s2.modify i fun p => { p with state := .zombie }) :=
    change s2 (by rw [still]; decide) (by simp) fun range => range
  exact ((woken.trans moved).trans dead).trans (setCpu _ c none)

end Grows
end Xv6
