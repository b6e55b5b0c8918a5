import Xv6.Process.Moves

/-!
The slots that fork, clone and userinit are filling in are EMBRYOs, each with one
creator, so the stores a creator makes without the lock never touch a process that
is queued or running.
-/
namespace Xv6

namespace Sched
variable {s s' : Sched}

theorem allocproc_some {i : Nat} (h : s.allocproc = (some i, s')) :
    i < NPROC ∧ (s.proc i).state = .unused ∧ (s'.proc i).state = .embryo ∧ (s'.proc i).pgdir = 0 ∧
      (s'.proc i).isthread = false ∧ (s'.proc i).parent = (s.proc i).parent ∧
      (∀ j, j ≠ i → s'.proc j = s.proc j) ∧ s'.initproc = s.initproc := by
  unfold allocproc at h
  cases found : (List.range NPROC).find? fun i => (s.proc i).state == .unused with
  | none =>
    rw [found] at h
    cases h
  | some k =>
    rw [found] at h
    cases h
    have free : (s.proc i).state = .unused := by
      have := List.find?_some found
      simpa using this
    refine ⟨List.mem_range.mp (List.mem_of_find?_eq_some found), free, ?_, ?_, ?_, ?_, ?_, rfl⟩
    · simp
    · simp
    · simp
    · simp
    · intro j ne
      simp [ne]

theorem zombieChild_some {cur p : Nat} {threads : Bool} (h : s.zombieChild cur threads = some p) :
    p < NPROC ∧ (s.proc p).parent = some cur ∧ (s.proc p).state = .zombie ∧
      (threads = true → (s.proc p).isthread = true) := by
  have dead := List.find?_some h
  have member := List.mem_of_find?_eq_some h
  rw [children, List.mem_filter] at member
  obtain ⟨slot, child⟩ := member
  rw [Bool.and_eq_true] at child
  refine ⟨List.mem_range.mp slot, by simpa using child.1, by simpa using dead, ?_⟩
  rintro rfl
  simpa using child.2

/-- What the loop of exit does to the processes in is. -/
structure Passed (cur : Nat) (is : List Nat) (s s' : Sched) : Prop where
  queues : RunqInv s' []
  initproc : s'.initproc = s.initproc
  state : ∀ j, (s.proc j).state.Shifts (s'.proc j).state
  pgdir : ∀ j, (s'.proc j).pgdir = (s.proc j).pgdir
  isthread : ∀ j, (s'.proc j).isthread = (s.proc j).isthread
  parent : ∀ j, (s'.proc j).parent =
    if j ∈ is ∧ (s.proc j).parent = some cur then s.initproc else (s.proc j).parent

theorem reparentIn_passed {cur : Nat} (queues : RunqInv s []) (i : Nat) :
    Passed cur [i] s (reparentIn cur s i) := by
  unfold reparentIn
  by_cases child : (s.proc i).parent = some cur
  · rw [if_pos child]
    simp only
    have moved := queues.touch (i := i) (f := fun q => { q with parent := s.initproc }) rfl rfl rfl rfl rfl
    have first : Passed cur [i] s (s.modify i fun q => { q with parent := s.initproc }) := by
      refine ⟨moved, rfl, ?_, ?_, ?_, ?_⟩
      · intro j
        refine Or.inl ?_
        by_cases here : j = i
        · subst here
          simp
        · simp [here]
      · intro j
        by_cases here : j = i
        · subst here
          simp
        · simp [here]
      · intro j
        by_cases here : j = i
        · subst here
          simp
        · simp [here]
      · intro j
        by_cases here : j = i
        · subst here
          simp [child]
        · simp [here]
    split
    · obtain ⟨woken, calm⟩ := moved.wakeup1
        ((s.modify i fun q => { q with parent := s.initproc }).initproc.map Chan.proc)
      have keeps := Keeps.of_calm calm
      exact ⟨woken, keeps.initproc, fun j => (first.state j).trans (keeps.state j),
        fun j => (keeps.pgdir j).trans (first.pgdir j),
        fun j => (keeps.isthread j).trans (first.isthread j),
        fun j => (keeps.parent j).trans (first.parent j)⟩
    · exact first
  · rw [if_neg child]
    refine ⟨queues, rfl, fun _ => Or.inl rfl, fun _ => rfl, fun _ => rfl, ?_⟩
    intro j
    by_cases here : j = i
    · subst here
      simp [child]
    · simp [here]

theorem reparent_passed {cur : Nat} (is : List Nat) (queues : RunqInv s []) (notInit : s.initproc ≠ some cur) :
    Passed cur is s (is.foldl (reparentIn cur) s) := by
  induction is generalizing s with
  | nil => exact ⟨queues, rfl, fun _ => Or.inl rfl, fun _ => rfl, fun _ => rfl, fun j => by simp⟩
  | cons i is ih =>
    have one : Passed cur [i] s (reparentIn cur s i) := reparentIn_passed queues i
    have rest := ih one.queues (by rw [one.initproc]; exact notInit)
    refine ⟨rest.queues, rest.initproc.trans one.initproc, fun j => (one.state j).trans (rest.state j),
      fun j => (rest.pgdir j).trans (one.pgdir j), fun j => (rest.isthread j).trans (one.isthread j), ?_⟩
    intro j
    rw [List.foldl_cons, rest.parent j, one.parent j, one.initproc]
    by_cases child : (s.proc j).parent = some cur
    · by_cases here : j = i
      · subst here
        simp [child, notInit]
      · simp [child, here]
    · simp [child]

theorem exit_facts (inv : SchedInv s) {c cur : Nat} (hc : c < s.ncpu) (on : s.cpu c = some cur)
    (notInit : s.initproc ≠ some cur) :
    SchedInv (s.exit c cur) ∧ (s.exit c cur).initproc = s.initproc ∧
      ((s.exit c cur).proc cur).state = .zombie ∧
      (∀ j, j ≠ cur → (s.proc j).state.Shifts ((s.exit c cur).proc j).state) ∧
      (∀ j, ((s.exit c cur).proc j).pgdir = (s.proc j).pgdir) ∧
      (∀ j, ((s.exit c cur).proc j).isthread = (s.proc j).isthread) ∧
      ∀ j, ((s.exit c cur).proc j).parent =
        if j < NPROC ∧ (s.proc j).parent = some cur then s.initproc else (s.proc j).parent := by
  refine ⟨inv.exit hc on, ?_⟩
  simp only [Sched.exit]
  obtain ⟨queues, calm⟩ := inv.queues.wakeup1 ((s.proc cur).parent.map Chan.proc)
  have keeps := Keeps.of_calm calm
  generalize s.wakeup1 ((s.proc cur).parent.map Chan.proc) = s1 at *
  have passed : Passed cur (List.range NPROC) s1 ((List.range NPROC).foldl (reparentIn cur) s1) :=
    reparent_passed (List.range NPROC) queues (by rw [keeps.initproc]; exact notInit)
  generalize (List.range NPROC).foldl (Sched.reparentIn cur) s1 = s2 at *
  refine ⟨passed.initproc.trans keeps.initproc, by simp, ?_, ?_, ?_, ?_⟩
  · intro j ne
    simp only [setCpu_proc, modify_proc, ne, ne_eq, not_false_eq_true, Function.update_of_ne]
    exact (keeps.state j).trans (passed.state j)
  · intro j
    rw [← keeps.pgdir j, ← passed.pgdir j]
    by_cases here : j = cur
    · subst here
      simp
    · simp [here]
  · intro j
    rw [← keeps.isthread j, ← passed.isthread j]
    by_cases here : j = cur
    · subst here
      simp
    · simp [here]
  · intro j
    have parent := passed.parent j
    rw [keeps.parent j, keeps.initproc] at parent
    simp only [List.mem_range] at parent
    rw [← parent]
    by_cases here : j = cur
    · subst here
      simp
    · simp [here]

end Sched

structure PcInv (s : Sys) : Prop where
  sched : SchedInv s.sched
  active : ∀ p, s.pc p ≠ .user → (s.sched.proc p).state.Alive
  making : ∀ p np, (s.pc p).making = some np → np < NPROC ∧ (s.sched.proc np).state = .embryo
  unique : ∀ p q np, (s.pc p).making = some np → (s.pc q).making = some np → p = q
  boot : ∀ i, s.boot = .alloced i → i < NPROC ∧ (s.sched.proc i).state = .embryo ∧
    ∀ p, (s.pc p).making ≠ some i


namespace PcInv
variable {s : Sys}

/-- Changes of state that keep EMBRYOs and the living, and of pcs that build nothing. -/
theorem move (inv : PcInv s) {s' : Sys} (sched : SchedInv s'.sched) (boot : s'.boot = s.boot)
    (pc : ∀ p, s'.pc p = s.pc p ∨ (s'.pc p).making = none)
    (alive : ∀ p, s'.pc p ≠ .user → (s'.sched.proc p).state.Alive)
    (embryo : ∀ i, (∃ p, (s'.pc p).making = some i) ∨ s.boot = .alloced i →
      (s.sched.proc i).state = .embryo → (s'.sched.proc i).state = .embryo) : PcInv s' := by
  have back : ∀ p np, (s'.pc p).making = some np → (s.pc p).making = some np := by
    intro p np making
    rcases pc p with same | none
    · rw [← same]
      exact making
    · rw [none] at making
      cases making
  refine ⟨sched, alive, ?_, ?_, ?_⟩
  · intro p np making
    obtain ⟨lt, state⟩ := inv.making p np (back p np making)
    exact ⟨lt, embryo np (Or.inl ⟨p, making⟩) state⟩
  · intro p q np one two
    exact inv.unique p q np (back p np one) (back q np two)
  · intro i at'
    rw [boot] at at'
    obtain ⟨lt, state, apart⟩ := inv.boot i at'
    exact ⟨lt, embryo i (Or.inr at') state, fun p making => apart p (back p i making)⟩

theorem keeps (inv : PcInv s) {sched : Sched} (ok : SchedInv sched) (keeps : Keeps s.sched sched) :
    PcInv (s.withSched sched) := by
  refine inv.move ok rfl (fun _ => Or.inl rfl) ?_ ?_
  · intro p busy
    exact (keeps.state p).alive (inv.active p busy)
  · intro i _ state
    exact ((keeps.state i).fixed Procstate.embryo_dead).mpr state

theorem advance (inv : PcInv s) {s' : Sys} {cur np : Nat} (sched : SchedInv s'.sched)
    (boot : s'.boot = s.boot) (at' : (s.pc cur).making = some np) (next : (s'.pc cur).making = some np)
    (others : ∀ p, p ≠ cur → s'.pc p = s.pc p)
    (state : ∀ j, (s'.sched.proc j).state = (s.sched.proc j).state) : PcInv s' := by
  have same : ∀ p, (s'.pc p).making = (s.pc p).making := by
    intro p
    by_cases here : p = cur
    · rw [here, at', next]
    · rw [others p here]
  refine ⟨sched, ?_, ?_, ?_, ?_⟩
  · intro p busy
    rw [state p]
    refine inv.active p ?_
    by_cases here : p = cur
    · subst here
      intro idle
      rw [idle] at at'
      cases at'
    · rw [← others p here]
      exact busy
  · intro p i making
    rw [same p] at making
    rw [state i]
    exact inv.making p i making
  · intro p q i one two
    rw [same p] at one
    rw [same q] at two
    exact inv.unique p q i one two
  · intro i at''
    rw [boot] at at''
    rw [state i]
    obtain ⟨lt, embryo, apart⟩ := inv.boot i at''
    exact ⟨lt, embryo, fun p making => apart p (same p ▸ making)⟩

end PcInv

theorem Sys.setPc_pc (s : Sys) (p : Nat) (pc : Pc) (q : Nat) :
    (s.setPc p pc).pc q = if q = p then pc else s.pc q := by
  unfold Sys.setPc
  by_cases here : q = p
  · subst here
    simp
  · simp [here]

@[simp] theorem Sys.setPc_sched (s : Sys) (p : Nat) (pc : Pc) : (s.setPc p pc).sched = s.sched := rfl
@[simp] theorem Sys.withSched_sched (s : Sys) (sched : Sched) : (s.withSched sched).sched = sched := rfl
@[simp] theorem Sys.withSched_pc (s : Sys) (sched : Sched) : (s.withSched sched).pc = s.pc := rfl

namespace PcInv
variable {s s' : Sys} {joiner : Nat → Prop}

theorem setPc (inv : PcInv s) {sched : Sched} (ok : SchedInv sched) {cur : Nat} {pc : Pc}
    (run : (s.sched.proc cur).state.Alive) (none : pc.making = none)
    (state : ∀ j, (sched.proc j).state = (s.sched.proc j).state) {dirs : Finset Nat} {log : List Event} :
    PcInv ({ s with sched := sched, dirs := dirs, log := log }.setPc cur pc) := by
  refine inv.move ok rfl ?_ ?_ ?_
  · intro p
    rw [Sys.setPc_pc]
    split
    · exact Or.inr none
    · exact Or.inl rfl
  · intro p busy
    rw [Sys.setPc_pc] at busy
    change (sched.proc p).state.Alive
    rw [state p]
    split at busy
    · rename_i here
      rw [here]
      exact run
    · exact inv.active p busy
  · intro i _ embryo
    change (sched.proc i).state = .embryo
    rw [state i]
    exact embryo

theorem fill (inv : PcInv s) {cur np : Nat} {f : Proc → Proc} {next : Pc}
    (ok : SchedInv (s.sched.modify np f)) (at' : (s.pc cur).making = some np)
    (then' : next.making = some np) (state : (f (s.sched.proc np)).state = (s.sched.proc np).state)
    {dirs : Finset Nat} {log : List Event} :
    PcInv ({ s with sched := s.sched.modify np f, dirs := dirs, log := log }.setPc cur next) := by
  refine inv.advance ok rfl at' ?_ ?_ ?_
  · rw [Sys.setPc_pc, if_pos rfl]
    exact then'
  · intro p ne
    rw [Sys.setPc_pc, if_neg ne]
  · intro j
    by_cases here : j = np
    · subst here
      simpa using state
    · simp [here]

theorem finish (inv : PcInv s) {sched : Sched} (ok : SchedInv sched) {cur np : Nat}
    (at' : (s.pc cur).making = some np)
    (state : ∀ j, j ≠ np → (s.sched.proc j).state.Shifts (sched.proc j).state) :
    PcInv ((s.withSched sched).setPc cur .user) := by
  have ne : ∀ p i, p ≠ cur → (s.pc p).making = some i → i ≠ np := by
    rintro p i off making rfl
    exact off (inv.unique p cur i making at')
  have embryo := (inv.making cur np at').2
  refine inv.move ok rfl ?_ ?_ ?_
  · intro p
    rw [Sys.setPc_pc]
    split
    · exact Or.inr rfl
    · exact Or.inl rfl
  · intro p busy
    rw [Sys.setPc_pc] at busy
    split at busy
    · exact (busy rfl).elim
    · have alive := inv.active p busy
      refine (state p ?_).alive alive
      rintro rfl
      rw [embryo] at alive
      exact Procstate.embryo_dead alive
  · intro i who was
    have off : i ≠ np := by
      rcases who with ⟨p, making⟩ | boot
      · rw [Sys.setPc_pc] at making
        split at making
        · cases making
        · rename_i other
          exact ne p i other making
      · rintro rfl
        exact (inv.boot i boot).2.2 cur at'
    exact ((state i off).fixed Procstate.embryo_dead).mpr was

theorem launch_eq (inv : PcInv s) {cur np : Nat} (at' : (s.pc cur).making = some np) :
    s.launch cur np = (s.withSched (s.sched.setRunnable np)).setPc cur .user := by
  obtain ⟨lt, embryo⟩ := inv.making cur np at'
  have idle : s.pc np = .user := by
    by_contra busy
    have alive := inv.active np busy
    rw [embryo] at alive
    exact Procstate.embryo_dead alive
  have same : (s.withSched (s.sched.setRunnable np)).setPc np .user = s.withSched (s.sched.setRunnable np) := by
    unfold Sys.setPc
    have : Function.update s.pc np .user = s.pc := by
      rw [← idle]
      exact Function.update_eq_self np s.pc
    simp only [Sys.withSched_pc, this]
    rfl
  unfold Sys.launch
  rw [same]

theorem launch (inv : PcInv s) {cur np : Nat} (at' : (s.pc cur).making = some np) :
    PcInv (s.launch cur np) := by
  obtain ⟨lt, embryo⟩ := inv.making cur np at'
  obtain ⟨-, calm⟩ := inv.sched.queues.setRunnable lt (by rw [embryo]; decide) inv.sched.pos
  rw [inv.launch_eq at']
  refine inv.finish (inv.sched.setRunnable lt embryo) at' ?_
  intro j ne
  have := (Keeps.of_calm calm).state j
  simpa [ne] using this

theorem claim (inv : PcInv s) {cur np : Nat} {sched : Sched} {next : Pc}
    (run : (s.sched.proc cur).state = .running) (making : next.making = some np)
    (alloc : s.sched.allocproc = (some np, sched)) : PcInv ((s.withSched sched).setPc cur next) := by
  obtain ⟨lt, free, embryo, -, -, -, other, -⟩ := Sched.allocproc_some alloc
  have ok : SchedInv sched := by
    rcases inv.sched.allocproc with none | ⟨i, sched', some', ok, -⟩
    · rw [none] at alloc
      cases alloc
    · rw [some'] at alloc
      cases alloc
      exact ok
  have new : ∀ p, (s.pc p).making ≠ some np := by
    intro p old
    have := (inv.making p np old).2
    rw [free] at this
    cases this
  have ne : cur ≠ np := by
    rintro rfl
    rw [free] at run
    cases run
  have state : ∀ j, j ≠ np → (sched.proc j).state = (s.sched.proc j).state := fun j off => by rw [other j off]
  refine ⟨ok, ?_, ?_, ?_, ?_⟩
  · intro p busy
    rw [Sys.setPc_pc] at busy
    change (sched.proc p).state.Alive
    split at busy
    · rename_i here
      rw [here, state cur ne]
      exact Or.inr (Or.inr run)
    · have alive := inv.active p busy
      rw [state p]
      · exact alive
      · rintro rfl
        rw [free] at alive
        exact Procstate.unused_dead alive
  · intro p i at'
    rw [Sys.setPc_pc] at at'
    change i < NPROC ∧ (sched.proc i).state = .embryo
    split at at'
    · rw [making] at at'
      cases at'
      exact ⟨lt, embryo⟩
    · obtain ⟨lt', was⟩ := inv.making p i at'
      rw [state i]
      · exact ⟨lt', was⟩
      · rintro rfl
        exact new p at'
  · intro p q i one two
    rw [Sys.setPc_pc] at one two
    split at one
    · rename_i here
      rw [making] at one
      cases one
      split at two
      · rename_i here'
        rw [here, here']
      · exact (new q two).elim
    · split at two
      · rw [making] at two
        cases two
        exact (new p one).elim
      · exact inv.unique p q i one two
  · intro i boot
    obtain ⟨lt', was, apart⟩ := inv.boot i boot
    have off : i ≠ np := by
      rintro rfl
      rw [free] at was
      cases was
    change i < NPROC ∧ (sched.proc i).state = .embryo ∧ _
    rw [state i off]
    refine ⟨lt', was, ?_⟩
    intro p at'
    rw [Sys.setPc_pc] at at'
    split at at'
    · rw [making] at at'
      cases at'
      exact off rfl
    · exact apart p at'

theorem userinitAlloc (inv : PcInv s) {p : Nat} (kstack : Nat) {sched : Sched}
    (alloc : s.sched.allocproc = (some p, sched)) :
    PcInv { s with
      sched := { sched.modify p fun q => { q with kstack := kstack } with initproc := some p },
      boot := .alloced p } := by
  obtain ⟨lt, free, embryo, -, -, -, other, -⟩ := Sched.allocproc_some alloc
  have ok : SchedInv sched := by
    rcases inv.sched.allocproc with none | ⟨i, sched', some', ok, -⟩
    · rw [none] at alloc
      cases alloc
    · rw [some'] at alloc
      cases alloc
      exact ok
  have state : ∀ j, j ≠ p → ((sched.modify p fun q => { q with kstack := kstack }).proc j).state =
      (s.sched.proc j).state := by
    intro j ne
    simp [ne, other j ne]
  have new : ∀ q, (s.pc q).making ≠ some p := by
    intro q old
    have := (inv.making q p old).2
    rw [free] at this
    cases this
  obtain ⟨pos, ⟨q, queue⟩, cpus⟩ := ok.touch (i := p) (f := fun q => { q with kstack := kstack })
    rfl rfl rfl rfl rfl
  refine ⟨⟨pos, ⟨q, queue.queue, queue.member, queue.covers, queue.count, queue.range⟩,
    ⟨cpus.running, cpus.on, cpus.once⟩⟩, ?_, ?_, inv.unique, ?_⟩
  · intro i busy
    have alive := inv.active i busy
    change ((sched.modify p fun q => { q with kstack := kstack }).proc i).state.Alive
    rw [state i]
    · exact alive
    · rintro rfl
      rw [free] at alive
      exact Procstate.unused_dead alive
  · intro i np making
    obtain ⟨lt', was⟩ := inv.making i np making
    refine ⟨lt', (state np ?_).trans was⟩
    rintro rfl
    exact new i making
  · rintro i ⟨⟩
    refine ⟨lt, ?_, new⟩
    simpa using embryo

theorem userinitRun (inv : PcInv s) {p d : Nat} (boot : s.boot = .alloced p) :
    PcInv { (s.adopt d).withSched ((s.sched.modify p fun q =>
      { q with pgdir := d, sz := PGSIZE }).setRunnable p) with boot := .done } := by
  obtain ⟨lt, embryo, apart⟩ := inv.boot p boot
  have filled := inv.sched.touch (i := p) (f := fun q => { q with pgdir := d, sz := PGSIZE })
    rfl rfl rfl rfl rfl
  have embryo' : ((s.sched.modify p fun q => { q with pgdir := d, sz := PGSIZE }).proc p).state = .embryo := by
    simpa using embryo
  obtain ⟨-, calm⟩ := filled.queues.setRunnable lt (by rw [embryo']; decide) filled.pos
  have state : ∀ j, j ≠ p → (s.sched.proc j).state.Shifts
      (((s.sched.modify p fun q => { q with pgdir := d, sz := PGSIZE }).setRunnable p).proc j).state := by
    intro j ne
    have := (Keeps.of_calm calm).state j
    simpa [ne] using this
  refine ⟨filled.setRunnable lt embryo', ?_, ?_, inv.unique, ?_⟩
  · intro i busy
    have alive := inv.active i busy
    refine (state i ?_).alive alive
    rintro rfl
    rw [embryo] at alive
    exact Procstate.embryo_dead alive
  · intro i np making
    obtain ⟨lt', was⟩ := inv.making i np making
    refine ⟨lt', ((state np ?_).fixed Procstate.embryo_dead).mpr was⟩
    rintro rfl
    exact apart i making
  · rintro i ⟨⟩

theorem bury (inv : PcInv s) {cur p : Nat} {threads : Bool}
    (found : s.sched.zombieChild cur threads = some p) : PcInv (s.withSched (s.sched.reap p)) := by
  obtain ⟨-, -, zombie, -⟩ := Sched.zombieChild_some found
  have other : ∀ j, j ≠ p → (s.sched.reap p).proc j = s.sched.proc j := by
    intro j ne
    simp [Sched.reap, ne]
  refine inv.move (inv.sched.reap zombie) rfl (fun _ => Or.inl rfl) ?_ ?_
  · intro q busy
    have alive := inv.active q busy
    rw [Sys.withSched_sched, other q]
    · exact alive
    · rintro rfl
      rw [zombie] at alive
      exact Procstate.zombie_dead alive
  · intro i _ embryo
    rw [Sys.withSched_sched, other i]
    · exact embryo
    · rintro rfl
      rw [zombie] at embryo
      cases embryo

theorem step (inv : PcInv s) (m : Move joiner s s') : PcInv s' := by
  have running : ∀ {p}, (s.sched.proc p).state = .running → (s.sched.proc p).state.Alive :=
    fun run => Or.inr (Or.inr run)
  cases m with
  | schedule sched ok keeps => exact inv.keeps ok keeps
  | userinitAlloc p kstack sched boot alloc => exact inv.userinitAlloc kstack alloc
  | userinitRun p d boot fresh => exact inv.userinitRun boot
  | check cur pc run at' next few =>
    refine inv.setPc inv.sched (running run) ?_ (fun _ => rfl)
    rcases next with rfl | rfl
    · rfl
    · rfl
  | giveUp cur run slot empty => exact inv.setPc inv.sched (running run) rfl (fun _ => rfl)
  | claim cur np sched next run at' alloc =>
    refine inv.claim run ?_ alloc
    rcases at' with ⟨rfl, -⟩ | ⟨⟨stack, rfl⟩, -⟩
    · rfl
    · rfl
  | release cur np f run at' shape =>
    have making : (s.pc cur).making = some np := by
      rcases at' with here | here | ⟨stack, here⟩
      · rw [here]; rfl
      · rw [here]; rfl
      · rw [here]; rfl
    have embryo := (inv.making cur np making).2
    have range := inv.sched.queues.range np
    have ok : SchedInv (s.sched.modify np f) := by
      rcases shape with rfl | rfl
      · exact inv.sched.change (by rw [embryo]; decide) (by simp) (by simp [embryo]) range
      · exact inv.sched.change (by rw [embryo]; decide) (by simp) (by simp [embryo]) range
    exact inv.finish ok making fun j ne => Or.inl (by simp [ne])
  | stack cur np kstack next run at' =>
    have ok := inv.sched.touch (i := np) (f := fun p => { p with kstack := kstack }) rfl rfl rfl rfl rfl
    rcases at' with ⟨here, rfl⟩ | ⟨stack, here, rfl⟩
    · exact inv.fill ok (by rw [here]; rfl) rfl rfl
    · exact inv.fill ok (by rw [here]; rfl) rfl rfl
  | cow cur np d run at' fresh =>
    have ok := inv.sched.touch (i := np) (f := fun p => { p with pgdir := d }) rfl rfl rfl rfl rfl
    exact inv.fill ok (by rw [at']; rfl) rfl rfl
  | share cur np stack run at' =>
    have ok := inv.sched.touch (i := np) (f := fun p => { p with pgdir := (s.sched.proc cur).pgdir })
      rfl rfl rfl rfl rfl
    exact inv.fill ok (by rw [at']; rfl) rfl rfl
  | link cur np isthread ustack next run at' =>
    have ends : (s.pc cur).making = some np ∧ next.making = some np := by
      rcases at' with ⟨here, rfl, -⟩ | ⟨here, rfl, -⟩
      · exact ⟨by rw [here]; rfl, rfl⟩
      · exact ⟨by rw [here]; rfl, rfl⟩
    have embryo := (inv.making cur np ends.1).2
    have base := (inv.sched.queues.range cur).2.2
    refine inv.fill (inv.sched.change (by rw [embryo]; decide) (by simp [embryo]) (by simp) ?_) ends.1 ends.2 rfl
    exact ⟨(inv.sched.queues.range np).1, base, base⟩
  | launch cur np run at' =>
    refine inv.launch ?_
    rcases at' with here | here
    · rw [here]; rfl
    · rw [here]; rfl
  | load cur d run at' fresh => exact inv.setPc inv.sched (running run) rfl (fun _ => rfl)
  | commit cur d sz run at' =>
    have ok := inv.sched.touch (i := cur) (f := fun p => { p with pgdir := d, sz := sz }) rfl rfl rfl rfl rfl
    refine inv.setPc ok (running run) rfl ?_
    intro j
    by_cases here : j = cur
    · subst here
      simp
    · simp [here]
  | free cur old run at' => exact inv.setPc inv.sched (running run) rfl (fun _ => rfl)
  | exit c cur hc on at' notInit =>
    obtain ⟨ok, -, zombie, others, -⟩ := Sched.exit_facts inv.sched hc on notInit
    have run := (inv.sched.cpus.on c hc cur on).2
    generalize s.sched.exit c cur = sched at *
    refine inv.move ok rfl (fun _ => Or.inl rfl) ?_ ?_
    · intro p busy
      have ne : p ≠ cur := by
        rintro rfl
        exact busy at'
      exact (others p ne).alive (inv.active p busy)
    · intro i _ embryo
      have ne : i ≠ cur := by
        rintro rfl
        rw [run] at embryo
        cases embryo
      exact ((others i ne).fixed Procstate.embryo_dead).mpr embryo
  | reap cur p run at' found =>
    have buried := inv.bury found
    split
    · exact ⟨buried.sched, buried.active, buried.making, buried.unique, buried.boot⟩
    · exact buried
  | reapThread cur p run at' found may => exact inv.bury found

theorem init (first : s.Init) : PcInv s := by
  obtain ⟨pos, -, proc, runq, cpu, -, pc, boot, -, -⟩ := first
  have level : (0 : Nat) < NPRIO := by decide
  refine ⟨⟨pos, ⟨fun _ _ => [], ?_, ?_, ?_, ?_, ?_⟩, ?_, ?_, ?_⟩, ?_, ?_, ?_, ?_⟩
  · intro c _ k _
    rw [runq c]
    exact LinkedQueue.IsQueue.empty _
  · intro c _ k _ i member
    cases member
  · intro i _ run
    rw [proc i] at run
    cases run
  · intro c _
    rw [runq c]
    simp
  · intro i
    rw [proc i]
    exact ⟨pos, level, level⟩
  · intro i _ run
    rw [proc i] at run
    cases run
  · intro c _ i on
    rw [cpu c] at on
    cases on
  · intro c _ c' _ i on
    rw [cpu c] at on
    cases on
  · intro p busy
    exact (busy (pc p)).elim
  · intro p np making
    rw [pc p] at making
    cases making
  · intro p q np making
    rw [pc p] at making
    cases making
  · intro i at'
    rw [boot] at at'
    cases at'

theorem reachable {guard : Sys → Act → Prop} (reach : Runs.Reachable Sys.Init Sys.step guard s) : PcInv s := by
  refine Runs.Reachable.invariant (P := PcInv) (fun _ first => init first) ?_ reach
  intro s a s' inv _ done
  have move : Move (fun _ => True) s s' := Sys.step_move inv.sched done fun _ _ _ _ => trivial
  exact inv.step move

end PcInv

end Xv6
