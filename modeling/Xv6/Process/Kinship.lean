import Xv6.Process.Creation

/-!
Parents and threads. A process whose parent is not init shares that parent's
directory if it is a thread, a parent is alive, and init stays. A slot under
construction has no directory until fork or clone gives it one.
-/
namespace Xv6

def Pc.blank : Pc → Option Nat
  | .forkAlloced np | .forkStacked np | .cloneAlloced np _ | .cloneStacked np _ => some np
  | _ => none

def Pc.built : Pc → Option Nat
  | .forkCowed np | .forkLinked np | .cloneShared np _ | .cloneLinked np => some np
  | _ => none

/-- All processes but i keep their directory, parent and kind, and stay alive or dead. -/
structure Others (i : Nat) (s s' : Sched) : Prop where
  state : ∀ j, j ≠ i → (s.proc j).state.Shifts (s'.proc j).state
  pgdir : ∀ j, j ≠ i → (s'.proc j).pgdir = (s.proc j).pgdir
  parent : ∀ j, j ≠ i → (s'.proc j).parent = (s.proc j).parent
  isthread : ∀ j, j ≠ i → (s'.proc j).isthread = (s.proc j).isthread

namespace Others
variable {i : Nat} {s s' s'' : Sched}

theorem of_eq (same : ∀ j, j ≠ i → s'.proc j = s.proc j) : Others i s s' := by
  refine ⟨fun j ne => Or.inl ?_, fun j ne => ?_, fun j ne => ?_, fun j ne => ?_⟩
  all_goals rw [same j ne]

theorem modify (s : Sched) (i : Nat) (f : Proc → Proc) : Others i s (s.modify i f) :=
  of_eq fun j ne => by simp [ne]

theorem keeps (first : Others i s s') (second : Keeps s' s'') : Others i s s'' :=
  ⟨fun j ne => (first.state j ne).trans (second.state j), fun j ne => (second.pgdir j).trans (first.pgdir j ne),
    fun j ne => (second.parent j).trans (first.parent j ne),
    fun j ne => (second.isthread j).trans (first.isthread j ne)⟩

theorem others (first : Others i s s') (second : Others i s' s'') : Others i s s'' :=
  ⟨fun j ne => (first.state j ne).trans (second.state j ne),
    fun j ne => (second.pgdir j ne).trans (first.pgdir j ne),
    fun j ne => (second.parent j ne).trans (first.parent j ne),
    fun j ne => (second.isthread j ne).trans (first.isthread j ne)⟩

theorem unused (others : Others i s s') {j : Nat} (ne : j ≠ i) :
    (s'.proc j).state = .unused ↔ (s.proc j).state = .unused :=
  (others.state j ne).fixed Procstate.unused_dead

theorem embryo (others : Others i s s') {j : Nat} (ne : j ≠ i) :
    (s'.proc j).state = .embryo ↔ (s.proc j).state = .embryo :=
  (others.state j ne).fixed Procstate.embryo_dead

theorem setRunnable (inv : SchedInv s) (lt : i < NPROC) (embryo : (s.proc i).state = .embryo) :
    Others i s (s.setRunnable i) ∧ (s.setRunnable i).initproc = s.initproc ∧
      ((s.setRunnable i).proc i).state.Alive ∧ ((s.setRunnable i).proc i).pgdir = (s.proc i).pgdir ∧
      ((s.setRunnable i).proc i).parent = (s.proc i).parent ∧
      ((s.setRunnable i).proc i).isthread = (s.proc i).isthread := by
  obtain ⟨-, calm⟩ := inv.queues.setRunnable lt (by rw [embryo]; decide) inv.pos
  have keeps := Keeps.of_calm calm
  refine ⟨(modify s i _).keeps keeps, keeps.initproc, ?_, ?_, ?_, ?_⟩
  · exact (keeps.state i).alive (Or.inr (Or.inl (by simp)))
  · rw [keeps.pgdir i]
    simp
  · rw [keeps.parent i]
    simp
  · rw [keeps.isthread i]
    simp

end Others

def Pc.exclusive : Pc → Bool
  | .execChecked | .execLoaded _ => true
  | _ => false

/-- A process that exec has checked is the only user of its directory. -/
def Sys.Alone (s : Sys) : Prop :=
  ∀ p, (s.pc p).exclusive = true → ∀ j, (s.sched.proc j).state ≠ .unused →
    (s.sched.proc j).pgdir = (s.sched.proc p).pgdir → j = p

structure KinInv (s : Sys) : Prop where
  outside : ∀ i, NPROC ≤ i → (s.sched.proc i).state = .unused
  fresh : ∀ i, (s.sched.proc i).state = .unused → (s.sched.proc i).parent = none
  parent : ∀ i p, (s.sched.proc i).state ≠ .unused → (s.sched.proc i).parent = some p →
    (s.sched.proc p).state.Alive ∧ p ≠ i
  thread : ∀ i p, (s.sched.proc i).state ≠ .unused → (s.sched.proc i).isthread = true →
    (s.sched.proc i).parent = some p → s.sched.initproc ≠ some p →
    (s.sched.proc p).pgdir = (s.sched.proc i).pgdir
  early : s.boot ≠ .done → ∀ i, ¬ (s.sched.proc i).state.Alive
  init : s.boot = .done → ∃ i, s.sched.initproc = some i ∧ (s.sched.proc i).state.Alive ∧
    (s.sched.proc i).parent = none
  boot : ∀ i, s.boot = .alloced i → s.sched.initproc = some i ∧ (s.sched.proc i).parent = none ∧
    (s.sched.proc i).pgdir = 0 ∧ (s.sched.proc i).isthread = false
  dir : ∀ i, (s.sched.proc i).state ≠ .unused → (s.sched.proc i).state ≠ .embryo →
    (s.sched.proc i).pgdir ≠ 0
  blank : ∀ p np, (s.pc p).blank = some np → (s.sched.proc np).pgdir = 0 ∧
    (s.sched.proc np).parent = none ∧ (s.sched.proc np).isthread = false
  built : ∀ p np, (s.pc p).built = some np → (s.sched.proc np).pgdir ≠ 0
  shared : ∀ p np stack, s.pc p = .cloneShared np stack →
    (s.sched.proc np).pgdir = (s.sched.proc p).pgdir

theorem Pc.making_of_blank {pc : Pc} {np : Nat} (h : pc.blank = some np) : pc.making = some np := by
  cases pc <;> simp_all [Pc.blank, Pc.making]

theorem Pc.making_of_built {pc : Pc} {np : Nat} (h : pc.built = some np) : pc.making = some np := by
  cases pc <;> simp_all [Pc.built, Pc.making]

namespace KinInv
variable {s s' : Sys} {joiner : Nat → Prop}

/-- The invariant depends on kinship and on which slots are under construction only. -/
theorem congr (inv : KinInv s)
    (state : ∀ i, (s.sched.proc i).state.Shifts (s'.sched.proc i).state)
    (pgdir : ∀ i, (s'.sched.proc i).pgdir = (s.sched.proc i).pgdir)
    (parent : ∀ i, (s'.sched.proc i).parent = (s.sched.proc i).parent)
    (isthread : ∀ i, (s'.sched.proc i).isthread = (s.sched.proc i).isthread)
    (initproc : s'.sched.initproc = s.sched.initproc) (boot : s'.boot = s.boot)
    (blank : ∀ p np, (s'.pc p).blank = some np → (s.pc p).blank = some np)
    (built : ∀ p np, (s'.pc p).built = some np → (s.pc p).built = some np)
    (shared : ∀ p np stack, s'.pc p = .cloneShared np stack → s.pc p = .cloneShared np stack) :
    KinInv s' := by
  have unused : ∀ i, (s'.sched.proc i).state = .unused ↔ (s.sched.proc i).state = .unused :=
    fun i => (state i).fixed Procstate.unused_dead
  have embryo : ∀ i, (s'.sched.proc i).state = .embryo ↔ (s.sched.proc i).state = .embryo :=
    fun i => (state i).fixed Procstate.embryo_dead
  have alive : ∀ i, (s'.sched.proc i).state.Alive ↔ (s.sched.proc i).state.Alive := by
    intro i
    rcases state i with same | both
    · rw [same]
    · exact ⟨fun _ => both.1, fun _ => both.2⟩
  constructor
  · intro i high
    exact (unused i).mpr (inv.outside i high)
  · intro i free
    rw [parent i]
    exact inv.fresh i ((unused i).mp free)
  · intro i p used child
    rw [parent i] at child
    obtain ⟨living, ne⟩ := inv.parent i p (fun free => used ((unused i).mpr free)) child
    exact ⟨(alive p).mpr living, ne⟩
  · intro i p used thread child notInit
    rw [isthread i] at thread
    rw [parent i] at child
    rw [initproc] at notInit
    rw [pgdir p, pgdir i]
    exact inv.thread i p (fun free => used ((unused i).mpr free)) thread child notInit
  · intro early i living
    rw [boot] at early
    exact inv.early early i ((alive i).mp living)
  · intro done
    rw [boot] at done
    obtain ⟨i, first, living, root⟩ := inv.init done
    exact ⟨i, initproc.trans first, (alive i).mpr living, (parent i).trans root⟩
  · intro i at'
    rw [boot] at at'
    rw [initproc, parent i, pgdir i, isthread i]
    exact inv.boot i at'
  · intro i used grown
    rw [pgdir i]
    exact inv.dir i (fun free => used ((unused i).mpr free)) (fun young => grown ((embryo i).mpr young))
  · intro p np at'
    rw [pgdir np, parent np, isthread np]
    exact inv.blank p np (blank p np at')
  · intro p np at'
    rw [pgdir np]
    exact inv.built p np (built p np at')
  · intro p np stack at'
    rw [pgdir np, pgdir p]
    exact inv.shared p np stack (shared p np stack at')

theorem booted (inv : KinInv s) {cur : Nat} (run : (s.sched.proc cur).state = .running) : s.boot = .done := by
  by_contra early
  exact inv.early early cur (Or.inr (Or.inr run))

theorem childless (inv : KinInv s) {i : Nat} (dead : ¬ (s.sched.proc i).state.Alive) {j : Nat}
    (used : (s.sched.proc j).state ≠ .unused) : (s.sched.proc j).parent ≠ some i :=
  fun child => dead (inv.parent j i used child).1

theorem slot (inv : KinInv s) (pcs : PcInv s) (cur i : Nat) (done : s.boot = .done) (lt : i < NPROC)
    (dead : ¬ (s.sched.proc i).state.Alive) (others : Others i s.sched s'.sched)
    (initproc : s'.sched.initproc = s.sched.initproc) (boot : s'.boot = s.boot)
    (pc : ∀ p, p ≠ cur → s'.pc p = s.pc p) (free : ∀ p, p ≠ cur → (s.pc p).making ≠ some i)
    (orphan : (s'.sched.proc i).state = .unused → (s'.sched.proc i).parent = none)
    (child : ∀ p, (s'.sched.proc i).parent = some p → p ≠ i ∧ (s.sched.proc p).state.Alive ∧
      ((s'.sched.proc i).isthread = true → s.sched.initproc ≠ some p →
        (s.sched.proc p).pgdir = (s'.sched.proc i).pgdir))
    (grown : (s'.sched.proc i).state ≠ .unused → (s'.sched.proc i).state ≠ .embryo →
      (s'.sched.proc i).pgdir ≠ 0)
    (blank : ∀ np, (s'.pc cur).blank = some np → np = i ∧ (s'.sched.proc i).pgdir = 0 ∧
      (s'.sched.proc i).parent = none ∧ (s'.sched.proc i).isthread = false)
    (built : ∀ np, (s'.pc cur).built = some np → np = i ∧ (s'.sched.proc i).pgdir ≠ 0)
    (shared : ∀ np stack, s'.pc cur = .cloneShared np stack → np = i ∧ cur ≠ i ∧
      (s'.sched.proc i).pgdir = (s.sched.proc cur).pgdir) : KinInv s' := by
  have elsewhere : ∀ p np, p ≠ cur → (s'.pc p).making = some np → np ≠ i := by
    rintro p np off making rfl
    rw [pc p off] at making
    exact free p off making
  constructor
  · intro j high
    have ne : j ≠ i := by omega
    exact (others.unused ne).mpr (inv.outside j high)
  · intro j unused
    by_cases here : j = i
    · subst here
      exact orphan unused
    · rw [others.parent j here]
      exact inv.fresh j ((others.unused here).mp unused)
  · intro j p used parent
    by_cases here : j = i
    · subst here
      obtain ⟨ne, alive, -⟩ := child p parent
      exact ⟨(others.state p ne).alive alive, ne⟩
    · have used' : (s.sched.proc j).state ≠ .unused := fun unused => used ((others.unused here).mpr unused)
      rw [others.parent j here] at parent
      obtain ⟨alive, ne⟩ := inv.parent j p used' parent
      have off : p ≠ i := by
        rintro rfl
        exact dead alive
      exact ⟨(others.state p off).alive alive, ne⟩
  · intro j p used thread parent notInit
    rw [initproc] at notInit
    by_cases here : j = i
    · subst here
      obtain ⟨ne, -, same⟩ := child p parent
      rw [others.pgdir p ne]
      exact same thread notInit
    · have used' : (s.sched.proc j).state ≠ .unused := fun unused => used ((others.unused here).mpr unused)
      rw [others.parent j here] at parent
      rw [others.isthread j here] at thread
      have off : p ≠ i := by
        rintro rfl
        exact inv.childless dead used' parent
      rw [others.pgdir j here, others.pgdir p off]
      exact inv.thread j p used' thread parent notInit
  · intro early
    rw [boot] at early
    exact (early done).elim
  · intro _
    obtain ⟨j, first, alive, root⟩ := inv.init done
    have off : j ≠ i := by
      rintro rfl
      exact dead alive
    exact ⟨j, initproc.trans first, (others.state j off).alive alive, (others.parent j off).trans root⟩
  · intro j at'
    rw [boot, done] at at'
    cases at'
  · intro j used grew
    by_cases here : j = i
    · subst here
      exact grown used grew
    · rw [others.pgdir j here]
      exact inv.dir j (fun unused => used ((others.unused here).mpr unused))
        (fun embryo => grew ((others.embryo here).mpr embryo))
  · intro p np at'
    by_cases here : p = cur
    · subst here
      obtain ⟨rfl, facts⟩ := blank np at'
      exact facts
    · have off := elsewhere p np here (Pc.making_of_blank at')
      rw [pc p here] at at'
      rw [others.pgdir np off, others.parent np off, others.isthread np off]
      exact inv.blank p np at'
  · intro p np at'
    by_cases here : p = cur
    · subst here
      obtain ⟨rfl, fact⟩ := built np at'
      exact fact
    · have off := elsewhere p np here (Pc.making_of_built at')
      rw [pc p here] at at'
      rw [others.pgdir np off]
      exact inv.built p np at'
  · intro p np stack at'
    by_cases here : p = cur
    · subst here
      obtain ⟨rfl, ne, same⟩ := shared np stack at'
      rw [others.pgdir p ne]
      exact same
    · have off := elsewhere p np here (by rw [at']; rfl)
      rw [pc p here] at at'
      have alive := pcs.active p (by rw [at']; simp)
      have off' : p ≠ i := by
        rintro rfl
        exact dead alive
      rw [others.pgdir np off, others.pgdir p off']
      exact inv.shared p np stack at'

theorem setPc (inv : KinInv s) {cur : Nat} {pc : Pc} (blank : pc.blank = none) (built : pc.built = none)
    (dirs : Finset Nat) (log : List Event) : KinInv ({ s with dirs := dirs, log := log }.setPc cur pc) := by
  refine inv.congr (fun _ => Or.inl rfl) (fun _ => rfl) (fun _ => rfl) (fun _ => rfl) rfl rfl ?_ ?_ ?_
  · intro p np at'
    rw [Sys.setPc_pc] at at'
    split at at'
    · rw [blank] at at'
      cases at'
    · exact at'
  · intro p np at'
    rw [Sys.setPc_pc] at at'
    split at at'
    · rw [built] at at'
      cases at'
    · exact at'
  · intro p np stack at'
    rw [Sys.setPc_pc] at at'
    split at at'
    · rw [at'] at built
      cases built
    · exact at'

theorem claim (inv : KinInv s) (pcs : PcInv s) {cur np : Nat} {sched : Sched} {next : Pc}
    (run : (s.sched.proc cur).state = .running) (blank : next.blank = some np) (built : next.built = none)
    (alloc : s.sched.allocproc = (some np, sched)) : KinInv ((s.withSched sched).setPc cur next) := by
  obtain ⟨lt, free, embryo, pgdir, isthread, parent, other, initproc⟩ := Sched.allocproc_some alloc
  have orphan : (sched.proc np).parent = none := parent.trans (inv.fresh np free)
  refine inv.slot pcs cur np (inv.booted run) lt ?_ (Others.of_eq other) initproc rfl ?_ ?_ ?_ ?_
    ?_ ?_ ?_ ?_
  · rw [free]
    exact Procstate.unused_dead
  · intro p ne
    rw [Sys.setPc_pc, if_neg ne]
    rfl
  · intro p _ making
    have := (pcs.making p np making).2
    rw [free] at this
    cases this
  · intro _
    exact orphan
  · intro p child
    rw [Sys.setPc_sched, Sys.withSched_sched, orphan] at child
    cases child
  · intro _ grown
    exact (grown embryo).elim
  · intro i at'
    rw [Sys.setPc_pc, if_pos rfl, blank] at at'
    cases at'
    exact ⟨rfl, pgdir, orphan, isthread⟩
  · intro i at'
    rw [Sys.setPc_pc, if_pos rfl, built] at at'
    cases at'
  · intro i stack at'
    rw [Sys.setPc_pc, if_pos rfl] at at'
    rw [at'] at built
    cases built

theorem fill (inv : KinInv s) (pcs : PcInv s) {cur np : Nat} {sched : Sched} {next : Pc}
    {dirs : Finset Nat} {log : List Event} (run : (s.sched.proc cur).state = .running)
    (making : (s.pc cur).making = some np) (others : Others np s.sched sched)
    (initproc : sched.initproc = s.sched.initproc)
    (orphan : (sched.proc np).state = .unused → (sched.proc np).parent = none)
    (child : ∀ p, (sched.proc np).parent = some p → p ≠ np ∧ (s.sched.proc p).state.Alive ∧
      ((sched.proc np).isthread = true → s.sched.initproc ≠ some p →
        (s.sched.proc p).pgdir = (sched.proc np).pgdir))
    (grown : (sched.proc np).state ≠ .unused → (sched.proc np).state ≠ .embryo → (sched.proc np).pgdir ≠ 0)
    (blank : next.blank = none) (built : ∀ i, next.built = some i → i = np ∧ (sched.proc np).pgdir ≠ 0)
    (shared : ∀ i stack, next = .cloneShared i stack →
      (sched.proc np).pgdir = (s.sched.proc cur).pgdir) :
    KinInv ({ s with sched := sched, dirs := dirs, log := log }.setPc cur next) := by
  obtain ⟨lt, embryo⟩ := pcs.making cur np making
  refine inv.slot pcs cur np (inv.booted run) lt ?_ others initproc rfl ?_ ?_ orphan child grown
    ?_ ?_ ?_
  · rw [embryo]
    exact Procstate.embryo_dead
  · intro p ne
    rw [Sys.setPc_pc, if_neg ne]
  · intro p ne other
    exact ne (pcs.unique p cur np other making)
  · intro i at'
    rw [Sys.setPc_pc, if_pos rfl, blank] at at'
    cases at'
  · intro i at'
    rw [Sys.setPc_pc, if_pos rfl] at at'
    exact built i at'
  · intro i stack at'
    rw [Sys.setPc_pc, if_pos rfl] at at'
    refine ⟨(built i (by rw [at']; rfl)).1, ?_, shared i stack at'⟩
    rintro rfl
    rw [run] at embryo
    cases embryo

/-- exec's commit: only the directory of cur changes, and nobody shared the old one. -/
theorem commit (inv : KinInv s) (pcs : PcInv s) (alone : s.Alone) {cur : Nat}
    (run : (s.sched.proc cur).state = .running) (at' : (s.pc cur).exclusive = true)
    (state : ∀ j, (s'.sched.proc j).state = (s.sched.proc j).state)
    (parent : ∀ j, (s'.sched.proc j).parent = (s.sched.proc j).parent)
    (isthread : ∀ j, (s'.sched.proc j).isthread = (s.sched.proc j).isthread)
    (pgdir : ∀ j, j ≠ cur → (s'.sched.proc j).pgdir = (s.sched.proc j).pgdir)
    (new : (s'.sched.proc cur).pgdir ≠ 0)
    (initproc : s'.sched.initproc = s.sched.initproc) (boot : s'.boot = s.boot)
    (pc : ∀ p, p ≠ cur → s'.pc p = s.pc p) (idle : (s'.pc cur).making = none) : KinInv s' := by
  have back : ∀ p np, (s'.pc p).making = some np → p ≠ cur ∧ np ≠ cur ∧ s'.pc p = s.pc p := by
    intro p np making
    have other : p ≠ cur := by
      rintro rfl
      rw [idle] at making
      cases making
    refine ⟨other, ?_, pc p other⟩
    rintro rfl
    rw [pc p other] at making
    have := (pcs.making p np making).2
    rw [run] at this
    cases this
  constructor
  · intro j high
    rw [state j]
    exact inv.outside j high
  · intro j free
    rw [state j] at free
    rw [parent j]
    exact inv.fresh j free
  · intro j p used child
    rw [state j] at used
    rw [parent j] at child
    rw [state p]
    exact inv.parent j p used child
  · intro j p used thread child notInit
    rw [state j] at used
    rw [parent j] at child
    rw [isthread j] at thread
    rw [initproc] at notInit
    have same := inv.thread j p used thread child notInit
    obtain ⟨alive, ne⟩ := inv.parent j p used child
    have used' : (s.sched.proc p).state ≠ .unused := fun free => Procstate.unused_dead (free ▸ alive)
    have offParent : p ≠ cur := by
      rintro rfl
      exact ne (alone p at' j used same.symm).symm
    have offChild : j ≠ cur := by
      rintro rfl
      exact ne (alone j at' p used' same)
    rw [pgdir p offParent, pgdir j offChild]
    exact same
  · intro early j
    rw [boot] at early
    rw [state j]
    exact inv.early early j
  · intro done
    rw [boot] at done
    obtain ⟨i, first, alive, root⟩ := inv.init done
    exact ⟨i, initproc.trans first, state i ▸ alive, (parent i).trans root⟩
  · intro i early
    rw [boot, inv.booted run] at early
    cases early
  · intro j used grown
    by_cases here : j = cur
    · subst here
      exact new
    · rw [state j] at used grown
      rw [pgdir j here]
      exact inv.dir j used grown
  · intro p np at''
    obtain ⟨-, off, same⟩ := back p np (Pc.making_of_blank at'')
    rw [pgdir np off, parent np, isthread np]
    exact inv.blank p np (same ▸ at'')
  · intro p np at''
    obtain ⟨-, off, same⟩ := back p np (Pc.making_of_built at'')
    rw [pgdir np off]
    exact inv.built p np (same ▸ at'')
  · intro p np stack at''
    obtain ⟨other, off, same⟩ := back p np (by rw [at'']; rfl)
    rw [pgdir np off, pgdir p other]
    exact inv.shared p np stack (same ▸ at'')

theorem exit (inv : KinInv s) (pcs : PcInv s) {c cur : Nat} (hc : c < s.sched.ncpu)
    (on : s.sched.cpu c = some cur) (notInit : s.sched.initproc ≠ some cur) :
    KinInv (s.withSched (s.sched.exit c cur)) := by
  have run := (pcs.sched.cpus.on c hc cur on).2
  have done := inv.booted run
  obtain ⟨first, isFirst, living, root⟩ := inv.init done
  obtain ⟨-, initproc, zombie, others, pgdir, isthread, parent⟩ := Sched.exit_facts pcs.sched hc on notInit
  generalize s.sched.exit c cur = sched at *
  have unused : ∀ j, (sched.proc j).state = .unused ↔ (s.sched.proc j).state = .unused := by
    intro j
    by_cases here : j = cur
    · subst here
      rw [zombie, run]
      simp
    · exact (others j here).fixed Procstate.unused_dead
  have embryo : ∀ j, (sched.proc j).state = .embryo ↔ (s.sched.proc j).state = .embryo := by
    intro j
    by_cases here : j = cur
    · subst here
      rw [zombie, run]
      simp
    · exact (others j here).fixed Procstate.embryo_dead
  have notCur : first ≠ cur := by
    rintro rfl
    exact notInit isFirst
  have living' : (sched.proc first).state.Alive := (others first notCur).alive living
  -- A used process now has its old parent, which is not cur, or init.
  have heir : ∀ j p, (s.sched.proc j).state ≠ .unused → (sched.proc j).parent = some p →
      p = first ∧ (s.sched.proc j).parent = some cur ∨ p ≠ cur ∧ (s.sched.proc j).parent = some p := by
    intro j p used child
    rw [parent j] at child
    split at child
    · rename_i orphan
      rw [isFirst] at child
      exact Or.inl ⟨(Option.some.inj child).symm, orphan.2⟩
    · rename_i other
      refine Or.inr ⟨?_, child⟩
      rintro rfl
      refine other ⟨?_, child⟩
      by_contra high
      exact used (inv.outside j (Nat.not_lt.mp high))
  constructor
  · intro j high
    exact (unused j).mpr (inv.outside j high)
  · intro j free
    change (sched.proc j).parent = none
    have was := inv.fresh j ((unused j).mp free)
    rw [parent j, was]
    simp
  · intro j p used child
    have used' : (s.sched.proc j).state ≠ .unused := fun free => used ((unused j).mpr free)
    rcases heir j p used' child with ⟨rfl, was⟩ | ⟨ne, was⟩
    · refine ⟨living', ?_⟩
      rintro rfl
      rw [root] at was
      cases was
    · obtain ⟨alive, off⟩ := inv.parent j p used' was
      exact ⟨(others p ne).alive alive, off⟩
  · intro j p used thread child other
    change (sched.proc p).pgdir = (sched.proc j).pgdir
    have used' : (s.sched.proc j).state ≠ .unused := fun free => used ((unused j).mpr free)
    rw [Sys.withSched_sched, initproc] at other
    rw [Sys.withSched_sched, isthread j] at thread
    rcases heir j p used' child with ⟨rfl, -⟩ | ⟨-, was⟩
    · exact (other isFirst).elim
    · rw [pgdir p, pgdir j]
      exact inv.thread j p used' thread was other
  · intro early
    exact (early done).elim
  · intro _
    refine ⟨first, initproc.trans isFirst, living', ?_⟩
    change (sched.proc first).parent = none
    rw [parent first, root]
    simp
  · intro i early
    change s.boot = .alloced i at early
    rw [done] at early
    cases early
  · intro j used grown
    change (sched.proc j).pgdir ≠ 0
    rw [pgdir j]
    exact inv.dir j (fun free => used ((unused j).mpr free)) (fun young => grown ((embryo j).mpr young))
  · intro p np making
    obtain ⟨zero, orphan, kind⟩ := inv.blank p np making
    change (sched.proc np).pgdir = 0 ∧ (sched.proc np).parent = none ∧ (sched.proc np).isthread = false
    rw [pgdir np, parent np, isthread np, orphan]
    exact ⟨zero, by simp, kind⟩
  · intro p np making
    change (sched.proc np).pgdir ≠ 0
    rw [pgdir np]
    exact inv.built p np making
  · intro p np stack here
    change (sched.proc np).pgdir = (sched.proc p).pgdir
    rw [pgdir np, pgdir p]
    exact inv.shared p np stack here

theorem idle (inv : KinInv s) (pcs : PcInv s) (early : s.boot ≠ .done) (p : Nat) : s.pc p = .user := by
  by_contra busy
  exact inv.early early p (pcs.active p busy)

theorem userinit (inv : KinInv s) (pcs : PcInv s) {p : Nat} (early : s.boot ≠ .done) (lt : p < NPROC)
    (others : Others p s.sched s'.sched) (pc : s'.pc = s.pc) (orphan : (s'.sched.proc p).parent = none)
    (dead : s'.boot ≠ .done → ¬ (s'.sched.proc p).state.Alive)
    (init : s'.boot = .done → s'.sched.initproc = some p ∧ (s'.sched.proc p).state.Alive)
    (boot : ∀ i, s'.boot = .alloced i → i = p ∧ s'.sched.initproc = some p ∧ (s'.sched.proc p).pgdir = 0 ∧
      (s'.sched.proc p).isthread = false)
    (grown : (s'.sched.proc p).state ≠ .embryo → (s'.sched.proc p).pgdir ≠ 0) : KinInv s' := by
  have still : ∀ q, s'.pc q = .user := by
    intro q
    rw [pc]
    exact inv.idle pcs early q
  have orphans : ∀ j q, (s'.sched.proc j).state ≠ .unused → (s'.sched.proc j).parent ≠ some q := by
    intro j q used
    by_cases here : j = p
    · subst here
      rw [orphan]
      exact nofun
    · rw [others.parent j here]
      exact inv.childless (inv.early early q) fun unused => used ((others.unused here).mpr unused)
  constructor
  · intro j high
    exact (others.unused (by omega)).mpr (inv.outside j high)
  · intro j unused
    by_cases here : j = p
    · subst here
      exact orphan
    · rw [others.parent j here]
      exact inv.fresh j ((others.unused here).mp unused)
  · intro j q used child
    exact (orphans j q used child).elim
  · intro j q used _ child
    exact (orphans j q used child).elim
  · intro notDone j alive
    by_cases here : j = p
    · subst here
      exact dead notDone alive
    · rcases others.state j here with same | both
      · rw [same] at alive
        exact inv.early early j alive
      · exact inv.early early j both.1
  · intro done
    exact ⟨p, (init done).1, (init done).2, orphan⟩
  · intro i at'
    obtain ⟨rfl, first, zero, kind⟩ := boot i at'
    exact ⟨first, orphan, zero, kind⟩
  · intro j used grew
    by_cases here : j = p
    · subst here
      exact grown grew
    · rw [others.pgdir j here]
      exact inv.dir j (fun unused => used ((others.unused here).mpr unused))
        (fun young => grew ((others.embryo here).mpr young))
  · intro q np at'
    rw [still q] at at'
    cases at'
  · intro q np at'
    rw [still q] at at'
    cases at'
  · intro q np stack at'
    rw [still q] at at'
    cases at'

theorem userinitAlloc (inv : KinInv s) (pcs : PcInv s) {p : Nat} (kstack : Nat) {sched : Sched}
    (boot : s.boot = .start) (alloc : s.sched.allocproc = (some p, sched)) :
    KinInv { s with
      sched := { sched.modify p fun q => { q with kstack := kstack } with initproc := some p },
      boot := .alloced p } := by
  obtain ⟨lt, free, embryo, pgdir, isthread, parent, other, -⟩ := Sched.allocproc_some alloc
  have others : Others p s.sched (sched.modify p fun q => { q with kstack := kstack }) :=
    Others.of_eq fun j ne => by simp [ne, other j ne]
  have embryo' : ((sched.modify p fun q => { q with kstack := kstack }).proc p).state = .embryo := by
    simpa using embryo
  refine inv.userinit pcs (p := p) (by rw [boot]; decide) lt
    ⟨others.state, others.pgdir, others.parent, others.isthread⟩ rfl ?_ ?_ nofun ?_ ?_
  · simpa [parent] using inv.fresh p free
  · intro _ alive
    change ((sched.modify p fun q => { q with kstack := kstack }).proc p).state.Alive at alive
    rw [embryo'] at alive
    exact Procstate.embryo_dead alive
  · rintro i ⟨⟩
    refine ⟨rfl, rfl, ?_, ?_⟩
    · simpa using pgdir
    · simpa using isthread
  · intro grown
    exact (grown embryo').elim

theorem userinitRun (inv : KinInv s) (pcs : PcInv s) {p d : Nat} (boot : s.boot = .alloced p) (pos : d ≠ 0)
    {dirs : Finset Nat} {log : List Event} :
    KinInv { s with
      sched := (s.sched.modify p fun q => { q with pgdir := d, sz := PGSIZE }).setRunnable p,
      boot := .done, dirs := dirs, log := log } := by
  obtain ⟨lt, embryo, -⟩ := pcs.boot p boot
  obtain ⟨first, root, -⟩ := inv.boot p boot
  have filled := pcs.sched.touch (i := p) (f := fun q => { q with pgdir := d, sz := PGSIZE })
    rfl rfl rfl rfl rfl
  obtain ⟨others, initproc, alive, pgdir, parent, -⟩ := Others.setRunnable filled lt (by simpa using embryo)
  refine inv.userinit pcs (p := p) (by rw [boot]; exact nofun) lt ((Others.modify s.sched p _).others others) rfl
    (parent.trans (by simpa using root)) (fun notDone => (notDone rfl).elim)
    (fun _ => ⟨initproc.trans first, alive⟩) nofun ?_
  intro _
  change (((s.sched.modify p fun q => { q with pgdir := d, sz := PGSIZE }).setRunnable p).proc p).pgdir ≠ 0
  rw [pgdir]
  simpa using pos

theorem bury (inv : KinInv s) (pcs : PcInv s) {cur p : Nat} {threads : Bool}
    (run : (s.sched.proc cur).state = .running) (at' : s.pc cur = .user)
    (found : s.sched.zombieChild cur threads = some p) {dirs : Finset Nat} {log : List Event} :
    KinInv { s with sched := s.sched.reap p, dirs := dirs, log := log } := by
  obtain ⟨lt, -, zombie, -⟩ := Sched.zombieChild_some found
  have none : ((s.sched.reap p).proc p).parent = none := by simp [Sched.reap]
  have others : Others p s.sched (s.sched.reap p) := Others.of_eq fun j ne => by simp [Sched.reap, ne]
  refine inv.slot pcs cur p (inv.booted run) lt ?_ others rfl rfl
    (fun _ _ => rfl) ?_ (fun _ => none) ?_ ?_ ?_ ?_ ?_
  · rw [zombie]
    exact Procstate.zombie_dead
  · intro q _ making
    have := (pcs.making q p making).2
    rw [zombie] at this
    cases this
  · intro q child
    rw [none] at child
    cases child
  · intro used
    exact (used (by simp [Sched.reap])).elim
  · intro np here
    rw [at'] at here
    cases here
  · intro np here
    rw [at'] at here
    cases here
  · intro np stack here
    rw [at'] at here
    cases here

theorem step (inv : KinInv s) (pcs : PcInv s) (alone : s.Alone)
    (loaded : ∀ p d, s.pc p = .execLoaded d → d ≠ 0) (m : Move joiner s s') : KinInv s' := by
  cases m with
  | schedule sched ok keeps =>
    exact inv.congr keeps.state keeps.pgdir keeps.parent keeps.isthread keeps.initproc rfl
      (fun _ _ at' => at') (fun _ _ at' => at') (fun _ _ _ at' => at')
  | userinitAlloc p kstack sched boot alloc => exact inv.userinitAlloc pcs kstack boot alloc
  | userinitRun p d boot fresh => exact inv.userinitRun pcs boot fresh.1
  | check cur pc run at' next few =>
    rcases next with rfl | rfl
    · exact inv.setPc rfl rfl s.dirs s.log
    · exact inv.setPc rfl rfl s.dirs s.log
  | giveUp cur run slot empty => exact inv.setPc rfl rfl s.dirs s.log
  | claim cur np sched next run at' alloc =>
    rcases at' with ⟨rfl, -⟩ | ⟨⟨stack, rfl⟩, -⟩
    · exact inv.claim pcs run rfl rfl alloc
    · exact inv.claim pcs run rfl rfl alloc
  | release cur np f run at' shape =>
    have blank : (s.pc cur).blank = some np := by
      rcases at' with here | here | ⟨stack, here⟩
      · rw [here]; rfl
      · rw [here]; rfl
      · rw [here]; rfl
    obtain ⟨-, orphan, -⟩ := inv.blank cur np blank
    have facts : (f (s.sched.proc np)).parent = none ∧ (f (s.sched.proc np)).state = .unused := by
      rcases shape with rfl | rfl
      · exact ⟨orphan, rfl⟩
      · exact ⟨orphan, rfl⟩
    refine inv.fill pcs run (Pc.making_of_blank blank) (Others.modify s.sched np f) rfl ?_ ?_ ?_ rfl nofun nofun
    · intro _
      simpa using facts.1
    · intro p child
      simp [facts.1] at child
    · intro used
      exact (used (by simpa using facts.2)).elim
  | stack cur np kstack next run at' =>
    have same := Keeps.modify s.sched (i := np) (f := fun p => { p with kstack := kstack })
      (Or.inl rfl) rfl rfl rfl
    have ends : next.blank = (s.pc cur).blank ∧ next.built = none := by
      rcases at' with ⟨here, rfl⟩ | ⟨stack, here, rfl⟩
      · exact ⟨by rw [here]; rfl, rfl⟩
      · exact ⟨by rw [here]; rfl, rfl⟩
    refine inv.congr same.state same.pgdir same.parent same.isthread rfl rfl ?_ ?_ ?_
    · intro p i here
      rw [Sys.setPc_pc] at here
      split at here
      · rename_i eq
        rw [eq, ← ends.1]
        exact here
      · exact here
    · intro p i here
      rw [Sys.setPc_pc] at here
      split at here
      · rw [ends.2] at here
        cases here
      · exact here
    · intro p i stack here
      rw [Sys.setPc_pc] at here
      split at here
      · rw [here] at ends
        cases ends.2
      · exact here
  | cow cur np d run at' fresh =>
    obtain ⟨-, orphan, -⟩ := inv.blank cur np (by rw [at']; rfl)
    have embryo := (pcs.making cur np (by rw [at']; rfl)).2
    refine inv.fill pcs run (by rw [at']; rfl) (Others.modify s.sched np _) rfl ?_ ?_ ?_ rfl ?_ nofun
    · intro _
      simpa using orphan
    · intro p child
      simp [orphan] at child
    · intro _ grown
      exact (grown (by simpa using embryo)).elim
    · rintro i ⟨⟩
      exact ⟨rfl, by simpa using fresh.1⟩
  | share cur np stack run at' =>
    obtain ⟨-, orphan, -⟩ := inv.blank cur np (by rw [at']; rfl)
    have embryo := (pcs.making cur np (by rw [at']; rfl)).2
    refine inv.fill pcs run (by rw [at']; rfl) (Others.modify s.sched np _) rfl ?_ ?_ ?_ rfl ?_ ?_
    · intro _
      simpa using orphan
    · intro p child
      simp [orphan] at child
    · intro _ grown
      exact (grown (by simpa using embryo)).elim
    · rintro i ⟨⟩
      refine ⟨rfl, ?_⟩
      simpa using inv.dir cur (by rw [run]; decide) (by rw [run]; decide)
    · intro _ _ _
      simp
  | link cur np isthread ustack next run at' =>
    have making : (s.pc cur).making = some np := by
      rcases at' with ⟨here, -⟩ | ⟨here, -⟩
      · rw [here]; rfl
      · rw [here]; rfl
    have built : (s.pc cur).built = some np := by
      rcases at' with ⟨here, -⟩ | ⟨here, -⟩
      · rw [here]; rfl
      · rw [here]; rfl
    have ends : next.blank = none ∧ next.built = some np ∧ ∀ i stack, next ≠ .cloneShared i stack := by
      rcases at' with ⟨-, rfl, -⟩ | ⟨-, rfl, -⟩
      · exact ⟨rfl, rfl, nofun⟩
      · exact ⟨rfl, rfl, nofun⟩
    have embryo := (pcs.making cur np making).2
    have has := inv.built cur np built
    have ne : cur ≠ np := by
      rintro rfl
      rw [run] at embryo
      cases embryo
    refine inv.fill pcs run making (Others.modify s.sched np _) rfl ?_ ?_ ?_ ends.1 ?_ ?_
    · intro unused
      simp [embryo] at unused
    · intro p child
      obtain rfl : cur = p := by simpa using child
      refine ⟨ne, Or.inr (Or.inr run), ?_⟩
      intro thread _
      rcases at' with ⟨-, -, rfl⟩ | ⟨here, -, -⟩
      · simp at thread
      · simpa using (inv.shared cur np ustack here).symm
    · intro _ grown
      exact (grown (by simpa using embryo)).elim
    · intro i here
      rw [ends.2.1] at here
      cases here
      exact ⟨rfl, by simpa using has⟩
    · intro i stack here
      exact (ends.2.2 i stack here).elim
  | launch cur np run at' =>
    have built : (s.pc cur).built = some np := by
      rcases at' with here | here
      · rw [here]; rfl
      · rw [here]; rfl
    have making := Pc.making_of_built built
    obtain ⟨lt, embryo⟩ := pcs.making cur np making
    obtain ⟨others, initproc, alive, pgdir, parent, isthread⟩ := Others.setRunnable pcs.sched lt embryo
    have used : (s.sched.proc np).state ≠ .unused := by rw [embryo]; decide
    rw [pcs.launch_eq making]
    refine inv.fill pcs run making others initproc ?_ ?_ ?_ rfl nofun nofun
    · intro unused
      rw [unused] at alive
      exact (Procstate.unused_dead alive).elim
    · intro p child
      rw [parent] at child
      rw [isthread, pgdir]
      obtain ⟨living, ne⟩ := inv.parent np p used child
      exact ⟨ne, living, fun thread notInit => inv.thread np p used thread child notInit⟩
    · intro _ _
      rw [pgdir]
      exact inv.built cur np built
  | load cur d run at' fresh => exact inv.setPc rfl rfl (insert d s.dirs) s.log
  | commit cur d sz run at' =>
    refine inv.commit pcs alone run (by rw [at']; rfl) ?_ ?_ ?_ ?_ ?_ rfl rfl ?_ ?_
    · intro j
      by_cases here : j = cur
      · subst here
        simp
      · simp [here]
    · intro j
      by_cases here : j = cur
      · subst here
        simp
      · simp [here]
    · intro j
      by_cases here : j = cur
      · subst here
        simp
      · simp [here]
    · intro j ne
      simp [ne]
    · simpa using loaded cur d at'
    · intro p ne
      rw [Sys.setPc_pc, if_neg ne]
      rfl
    · rw [Sys.setPc_pc, if_pos rfl]
      rfl
  | free cur old run at' => exact inv.setPc rfl rfl _ _
  | exit c cur hc on at' notInit => exact inv.exit pcs hc on notInit
  | reap cur p run at' found =>
    split
    · exact inv.bury pcs run at' found
    · exact inv.bury pcs run at' found
  | reapThread cur p run at' found may => exact inv.bury pcs run at' found

theorem start (first : s.Init) : KinInv s := by
  obtain ⟨-, -, proc, -, -, -, pc, boot, -, -⟩ := first
  have unused : ∀ i, (s.sched.proc i).state = .unused := fun i => by rw [proc i]; rfl
  constructor
  · intro i _
    exact unused i
  · intro i _
    rw [proc i]
    rfl
  · intro i p used
    exact (used (unused i)).elim
  · intro i p used
    exact (used (unused i)).elim
  · intro _ i alive
    rw [unused i] at alive
    exact Procstate.unused_dead alive
  · intro done
    rw [boot] at done
    cases done
  · intro i at'
    rw [boot] at at'
    cases at'
  · intro i used
    exact (used (unused i)).elim
  · intro p np at'
    rw [pc p] at at'
    cases at'
  · intro p np at'
    rw [pc p] at at'
    cases at'
  · intro p np stack at'
    rw [pc p] at at'
    cases at'

end KinInv
end Xv6
