import Xv6.Process.Effects
import Xv6.Process.Kinship

/-!
Who is whose parent, without any assumption about the programs that run: a slot has a
parent only from the moment fork or clone links it, nobody is its own parent, and init
has none and is never reaped.
-/
namespace Xv6

structure FamilyInv (s : Sys) : Prop where
  pcs : PcInv s
  fresh : ∀ j, (s.sched.proc j).state = .unused → (s.sched.proc j).parent = none
  early : ∀ p np, (s.pc p).unlinked = some np → (s.sched.proc np).parent = none
  self : ∀ j, (s.sched.proc j).parent ≠ some j
  root : ∀ i, s.sched.initproc = some i → (s.sched.proc i).parent = none ∧
    ((s.sched.proc i).state = .embryo ∧ (∀ p, (s.pc p).making ≠ some i) ∨ (s.sched.proc i).state.Alive)

namespace FamilyInv
variable {s s' : Sys} {joiner : Nat → Prop}

theorem slot (inv : FamilyInv s) (pcs : PcInv s') (i : Nat) (notRoot : s.sched.initproc ≠ some i)
    (state : ∀ j, j ≠ i → (s.sched.proc j).state.Shifts (s'.sched.proc j).state)
    (parent : ∀ j, j ≠ i → (s'.sched.proc j).parent = (s.sched.proc j).parent)
    (initproc : s'.sched.initproc = s.sched.initproc)
    (fresh : (s'.sched.proc i).state = .unused → (s'.sched.proc i).parent = none)
    (self : (s'.sched.proc i).parent ≠ some i)
    (early : ∀ p, (s'.pc p).unlinked = some i → (s'.sched.proc i).parent = none)
    (pc : ∀ p np, np ≠ i → (s'.pc p).making = some np → (s.pc p).making = some np ∧
      ((s'.pc p).unlinked = some np → (s.pc p).unlinked = some np)) : FamilyInv s' := by
  refine ⟨pcs, ?_, ?_, ?_, ?_⟩
  · intro j unused
    by_cases here : j = i
    · subst here
      exact fresh unused
    · rw [parent j here]
      exact inv.fresh j (((state j here).fixed Procstate.unused_dead).mp unused)
  · intro p np young
    by_cases here : np = i
    · subst here
      exact early p young
    · rw [parent np here]
      exact inv.early p np ((pc p np here (Pc.making_of_unlinked young)).2 young)
  · intro j
    by_cases here : j = i
    · subst here
      exact self
    · rw [parent j here]
      exact inv.self j
  · intro r first
    rw [initproc] at first
    have here : r ≠ i := by
      rintro rfl
      exact notRoot first
    obtain ⟨orphan, stands⟩ := inv.root r first
    refine ⟨(parent r here).trans orphan, ?_⟩
    rcases stands with ⟨embryo, apart⟩ | alive
    · left
      refine ⟨((state r here).fixed Procstate.embryo_dead).mpr embryo, ?_⟩
      intro p making
      exact apart p (pc p r here making).1
    · exact Or.inr ((state r here).alive alive)

theorem same (inv : FamilyInv s) (pcs : PcInv s')
    (state : ∀ j, (s.sched.proc j).state.Shifts (s'.sched.proc j).state)
    (parent : ∀ j, (s'.sched.proc j).parent = (s.sched.proc j).parent)
    (initproc : s'.sched.initproc = s.sched.initproc)
    (pc : ∀ p, s'.pc p = s.pc p ∨ (s'.pc p).making = none) : FamilyInv s' := by
  have back : ∀ p np, (s'.pc p).making = some np → s'.pc p = s.pc p := by
    intro p np making
    rcases pc p with eq | none
    · exact eq
    · rw [none] at making
      cases making
  refine ⟨pcs, ?_, ?_, ?_, ?_⟩
  · intro j unused
    rw [parent j]
    exact inv.fresh j (((state j).fixed Procstate.unused_dead).mp unused)
  · intro p np young
    rw [parent np]
    exact inv.early p np (back p np (Pc.making_of_unlinked young) ▸ young)
  · intro j
    rw [parent j]
    exact inv.self j
  · intro r first
    rw [initproc] at first
    obtain ⟨orphan, stands⟩ := inv.root r first
    refine ⟨(parent r).trans orphan, ?_⟩
    rcases stands with ⟨embryo, apart⟩ | alive
    · left
      refine ⟨((state r).fixed Procstate.embryo_dead).mpr embryo, ?_⟩
      intro p making
      exact apart p (back p r making ▸ making)
    · exact Or.inr ((state r).alive alive)

theorem setPc_quiet (s : Sys) (cur : Nat) {pc : Pc} (none : pc.making = none) (p : Nat) :
    (s.setPc cur pc).pc p = s.pc p ∨ ((s.setPc cur pc).pc p).making = .none := by
  rw [Sys.setPc_pc]
  split
  · exact Or.inr none
  · exact Or.inl rfl

theorem not_root (inv : FamilyInv s) {i : Nat} (dead : ¬ (s.sched.proc i).state.Alive)
    (built : (s.sched.proc i).state ≠ .embryo ∨ ∃ p, (s.pc p).making = some i) : s.sched.initproc ≠ some i := by
  intro first
  rcases (inv.root i first).2 with ⟨embryo, apart⟩ | alive
  · rcases built with other | ⟨p, making⟩
    · exact other embryo
    · exact apart p making
  · exact dead alive

theorem building_not_root (inv : FamilyInv s) {cur np : Nat} (at' : (s.pc cur).making = some np) :
    s.sched.initproc ≠ some np := by
  apply inv.not_root
  · rw [(inv.pcs.making cur np at').2]
    exact Procstate.embryo_dead
  · exact Or.inr ⟨cur, at'⟩

theorem build (inv : FamilyInv s) {cur np : Nat} {sched : Sched} {next : Pc} {dirs : Finset Nat} {log : List Event}
    (at' : (s.pc cur).making = some np) (pcs : PcInv ({ s with sched := sched, dirs := dirs, log := log }.setPc cur next))
    (others : Others np s.sched sched) (initproc : sched.initproc = s.sched.initproc)
    (fresh : (sched.proc np).state = .unused → (sched.proc np).parent = none)
    (self : (sched.proc np).parent ≠ some np)
    (early : next.unlinked = some np → (sched.proc np).parent = none)
    (moves : next.making = none ∨ next.making = some np) :
    FamilyInv ({ s with sched := sched, dirs := dirs, log := log }.setPc cur next) := by
  refine inv.slot pcs np (inv.building_not_root at') others.state others.parent initproc fresh self ?_ ?_
  · intro p young
    rw [Sys.setPc_pc] at young
    split at young
    · exact early young
    · rename_i ne
      have making := Pc.making_of_unlinked young
      exact (ne (inv.pcs.unique p cur np making at')).elim
  · intro p i ne making
    rw [Sys.setPc_pc] at making ⊢
    split at making
    · rcases moves with none | same
      · rw [none] at making
        cases making
      · rw [same] at making
        exact (ne (Option.some.inj making).symm).elim
    · rename_i other
      rw [if_neg other]
      exact ⟨making, fun young => young⟩

theorem bury (inv : FamilyInv s) (pcs : PcInv s') {cur p : Nat} {threads : Bool}
    (found : s.sched.zombieChild cur threads = some p) (sched : s'.sched = s.sched.reap p) (pc : s'.pc = s.pc) :
    FamilyInv s' := by
  obtain ⟨-, -, dead, -⟩ := Sched.zombieChild_some found
  have other : ∀ j, j ≠ p → s'.sched.proc j = s.sched.proc j := fun j ne => by simp [sched, Sched.reap, ne]
  have self : (s'.sched.proc p).parent = none := by simp [sched, Sched.reap]
  refine inv.slot pcs p ?_ (fun j ne => Or.inl (by rw [other j ne])) (fun j ne => by rw [other j ne]) ?_
    (fun _ => self) (by simp [self]) (fun _ _ => self) ?_
  · apply inv.not_root
    · rw [dead]
      exact Procstate.zombie_dead
    · exact Or.inl (by rw [dead]; decide)
  · rw [sched]
    rfl
  · intro q np _ making
    rw [pc] at making ⊢
    exact ⟨making, fun young => young⟩

theorem exit (inv : FamilyInv s) {c cur : Nat} (hc : c < s.sched.ncpu) (on : s.sched.cpu c = some cur)
    (notInit : s.sched.initproc ≠ some cur) (pcs : PcInv (s.withSched (s.sched.exit c cur))) :
    FamilyInv (s.withSched (s.sched.exit c cur)) := by
  obtain ⟨-, initproc, zombie, others, -, -, parent⟩ := Sched.exit_facts inv.pcs.sched hc on notInit
  generalize s.sched.exit c cur = sched at *
  have run := (inv.pcs.sched.cpus.on c hc cur on).2
  have orphan : ∀ j, (s.sched.proc j).parent = none → (sched.proc j).parent = none := by
    intro j none
    rw [parent j, if_neg, none]
    rintro ⟨-, child⟩
    rw [none] at child
    cases child
  refine ⟨pcs, ?_, ?_, ?_, ?_⟩
  · intro j unused
    apply orphan
    have ne : j ≠ cur := by
      rintro rfl
      rw [Sys.withSched_sched, zombie] at unused
      cases unused
    exact inv.fresh j (((others j ne).fixed Procstate.unused_dead).mp unused)
  · intro p np young
    exact orphan np (inv.early p np young)
  · intro j
    rw [Sys.withSched_sched, parent j]
    split
    · rename_i child
      intro first
      obtain ⟨none, -⟩ := inv.root j first
      rw [none] at child
      cases child.2
    · exact inv.self j
  · intro r first
    rw [Sys.withSched_sched, initproc] at first
    obtain ⟨none, stands⟩ := inv.root r first
    have ne : r ≠ cur := by
      rintro rfl
      exact notInit first
    refine ⟨orphan r none, ?_⟩
    rcases stands with ⟨embryo, apart⟩ | alive
    · exact Or.inl ⟨((others r ne).fixed Procstate.embryo_dead).mpr embryo, apart⟩
    · exact Or.inr ((others r ne).alive alive)

theorem claim (inv : FamilyInv s) {cur np : Nat} {sched : Sched} {next : Pc}
    (making : next.making = some np) (alloc : s.sched.allocproc = (some np, sched))
    (pcs : PcInv ((s.withSched sched).setPc cur next)) : FamilyInv ((s.withSched sched).setPc cur next) := by
  obtain ⟨-, free, embryo, -, -, parent, other, initproc⟩ := Sched.allocproc_some alloc
  have orphan : (sched.proc np).parent = none := parent.trans (inv.fresh np free)
  refine inv.slot pcs np ?_ (fun j ne => Or.inl (by rw [Sys.setPc_sched, Sys.withSched_sched, other j ne]))
    (fun j ne => by rw [Sys.setPc_sched, Sys.withSched_sched, other j ne]) initproc (fun _ => orphan) ?_
    (fun _ _ => orphan) ?_
  · apply inv.not_root
    · rw [free]
      exact Procstate.unused_dead
    · exact Or.inl (by rw [free]; decide)
  · rw [Sys.setPc_sched, Sys.withSched_sched, orphan]
    intro h
    cases h
  · intro p i ne at'
    rw [Sys.setPc_pc] at at' ⊢
    split at at'
    · rw [making] at at'
      exact (ne (Option.some.inj at').symm).elim
    · rename_i here
      rw [if_neg here]
      exact ⟨at', fun young => young⟩

theorem userinitAlloc (inv : FamilyInv s) {p kstack : Nat} {sched : Sched}
    (alloc : s.sched.allocproc = (some p, sched))
    (pcs : PcInv { s with
      sched := { sched.modify p fun q => { q with kstack := kstack } with initproc := some p }, boot := .alloced p }) :
    FamilyInv { s with
      sched := { sched.modify p fun q => { q with kstack := kstack } with initproc := some p }, boot := .alloced p } := by
  obtain ⟨-, free, embryo, -, -, parent, other, -⟩ := Sched.allocproc_some alloc
  have orphan : (sched.proc p).parent = none := parent.trans (inv.fresh p free)
  have new : ∀ q, (s.pc q).making ≠ some p := by
    intro q making
    have := (inv.pcs.making q p making).2
    rw [free] at this
    cases this
  have kept : ∀ j, j ≠ p → (sched.modify p fun q => { q with kstack := kstack }).proc j = s.sched.proc j :=
    fun j ne => by simp [ne, other j ne]
  have self : ((sched.modify p fun q => { q with kstack := kstack }).proc p).parent = none := by
    simpa using orphan
  refine ⟨pcs, ?_, ?_, ?_, ?_⟩
  · intro j unused
    by_cases here : j = p
    · subst here
      exact self
    · change (Sched.proc _ j).state = _ at unused
      rw [kept j here] at unused
      rw [kept j here]
      exact inv.fresh j unused
  · intro q np young
    have ne : np ≠ p := by
      rintro rfl
      exact new q (Pc.making_of_unlinked young)
    change (Sched.proc _ np).parent = _
    rw [kept np ne]
    exact inv.early q np young
  · intro j
    by_cases here : j = p
    · subst here
      rw [self]
      intro h
      cases h
    · rw [kept j here]
      exact inv.self j
  · intro i first
    obtain rfl : p = i := Option.some.inj first
    exact ⟨self, Or.inl ⟨by simpa using embryo, new⟩⟩

theorem userinitRun (inv : FamilyInv s) {p d : Nat} (boot : s.boot = .alloced p)
    (pcs : PcInv { (s.adopt d).withSched ((s.sched.modify p fun q =>
        { q with pgdir := d, sz := PGSIZE }).setRunnable p) with boot := .done }) :
    FamilyInv { (s.adopt d).withSched ((s.sched.modify p fun q =>
        { q with pgdir := d, sz := PGSIZE }).setRunnable p) with boot := .done } := by
  obtain ⟨lt, embryo, apart⟩ := inv.pcs.boot p boot
  have ok := inv.pcs.sched.touch (i := p) (f := fun q => { q with pgdir := d, sz := PGSIZE }) rfl rfl rfl rfl rfl
  obtain ⟨others, initproc, alive, -, parent, -⟩ := Others.setRunnable ok lt (by simpa using embryo)
  have all := (Others.modify s.sched p fun q => { q with pgdir := d, sz := PGSIZE }).others others
  generalize (s.sched.modify p fun q => { q with pgdir := d, sz := PGSIZE }).setRunnable p = sched at *
  have parent' : (sched.proc p).parent = (s.sched.proc p).parent := by
    rw [parent]
    simp
  have same : ∀ j, (sched.proc j).parent = (s.sched.proc j).parent := by
    intro j
    by_cases here : j = p
    · rw [here, parent']
    · exact all.parent j here
  refine ⟨pcs, ?_, ?_, ?_, ?_⟩
  · intro j unused
    change (sched.proc j).parent = none
    rw [same j]
    have ne : j ≠ p := by
      rintro rfl
      have gone : (sched.proc j).state = .unused := unused
      rw [gone] at alive
      exact Procstate.unused_dead alive
    exact inv.fresh j ((all.unused ne).mp unused)
  · intro q np young
    change (sched.proc np).parent = none
    rw [same np]
    exact inv.early q np young
  · intro j
    change (sched.proc j).parent ≠ some j
    rw [same j]
    exact inv.self j
  · intro i first
    have first' : s.sched.initproc = some i := by
      rw [← show sched.initproc = s.sched.initproc from initproc]
      exact first
    obtain ⟨orphan, stands⟩ := inv.root i first'
    refine ⟨(same i).trans orphan, ?_⟩
    by_cases here : i = p
    · rw [here]
      exact Or.inr alive
    · rcases stands with ⟨young, away⟩ | living
      · exact Or.inl ⟨(all.embryo here).mpr young, away⟩
      · exact Or.inr ((all.state i here).alive living)

theorem step (inv : FamilyInv s) (m : Move joiner s s') : FamilyInv s' := by
  have pcs := inv.pcs.step m
  have keep : ∀ {sched : Sched}, (∀ j, (sched.proc j).state = (s.sched.proc j).state) →
      ∀ j, (s.sched.proc j).state.Shifts (sched.proc j).state := fun same j => Or.inl (same j)
  cases m with
  | schedule sched ok keeps => exact inv.same pcs keeps.state keeps.parent keeps.initproc fun _ => Or.inl rfl
  | userinitAlloc p kstack sched boot alloc => exact inv.userinitAlloc alloc pcs
  | userinitRun p d boot fresh => exact inv.userinitRun boot pcs
  | check cur pc run at' next few =>
    refine inv.same pcs (keep fun _ => rfl) (fun _ => rfl) rfl (setPc_quiet s cur ?_)
    rcases next with rfl | rfl
    all_goals rfl
  | giveUp cur run slot empty => exact inv.same pcs (keep fun _ => rfl) (fun _ => rfl) rfl (setPc_quiet s cur rfl)
  | claim cur np sched next run at' alloc =>
    refine inv.claim ?_ alloc pcs
    rcases at' with ⟨rfl, -⟩ | ⟨⟨stack, rfl⟩, -⟩
    all_goals rfl
  | release cur np f run at' shape =>
    have young : (s.pc cur).unlinked = some np := by
      rcases at' with here | here | ⟨stack, here⟩
      all_goals
        rw [here]
        rfl
    have orphan := inv.early cur np young
    have facts : (f (s.sched.proc np)).parent = none := by
      rcases shape with rfl | rfl
      all_goals exact orphan
    refine inv.build (Pc.making_of_unlinked young) pcs (Others.modify s.sched np f) rfl ?_ ?_ nofun (Or.inl rfl)
    · intro _
      simpa using facts
    · simp [facts]
  | stack cur np kstack next run at' =>
    have young : (s.pc cur).unlinked = some np ∧ next.making = some np := by
      rcases at' with ⟨here, rfl⟩ | ⟨stack, here, rfl⟩
      all_goals
        rw [here]
        exact ⟨rfl, rfl⟩
    have orphan := inv.early cur np young.1
    refine inv.build (Pc.making_of_unlinked young.1) pcs (Others.modify s.sched np _) rfl ?_ ?_ ?_ (Or.inr young.2)
    · intro _
      simpa using orphan
    · simp [orphan]
    · intro _
      simpa using orphan
  | cow cur np d run at' fresh =>
    have orphan := inv.early cur np (by rw [at']; rfl)
    refine inv.build (by rw [at']; rfl) pcs (Others.modify s.sched np _) rfl ?_ ?_ ?_ (Or.inr rfl)
    · intro _
      simpa using orphan
    · simp [orphan]
    · intro _
      simpa using orphan
  | share cur np stack run at' =>
    have orphan := inv.early cur np (by rw [at']; rfl)
    refine inv.build (by rw [at']; rfl) pcs (Others.modify s.sched np _) rfl ?_ ?_ ?_ (Or.inr rfl)
    · intro _
      simpa using orphan
    · simp [orphan]
    · intro _
      simpa using orphan
  | link cur np isthread ustack next run at' =>
    have making := Pc.making_link at'
    have embryo := (inv.pcs.making cur np making.1).2
    refine inv.build making.1 pcs (Others.modify s.sched np _) rfl ?_ ?_ ?_ (Or.inr making.2)
    · intro unused
      simp [embryo] at unused
    · rintro same
      obtain rfl : cur = np := by simpa using same
      rw [run] at embryo
      cases embryo
    · intro young
      rcases at' with ⟨-, rfl, -⟩ | ⟨-, rfl, -⟩
      all_goals cases young
  | launch cur np run at' =>
    have making := Pc.making_launch at'
    obtain ⟨lt, embryo⟩ := inv.pcs.making cur np making
    obtain ⟨others, initproc, alive, -, parent, -⟩ := Others.setRunnable inv.pcs.sched lt embryo
    rw [inv.pcs.launch_eq making] at pcs ⊢
    refine inv.build making pcs others initproc ?_ ?_ nofun (Or.inl rfl)
    · intro unused
      rw [unused] at alive
      exact (Procstate.unused_dead alive).elim
    · rw [parent]
      exact inv.self np
  | load cur d run at' fresh =>
    exact inv.same pcs (keep fun _ => rfl) (fun _ => rfl) rfl (setPc_quiet { s with dirs := insert d s.dirs } cur rfl)
  | commit cur d sz run at' =>
    have state : Same Proc.state s.sched (s.sched.modify cur fun p => { p with pgdir := d, sz := sz }) := Same.modify s.sched rfl
    have parent : Same Proc.parent s.sched (s.sched.modify cur fun p => { p with pgdir := d, sz := sz }) := Same.modify s.sched rfl
    exact inv.same pcs (keep state) parent rfl (setPc_quiet _ cur rfl)
  | free cur old run at' => exact inv.same pcs (keep fun _ => rfl) (fun _ => rfl) rfl (setPc_quiet _ cur rfl)
  | exit c cur hc on at' notInit => exact inv.exit hc on notInit pcs
  | reap cur p run at' found =>
    refine inv.bury pcs found rfl ?_
    change Sys.pc (if _ then _ else _) = _
    split
    · rfl
    · rfl
  | reapThread cur p run at' found may => exact inv.bury pcs found rfl rfl

theorem init (first : s.Init) : FamilyInv s := by
  have pcs := PcInv.init first
  obtain ⟨-, -, proc, -, -, initproc, pc, -⟩ := first
  refine ⟨pcs, ?_, ?_, ?_, ?_⟩
  · intro j _
    rw [proc j]
    rfl
  · intro p np young
    rw [pc p] at young
    cases young
  · intro j
    rw [proc j]
    intro h
    cases h
  · intro i first
    rw [initproc] at first
    cases first

end FamilyInv
end Xv6
