import Xv6.Process.Calls
import Xv6.Process.QueueSafety

/-!
What an UNUSED slot of the process table holds. wait and join clean the slot they free,
exit closes the files, and the failure paths of fork and clone clear the directory and the
kernel stack. killed and pid are left over when a creation fails, and kill looks at pid
without looking at the state.
-/
namespace Xv6

/-- kill names neither pid 0 nor the pid of a creation that failed, and a creation does
    not fail once its process has been killed. -/
def Kern.gentle (k : Kern) : KernAct → Bool
  | .sys (.kill pid) => pid != 0 && !k.lost.contains pid
  | .sys a => a.givesUp.all fun c => (k.sys.sched.cpu c).all fun cur =>
      (k.sys.pc cur).making.all fun np => !(k.sys.sched.proc np).killed
  | _ => true

structure SlotInv (k : Kern) : Prop where
  family : FamilyInv k.sys
  chan : ∀ j, (k.sys.sched.proc j).chan ≠ none →
    (k.sys.sched.proc j).state = .sleeping ∨ (k.sys.sched.proc j).state = .runnable
  spare : ∀ j, (k.sys.sched.proc j).state = .unused → (k.sys.sched.proc j).killed = false ∧
    (k.sys.sched.proc j).pgdir = 0 ∧ (k.sys.sched.proc j).kstack = 0
  pid : ∀ j, (k.sys.sched.proc j).state = .unused → (k.sys.sched.proc j).pid = 0 ∨ (k.sys.sched.proc j).pid ∈ k.lost
  bare : ∀ j, (k.sys.sched.proc j).state = .unused ∨ (k.sys.sched.proc j).state = .zombie → k.Bare j
  young : ∀ p np, (k.sys.pc p).unlinked = some np → k.Bare np
  blank : ∀ p np, (k.sys.pc p).fresh = some np → (k.sys.sched.proc np).pgdir = 0

theorem Pc.unlinked_of_fresh {pc : Pc} {np : Nat} (h : pc.fresh = some np) : pc.unlinked = some np := by
  cases pc <;> simp_all [Pc.unlinked, Pc.fresh]

/-- A slot that is not linked after the step was not linked before, or has just been allocated. -/
theorem Came.unlinked {s : Sys} {a : Act} {p np : Nat} {pc : Pc} (came : Came s a p np pc)
    (young : pc.unlinked = some np) : (s.pc p).unlinked = some np ∨ (s.sched.proc np).state = .unused := by
  cases came with
  | same => exact Or.inl young
  | fork free => exact Or.inr free
  | clone _ free => exact Or.inr free
  | fill _ at' =>
    left
    rcases at' with ⟨before, -⟩ | ⟨before, -⟩ | ⟨stack, ⟨before, -⟩ | ⟨before, -⟩⟩
    all_goals
      rw [before]
      rfl
  | linked _ at' =>
    rcases at' with rfl | rfl
    all_goals cases young

theorem Came.fresh {s : Sys} {a : Act} {p np : Nat} {pc : Pc} (came : Came s a p np pc)
    (blank : pc.fresh = some np) : (s.pc p).fresh = some np ∨ (s.sched.proc np).state = .unused := by
  cases came with
  | same => exact Or.inl blank
  | fork free => exact Or.inr free
  | clone _ free => exact Or.inr free
  | fill _ at' =>
    rcases at' with ⟨-, rfl⟩ | ⟨-, rfl⟩ | ⟨stack, ⟨-, rfl⟩ | ⟨-, rfl⟩⟩
    all_goals cases blank
  | linked _ at' =>
    rcases at' with rfl | rfl
    all_goals cases blank

namespace SlotInv
variable {k k' : Kern} {a : Act} {s : Sys}

theorem rests_idle {st st' : Procstate} (rests : st.Rests st') (idle : st = .sleeping ∨ st = .runnable) :
    st' = .sleeping ∨ st' = .runnable := by
  rcases rests with rfl | ⟨-, rfl⟩
  · exact idle
  · exact Or.inr rfl

theorem step_chan (inv : SlotInv k) (done : k.sys.step a = .ok s) (j : Nat) (on : (s.sched.proc j).chan ≠ none) :
    (s.sched.proc j).state = .sleeping ∨ (s.sched.proc j).state = .runnable := by
  have turn := Sys.step_turn inv.family done j
  generalize s.sched.proc j = p at turn on ⊢
  -- the slot keeps its channel, so it was asleep or queued before
  have before : p.chan = (k.sys.sched.proc j).chan →
      (k.sys.sched.proc j).state = .sleeping ∨ (k.sys.sched.proc j).state = .runnable := by
    intro same
    exact inv.chan j (by rw [← same]; exact on)
  have absurd : ∀ {st : Procstate}, p.chan = (k.sys.sched.proc j).chan → (k.sys.sched.proc j).state = st →
      st ≠ .sleeping → st ≠ .runnable → p.state = .sleeping ∨ p.state = .runnable := by
    intro st same state no no'
    rcases before same with h | h
    · exact (no (state.symm.trans h)).elim
    · exact (no' (state.symm.trans h)).elim
  have embryo : ∀ {cur : Nat}, (k.sys.pc cur).making = some j → (k.sys.sched.proc j).state = .embryo :=
    fun at' => (inv.family.pcs.making _ j at').2
  cases turn with
  | rests state still => exact rests_idle state (before (congrArg (fun x => x.2.2.1) still))
  | moves run _ _ _ same => exact absurd same run (by decide) (by decide)
  | orphaned _ _ _ _ state _ _ _ same => exact rests_idle state (before same)
  | marked _ _ state _ still => exact rests_idle state (before (congrArg (fun x => x.2.2.1) still))
  | runs _ _ still => exact (on (congrArg (fun x => x.2.2.1) still)).elim
  | yields _ state => exact Or.inr state
  | sleeps _ _ _ _ _ state => exact Or.inl state
  | exits c _ hc at' _ still =>
    exact absurd (congrArg (fun x => x.2.2.1) still) (inv.family.pcs.sched.cpus.on c hc j at').2 (by decide) (by decide)
  | reaped _ _ _ _ _ _ found shape =>
    exact absurd (by rw [shape]; simp [Sched.reap]) (Sched.zombieChild_some found).2.2.1 (by decide) (by decide)
  | alloced free _ _ same => exact absurd same free (by decide) (by decide)
  | released _ _ _ _ _ at' _ shape =>
    exact absurd (by rw [shape]) (embryo (Pc.making_of_unlinked at')) (by decide) (by decide)
  | filled _ _ _ at' _ shape => exact absurd (by rw [shape]) (embryo at') (by decide) (by decide)
  | linked _ at' _ _ _ same => exact absurd same (embryo at') (by decide) (by decide)
  | born young _ _ _ same => exact absurd same young (by decide) (by decide)

theorem step_spare (inv : SlotInv k) (gentle : k.gentle (.sys a) = true) (done : k.sys.step a = .ok s) (j : Nat)
    (unused : (s.sched.proc j).state = .unused) :
    ((s.sched.proc j).killed = false ∧ (s.sched.proc j).pgdir = 0 ∧ (s.sched.proc j).kstack = 0) ∧
      ((s.sched.proc j).pid = 0 ∨ (s.sched.proc j).pid ∈ (k.record a s).lost) := by
  have old : ∀ x, x ∈ k.lost → x ∈ (k.record a s).lost := fun x member => List.mem_append_left _ member
  have embryo : ∀ {cur : Nat}, (k.sys.pc cur).making = some j →
      j < NPROC ∧ (k.sys.sched.proc j).state = .embryo := fun at' => inv.family.pcs.making _ j at'
  have rests : ∀ {st : Procstate}, st.Rests .unused → st = .unused := by
    rintro st (same | ⟨-, no⟩)
    · exact same.symm
    · cases no
  have turn := Sys.step_turn inv.family done j
  have gone : (k.sys.sched.proc j).state = .embryo → j < NPROC →
      (k.sys.sched.proc j).pid ∈ (k.record a s).lost := by
    intro young slot
    refine List.mem_append_right _ (List.mem_map.mpr ⟨j, ?_, rfl⟩)
    simp [Kern.failing, slot, young, unused]
  generalize s.sched.proc j = p at turn unused ⊢
  have same : (k.sys.sched.proc j).state = .unused → p.badge = (k.sys.sched.proc j).badge →
      p.killed = (k.sys.sched.proc j).killed → p.pgdir = (k.sys.sched.proc j).pgdir →
      (p.killed = false ∧ p.pgdir = 0 ∧ p.kstack = 0) ∧ (p.pid = 0 ∨ p.pid ∈ (k.record a s).lost) := by
    intro free badge killed pgdir
    simp only [Proc.badge, Prod.mk.injEq] at badge
    rw [killed, pgdir, badge.1, badge.2.1]
    exact ⟨inv.spare j free, (inv.pid j free).imp id (old _)⟩
  cases turn with
  | rests state still =>
    rw [unused] at state
    simp only [Proc.still, Prod.mk.injEq] at still
    exact same (rests state) still.1 still.2.1 still.2.2.2.1
  | orphaned _ _ _ _ state _ badge killed _ pgdir =>
    rw [unused] at state
    exact same (rests state) badge killed pgdir
  | marked call _ state =>
    -- kill has found an UNUSED slot, whose pid is 0 or lost
    rw [unused] at state
    subst call
    simp only [Kern.gentle, Bool.and_eq_true, bne_iff_ne, ne_eq, Bool.not_eq_true', List.contains_eq_mem,
      decide_eq_false_iff_not] at gentle
    rcases inv.pid j (rests state) with zero | member
    · exact (gentle.1 zero).elim
    · exact (gentle.2 member).elim
  | reaped _ _ _ _ _ _ _ shape => simp [shape, Sched.reap]
  | released c cur d call at' young pgdir shape =>
    have making := Pc.making_of_unlinked young
    have spared : (k.sys.sched.proc j).killed = false := by
      cases a with
      | kill => cases call
      | _ => simpa [Kern.gentle, call, at', making] using gentle
    obtain ⟨slot, state⟩ := embryo making
    rw [shape]
    refine ⟨⟨spared, ?_, rfl⟩, Or.inr (gone state slot)⟩
    rcases pgdir with zero | ⟨kept, here⟩
    · exact zero
    · refine kept.trans (inv.blank cur j ?_)
      rcases here with h | ⟨stack, h⟩
      all_goals
        rw [h]
        rfl
  | filled _ _ _ at' _ shape =>
    rw [shape] at unused
    rw [(embryo at').2] at unused
    cases unused
  | linked _ at' state =>
    rw [state, (embryo at').2] at unused
    cases unused
  | moves _ state => simp [state] at unused
  | runs _ state => simp [state] at unused
  | yields _ state => simp [state] at unused
  | sleeps _ _ _ _ _ state => simp [state] at unused
  | exits _ _ _ _ state => simp [state] at unused
  | alloced _ state => simp [state] at unused
  | born _ state => simp [state] at unused

theorem step_blank (inv : SlotInv k) (done : k.sys.step a = .ok s) {p np : Nat} (fresh : (s.pc p).fresh = some np) :
    (s.sched.proc np).pgdir = 0 := by
  have young := Pc.unlinked_of_fresh fresh
  have making := Pc.making_of_unlinked young
  have after := ((inv.family.next done).pcs.making p np making).2
  have turn := Sys.step_turn inv.family done np
  rcases (Sys.step_came done making).fresh fresh with before | free
  · have at' := Pc.making_of_unlinked (Pc.unlinked_of_fresh before)
    have embryo := (inv.family.pcs.making p np at').2
    have zero := inv.blank p np before
    generalize s.sched.proc np = q at turn after ⊢
    cases turn with
    | rests _ still => exact (congrArg (fun x => x.2.2.2.1) still).trans zero
    | orphaned _ _ _ _ _ _ _ _ _ same => exact same.trans zero
    | marked _ _ _ _ still => exact (congrArg (fun x => x.2.2.2.1) still).trans zero
    | linked _ _ _ _ _ _ same => exact same.trans zero
    | filled cur _ d making' dir shape =>
      obtain rfl : cur = p := inv.family.pcs.unique cur p np making' at'
      rw [shape]
      exact (dir before).trans zero
    | alloced _ _ _ _ pgdir => exact pgdir
    | moves _ state => simp [state] at after
    | runs _ state => simp [state] at after
    | yields _ state => simp [state] at after
    | sleeps _ _ _ _ _ state => simp [state] at after
    | exits _ _ _ _ state => simp [state] at after
    | reaped _ _ _ _ _ _ _ shape => simp [shape, Sched.reap] at after
    | released _ _ _ _ _ _ _ shape => simp [shape] at after
    | born _ state => simp [state] at after
  · generalize s.sched.proc np = q at turn after ⊢
    have rests : ¬ Procstate.unused.Rests .embryo := by
      rintro (h | ⟨h, -⟩)
      all_goals cases h
    cases turn with
    | alloced _ _ _ _ pgdir => exact pgdir
    | rests state => exact (rests (by rwa [free, after] at state)).elim
    | orphaned _ _ _ _ state => exact (rests (by rwa [free, after] at state)).elim
    | marked _ _ state => exact (rests (by rwa [free, after] at state)).elim
    | linked cur at' => simp [(inv.family.pcs.making cur np at').2] at free
    | filled cur _ _ at' => simp [(inv.family.pcs.making cur np at').2] at free
    | moves _ state => simp [state] at after
    | runs _ state => simp [state] at after
    | yields _ state => simp [state] at after
    | sleeps _ _ _ _ _ state => simp [state] at after
    | exits _ _ _ _ state => simp [state] at after
    | reaped _ _ _ _ _ _ _ shape => simp [shape, Sched.reap] at after
    | released _ _ _ _ _ _ _ shape => simp [shape] at after
    | born _ state => simp [state] at after

theorem record_bare {j : Nat} (bare : k.Bare j) (linked : ∀ cur, k.sys.linking a ≠ some (cur, j))
    (rooted : k.sys.rooting a ≠ some j) : (k.record a s).Bare j := by
  obtain ⟨ofile, cwd⟩ := bare
  constructor
  · intro fd
    change k.nextOfile a j fd = none
    unfold Kern.nextOfile
    split
    · rename_i cur np link
      have ne : j ≠ np := by
        rintro rfl
        exact linked cur link
      rw [if_neg (fun both => ne both.1)]
      exact ofile fd
    · exact ofile fd
  · change k.nextCwd a j = none
    unfold Kern.nextCwd
    split
    · rename_i cur np link
      have ne : j ≠ np := by
        rintro rfl
        exact linked cur link
      rw [if_neg ne]
      exact cwd
    · rw [if_neg rooted]
      exact cwd

theorem linking_pc (done : k.sys.step a = .ok s) {cur np : Nat} (link : k.sys.linking a = some (cur, np)) :
    s.pc cur = .forkLinked np ∨ s.pc cur = .cloneLinked np := by
  cases a with
  | forkLink c =>
    obtain ⟨cur', hc, on, done⟩ := Sys.onCpu_ok done
    simp only [Sys.linking, on] at link
    split at done
    · rename_i i at'
      simp only [at', Option.some.injEq, Prod.mk.injEq] at link
      obtain ⟨rfl, rfl⟩ := link
      cases done
      left
      rw [Sys.setPc_pc, if_pos rfl]
    · cases done
  | cloneLink c =>
    obtain ⟨cur', hc, on, done⟩ := Sys.onCpu_ok done
    simp only [Sys.linking, on] at link
    split at done
    · rename_i i stack at'
      simp only [at', Option.some.injEq, Prod.mk.injEq] at link
      obtain ⟨rfl, rfl⟩ := link
      cases done
      right
      rw [Sys.setPc_pc, if_pos rfl]
    · cases done
  | _ => cases link

theorem rooting_runnable (done : k.sys.step a = .ok s) {p : Nat} (root : k.sys.rooting a = some p) :
    (s.sched.proc p).state = .runnable := by
  cases a with
  | userinitRun d =>
    simp only [Sys.step] at done
    simp only [Sys.rooting] at root
    split at done
    · rename_i i boot
      simp only [boot, Option.some.injEq] at root
      subst root
      split at done
      · cases done
        have state := Sched.setRunnable_state (k.sys.sched.modify i fun q => { q with pgdir := d, sz := PGSIZE }) i i
        rw [if_pos rfl] at state
        exact state
      · cases done
    · cases done
  | _ => cases root

theorem step_bare (inv : SlotInv k) (admitted : k.admits a = true) (done : k.sys.step a = .ok s) (j : Nat)
    (idle : (s.sched.proc j).state = .unused ∨ (s.sched.proc j).state = .zombie) : (k.record a s).Bare j := by
  have linked : ∀ cur, k.sys.linking a ≠ some (cur, j) := by
    intro cur link
    have making : (s.pc cur).making = some j := Pc.making_launch (linking_pc done link)
    have embryo := ((inv.family.next done).pcs.making cur j making).2
    rcases idle with h | h
    all_goals
      rw [h] at embryo
      cases embryo
  have rooted : k.sys.rooting a ≠ some j := by
    intro root
    have ready := rooting_runnable done root
    rcases idle with h | h
    all_goals
      rw [h] at ready
      cases ready
  refine record_bare ?_ linked rooted
  have turn := Sys.step_turn inv.family done j
  generalize s.sched.proc j = p at turn idle
  have rests : ∀ {st : Procstate}, st.Rests p.state → st = .unused ∨ st = .zombie := by
    rintro st (same | ⟨-, ready⟩)
    · rw [← same]
      exact idle
    · rw [ready] at idle
      rcases idle with h | h
      all_goals cases h
  have embryo : ∀ {cur : Nat}, (k.sys.pc cur).making = some j → p.state ≠ (k.sys.sched.proc j).state := by
    intro cur at' same
    rw [same, (inv.family.pcs.making cur j at').2] at idle
    rcases idle with h | h
    all_goals cases h
  cases turn with
  | rests state => exact inv.bare j (rests state)
  | orphaned _ _ _ _ state => exact inv.bare j (rests state)
  | marked _ _ state => exact inv.bare j (rests state)
  | exits c call hc on =>
    subst call
    simp only [Kern.admits, Sys.exiter, on, Option.all_some, Bool.and_eq_true, decide_eq_true_eq] at admitted
    exact admitted.2
  | reaped _ _ _ _ _ _ found => exact inv.bare j (Or.inr (Sched.zombieChild_some found).2.2.1)
  | released _ cur _ _ _ young => exact inv.young cur j young
  | filled cur _ _ at' _ shape => exact (embryo at' (by rw [shape])).elim
  | linked cur at' state => exact (embryo at' state).elim
  | moves _ state => simp [state] at idle
  | runs _ state => simp [state] at idle
  | yields _ state => simp [state] at idle
  | sleeps _ _ _ _ _ state => simp [state] at idle
  | alloced _ state => simp [state] at idle
  | born _ state => simp [state] at idle

theorem step_young (inv : SlotInv k) (done : k.sys.step a = .ok s) {p np : Nat}
    (young : (s.pc p).unlinked = some np) : (k.record a s).Bare np := by
  have making := Pc.making_of_unlinked young
  have pcs := (inv.family.next done).pcs
  apply record_bare
  · rcases (Sys.step_came done making).unlinked young with before | free
    · exact inv.young p np before
    · exact inv.bare np (Or.inl free)
  · intro cur link
    have at' := linking_pc done link
    obtain rfl : cur = p := pcs.unique cur p np (Pc.making_launch at') making
    rcases at' with h | h
    all_goals
      rw [h] at young
      cases young
  · intro root
    have ready := rooting_runnable done root
    rw [(pcs.making p np making).2] at ready
    cases ready

theorem step (inv : SlotInv k) {b : KernAct} (gentle : k.gentle b = true) (h : k.step b = .ok k') : SlotInv k' := by
  rcases Kern.step_ok h with ⟨a, s, rfl, admitted, done, rfl⟩ | filed
  · exact ⟨inv.family.next done, inv.step_chan done, fun j unused => (inv.step_spare gentle done j unused).1,
      fun j unused => (inv.step_spare gentle done j unused).2, inv.step_bare admitted done,
      fun p np young => inv.step_young done young, fun p np fresh => inv.step_blank done fresh⟩
  · obtain ⟨sys, -, lost, -, c, cur, hc, on, files⟩ := filed
    have run := (inv.family.pcs.sched.cpus.on c hc cur on).2
    have kept : ∀ j, j ≠ cur → k.Bare j → k'.Bare j := by
      intro j ne bare
      obtain ⟨ofile, cwd⟩ := files j ne
      exact ⟨by rw [ofile]; exact bare.1, by rw [cwd]; exact bare.2⟩
    constructor
    · rw [sys]
      exact inv.family
    · rw [sys]
      exact inv.chan
    · rw [sys]
      exact inv.spare
    · rw [sys, lost]
      exact inv.pid
    · rw [sys]
      intro j idle
      refine kept j ?_ (inv.bare j idle)
      rintro rfl
      rw [run] at idle
      rcases idle with h | h
      all_goals cases h
    · rw [sys]
      intro p np young
      refine kept np ?_ (inv.young p np young)
      rintro rfl
      rw [(inv.family.pcs.making p np (Pc.making_of_unlinked young)).2] at run
      cases run
    · rw [sys]
      exact inv.blank

theorem init (first : k.Init) : SlotInv k := by
  obtain ⟨sys, -, bare, -, -⟩ := first
  obtain ⟨-, -, proc, -, -, -, pc, -⟩ := id sys
  refine ⟨FamilyInv.init sys, ?_, ?_, ?_, fun j _ => bare j, fun _ np _ => bare np, ?_⟩
  · intro j on
    rw [proc j] at on
    exact (on rfl).elim
  · intro j _
    rw [proc j]
    exact ⟨rfl, rfl, rfl⟩
  · intro j _
    rw [proc j]
    exact Or.inl rfl
  · intro p np fresh
    rw [pc p] at fresh
    cases fresh

end SlotInv

/-- As long as kill and failing creations are gentle, UNUSED slots are clean, allocproc
    gives out processes that are not killed, and kill finds no UNUSED slot. -/
theorem unused_slots_clean (k : Kern) (reach : Runs.Reachable Kern.Init Kern.step (fun k b => k.gentle b = true) k) :
    (∀ j, (k.sys.sched.proc j).state = .unused → (k.sys.sched.proc j).killed = false ∧
      (k.sys.sched.proc j).pgdir = 0 ∧ (k.sys.sched.proc j).kstack = 0 ∧ (k.sys.sched.proc j).chan = none ∧
      k.cwd j = none ∧ ∀ fd, k.ofile j fd = none) ∧
    (∀ i sched, k.sys.sched.allocproc = (some i, sched) → (sched.proc i).killed = false) ∧
    ∀ pid, k.gentle (.sys (.kill pid)) = true → (k.sys.sched.kill pid).1 = 0 →
      ∃ i < NPROC, (k.sys.sched.proc i).pid = pid ∧ (k.sys.sched.proc i).state ≠ .unused := by
  have inv : SlotInv k :=
    Runs.Reachable.invariant (fun _ first => SlotInv.init first) (fun _ _ _ inv gentle done => inv.step gentle done) reach
  refine ⟨?_, ?_, ?_⟩
  · intro j unused
    obtain ⟨killed, pgdir, kstack⟩ := inv.spare j unused
    obtain ⟨ofile, cwd⟩ := inv.bare j (Or.inl unused)
    refine ⟨killed, pgdir, kstack, ?_, cwd, ofile⟩
    by_contra on
    rcases inv.chan j on with h | h
    all_goals
      rw [unused] at h
      cases h
  · intro i sched alloc
    obtain ⟨-, free, -⟩ := Sched.allocproc_some alloc
    exact (Sys.allocproc_kept alloc).1.trans (inv.spare i free).1
  · intro pid gentle returned
    rcases badge_ageless.kill k.sys.sched pid with ⟨none, -⟩ | ⟨i, hi, named, -⟩
    · rw [none] at returned
      cases returned
    · refine ⟨i, hi, named, ?_⟩
      intro unused
      subst named
      simp only [Kern.gentle, Bool.and_eq_true, bne_iff_ne, ne_eq, Bool.not_eq_true', List.contains_eq_mem,
        decide_eq_false_iff_not] at gentle
      rcases inv.pid i unused with zero | member
      · exact gentle.1 zero
      · exact gentle.2 member

/-- A fork fails for lack of memory; the next child is killed and runs. -/
def Kern.failedFork : List KernAct :=
  [Act.userinitAlloc 500, .userinitRun 600, .dispatch 0, .forkCheck 0, .forkAlloc 0, .forkStack 0 (some 501),
    .forkCow 0 none, .forkCheck 0, .forkAlloc 0, .forkStack 0 (some 501), .forkCow 0 (some 700), .forkLink 0, .forkRun 0,
    .kill 3].map .sys

theorem unused_slots_clean_after_failure :
    ∃ k, Runs.walk Kern.step Kern.gentle (Kern.zeroed (Sys.zeroed 1)) Kern.failedFork = some k ∧ k.lost = [2] ∧
      (k.sys.sched.proc 2).state = .unused ∧ (k.sys.sched.proc 2).killed = false ∧
      ∃ i < NPROC, (k.sys.sched.proc i).pid = 3 ∧ (k.sys.sched.proc i).state ≠ .unused := by
  have seen : (Runs.walk Kern.step Kern.gentle (Kern.zeroed (Sys.zeroed 1)) Kern.failedFork).map
      (fun k => (k.lost, (k.sys.sched.proc 2).state, k.gentle (.sys (.kill 3)), (k.sys.sched.kill 3).1)) =
        some ([2], .unused, true, 0) := by
    decide +kernel
  obtain ⟨k, walk, facts⟩ := Option.map_eq_some_iff.mp seen
  have start : Runs.Reachable Kern.Init Kern.step (fun k b => k.gentle b = true) (Kern.zeroed (Sys.zeroed 1)) :=
    .start (Kern.zeroed_init (Sys.zeroed_init (by decide) (by decide)))
  have clean := unused_slots_clean k (start.walk (fun _ _ passed => passed) walk)
  have unused : (k.sys.sched.proc 2).state = .unused := congrArg (fun x => x.2.1) facts
  exact ⟨k, walk, congrArg Prod.fst facts, unused, (clean.1 2 unused).1,
    clean.2.2 3 (congrArg (fun x => x.2.2.1) facts) (congrArg (fun x => x.2.2.2) facts)⟩

/-- kill(0) returns 0 although init, with pid 1, is the only process. It has marked the
    UNUSED slot 1, and the process that the next fork allocates there is killed at birth. -/
theorem kill_marks_unused_slot :
    ∃ k, Runs.Reachable Kern.Init Kern.step (fun _ _ => True) k ∧
      (∀ i < NPROC, (k.sys.sched.proc i).state ≠ .unused → (k.sys.sched.proc i).pid ≠ 0) ∧
      (k.sys.sched.kill 0).1 = 0 ∧
      ∃ k', k.step (.sys (.kill 0)) = .ok k' ∧ (k'.sys.sched.proc 1).state = .unused ∧
        (k'.sys.sched.proc 1).killed = true ∧ k'.sys.sched.allocproc.1 = some 1 ∧
        (k'.sys.sched.allocproc.2.proc 1).killed = true := by
  have seen : (Runs.run Kern.step (Kern.zeroed (Sys.zeroed 1))
      ([Act.userinitAlloc 500, .userinitRun 600, .dispatch 0].map .sys)).toOption.map (fun k =>
        (decide (∀ i < NPROC, (k.sys.sched.proc i).state ≠ .unused → (k.sys.sched.proc i).pid ≠ 0),
          (k.sys.sched.kill 0).1, (k.step (.sys (.kill 0))).toOption.any fun k' =>
            decide ((k'.sys.sched.proc 1).state = .unused ∧ (k'.sys.sched.proc 1).killed = true ∧
              k'.sys.sched.allocproc.1 = some 1 ∧ (k'.sys.sched.allocproc.2.proc 1).killed = true))) =
      some (true, 0, true) := by
    decide +kernel
  obtain ⟨k, run, facts⟩ := Runs.observed seen
  have start : Runs.Reachable Kern.Init Kern.step (fun _ _ => True) (Kern.zeroed (Sys.zeroed 1)) :=
    .start (Kern.zeroed_init (Sys.zeroed_init (by decide) (by decide)))
  obtain ⟨named, facts⟩ := Prod.mk.inj facts
  obtain ⟨returned, facts⟩ := Prod.mk.inj facts
  refine ⟨k, start.run (fun _ _ _ => trivial) run, of_decide_eq_true named, returned, ?_⟩
  cases done : k.step (.sys (.kill 0)) with
  | error e =>
    rw [done] at facts
    cases facts
  | ok k' =>
    rw [done] at facts
    exact ⟨k', rfl, of_decide_eq_true facts⟩

end Xv6
