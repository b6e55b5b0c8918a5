import Xv6.Memory.Machine
import Xv6.Memory.ImageSpec

/-!
The invariant of the memory machine: the frames are accounted for by the directories
and kernel pages of the slots in use, and the process table is in order.
-/
namespace Xv6
open RefCount Phys

namespace Mem

/-- The live page directories: the kernel's and those of the slots in use. -/
def dirs (m : Mem) : Finset Nat :=
  insert m.kpgdir ((List.range NPROC).filterMap fun i => (m.slot i).map fun t => t.space.pgdir).toFinset

/-- Pages the kernel holds outside the page tables. -/
def own (m : Mem) : Finset Nat :=
  m.apstacks ∪ m.pipes ∪ ((List.range NPROC).filterMap fun i => (m.slot i).map Tenant.kstack).toFinset

/-- The process table: who uses which directory, break and kernel stack. -/
structure Tidy (m : Mem) : Prop where
  low : ∀ i t, m.slot i = some t → i < NPROC
  root : ∃ t, m.slot m.initproc = some t ∧ t.zombie = false ∧ t.parent = none
  small : ∀ i t, m.slot i = some t → t.space.sz < KERNBASE
  apart : ∀ i t, m.slot i = some t → t.space.pgdir ≠ m.kpgdir
  sizes : ∀ i t j u, m.slot i = some t → m.slot j = some u → t.space.pgdir = u.space.pgdir → t.space = u.space
  once : ∀ i t j u, m.slot i = some t → m.slot j = some u → t.kstack = u.kstack → i = j
  owners : ∀ i t, m.slot i = some t → t.kstack ∉ m.pipes ∧ t.kstack ∉ m.apstacks
  disjoint : ∀ f ∈ m.pipes, f ∉ m.apstacks
  kin : ∀ i t p, m.slot i = some t → t.parent = some p → ∃ u, m.slot p = some u ∧ u.zombie = false ∧
    (t.isthread = true → p ≠ m.initproc → u.space.pgdir = t.space.pgdir)

end Mem

def Mem.Below (m : Mem) (d vp : Nat) : Prop :=
  ∃ i t, m.slot i = some t ∧ t.space.pgdir = d ∧ 4096 * vp < t.space.sz

structure MemInv [Layout] (m : Mem) : Prop where
  tidy : m.Tidy
  frames : FrameInv m.dirs m.own (fun _ => 0) m.phys
  below : ∀ d ∈ m.dirs, ∀ vp < NUPAGES, (m.phys.pte d vp).p = true → m.Below d vp

namespace Mem.Tidy
variable {m : Mem}

theorem mem_dirs (tidy : m.Tidy) {d : Nat} :
    d ∈ m.dirs ↔ d = m.kpgdir ∨ ∃ i t, m.slot i = some t ∧ t.space.pgdir = d := by
  simp only [Mem.dirs, Finset.mem_insert, List.mem_toFinset, List.mem_filterMap, List.mem_range,
    Option.map_eq_some_iff]
  constructor
  · rintro (kernel | ⟨i, -, t, used, rfl⟩)
    · exact Or.inl kernel
    · exact Or.inr ⟨i, t, used, rfl⟩
  · rintro (kernel | ⟨i, t, used, rfl⟩)
    · exact Or.inl kernel
    · exact Or.inr ⟨i, tidy.low i t used, t, used, rfl⟩

theorem mem_own (tidy : m.Tidy) {f : Nat} :
    f ∈ m.own ↔ f ∈ m.apstacks ∨ f ∈ m.pipes ∨ ∃ i t, m.slot i = some t ∧ t.kstack = f := by
  simp only [Mem.own, Finset.mem_union, List.mem_toFinset, List.mem_filterMap, List.mem_range,
    Option.map_eq_some_iff, or_assoc]
  constructor
  · rintro (ap | pipe | ⟨i, -, t, used, rfl⟩)
    · exact Or.inl ap
    · exact Or.inr (Or.inl pipe)
    · exact Or.inr (Or.inr ⟨i, t, used, rfl⟩)
  · rintro (ap | pipe | ⟨i, t, used, rfl⟩)
    · exact Or.inl ap
    · exact Or.inr (Or.inl pipe)
    · exact Or.inr (Or.inr ⟨i, tidy.low i t used, t, used, rfl⟩)

theorem dir_mem (tidy : m.Tidy) {i : Nat} {t : Tenant} (used : m.slot i = some t) : t.space.pgdir ∈ m.dirs :=
  tidy.mem_dirs.mpr (Or.inr ⟨i, t, used, rfl⟩)

theorem kernel_mem (tidy : m.Tidy) : m.kpgdir ∈ m.dirs := tidy.mem_dirs.mpr (Or.inl rfl)

theorem stack_mem (tidy : m.Tidy) {i : Nat} {t : Tenant} (used : m.slot i = some t) : t.kstack ∈ m.own :=
  tidy.mem_own.mpr (Or.inr (Or.inr ⟨i, t, used, rfl⟩))

theorem alone (tidy : m.Tidy) {i j : Nat} {t u : Tenant} (used : m.slot i = some t) (other : m.slot j = some u)
    (same : u.space.pgdir = t.space.pgdir) (few : m.pgdirUsers t.space.pgdir ≤ 1) : j = i := by
  have here : ∀ {k : Nat} {v : Tenant}, m.slot k = some v → v.space.pgdir = t.space.pgdir →
      k ∈ (List.range NPROC).filter fun i => (m.slot i).any fun u => u.space.pgdir = t.space.pgdir := by
    intro k v use eq
    simp [use, eq, tidy.low k v use]
  have first := here used rfl
  have second := here other same
  unfold Mem.pgdirUsers at few
  generalize (List.range NPROC).filter _ = l at first second few
  match l, few with
  | [], _ => cases first
  | [k], _ => rw [List.mem_singleton.mp first, List.mem_singleton.mp second]
  | _ :: _ :: _, few => simp at few

theorem shared (tidy : m.Tidy) {i : Nat} {t : Tenant} (used : m.slot i = some t)
    (more : m.pgdirUsers t.space.pgdir ≠ 1) :
    ∃ j u, m.slot j = some u ∧ u.space.pgdir = t.space.pgdir ∧ j ≠ i := by
  by_contra none
  push Not at none
  refine more ?_
  have only : ((List.range NPROC).filter fun j => (m.slot j).any fun u => u.space.pgdir = t.space.pgdir) =
      (List.range NPROC).filter fun j => j = i := by
    refine List.filter_congr fun j _ => ?_
    cases use : m.slot j with
    | none =>
      have : j ≠ i := by
        rintro rfl
        rw [used] at use
        cases use
      simp [this]
    | some u =>
      by_cases here : j = i
      · subst here
        rw [used] at use
        cases use
        simp
      · have other : u.space.pgdir ≠ t.space.pgdir := fun same => here (none j u use same)
        simp [here, other]
  rw [Mem.pgdirUsers, only]
  have low := tidy.low i t used
  rw [← List.countP_eq_length_filter]
  have count := List.count_eq_one_of_mem (List.nodup_range (n := NPROC)) (List.mem_range.mpr low)
  rw [← count, List.count]
  exact List.countP_congr fun j _ => by simp

theorem card_dirs (m : Mem) : m.dirs.card ≤ NPROC + 1 := by
  refine (Finset.card_insert_le _ _).trans (Nat.succ_le_succ ?_)
  refine (List.toFinset_card_le _).trans ((List.length_filterMap_le _ _).trans ?_)
  simp

theorem scan_some {test : Option Tenant → Bool} {i : Nat} (found : m.scan test = some i) :
    i < NPROC ∧ test (m.slot i) = true :=
  ⟨List.mem_range.mp (List.mem_of_find?_eq_some found), by simpa using List.find?_some found⟩

theorem withPhys (tidy : m.Tidy) (s' : Phys) : Tidy { m with phys := s' } :=
  ⟨tidy.low, tidy.root, tidy.small, tidy.apart, tidy.sizes, tidy.once, tidy.owners, tidy.disjoint, tidy.kin⟩

theorem card_le (tidy : m.Tidy) {l : Finset Nat} (only : ∀ i t, m.slot i = some t → i ∈ l) :
    m.dirs.card ≤ l.card + 1 ∧ m.own.card ≤ m.apstacks.card + m.pipes.card + l.card := by
  have dirs : m.dirs ⊆ insert m.kpgdir (l.image fun i => ((m.slot i).map fun t => t.space.pgdir).getD 0) := by
    intro d member
    rcases tidy.mem_dirs.mp member with rfl | ⟨i, t, used, rfl⟩
    · exact Finset.mem_insert_self ..
    · exact Finset.mem_insert_of_mem (Finset.mem_image.mpr ⟨i, only i t used, by simp [used]⟩)
  have own : m.own ⊆ (m.apstacks ∪ m.pipes) ∪ l.image fun i => ((m.slot i).map Tenant.kstack).getD 0 := by
    intro f member
    rcases tidy.mem_own.mp member with ap | pipe | ⟨i, t, used, rfl⟩
    · simp [ap]
    · simp [pipe]
    · exact Finset.mem_union_right _ (Finset.mem_image.mpr ⟨i, only i t used, by simp [used]⟩)
  constructor
  · refine (Finset.card_le_card dirs).trans ((Finset.card_insert_le _ _).trans (Nat.succ_le_succ ?_))
    exact Finset.card_image_le
  · refine (Finset.card_le_card own).trans ((Finset.card_union_le _ _).trans (Nat.add_le_add ?_ ?_))
    · exact Finset.card_union_le _ _
    · exact Finset.card_image_le

theorem keep {np i : Nat} {v : Tenant} (free : m.scan Option.isNone = some np) (was : m.slot i = some v)
    (t : Option Tenant) : Function.update m.slot np t i = some v := by
  have away : i ≠ np := by
    rintro rfl
    have := (scan_some free).2
    rw [was] at this
    cases this
  rw [Function.update_of_ne away, was]

theorem add (tidy : m.Tidy) {np p : Nat} {u t : Tenant} (free : m.scan Option.isNone = some np) (s' : Phys)
    (parent : m.slot p = some u) (alive : u.zombie = false) (kin : t.parent = some p) (born : t.zombie = false)
    (thread : t.isthread = true → u.space.pgdir = t.space.pgdir) (small : t.space.sz < KERNBASE)
    (apart : t.space.pgdir ≠ m.kpgdir)
    (sizes : ∀ i v, m.slot i = some v → v.space.pgdir = t.space.pgdir → v.space = t.space)
    (new : t.kstack ∉ m.own) : Tidy ({ m with phys := s' }.setSlot np (some t)) ∧
      ({ m with phys := s' }.setSlot np (some t)).dirs = insert t.space.pgdir m.dirs ∧
      ({ m with phys := s' }.setSlot np (some t)).own = insert t.kstack m.own := by
  obtain ⟨low, empty⟩ := scan_some free
  have unused : m.slot np = none := by simpa using empty
  have slot : ∀ i, ({ m with phys := s' }.setSlot np (some t)).slot i = if i = np then some t else m.slot i := by
    intro i
    simp only [Mem.setSlot, Function.update_apply]
  have old : ∀ {i v}, m.slot i = some v → i ≠ np := by
    rintro i v used rfl
    rw [unused] at used
    cases used
  have keep : ∀ {i v}, m.slot i = some v → ({ m with phys := s' }.setSlot np (some t)).slot i = some v := by
    intro i v used
    rw [slot, if_neg (old used), used]
  have split : ∀ {i v}, ({ m with phys := s' }.setSlot np (some t)).slot i = some v →
      i = np ∧ v = t ∨ i ≠ np ∧ m.slot i = some v := by
    intro i v used
    rw [slot] at used
    split at used
    · rename_i here
      exact Or.inl ⟨here, (Option.some.inj used).symm⟩
    · rename_i away
      exact Or.inr ⟨away, used⟩
  have mine : ∀ {f}, f ∈ m.own ↔ f ∈ m.apstacks ∨ f ∈ m.pipes ∨ ∃ i t, m.slot i = some t ∧ t.kstack = f :=
    tidy.mem_own
  have tidy' : Tidy ({ m with phys := s' }.setSlot np (some t)) := by
    constructor
    · intro i v used
      rcases split used with ⟨rfl, -⟩ | ⟨-, was⟩
      · exact low
      · exact tidy.low i v was
    · obtain ⟨v, used, rest⟩ := tidy.root
      exact ⟨v, keep used, rest⟩
    · intro i v used
      rcases split used with ⟨-, rfl⟩ | ⟨-, was⟩
      · exact small
      · exact tidy.small i v was
    · intro i v used
      rcases split used with ⟨-, rfl⟩ | ⟨-, was⟩
      · exact apart
      · exact tidy.apart i v was
    · intro i v j w one two same
      rcases split one with ⟨-, rfl⟩ | ⟨-, was⟩
      · rcases split two with ⟨-, rfl⟩ | ⟨-, was'⟩
        · rfl
        · exact (sizes j w was' same.symm).symm
      · rcases split two with ⟨-, rfl⟩ | ⟨-, was'⟩
        · exact sizes i v was same
        · exact tidy.sizes i v j w was was' same
    · intro i v j w one two same
      rcases split one with ⟨rfl, rfl⟩ | ⟨-, was⟩
      · rcases split two with ⟨rfl, -⟩ | ⟨-, was'⟩
        · rfl
        · exact (new (same ▸ tidy.stack_mem was')).elim
      · rcases split two with ⟨rfl, rfl⟩ | ⟨-, was'⟩
        · exact (new (same ▸ tidy.stack_mem was)).elim
        · exact tidy.once i v j w was was' same
    · intro i v used
      rcases split used with ⟨-, rfl⟩ | ⟨-, was⟩
      · exact ⟨fun pipe => new (mine.mpr (Or.inr (Or.inl pipe))), fun ap => new (mine.mpr (Or.inl ap))⟩
      · exact tidy.owners i v was
    · exact tidy.disjoint
    · intro i v q used from'
      rcases split used with ⟨-, rfl⟩ | ⟨-, was⟩
      · rw [kin] at from'
        cases from'
        exact ⟨u, keep parent, alive, fun isthread _ => thread isthread⟩
      · obtain ⟨w, there, rest⟩ := tidy.kin i v q was from'
        exact ⟨w, keep there, rest⟩
  refine ⟨tidy', ?_, ?_⟩
  · ext d
    rw [tidy'.mem_dirs, Finset.mem_insert, tidy.mem_dirs]
    constructor
    · rintro (kernel | ⟨i, v, used, rfl⟩)
      · exact Or.inr (Or.inl kernel)
      · rcases split used with ⟨-, rfl⟩ | ⟨-, was⟩
        · exact Or.inl rfl
        · exact Or.inr (Or.inr ⟨i, v, was, rfl⟩)
    · rintro (rfl | kernel | ⟨i, v, used, rfl⟩)
      · exact Or.inr ⟨np, t, by rw [slot, if_pos rfl], rfl⟩
      · exact Or.inl kernel
      · exact Or.inr ⟨i, v, keep used, rfl⟩
  · ext f
    rw [tidy'.mem_own, Finset.mem_insert, mine]
    constructor
    · rintro (ap | pipe | ⟨i, v, used, rfl⟩)
      · exact Or.inr (Or.inl ap)
      · exact Or.inr (Or.inr (Or.inl pipe))
      · rcases split used with ⟨-, rfl⟩ | ⟨-, was⟩
        · exact Or.inl rfl
        · exact Or.inr (Or.inr (Or.inr ⟨i, v, was, rfl⟩))
    · rintro (rfl | ap | pipe | ⟨i, v, used, rfl⟩)
      · exact Or.inr (Or.inr ⟨np, t, by rw [slot, if_pos rfl], rfl⟩)
      · exact Or.inl ap
      · exact Or.inr (Or.inl pipe)
      · exact Or.inr (Or.inr ⟨i, v, keep used, rfl⟩)

theorem carry (tidy : m.Tidy) {m' : Mem} (aps : m'.apstacks = m.apstacks) (pipes : m'.pipes = m.pipes)
    (back : ∀ i t', m'.slot i = some t' → ∃ t, m.slot i = some t ∧ t'.kstack = t.kstack)
    (root : ∃ t, m'.slot m'.initproc = some t ∧ t.zombie = false ∧ t.parent = none)
    (small : ∀ i t, m'.slot i = some t → t.space.sz < KERNBASE)
    (apart : ∀ i t, m'.slot i = some t → t.space.pgdir ≠ m'.kpgdir)
    (sizes : ∀ i t j u, m'.slot i = some t → m'.slot j = some u → t.space.pgdir = u.space.pgdir →
      t.space = u.space)
    (kin : ∀ i t p, m'.slot i = some t → t.parent = some p → ∃ u, m'.slot p = some u ∧ u.zombie = false ∧
      (t.isthread = true → p ≠ m'.initproc → u.space.pgdir = t.space.pgdir)) : m'.Tidy := by
  refine ⟨?_, root, small, apart, sizes, ?_, ?_, ?_, kin⟩
  · intro i t' used
    obtain ⟨t, was, -⟩ := back i t' used
    exact tidy.low i t was
  · intro i t' j u' one two same
    obtain ⟨t, was, stack⟩ := back i t' one
    obtain ⟨u, was', stack'⟩ := back j u' two
    exact tidy.once i t j u was was' (by rw [← stack, ← stack', same])
  · intro i t' used
    obtain ⟨t, was, stack⟩ := back i t' used
    rw [stack, pipes, aps]
    exact tidy.owners i t was
  · rw [pipes, aps]
    exact tidy.disjoint

theorem dirs_congr {m m' : Mem} (kpgdir : m'.kpgdir = m.kpgdir)
    (slot : ∀ i, (m'.slot i).map (fun t => t.space.pgdir) = (m.slot i).map fun t => t.space.pgdir) :
    m'.dirs = m.dirs := by
  simp only [Mem.dirs, kpgdir, slot]

theorem own_congr {m m' : Mem} (aps : m'.apstacks = m.apstacks) (pipes : m'.pipes = m.pipes)
    (slot : ∀ i, (m'.slot i).map Tenant.kstack = (m.slot i).map Tenant.kstack) : m'.own = m.own := by
  simp only [Mem.own, aps, pipes, slot]

theorem childless (tidy : m.Tidy) {q i : Nat} {t c : Tenant} (used : m.slot q = some t) (dead : t.zombie = true)
    (child : m.slot i = some c) : c.parent ≠ some q := by
  intro kin
  obtain ⟨u, there, alive, -⟩ := tidy.kin i c q child kin
  rw [used] at there
  cases there
  rw [dead] at alive
  cases alive

theorem remove (tidy : m.Tidy) {q : Nat} {t : Tenant} (used : m.slot q = some t) (dead : t.zombie = true)
    (s' : Phys) : Tidy ({ m with phys := s' }.setSlot q none) ∧
      ({ m with phys := s' }.setSlot q none).own = m.own.erase t.kstack ∧
      ((∃ j u, m.slot j = some u ∧ u.space.pgdir = t.space.pgdir ∧ j ≠ q) →
        ({ m with phys := s' }.setSlot q none).dirs = m.dirs) ∧
      ((∀ j u, m.slot j = some u → u.space.pgdir = t.space.pgdir → j = q) →
        ({ m with phys := s' }.setSlot q none).dirs = m.dirs.erase t.space.pgdir) := by
  have slot : ∀ i v, ({ m with phys := s' }.setSlot q none).slot i = some v ↔ i ≠ q ∧ m.slot i = some v := by
    intro i v
    simp only [Mem.setSlot, Function.update_apply]
    by_cases here : i = q <;> simp [here]
  have notInit : q ≠ m.initproc := by
    rintro rfl
    obtain ⟨v, there, alive, -⟩ := tidy.root
    rw [used] at there
    cases there
    rw [dead] at alive
    cases alive
  have tidy' : Tidy ({ m with phys := s' }.setSlot q none) := by
    refine tidy.carry rfl rfl (fun i v use => ⟨v, ((slot i v).mp use).2, rfl⟩) ?_ ?_ ?_ ?_ ?_
    · obtain ⟨v, there, rest⟩ := tidy.root
      exact ⟨v, (slot _ v).mpr ⟨notInit.symm, there⟩, rest⟩
    · intro i v use
      exact tidy.small i v ((slot i v).mp use).2
    · intro i v use
      exact tidy.apart i v ((slot i v).mp use).2
    · intro i v j w one two
      exact tidy.sizes i v j w ((slot i v).mp one).2 ((slot j w).mp two).2
    · intro i v p use kin
      have was := ((slot i v).mp use).2
      obtain ⟨u, there, rest⟩ := tidy.kin i v p was kin
      refine ⟨u, (slot p u).mpr ⟨?_, there⟩, rest⟩
      rintro rfl
      exact tidy.childless used dead was kin
  refine ⟨tidy', ?_, ?_, ?_⟩
  · ext f
    rw [tidy'.mem_own, Finset.mem_erase, tidy.mem_own]
    constructor
    · rintro (ap | pipe | ⟨i, v, use, rfl⟩)
      · exact ⟨fun same => (tidy.owners q t used).2 (same ▸ ap), Or.inl ap⟩
      · exact ⟨fun same => (tidy.owners q t used).1 (same ▸ pipe), Or.inr (Or.inl pipe)⟩
      · obtain ⟨away, was⟩ := (slot i v).mp use
        exact ⟨fun same => away (tidy.once i v q t was used same), Or.inr (Or.inr ⟨i, v, was, rfl⟩)⟩
    · rintro ⟨ne, ap | pipe | ⟨i, v, was, rfl⟩⟩
      · exact Or.inl ap
      · exact Or.inr (Or.inl pipe)
      · refine Or.inr (Or.inr ⟨i, v, (slot i v).mpr ⟨?_, was⟩, rfl⟩)
        rintro rfl
        rw [used] at was
        cases was
        exact ne rfl
  · rintro ⟨j, u, other, same, away⟩
    ext d
    rw [tidy'.mem_dirs, tidy.mem_dirs]
    constructor
    · rintro (kernel | ⟨i, v, use, rfl⟩)
      · exact Or.inl kernel
      · exact Or.inr ⟨i, v, ((slot i v).mp use).2, rfl⟩
    · rintro (kernel | ⟨i, v, was, rfl⟩)
      · exact Or.inl kernel
      · by_cases here : i = q
        · subst here
          rw [used] at was
          cases was
          exact Or.inr ⟨j, u, (slot j u).mpr ⟨away, other⟩, same⟩
        · exact Or.inr ⟨i, v, (slot i v).mpr ⟨here, was⟩, rfl⟩
  · intro alone
    ext d
    rw [tidy'.mem_dirs, Finset.mem_erase, tidy.mem_dirs]
    constructor
    · rintro (rfl | ⟨i, v, use, rfl⟩)
      · exact ⟨fun same => tidy.apart q t used same.symm, Or.inl rfl⟩
      · obtain ⟨away, was⟩ := (slot i v).mp use
        exact ⟨fun same => away (alone i v was same), Or.inr ⟨i, v, was, rfl⟩⟩
    · rintro ⟨ne, kernel | ⟨i, v, was, rfl⟩⟩
      · exact Or.inl kernel
      · refine Or.inr ⟨i, v, (slot i v).mpr ⟨?_, was⟩, rfl⟩
        rintro rfl
        rw [used] at was
        cases was
        exact ne rfl

theorem setSize_slot (m : Mem) (d sz i : Nat) (t' : Tenant) : (m.setSize d sz).slot i = some t' ↔
    ∃ t, m.slot i = some t ∧ (if t.space.pgdir = d then { t with space := ⟨d, sz⟩ } else t) = t' := by
  simp only [Mem.setSize, Option.map_eq_some_iff]

theorem resize (tidy : m.Tidy) (d : Nat) {sz : Nat} (small : sz < KERNBASE) :
    (m.setSize d sz).Tidy ∧ (m.setSize d sz).dirs = m.dirs ∧ (m.setSize d sz).own = m.own := by
  have dir : ∀ t : Tenant, (if t.space.pgdir = d then { t with space := ⟨d, sz⟩ } else t).space.pgdir =
      t.space.pgdir := by
    intro t
    split
    · rename_i here
      exact here.symm
    · rfl
  have back : ∀ {i t'}, (m.setSize d sz).slot i = some t' → ∃ t, m.slot i = some t ∧ t'.kstack = t.kstack ∧
      t'.parent = t.parent ∧ t'.isthread = t.isthread ∧ t'.zombie = t.zombie ∧
      t'.space.pgdir = t.space.pgdir ∧ t'.space.sz = if t.space.pgdir = d then sz else t.space.sz := by
    intro i t' use
    obtain ⟨t, was, rfl⟩ := (setSize_slot m d sz i t').mp use
    refine ⟨t, was, ?_⟩
    split
    · rename_i here
      simp [here]
    · rename_i away
      simp
  have into : ∀ {i t}, m.slot i = some t → ∃ t', (m.setSize d sz).slot i = some t' ∧ t'.parent = t.parent ∧
      t'.zombie = t.zombie ∧ t'.space.pgdir = t.space.pgdir := by
    intro i t was
    refine ⟨_, (setSize_slot m d sz i _).mpr ⟨t, was, rfl⟩, ?_⟩
    split
    · rename_i here
      simp [here]
    · simp
  refine ⟨tidy.carry rfl rfl ?_ ?_ ?_ ?_ ?_ ?_, dirs_congr rfl ?_, own_congr rfl rfl ?_⟩
  · intro i t' use
    obtain ⟨t, was, stack, -⟩ := back use
    exact ⟨t, was, stack⟩
  · obtain ⟨t, there, alive, orphan⟩ := tidy.root
    obtain ⟨t', use, parent, zombie, -⟩ := into there
    exact ⟨t', use, zombie.trans alive, parent.trans orphan⟩
  · intro i t' use
    obtain ⟨t, was, -, -, -, -, -, size⟩ := back use
    rw [size]
    split
    · exact small
    · exact tidy.small i t was
  · intro i t' use
    obtain ⟨t, was, -, -, -, -, same, -⟩ := back use
    rw [same]
    exact tidy.apart i t was
  · intro i t' j u' one two same
    obtain ⟨t, was, -, -, -, -, pgdir, size⟩ := back one
    obtain ⟨u, was', -, -, -, -, pgdir', size'⟩ := back two
    have both : t.space = u.space := tidy.sizes i t j u was was' (by rw [← pgdir, ← pgdir', same])
    have eqs : t'.space.sz = u'.space.sz := by rw [size, size', both]
    cases h : t'.space
    cases h' : u'.space
    rw [h, h'] at same eqs
    simp_all
  · intro i t' p use kin
    obtain ⟨t, was, -, parent, isthread, -, pgdir, -⟩ := back use
    obtain ⟨u, there, alive, thread⟩ := tidy.kin i t p was (parent ▸ kin)
    obtain ⟨u', use', -, zombie, pgdir'⟩ := into there
    refine ⟨u', use', zombie.trans alive, fun mine notInit => ?_⟩
    rw [pgdir, pgdir']
    exact thread (isthread ▸ mine) notInit
  · intro i
    simp only [Mem.setSize, Option.map_map]
    congr 1
    funext t
    exact dir t
  · intro i
    simp only [Mem.setSize, Option.map_map]
    congr 1
    funext t
    simp only [Function.comp]
    split <;> rfl

theorem move (tidy : m.Tidy) {p : Nat} {t : Tenant} (used : m.slot p = some t)
    (alone : ∀ j u, m.slot j = some u → u.space.pgdir = t.space.pgdir → j = p) {d sz : Nat} (fresh : d ∉ m.dirs)
    (small : sz < KERNBASE) (s' : Phys) :
    Tidy ({ m with phys := s' }.setSlot p (some { t with space := ⟨d, sz⟩ })) ∧
      ({ m with phys := s' }.setSlot p (some { t with space := ⟨d, sz⟩ })).dirs =
        (insert d m.dirs).erase t.space.pgdir ∧
      ({ m with phys := s' }.setSlot p (some { t with space := ⟨d, sz⟩ })).own = m.own := by
  have slot : ∀ i v, ({ m with phys := s' }.setSlot p (some { t with space := ⟨d, sz⟩ })).slot i = some v ↔
      i = p ∧ v = { t with space := ⟨d, sz⟩ } ∨ i ≠ p ∧ m.slot i = some v := by
    intro i v
    simp only [Mem.setSlot, Function.update_apply]
    by_cases here : i = p
    · simp [here, eq_comm]
    · simp [here]
  have newdir : ∀ {i v}, m.slot i = some v → v.space.pgdir ≠ d := by
    rintro i v was rfl
    exact fresh (tidy.dir_mem was)
  have tidy' : Tidy ({ m with phys := s' }.setSlot p (some { t with space := ⟨d, sz⟩ })) := by
    refine tidy.carry rfl rfl ?_ ?_ ?_ ?_ ?_ ?_
    · intro i v use
      rcases (slot i v).mp use with ⟨rfl, rfl⟩ | ⟨-, was⟩
      · exact ⟨t, used, rfl⟩
      · exact ⟨v, was, rfl⟩
    · obtain ⟨v, there, alive, orphan⟩ := tidy.root
      by_cases here : m.initproc = p
      · rw [here, used] at there
        cases there
        exact ⟨_, (slot _ _).mpr (Or.inl ⟨here, rfl⟩), alive, orphan⟩
      · exact ⟨v, (slot _ _).mpr (Or.inr ⟨here, there⟩), alive, orphan⟩
    · intro i v use
      rcases (slot i v).mp use with ⟨-, rfl⟩ | ⟨-, was⟩
      · exact small
      · exact tidy.small i v was
    · intro i v use
      rcases (slot i v).mp use with ⟨-, rfl⟩ | ⟨-, was⟩
      · intro (same : d = m.kpgdir)
        exact fresh (same ▸ tidy.kernel_mem)
      · exact tidy.apart i v was
    · intro i v j w one two same
      rcases (slot i v).mp one with ⟨-, rfl⟩ | ⟨-, was⟩
      · rcases (slot j w).mp two with ⟨-, rfl⟩ | ⟨-, was'⟩
        · rfl
        · exact (newdir was' same.symm).elim
      · rcases (slot j w).mp two with ⟨-, rfl⟩ | ⟨-, was'⟩
        · exact (newdir was same).elim
        · exact tidy.sizes i v j w was was' same
    · intro i v q use kin
      rcases (slot i v).mp use with ⟨rfl, rfl⟩ | ⟨away, was⟩
      · obtain ⟨u, there, alive, thread⟩ := tidy.kin i t q used kin
        by_cases self : q = i
        · subst self
          rw [used] at there
          cases there
          exact ⟨_, (slot _ _).mpr (Or.inl ⟨rfl, rfl⟩), alive, fun _ _ => rfl⟩
        · refine ⟨u, (slot _ _).mpr (Or.inr ⟨self, there⟩), alive, fun mine notInit => ?_⟩
          exact (self (alone q u there (thread mine notInit))).elim
      · obtain ⟨u, there, alive, thread⟩ := tidy.kin i v q was kin
        by_cases self : q = p
        · subst self
          rw [used] at there
          cases there
          refine ⟨_, (slot _ _).mpr (Or.inl ⟨rfl, rfl⟩), alive, fun mine notInit => ?_⟩
          exact (away (alone i v was (thread mine notInit).symm)).elim
        · exact ⟨u, (slot _ _).mpr (Or.inr ⟨self, there⟩), alive, thread⟩
  refine ⟨tidy', ?_, own_congr rfl rfl ?_⟩
  · ext e
    rw [tidy'.mem_dirs, Finset.mem_erase, Finset.mem_insert, tidy.mem_dirs]
    constructor
    · rintro (rfl | ⟨i, v, use, rfl⟩)
      · exact ⟨fun same => tidy.apart p t used same.symm, Or.inr (Or.inl rfl)⟩
      · rcases (slot i v).mp use with ⟨-, rfl⟩ | ⟨away, was⟩
        · exact ⟨fun same => newdir used same.symm, Or.inl rfl⟩
        · exact ⟨fun same => away (alone i v was same), Or.inr (Or.inr ⟨i, v, was, rfl⟩)⟩
    · rintro ⟨ne, rfl | kernel | ⟨i, v, was, rfl⟩⟩
      · exact Or.inr ⟨p, _, (slot _ _).mpr (Or.inl ⟨rfl, rfl⟩), rfl⟩
      · exact Or.inl kernel
      · refine Or.inr ⟨i, v, (slot _ _).mpr (Or.inr ⟨?_, was⟩), rfl⟩
        rintro rfl
        rw [used] at was
        cases was
        exact ne rfl
  · intro i
    simp only [Mem.setSlot, Function.update_apply]
    split
    · rename_i here
      rw [here, used]
      rfl
    · rfl

theorem leave (tidy : m.Tidy) {p : Nat} {t : Tenant} (used : m.slot p = some t) (ne : p ≠ m.initproc) :
    ∃ m', m.exit p t = .ok m' ∧ m'.Tidy ∧ m'.dirs = m.dirs ∧ m'.own = m.own ∧ m'.phys = m.phys ∧
      (∀ i, (m'.slot i).map Tenant.space = (m.slot i).map Tenant.space) ∧
      ∀ i, i ≠ p → (m'.slot i).map Tenant.zombie = (m.slot i).map Tenant.zombie := by
  unfold Mem.exit
  rw [if_neg ne]
  generalize orphanage : (fun c : Tenant => if c.parent = some p then { c with parent := some m.initproc } else c) =
    orphan
  have same : ∀ c, (orphan c).space = c.space ∧ (orphan c).kstack = c.kstack ∧ (orphan c).zombie = c.zombie ∧
      (orphan c).isthread = c.isthread := by
    intro c
    rw [← orphanage]
    simp only
    split
    · exact ⟨rfl, rfl, rfl, rfl⟩
    · exact ⟨rfl, rfl, rfl, rfl⟩
  have parent : ∀ c, (orphan c).parent = if c.parent = some p then some m.initproc else c.parent := by
    intro c
    rw [← orphanage]
    simp only
    split
    · rfl
    · rfl
  generalize made : ({ m with slot := fun i => (m.slot i).map orphan }.setSlot p
    (some { orphan t with zombie := true })) = m'
  have slot : ∀ i v, m'.slot i = some v ↔
      i = p ∧ v = { orphan t with zombie := true } ∨ i ≠ p ∧ ∃ c, m.slot i = some c ∧ orphan c = v := by
    intro i v
    rw [← made]
    simp only [Mem.setSlot, Function.update_apply]
    by_cases here : i = p
    · simp [here, eq_comm]
    · simp [here]
  have back : ∀ {i v}, m'.slot i = some v → ∃ c, m.slot i = some c ∧ v.space = c.space ∧ v.kstack = c.kstack ∧
      v.isthread = c.isthread ∧ v.parent = (orphan c).parent := by
    intro i v use
    rcases (slot i v).mp use with ⟨rfl, rfl⟩ | ⟨-, c, was, rfl⟩
    · exact ⟨t, used, (same t).1, (same t).2.1, (same t).2.2.2, rfl⟩
    · exact ⟨c, was, (same c).1, (same c).2.1, (same c).2.2.2, rfl⟩
  have fields : m'.apstacks = m.apstacks ∧ m'.pipes = m.pipes ∧ m'.kpgdir = m.kpgdir ∧
      m'.initproc = m.initproc ∧ m'.phys = m.phys := by
    rw [← made]
    exact ⟨rfl, rfl, rfl, rfl, rfl⟩
  obtain ⟨aps, pipes, kpgdir, initproc, phys⟩ := fields
  have spaces : ∀ i, (m'.slot i).map Tenant.space = (m.slot i).map Tenant.space := by
    intro i
    rw [← made]
    simp only [Mem.setSlot, Function.update_apply]
    split
    · rename_i here
      rw [here, used]
      simp [(same t).1]
    · rw [Option.map_map]
      congr 1
      funext c
      exact (same c).1
  have others : ∀ i, i ≠ p → (m'.slot i).map Tenant.zombie = (m.slot i).map Tenant.zombie := by
    intro i away
    rw [← made]
    simp only [Mem.setSlot, Function.update_of_ne away]
    rw [Option.map_map]
    congr 1
    funext c
    exact (same c).2.2.1
  have stands : ∀ {i c}, m.slot i = some c → i ≠ p → m'.slot i = some (orphan c) :=
    fun was away => (slot _ _).mpr (Or.inr ⟨away, _, was, rfl⟩)
  refine ⟨m', congrArg Except.ok made, tidy.carry aps pipes ?_ ?_ ?_ ?_ ?_ ?_, dirs_congr kpgdir ?_, own_congr aps pipes ?_, phys,
    spaces, others⟩
  · intro i v use
    obtain ⟨c, was, -, stack, -⟩ := back use
    exact ⟨c, was, stack⟩
  · obtain ⟨r, there, alive, none⟩ := tidy.root
    refine ⟨orphan r, initproc ▸ stands there ne.symm, (same r).2.2.1.trans alive, ?_⟩
    rw [parent, none]
    simp
  · intro i v use
    obtain ⟨c, was, space, -⟩ := back use
    rw [space]
    exact tidy.small i c was
  · intro i v use
    obtain ⟨c, was, space, -⟩ := back use
    rw [space, kpgdir]
    exact tidy.apart i c was
  · intro i v j w one two eq
    obtain ⟨c, was, space, -⟩ := back one
    obtain ⟨e, was', space', -⟩ := back two
    rw [space, space'] at eq ⊢
    exact tidy.sizes i c j e was was' eq
  · intro i v q use kin
    obtain ⟨c, was, space, -, thread, from'⟩ := back use
    rw [from', parent] at kin
    split at kin
    · cases kin
      obtain ⟨r, there, alive, -⟩ := tidy.root
      exact ⟨orphan r, stands there ne.symm, (same r).2.2.1.trans alive,
        fun _ notInit => (notInit initproc.symm).elim⟩
    · rename_i other
      obtain ⟨u, there, alive, share⟩ := tidy.kin i c q was kin
      have away : q ≠ p := by
        rintro rfl
        exact other kin
      refine ⟨orphan u, stands there away, (same u).2.2.1.trans alive, fun mine notInit => ?_⟩
      rw [(same u).1, space]
      exact share (thread ▸ mine) (initproc ▸ notInit)
  · intro i
    have := congrArg (Option.map Space.pgdir) (spaces i)
    rw [Option.map_map, Option.map_map] at this
    exact this
  · intro i
    rw [← made]
    simp only [Mem.setSlot, Function.update_apply]
    split
    · rename_i here
      rw [here, used]
      simp [(same t).2.1]
    · rw [Option.map_map]
      congr 1
      funext c
      exact (same c).2.1

end Mem.Tidy

namespace MemInv
variable [Layout] {m : Mem}

theorem trim (inv : MemInv m) {i vp : Nat} {t : Tenant} (used : m.slot i = some t) (hv : vp < NUPAGES)
    (above : t.space.sz ≤ 4096 * vp) : (m.phys.pte t.space.pgdir vp).p = false := by
  by_contra there
  obtain ⟨j, u, use, same, low⟩ := inv.below _ (inv.tidy.dir_mem used) vp hv (by simpa using there)
  rw [inv.tidy.sizes j u i t use used same] at low
  omega

theorem bare (inv : MemInv m) {vp : Nat} (hv : vp < NUPAGES) : (m.phys.pte m.kpgdir vp).p = false := by
  by_contra there
  obtain ⟨i, t, used, same, -⟩ := inv.below _ inv.tidy.kernel_mem vp hv (by simpa using there)
  exact inv.tidy.apart i t used same

end MemInv
end Xv6
