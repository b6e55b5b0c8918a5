import Xv6.Memory.Keeps

/-!
What a page fault does: every outcome of lazyalloc, cowfault and pagefault on an
accounted memory, with the exact amount of free memory each of them needs.
-/
namespace Xv6
open RefCount Phys

section
variable [Layout] {live own : Finset Nat} {x : Nat → Nat} {s : Phys}

namespace FrameInv

theorem oom (inv : FrameInv live own x s) (b : Bool) : FrameInv live own x { s with oom := b } :=
  inv.transfer (fun _ _ _ _ => rfl) (fun _ _ _ _ => rfl) rfl rfl

theorem dir_held (inv : FrameInv live own x s) {d : Nat} (hd : d ∈ live) : s.ref d = 1 :=
  inv.kernel d (by simp [kernelRefs, hd])

theorem tab_held (inv : FrameInv live own x s) {d i t : Nat} (hd : d ∈ live)
    (hi : i < NPDENTRIES) (ht : s.tableTarget d i = some t) : s.ref t = 1 :=
  inv.kernel t (by have := inv.table_held hd hi ht; unfold kernelRefs; omega)

theorem keeps_of_held (inv : FrameInv live own x s) {s' : Phys} (off : Nat → Nat → Prop)
    (page : ∀ g, s.ref g ≠ 0 → s'.page g = s.page g) : KeepsOff live off s s' := by
  constructor
  · intro d hd vp _ _
    refine pte_congr (page d (by rw [inv.dir_held hd]; decide)) fun t ht => page t ?_
    rw [inv.tab_held hd (Nat.mod_lt _ (by decide)) ht]
    decide
  · intro d hd vp hv _ f mapped
    exact page f (inv.user_held hd hv mapped)

end FrameInv

/-- A frame fresh from kalloc, filled with pg, while the caller still holds it. -/
structure Taken [Layout] (live own : Finset Nat) (x : Nat → Nat) (s : Phys) (f : Nat) (pg : Page)
    (z : Phys) : Prop where
  inv : FrameInv live (insert f own) x z
  new : f ∉ own
  dir : f ∉ live
  page : z.page f = pg
  one : z.ref f = 1
  calm : z.oom = s.oom
  still : ∀ g, s.ref g ≠ 0 → g ≠ f ∧ z.page g = s.page g ∧ z.ref g = s.ref g
  length : s.freelist.length = z.freelist.length + 1

theorem kalloc_page (inv : FrameInv live own x s) {f : Nat} {next : List Nat}
    (list : s.freelist = f :: next) (pg : Page) :
    Taken live own x s f pg ((s.pop f next).setPage f pg) := by
  obtain ⟨unmapped, kern, flight⟩ := inv.fresh (f := f) (by simp [list])
  obtain ⟨tab, dir, new⟩ := FrameInv.kernelRefs_zero kern
  have free := ((inv.free f).mp (by simp [list])).2
  refine ⟨(inv.kalloc list).setPage pg dir tab, new, dir, by simp, by simp [Phys.pop], rfl, ?_, ?_⟩
  · intro g held
    have ne : g ≠ f := by
      rintro rfl
      exact held free
    simp [Phys.pop, ne]
  · simp [list, Phys.pop]

namespace Taken

theorem keeps {f : Nat} {pg : Page} {z : Phys} (t : Taken live own x s f pg z)
    (inv : FrameInv live own x s) (off : Nat → Nat → Prop) : KeepsOff live off s z :=
  inv.keeps_of_held off fun g held => (t.still g held).2.1

theorem tableTarget {f : Nat} {pg : Page} {z : Phys} (t : Taken live own x s f pg z)
    (inv : FrameInv live own x s) {d : Nat} (hd : d ∈ live) (i : Nat) :
    z.tableTarget d i = s.tableTarget d i :=
  tableTarget_congr (t.still d (by rw [inv.dir_held hd]; decide)).2.1 i

theorem needsTable {f : Nat} {pg : Page} {z : Phys} (t : Taken live own x s f pg z)
    (inv : FrameInv live own x s) {d : Nat} (hd : d ∈ live) (va : Nat) :
    z.needsTable d va = s.needsTable d va := by
  simp [Phys.needsTable, t.tableTarget inv hd]

theorem give_back {f : Nat} {pg : Page} {z : Phys} (t : Taken live own x s f pg z)
    (inv : FrameInv live own x s) (off : Nat → Nat → Prop) (b : Bool) :
    ({ z with oom := b } : Phys).kfree f = .ok (({ z with oom := b } : Phys).drop f) ∧
      FrameInv live own x (({ z with oom := b } : Phys).drop f) ∧
      KeepsOff live off s (({ z with oom := b } : Phys).drop f) := by
  obtain ⟨run, inv'⟩ := (t.inv.oom b).kfree_own t.new
  refine ⟨run, inv', inv.keeps_of_held off fun g held => ?_⟩
  obtain ⟨ne, page, -⟩ := t.still g held
  rw [drop_page_ne ne]
  exact page

end Taken

/-- Mapping one absent page: either a table is missing and memory is out, or the
    table is there and the entry is stored. -/
theorem map_page (inv : FrameInv live own x s) {d vp : Nat} (hd : d ∈ live) (hv : vp < 1048576)
    (absent : (s.pte d vp).p = false) (f : Nat) (perm : Perm) :
    (s.freelist = [] ∧ s.needsTable d (vp * PGSIZE) = 1 ∧
      s.mappages d (vp * PGSIZE) PGSIZE f perm = .ok (-1, { s with oom := true })) ∨
    ∃ t s', FrameInv live own x s' ∧ Walked live s d (vp * PGSIZE) t s' ∧
      s.mappages d (vp * PGSIZE) PGSIZE f perm =
        .ok (0, s'.setEntry t (vp % 1024) ⟨perm, f, true⟩) := by
  rw [mappages_one s d vp f perm hv]
  rcases walk_alloc inv hd (vp * PGSIZE) with ⟨list, need, walk⟩ | ⟨t, s', walk, inv', walked⟩
  · exact Or.inl ⟨list, need, by rw [walk]⟩
  · refine Or.inr ⟨t, s', inv', walked, ?_⟩
    have table := walked.table
    rw [pdx_page] at table
    have here : (s'.entry t (vp % 1024)).p = false := by
      rw [← pte_of_table table, walked.keeps.pte d hd vp hv not_false]
      exact absent
    simp only [walk, ptx_page, here, Bool.false_eq_true, ↓reduceIte]

inductive LazyOutcome (live own : Finset Nat) (x : Nat → Nat) (s : Phys) (d vp : Nat) :
    Int → Phys → Prop where
  | mapped (s' : Phys) (f : Nat) (inv : FrameInv live own x s')
      (entry : s'.pte d vp = ⟨⟨true, true, false⟩, f, true⟩)
      (zero : s'.page f = .bytes fun _ => 0)
      (keeps : KeepsOff live (fun d' vp' => d' = d ∧ vp' = vp) s s')
      (memory : 1 + s.needsTable d (vp * PGSIZE) ≤ s.freelist.length) (calm : s'.oom = s.oom)
      (balance : s'.missing d + s.freelist.length = s.missing d + s'.freelist.length + 1)
      (others : SameTables (live.erase d) s s') :
      LazyOutcome live own x s d vp 0 s'
  | failed (s' : Phys) (inv : FrameInv live own x s')
      (keeps : KeepsOff live (fun _ _ => False) s s')
      (memory : s.freelist.length < 1 + s.needsTable d (vp * PGSIZE))
      (short : s'.oom = true) : LazyOutcome live own x s d vp (-1) s'

theorem adopt_page (inv : FrameInv live (insert f own) x s) (new : f ∉ own) {d vp t : Nat}
    (hd : d ∈ live) (hv : vp < NUPAGES) (table : s.tableTarget d (vp / 1024 % 1024) = some t)
    (absent : (s.pte d vp).p = false) (u : Bool) :
    FrameInv live own x (s.setEntry t (vp % 1024) ⟨⟨true, u, false⟩, f, true⟩) := by
  have exclusive := inv.kernel_exclusive (f := f) (by simp [kernelRefs])
  have one := inv.kernel f (by simp [kernelRefs])
  refine inv.set_user _ hd hv table (Finset.subset_insert f own) ?_ (fun _ => rfl) (fun _ _ => one) ?_
  · intro g
    have gone : s.userTarget d vp = none := target_none.mpr absent
    simp only [gone, Pte.target, ↓reduceIte, Option.some.injEq, reduceCtorEq, Finset.mem_insert]
    by_cases same : g = f
    · subst same
      simp [new]
    · simp [same, Ne.symm same]
  · intro _ d' hd' vp' hv' mapped
    exact absurd mapped (refs_eq_zero.mp exclusive.1 d' hd' vp' (Finset.mem_range.mpr hv'))

theorem map_fresh (inv : FrameInv live own x s) {d vp f : Nat} (hd : d ∈ live)
    (hv : vp < NUPAGES) (absent : (s.pte d vp).p = false) {z : Phys}
    (taken : Taken live own x s f (.bytes fun _ => 0) z) :
    (z.mappages d (vp * PGSIZE) PGSIZE f ⟨true, true, false⟩ = .ok (-1, { z with oom := true }) ∧
      s.freelist.length < 1 + s.needsTable d (vp * PGSIZE)) ∨
    ∃ s', z.mappages d (vp * PGSIZE) PGSIZE f ⟨true, true, false⟩ = .ok (0, s') ∧
      (s'.pte d vp).frame = f ∧ LazyOutcome live own x s d vp 0 s' := by
  have lt := Nat.lt_of_lt_of_le hv pages_lt
  have absent' : (z.pte d vp).p = false := by
    rw [(taken.keeps inv fun _ _ => False).pte d hd _ lt not_false]
    exact absent
  have need := taken.needsTable inv hd (vp * PGSIZE)
  have count := taken.length
  rcases map_page taken.inv hd lt absent' f ⟨true, true, false⟩ with
    ⟨empty, short, run⟩ | ⟨t, s1, inv1, walked, run⟩
  · refine Or.inl ⟨run, ?_⟩
    rw [← need, short, count, empty]
    decide
  · have table := walked.table
    rw [pdx_page] at table
    have gone : (s1.pte d vp).p = false := by
      rw [walked.keeps.pte d hd vp lt not_false]
      exact absent'
    have pte := inv1.pte_set ⟨⟨true, true, false⟩, f, true⟩ hd lt table hd lt
    have ne : f ≠ t := by
      rintro rfl
      have held := inv1.table_held hd (Nat.mod_lt _ (by decide)) table
      have one := inv1.kernel_exclusive (f := f) (by simp [kernelRefs])
      have := one.2.1
      simp only [kernelRefs, Finset.mem_insert_self, ↓reduceIte] at this
      omega
    refine Or.inr ⟨_, run, by simp [pte],
      .mapped _ f (adopt_page inv1 taken.new hd hv table gone true) ?_ ?_ ?_ ?_ ?_ ?_ ?_⟩
    · simpa using pte
    · rw [setEntry_page_ne _ _ _ ne, walked.page f ?_ ?_, taken.page]
      · exact fun same => taken.dir (same ▸ hd)
      · rw [taken.one]
        decide
    · have first := (taken.keeps inv fun _ _ => False).trans walked.keeps
      exact (first.mono fun _ _ _ h => h.elim).trans (inv1.set_keeps _ hd lt table)
    · have := walked.length
      omega
    · rw [setEntry_oom, walked.oom, taken.calm]
    · have stored : (s1.setEntry t (vp % 1024) ⟨⟨true, true, false⟩, f, true⟩).missing d = s1.missing d :=
        missing_congr fun i => inv1.tableTarget_set _ _ hd (Nat.mod_lt _ (by decide)) table hd i
      have before : z.missing d = s.missing d := missing_congr (taken.tableTarget inv hd)
      have spent := walked.tables
      rw [stored, setEntry_freelist]
      omega
    · have first : SameTables (live.erase d) s z := fun d' hd' =>
        taken.tableTarget inv (Finset.mem_of_mem_erase hd')
      have last : SameTables (live.erase d) s1 (s1.setEntry t (vp % 1024) ⟨⟨true, true, false⟩, f, true⟩) :=
        fun d' hd' => inv1.tableTarget_set _ _ hd (Nat.mod_lt _ (by decide)) table (Finset.mem_of_mem_erase hd')
      exact (first.trans walked.others).trans last

theorem lazyalloc_spec (inv : FrameInv live own x s) {d va : Nat} (hd : d ∈ live)
    (user : va < KERNBASE) (absent : (s.pte d (va / 4096)).p = false) :
    ∃ r s', s.lazyalloc d va = .ok (r, s') ∧ LazyOutcome live own x s d (va / 4096) r s' := by
  have hv : va / 4096 < NUPAGES := by
    simp only [KERNBASE, NUPAGES] at *
    omega
  have round : pgrounddown va = va / 4096 * PGSIZE := rfl
  generalize va / 4096 = vp at *
  cases list : s.freelist with
  | nil =>
    refine ⟨-1, { s with oom := true }, by simp [Phys.lazyalloc, kalloc_nil list], ?_⟩
    refine .failed _ (inv.oom true) ?_ (by simp [list]) rfl
    exact inv.keeps_of_held _ fun _ _ => rfl
  | cons f next =>
    have taken := kalloc_page inv list (.bytes fun _ => 0)
    simp only [Phys.lazyalloc, kalloc_cons list, round]
    rcases map_fresh inv hd hv absent taken with ⟨run, short⟩ | ⟨s', run, -, outcome⟩
    · -- the page table could not be allocated: the page goes back
      obtain ⟨free, inv', keeps⟩ := taken.give_back inv (fun _ _ => False) true
      refine ⟨-1, _, ?_, .failed _ inv' keeps short rfl⟩
      rw [run, ok_bind, if_pos (show (-1 : Int) < 0 by decide), free, ok_bind]
    · refine ⟨0, s', ?_, outcome⟩
      rw [run, ok_bind, if_neg (show ¬ (0 : Int) < 0 by decide)]

theorem lazyalloc_tables (inv : FrameInv live own x s) {d va : Nat} {r : Int} {s' : Phys} (hd : d ∈ live)
    (user : va < KERNBASE) (absent : (s.pte d (va / 4096)).p = false) (run : s.lazyalloc d va = .ok (r, s')) :
    SameTables (live.erase d) s s' ∧ ∀ i u, s.tableTarget d i = some u → s'.tableTarget d i = some u := by
  have hv : va / 4096 < NUPAGES := by
    simp only [KERNBASE, NUPAGES] at *
    omega
  have round : pgrounddown va = va / 4096 * PGSIZE := rfl
  generalize va / 4096 = vp at *
  have lt := Nat.lt_of_lt_of_le hv pages_lt
  cases list : s.freelist with
  | nil =>
    simp only [Phys.lazyalloc, kalloc_nil list] at run
    cases run
    exact ⟨fun _ _ _ => rfl, fun _ _ there => there⟩
  | cons f next =>
    have taken := kalloc_page inv list (.bytes fun _ => 0)
    have absent' : (((s.pop f next).setPage f (.bytes fun _ => 0)).pte d vp).p = false := by
      rw [(taken.keeps inv fun _ _ => False).pte d hd _ lt not_false]
      exact absent
    simp only [Phys.lazyalloc, kalloc_cons list, round] at run
    rcases map_page taken.inv hd lt absent' f ⟨true, true, false⟩ with ⟨-, -, map⟩ | ⟨t, s1, inv1, walked, map⟩
    · rw [map, ok_bind, if_pos (show (-1 : Int) < 0 by decide)] at run
      obtain ⟨free, -⟩ := taken.give_back inv (fun _ _ => False) true
      rw [free, ok_bind] at run
      cases run
      have same : SameTables live s (({ (s.pop f next).setPage f (.bytes fun _ => 0) with oom := true } : Phys).drop f) := by
        intro d' hd' i
        have ne : d' ≠ f := fun same => taken.dir (same ▸ hd')
        rw [tableTarget_congr (drop_page_ne ne) i]
        exact taken.tableTarget inv hd' i
      refine ⟨same.subset (Finset.erase_subset d live), fun i u there => ?_⟩
      rw [same d hd i]
      exact there
    · rw [map, ok_bind, if_neg (show ¬ (0 : Int) < 0 by decide)] at run
      cases run
      have stored : ∀ d' ∈ live, ∀ i, (s1.setEntry t (vp % 1024) ⟨⟨true, true, false⟩, f, true⟩).tableTarget d' i =
          s1.tableTarget d' i := by
        have table := walked.table
        rw [pdx_page] at table
        exact fun d' hd' => inv1.tableTarget_set _ _ hd (Nat.mod_lt _ (by decide)) table hd'
      constructor
      · intro d' hd' i
        have there := Finset.mem_of_mem_erase hd'
        rw [stored d' there, walked.others d' hd' i, taken.tableTarget inv there]
      · intro i u there
        rw [← taken.tableTarget inv hd] at there
        rw [stored d hd]
        exact walked.kept i u there

/-- The entry cowfault installs: writable, no longer copy-on-write, PTE_U as before. -/
def Pte.privatized (e : Pte) (f : Nat) : Pte := ⟨⟨true, e.u, false⟩, f, true⟩

/-- The outcome of cowfault at a copy-on-write page vp that maps f. -/
inductive CowOutcome (live own : Finset Nat) (x : Nat → Nat) (s : Phys) (d vp : Nat) :
    Int → Phys → Prop where
  | inPlace (s' : Phys) (inv : FrameInv live own x s') (single : s.ref (s.pte d vp).frame = 1)
      (entry : s'.pte d vp = (s.pte d vp).privatized (s.pte d vp).frame)
      (same : s'.page (s.pte d vp).frame = s.page (s.pte d vp).frame)
      (keeps : KeepsOff live (fun d' vp' => d' = d ∧ vp' = vp) s s')
      (calm : s'.oom = s.oom) (list : s'.freelist = s.freelist) : CowOutcome live own x s d vp 0 s'
  | copied (s' : Phys) (f : Nat) (inv : FrameInv live own x s')
      (shared : s.ref (s.pte d vp).frame ≠ 1)
      (entry : s'.pte d vp = (s.pte d vp).privatized f) (other : f ∈ s.freelist)
      (same : s'.page f = s.page (s.pte d vp).frame)
      (keeps : KeepsOff live (fun d' vp' => d' = d ∧ vp' = vp) s s')
      (memory : 1 ≤ s.freelist.length)
      (calm : s'.oom = s.oom) : CowOutcome live own x s d vp 0 s'
  | failed (shared : s.ref (s.pte d vp).frame ≠ 1) (memory : s.freelist = []) :
      CowOutcome live own x s d vp (-1) { s with oom := true }

theorem cowfault_spec (inv : FrameInv live own x s) {d va : Nat} (hd : d ∈ live)
    (user : va < KERNBASE) (present : (s.pte d (va / 4096)).p = true)
    (cow : (s.pte d (va / 4096)).cow = true) :
    ∃ r s', s.cowfault d va = .ok (r, s') ∧ CowOutcome live own x s d (va / 4096) r s' := by
  have hv : va / 4096 < NUPAGES := by
    simp only [KERNBASE, NUPAGES] at *
    omega
  have lt := Nat.lt_of_lt_of_le hv pages_lt
  obtain ⟨t, table⟩ := table_of_present present
  have table' : s.tableTarget d (pdx va) = some t := by
    rw [pdx_eq]
    exact table
  have slot := entry_eq_pte table'
  have index : ptx va = va / 4096 % 1024 := rfl
  rw [index] at slot
  generalize va / 4096 = vp at *
  have mapped : s.userTarget d vp = some (s.pte d vp).frame := target_some.mpr ⟨present, rfl⟩
  have held := inv.user_held hd hv mapped
  have range := (inv.managed _ held).2
  have offTable := (inv.user_ne_table hd hv mapped hd (Nat.mod_lt _ (by decide)) table).1
  simp only [Phys.cowfault, walk_false_of_table table', index, slot, present, cow, not_true_eq_false,
    ↓reduceIte, Phys.getref, Nat.not_le.mpr range, bind, Except.bind]
  by_cases single : s.ref (s.pte d vp).frame = 1
  · simp only [single, ↓reduceIte]
    refine ⟨0, _, rfl, .inPlace _ ?_ single ?_ (setEntry_page_ne s _ _ offTable)
      (inv.set_keeps _ hd lt table) rfl rfl⟩
    · refine inv.set_user _ hd hv table (Finset.Subset.refl own) ?_ (fun _ => rfl) (fun _ _ => single) ?_
      · intro g
        simp only [mapped, Pte.target, ↓reduceIte]
      · intro _ d' hd' vp' hv' other
        exact inv.samePage _ d' hd' d hd vp' hv' vp hv other mapped
    · have pte := inv.pte_set ((s.pte d vp).privatized (s.pte d vp).frame) hd lt table hd lt
      simpa [Pte.privatized] using pte
  · simp only [single, ↓reduceIte]
    cases list : s.freelist with
    | nil =>
      refine ⟨-1, { s with oom := true }, ?_, .failed single list⟩
      rw [kalloc_nil list]
    | cons m next =>
      have taken := kalloc_page inv list (s.page (s.pte d vp).frame)
      rw [kalloc_cons list]
      simp only
      have source : (s.pop m next).page (s.pte d vp).frame = s.page (s.pte d vp).frame := rfl
      rw [source]
      generalize (s.pop m next).setPage m (s.page (s.pte d vp).frame) = z at *
      have table1 : z.tableTarget d (vp / 1024 % 1024) = some t := by
        rw [taken.tableTarget inv hd]
        exact table
      have keeps1 := taken.keeps inv fun _ _ => False
      have pte1 : z.pte d vp = s.pte d vp := keeps1.pte d hd vp lt not_false
      have mapped1 : z.userTarget d vp = some (s.pte d vp).frame := by
        rw [Phys.userTarget, pte1]
        exact mapped
      have exclusive := taken.inv.kernel_exclusive (f := m) (by simp [kernelRefs])
      -- the copy leaves own, the old frame is a reference in flight until kfree
      have inv2 : FrameInv live own (bump x (s.pte d vp).frame)
          (z.setEntry t (vp % 1024) ((s.pte d vp).privatized m)) := by
        refine taken.inv.set_user _ hd hv table1 (Finset.subset_insert m own) ?_ (fun _ => rfl)
          (fun _ _ => taken.one) ?_
        · intro g
          simp only [mapped1, Pte.target, Pte.privatized, ↓reduceIte, Option.some.injEq,
            Finset.mem_insert, bump]
          by_cases same : g = m
          · subst same
            simp only [↓reduceIte, taken.new, true_or]
            by_cases eq : g = (s.pte d vp).frame
            · simp only [eq, ↓reduceIte]
              omega
            · simp only [eq, Ne.symm eq, ↓reduceIte]
              omega
          · by_cases eq : g = (s.pte d vp).frame
            · simp only [eq, ↓reduceIte]
              have : ¬ m = (s.pte d vp).frame := fun h => same (eq.trans h.symm)
              simp only [this, Ne.symm this, ↓reduceIte, false_or]
              omega
            · simp only [Ne.symm same, same, eq, Ne.symm eq, ↓reduceIte, false_or]
              omega
        · intro _ d' hd' vp' hv' other
          exact absurd other (refs_eq_zero.mp exclusive.1 d' hd' vp' (Finset.mem_range.mpr hv'))
      have pte2 := taken.inv.pte_set ((s.pte d vp).privatized m) hd lt table1 hd lt
      have keeps2 := taken.inv.set_keeps ((s.pte d vp).privatized m) hd lt table1
      obtain ⟨run, inv3⟩ := inv2.kfree_flight
      have shared : (z.setEntry t (vp % 1024) ((s.pte d vp).privatized m)).ref (s.pte d vp).frame ≠ 1 := by
        rw [setEntry_ref, (taken.still _ held).2.2]
        exact single
      have page3 := fun g => drop_page_of_shared g shared
      have offTable1 : m ≠ t := by
        rintro rfl
        have pos := taken.inv.table_held hd (Nat.mod_lt _ (by decide)) table1
        have := exclusive.2.1
        simp only [kernelRefs, Finset.mem_insert_self, ↓reduceIte] at this
        omega
      refine ⟨0, (z.setEntry t (vp % 1024) ((s.pte d vp).privatized m)).drop (s.pte d vp).frame, ?_, ?_⟩
      · have same : (⟨{ (s.pte d vp).toPerm with w := true, cow := false }, m, true⟩ : Pte) =
            (s.pte d vp).privatized m := rfl
        rw [same, run]
      · refine .copied _ m inv3 single ?_ (by simp [list]) ?_ ?_ (by simp [list]) ?_
        · rw [pte_congr (page3 d) fun u _ => page3 u]
          simpa using pte2
        · rw [page3, setEntry_page_ne _ _ _ offTable1, taken.page]
        · have first : KeepsOff live (fun d' vp' => d' = d ∧ vp' = vp) s z :=
            keeps1.mono fun _ _ _ h => h.elim
          refine (first.trans keeps2).trans ?_
          exact inv2.keeps_of_held _ fun g _ => page3 g
        · exact taken.calm

end
end Xv6
