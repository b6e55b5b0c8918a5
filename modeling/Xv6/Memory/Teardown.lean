import Xv6.Memory.FaultSpec

/-!
Taking mappings down: deallocuvm over any range of user pages, and freevm. The
loop of deallocuvm advances by at least a page, so its fuel never runs out.
-/
namespace Xv6
open RefCount Phys

section
variable [Layout] {live own : Finset Nat} {x : Nat → Nat} {s : Phys}

namespace FrameInv

theorem frame_ne_zero (inv : FrameInv live own x s) {f : Nat} (held : s.ref f ≠ 0) : f ≠ 0 := by
  have := (inv.managed f held).1
  have lo := ‹Layout›.data_before_end
  have text := ‹Layout›.text_before_data
  omega

theorem own_apart (inv : FrameInv live own x s) {f : Nat} (member : f ∈ own) :
    f ∉ live ∧ s.tableRefs live f = 0 ∧ s.userRefs live f = 0 := by
  have one := inv.kernel_exclusive (f := f) (by simp [kernelRefs, member])
  have sum := one.2.1
  refine ⟨?_, ?_, one.1⟩
  · intro dir
    simp [kernelRefs, member, dir] at sum
  · simp only [kernelRefs, member, ↓reduceIte] at sum
    omega

theorem keeps_of_apart (_inv : FrameInv live own x s) {f : Nat} {s' : Phys} (off : Nat → Nat → Prop)
    (apart : f ∉ live ∧ s.tableRefs live f = 0 ∧ s.userRefs live f = 0)
    (page : ∀ g, g ≠ f → s'.page g = s.page g) : KeepsOff live off s s' := by
  obtain ⟨dir, tab, user⟩ := apart
  constructor
  · intro d hd vp _ _
    refine pte_congr (page d fun same => dir (same ▸ hd)) fun t ht => page t ?_
    rintro rfl
    exact not_table_of_zero tab hd (Nat.mod_lt _ (by decide)) ht
  · intro d hd vp hv _ g mapped
    refine page g ?_
    rintro rfl
    exact refs_eq_zero.mp user d hd vp (Finset.mem_range.mpr hv) mapped

theorem unmap (inv : FrameInv live own x s) {d vp t f : Nat} (hd : d ∈ live) (hv : vp < NUPAGES)
    (table : s.tableTarget d (vp / 1024 % 1024) = some t) (mapped : s.userTarget d vp = some f) :
    s.kfree f = .ok (s.drop f) ∧
      FrameInv live own x ((s.drop f).setEntry t (vp % 1024) Pte.zero) ∧
      KeepsOff live (fun d' vp' => d' = d ∧ vp' = vp) s
        ((s.drop f).setEntry t (vp % 1024) Pte.zero) ∧
      ((s.drop f).setEntry t (vp % 1024) Pte.zero).pte d vp = Pte.zero ∧
      ∀ d' ∈ live, ∀ i, ((s.drop f).setEntry t (vp % 1024) Pte.zero).tableTarget d' i =
        s.tableTarget d' i := by
  have lt := Nat.lt_of_lt_of_le hv pages_lt
  have held := inv.user_held hd hv mapped
  have ne := inv.user_ne_table hd hv mapped hd (Nat.mod_lt _ (by decide)) table
  obtain ⟨tab, dir, -⟩ := kernelRefs_zero (inv.user_not_kernel hd hv mapped)
  refine ⟨kfree_eq (inv.managed f held) held, ?_⟩
  rw [drop_setEntry _ _ (Ne.symm ne.1)]
  have cleared : FrameInv live own (bump x f) (s.setEntry t (vp % 1024) Pte.zero) := by
    refine inv.set_user _ hd hv table (Finset.Subset.refl own) ?_ (by simp [Pte.zero])
      (by simp [Pte.zero]) (by simp [Pte.zero])
    intro g
    simp only [mapped, Pte.target, Pte.zero, Bool.false_eq_true, ↓reduceIte, reduceCtorEq,
      Option.some.injEq, bump]
    by_cases same : g = f
    · subst same
      simp
      omega
    · simp [same, Ne.symm same]
  have pte := inv.pte_set Pte.zero hd lt table hd lt
  have first := inv.set_keeps Pte.zero hd lt table
  obtain ⟨-, done⟩ := cleared.kfree_flight
  -- the frame dies only if no other entry maps it
  have page : ∀ d' ∈ live, ∀ vp' < NUPAGES, ∀ g,
      (s.setEntry t (vp % 1024) Pte.zero).userTarget d' vp' = some g →
      ((s.setEntry t (vp % 1024) Pte.zero).drop f).page g = (s.setEntry t (vp % 1024) Pte.zero).page g := by
    intro d' hd' vp' hv' g other
    by_cases same : g = f
    · subst same
      refine drop_page_of_shared g ?_
      have pos : 0 < (s.setEntry t (vp % 1024) Pte.zero).userRefs live g :=
        refs_pos hd' (Finset.mem_range.mpr hv') other
      have sum := cleared.refs g
      simp only [bump, ↓reduceIte] at sum
      omega
    · exact drop_page_ne same
  have dirs : ∀ d' ∈ live, ((s.setEntry t (vp % 1024) Pte.zero).drop f).page d' =
      (s.setEntry t (vp % 1024) Pte.zero).page d' := by
    intro d' hd'
    exact drop_page_ne fun same => dir (same ▸ hd')
  have tabs : ∀ d' ∈ live, ∀ vp' u,
      (s.setEntry t (vp % 1024) Pte.zero).tableTarget d' (vp' / 1024 % 1024) = some u →
      ((s.setEntry t (vp % 1024) Pte.zero).drop f).page u = (s.setEntry t (vp % 1024) Pte.zero).page u := by
    intro d' hd' vp' u hu
    refine drop_page_ne ?_
    rintro rfl
    rw [inv.tableTarget_set _ _ hd (Nat.mod_lt _ (by decide)) table hd'] at hu
    exact not_table_of_zero tab hd' (Nat.mod_lt _ (by decide)) hu
  have flat : ∀ d' ∈ live, ∀ vp', ((s.setEntry t (vp % 1024) Pte.zero).drop f).pte d' vp' =
      (s.setEntry t (vp % 1024) Pte.zero).pte d' vp' := fun d' hd' vp' =>
    pte_congr (dirs d' hd') fun u hu => tabs d' hd' vp' u hu
  refine ⟨done, first.trans ⟨fun d' hd' vp' _ _ => flat d' hd' vp',
    fun d' hd' vp' hv' _ g other => page d' hd' vp' hv' g other⟩, ?_, ?_⟩
  · rw [flat d hd]
    simpa using pte
  · intro d' hd' i
    rw [tableTarget_congr (dirs d' hd') i]
    exact inv.tableTarget_set _ _ hd (Nat.mod_lt _ (by decide)) table hd' i

end FrameInv

def inRange (d lo oldsz d' vp : Nat) : Prop := d' = d ∧ lo ≤ vp ∧ vp * 4096 < oldsz

theorem deallocuvmLoop_spec {d oldsz : Nat} (hd : d ∈ live) (top : oldsz ≤ KERNBASE) (fuel vp : Nat)
    (s : Phys) (inv : FrameInv live own x s) :
    ∃ s', Phys.deallocuvmLoop d oldsz fuel (vp * 4096) s = .ok s' ∧ FrameInv live own x s' ∧
      KeepsOff live (inRange d vp oldsz) s s' ∧ s'.oom = s.oom ∧
      (∀ d' ∈ live, ∀ i, s'.tableTarget d' i = s.tableTarget d' i) ∧
      (oldsz ≤ 4096 * (vp + fuel) → ∀ vp', vp ≤ vp' → vp' * 4096 < oldsz →
        s'.userTarget d vp' = none) := by
  induction fuel generalizing vp s with
  | zero =>
    refine ⟨s, rfl, inv, KeepsOff.refl .., rfl, fun _ _ _ => rfl, ?_⟩
    intro enough vp' lo hi
    omega
  | succ fuel ih =>
    simp only [Phys.deallocuvmLoop]
    by_cases more : vp * 4096 < oldsz
    · simp only [more, ↓reduceIte]
      have hv : vp < NUPAGES := by
        simp only [KERNBASE, NUPAGES] at *
        omega
      have lt := Nat.lt_of_lt_of_le hv pages_lt
      have pdxv : pdx (vp * 4096) = vp / 1024 % 1024 := pdx_page vp
      have ptxv : ptx (vp * 4096) = vp % 1024 := ptx_page vp
      have step : vp * 4096 + PGSIZE = (vp + 1) * 4096 := by
        simp only [PGSIZE]
        omega
      cases table : s.tableTarget d (pdx (vp * 4096)) with
      | none =>
        -- no page table: skip to the next directory entry
        have skip : pgaddr (pdx (vp * 4096) + 1) 0 0 - PGSIZE + PGSIZE = (vp / 1024 + 1) * 1024 * 4096 := by
          simp only [pgaddr, pdxv, PGSIZE]
          omega
        obtain ⟨s', run, inv', keeps, calm, tabs, clear⟩ := ih ((vp / 1024 + 1) * 1024) s inv
        refine ⟨s', ?_, inv', ?_, calm, tabs, ?_⟩
        · simp only [walk_false_of_no_table table, skip]
          exact run
        · refine keeps.mono ?_
          rintro d' - vp' ⟨same, lo, hi⟩
          exact ⟨same, by omega, hi⟩
        · intro enough vp' lo hi
          by_cases inside : vp' < (vp / 1024 + 1) * 1024
          · have index : vp' / 1024 % 1024 = vp / 1024 % 1024 := by omega
            have gone : s'.tableTarget d (vp' / 1024 % 1024) = none := by
              rw [tabs d hd, index, ← pdxv]
              exact table
            rw [Phys.userTarget, pte_of_no_table gone]
            rfl
          · exact clear (by omega) vp' (Nat.not_lt.mp inside) hi
      | some t =>
        have table' := table
        rw [pdxv] at table'
        have slot : s.entry t (vp % 1024) = s.pte d vp := (pte_of_table table').symm
        simp only [walk_false_of_table table, ptxv, slot]
        by_cases present : (s.pte d vp).p = true
        · have mapped : s.userTarget d vp = some (s.pte d vp).frame := target_some.mpr ⟨present, rfl⟩
          have nonzero := inv.frame_ne_zero (inv.user_held hd hv mapped)
          obtain ⟨free, inv1, keeps1, zero1, tabs1⟩ := inv.unmap hd hv table' mapped
          obtain ⟨s', run, inv', keeps, calm, tabs, clear⟩ := ih (vp + 1) _ inv1
          refine ⟨s', ?_, inv', ?_, ?_, ?_, ?_⟩
          · simp only [present, ↓reduceIte, nonzero, free, bind, Except.bind, step]
            exact run
          · refine (keeps1.mono ?_).trans (keeps.mono ?_)
            · rintro d' - vp' ⟨rfl, rfl⟩
              exact ⟨rfl, Nat.le_refl _, more⟩
            · rintro d' - vp' ⟨same, lo, hi⟩
              exact ⟨same, by omega, hi⟩
          · rw [calm]
            rfl
          · intro d' hd' i
            rw [tabs d' hd', tabs1 d' hd']
          · intro enough vp' lo hi
            by_cases here : vp' = vp
            · subst here
              have out : ¬ inRange d (vp' + 1) oldsz d vp' := by
                rintro ⟨-, lo', -⟩
                omega
              rw [Phys.userTarget, keeps.pte d hd vp' lt out, zero1]
              rfl
            · exact clear (by omega) vp' (by omega) hi
        · obtain ⟨s', run, inv', keeps, calm, tabs, clear⟩ := ih (vp + 1) s inv
          refine ⟨s', ?_, inv', ?_, calm, tabs, ?_⟩
          · simp only [present, ↓reduceIte, step, Bool.false_eq_true]
            exact run
          · refine keeps.mono ?_
            rintro d' - vp' ⟨same, lo, hi⟩
            exact ⟨same, by omega, hi⟩
          · intro enough vp' lo hi
            by_cases here : vp' = vp
            · subst here
              have out : ¬ inRange d (vp' + 1) oldsz d vp' := by
                rintro ⟨-, lo', -⟩
                omega
              rw [Phys.userTarget, keeps.pte d hd vp' lt out]
              exact target_none.mpr (by simpa using present)
            · exact clear (by omega) vp' (by omega) hi
    · refine ⟨s, by simp [more], inv, KeepsOff.refl .., rfl, fun _ _ _ => rfl, ?_⟩
      intro enough vp' lo hi
      omega

theorem deallocuvm_spec (inv : FrameInv live own x s) {d oldsz newsz : Nat} (hd : d ∈ live)
    (top : oldsz ≤ KERNBASE) (shrink : newsz < oldsz) :
    ∃ s', s.deallocuvm d oldsz newsz = .ok (newsz, s') ∧ FrameInv live own x s' ∧
      KeepsOff live (inRange d (pgroundup newsz / 4096) oldsz) s s' ∧ s'.oom = s.oom ∧
      (∀ d' ∈ live, ∀ i, s'.tableTarget d' i = s.tableTarget d' i) ∧
      ∀ vp', pgroundup newsz ≤ vp' * 4096 → vp' * 4096 < oldsz → s'.userTarget d vp' = none := by
  have round : pgroundup newsz = pgroundup newsz / 4096 * 4096 := by
    simp only [pgroundup, PGSIZE]
    omega
  obtain ⟨s', run, inv', keeps, calm, tabs, clear⟩ :=
    deallocuvmLoop_spec hd top (oldsz / PGSIZE + 1) (pgroundup newsz / 4096) s inv
  refine ⟨s', ?_, inv', keeps, calm, tabs, ?_⟩
  · rw [← round] at run
    simp only [Phys.deallocuvm, ge_iff_le, Nat.not_le.mpr shrink, ↓reduceIte, run, bind, Except.bind]
  · intro vp' lo hi
    refine clear ?_ vp' (by omega) hi
    simp only [PGSIZE]
    omega

theorem freeTables_spec {d : Nat} (is : List Nat) (nodup : is.Nodup) (s : Phys)
    (inv : FrameInv live (insert d (s.tablesOf d is ∪ own)) x s)
    (once : ∀ i ∈ is, ∀ j ∈ is, ∀ t, s.tableTarget d i = some t → s.tableTarget d j = some t → i = j)
    (apart : ∀ i ∈ is, ∀ t, s.tableTarget d i = some t → t ≠ d ∧ t ∉ own) :
    ∃ s', Phys.freeTables d is s = .ok s' ∧ FrameInv live (insert d own) x s' ∧
      KeepsOff live (fun _ _ => False) s s' ∧ s'.oom = s.oom ∧ SameTables live s s' := by
  induction is generalizing s with
  | nil =>
    refine ⟨s, rfl, ?_, KeepsOff.refl .., rfl, SameTables.refl _ _⟩
    simpa [Phys.tablesOf] using inv
  | cons i is ih =>
    rw [List.nodup_cons] at nodup
    cases table : s.tableTarget d i with
    | none =>
      have same : s.tablesOf d (i :: is) = s.tablesOf d is := by simp [Phys.tablesOf, table]
      rw [same] at inv
      obtain ⟨s', run, rest⟩ := ih nodup.2 s inv
        (fun a ha b hb => once a (by simp [ha]) b (by simp [hb])) (fun a ha => apart a (by simp [ha]))
      refine ⟨s', ?_, rest⟩
      simp only [Phys.freeTables, target_none.mp table, Bool.false_eq_true, ↓reduceIte]
      exact run
    | some t =>
      obtain ⟨present, frame⟩ := target_some.mp table
      obtain ⟨ned, nown⟩ := apart i (by simp) t table
      have new : t ∉ insert d (s.tablesOf d is ∪ own) := by
        simp only [Finset.mem_insert, Finset.mem_union, not_or]
        refine ⟨ned, ?_, nown⟩
        intro member
        obtain ⟨j, hj, hjt⟩ := mem_tablesOf.mp member
        have := once i (by simp) j (by simp [hj]) t table hjt
        exact nodup.1 (this ▸ hj)
      have same : insert d (s.tablesOf d (i :: is) ∪ own) = insert t (insert d (s.tablesOf d is ∪ own)) := by
        ext g
        simp only [Phys.tablesOf, List.filterMap_cons, table, List.toFinset_cons, Finset.mem_insert,
          Finset.mem_union]
        tauto
      rw [same] at inv
      obtain ⟨free, inv1⟩ := inv.kfree_own new
      have outside := inv.own_apart (Finset.mem_insert_self t _)
      have keeps1 : KeepsOff live (fun _ _ => False) s (s.drop t) :=
        inv.keeps_of_apart _ outside fun g ne => drop_page_ne ne
      have tables1 : SameTables live s (s.drop t) :=
        SameTables.of_pages fun d' hd' => drop_page_ne fun same => outside.1 (same ▸ hd')
      have dir : ∀ j, (s.drop t).tableTarget d j = s.tableTarget d j :=
        fun j => tableTarget_congr (drop_page_ne (Ne.symm ned)) j
      have tables : (s.drop t).tablesOf d is = s.tablesOf d is := by
        simp only [Phys.tablesOf, List.filterMap_congr fun j _ => dir j]
      rw [← tables] at inv1
      obtain ⟨s', run, inv', keeps, calm, tables2⟩ := ih nodup.2 (s.drop t) inv1
        (fun a ha b hb u => by rw [dir, dir]; exact once a (by simp [ha]) b (by simp [hb]) u)
        (fun a ha u => by rw [dir]; exact apart a (by simp [ha]) u)
      refine ⟨s', ?_, inv', keeps1.trans keeps, calm, tables1.trans tables2⟩
      simp only [Phys.freeTables, present, frame, ↓reduceIte, free, bind, Except.bind]
      exact run

theorem freevm_spec (inv : FrameInv live own x s) {d : Nat} (hd : d ∈ live) :
    ∃ s', s.freevm d = .ok s' ∧ FrameInv (live.erase d) own x s' ∧
      KeepsOff (live.erase d) (fun _ _ => False) s s' ∧ s'.oom = s.oom ∧ SameTables (live.erase d) s s' := by
  have nonzero := inv.frame_ne_zero (f := d) (by rw [inv.dir_held hd]; decide)
  obtain ⟨s1, run1, inv1, keeps1, calm1, tables1, clear1⟩ :=
    deallocuvm_spec inv hd (Nat.le_refl KERNBASE) (show 0 < KERNBASE by decide)
  have empty : ∀ vp < NUPAGES, s1.userTarget d vp = none := by
    intro vp hv
    refine clear1 vp (by simp [pgroundup, PGSIZE]) ?_
    simp only [KERNBASE, NUPAGES] at *
    omega
  have bare := inv1.detach hd empty
  have ownd : d ∉ own := by
    intro member
    exact (inv.own_apart member).1 hd
  obtain ⟨s2, run2, inv2, keeps2, calm2, tables2⟩ := freeTables_spec (List.range NPDENTRIES) List.nodup_range s1 bare
    (fun i hi j hj t hit hjt => (inv1.table_unique hd hd (List.mem_range.mp hi) (List.mem_range.mp hj) hit hjt).2)
    (fun i hi t hit => by
      refine ⟨fun same => inv1.table_not_live hd (List.mem_range.mp hi) hit (same ▸ hd), fun member => ?_⟩
      exact FrameInv.not_table_of_zero (inv1.own_apart member).2.1 hd (List.mem_range.mp hi) hit)
  obtain ⟨run3, inv3⟩ := inv2.kfree_own ownd
  have outside := inv2.own_apart (Finset.mem_insert_self d _)
  refine ⟨s2.drop d, ?_, inv3, ?_, ?_, ?_⟩
  · simp only [Phys.freevm, nonzero, ↓reduceIte, run1, bind, Except.bind, run2, run3]
  · have others : KeepsOff (live.erase d) (fun _ _ => False) s s1 := by
      constructor
      · intro d' hd' vp hv _
        refine keeps1.pte d' (Finset.mem_of_mem_erase hd') vp hv ?_
        rintro ⟨same, -⟩
        exact Finset.ne_of_mem_erase hd' same
      · intro d' hd' vp hv _
        refine keeps1.page d' (Finset.mem_of_mem_erase hd') vp hv ?_
        rintro ⟨same, -⟩
        exact Finset.ne_of_mem_erase hd' same
    refine (others.trans keeps2).trans ?_
    exact inv2.keeps_of_apart _ outside fun g ne => drop_page_ne ne
  · change s2.oom = s.oom
    rw [calm2, calm1]
  · have first : SameTables (live.erase d) s s1 := SameTables.subset tables1 (Finset.erase_subset d live)
    exact (first.trans tables2).trans
      (SameTables.of_pages fun d' hd' => drop_page_ne fun same => outside.1 (same ▸ hd'))

end
end Xv6
