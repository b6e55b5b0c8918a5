import Xv6.Memory.PageTable

/-!
The page table as a flat map. `pte d vp` is the entry that page directory d holds
for page number vp, the zero entry where the page table is missing. The lemmas say
which entries a store to a table changes, as long as no two directories share one.
-/
namespace Xv6
namespace Phys

def pte (s : Phys) (d vp : Nat) : Pte :=
  let pde := s.entry d (vp / 1024 % 1024)
  if pde.p then s.entry pde.frame (vp % 1024) else Pte.zero

def tableTarget (s : Phys) (d i : Nat) : Option Nat := (s.entry d i).target

def userTarget (s : Phys) (d vp : Nat) : Option Nat := (s.pte d vp).target

theorem target_some {e : Pte} {f : Nat} : e.target = some f ↔ e.p = true ∧ e.frame = f := by
  unfold Pte.target
  split
  · rename_i present
    simp [present]
  · rename_i absent
    simp [absent]

theorem target_none {e : Pte} : e.target = none ↔ e.p = false := by
  unfold Pte.target
  split
  · rename_i present
    simp [present]
  · rename_i absent
    simpa using absent

theorem pdx_eq (va : Nat) : pdx va = va / 4096 / 1024 % 1024 := by
  unfold pdx
  rw [Nat.div_div_eq_div_mul]

theorem pdx_page (vp : Nat) : pdx (vp * PGSIZE) = vp / 1024 % 1024 := by
  rw [pdx_eq]
  simp [PGSIZE]

theorem ptx_page (vp : Nat) : ptx (vp * PGSIZE) = vp % 1024 := by
  simp [ptx, PGSIZE]

theorem pte_of_table {s : Phys} {d vp t : Nat} (ht : s.tableTarget d (vp / 1024 % 1024) = some t) :
    s.pte d vp = s.entry t (vp % 1024) := by
  obtain ⟨present, frame⟩ := target_some.mp ht
  unfold pte
  simp only [present, frame, ↓reduceIte]

theorem pte_of_no_table {s : Phys} {d vp : Nat} (ht : s.tableTarget d (vp / 1024 % 1024) = none) :
    s.pte d vp = Pte.zero := by
  have absent := target_none.mp ht
  unfold pte
  simp [absent]

theorem table_of_present {s : Phys} {d vp : Nat} (present : (s.pte d vp).p = true) :
    ∃ t, s.tableTarget d (vp / 1024 % 1024) = some t := by
  cases ht : s.tableTarget d (vp / 1024 % 1024) with
  | some t => exact ⟨t, rfl⟩
  | none =>
    rw [pte_of_no_table ht] at present
    simp [Pte.zero] at present

theorem walk_false_of_table {s : Phys} {d va t : Nat} (ht : s.tableTarget d (pdx va) = some t) :
    s.walkpgdir d va false = (some (t, ptx va), s) := by
  obtain ⟨present, frame⟩ := target_some.mp ht
  simp [walkpgdir, present, frame]

theorem walk_false_of_no_table {s : Phys} {d va : Nat} (ht : s.tableTarget d (pdx va) = none) :
    s.walkpgdir d va false = (none, s) := by
  have absent := target_none.mp ht
  simp [walkpgdir, absent]

theorem entry_eq_pte {s : Phys} {d va t : Nat} (ht : s.tableTarget d (pdx va) = some t) :
    s.entry t (ptx va) = s.pte d (va / 4096) := by
  rw [pdx_eq] at ht
  rw [pte_of_table ht]
  rfl

theorem pte_congr {s s' : Phys} {d vp : Nat} (dir : s'.page d = s.page d)
    (tab : ∀ t, s.tableTarget d (vp / 1024 % 1024) = some t → s'.page t = s.page t) :
    s'.pte d vp = s.pte d vp := by
  have same : s'.tableTarget d (vp / 1024 % 1024) = s.tableTarget d (vp / 1024 % 1024) := by
    simp [tableTarget, entry, dir]
  cases ht : s.tableTarget d (vp / 1024 % 1024) with
  | none => rw [pte_of_no_table ht, pte_of_no_table (same.trans ht)]
  | some t =>
    rw [pte_of_table ht, pte_of_table (same.trans ht)]
    simp [entry, tab t ht]

theorem tableTarget_congr {s s' : Phys} {d : Nat} (dir : s'.page d = s.page d) (i : Nat) :
    s'.tableTarget d i = s.tableTarget d i := by
  simp [tableTarget, entry, dir]

theorem pte_setEntry {s : Phys} {d i t j d' vp : Nat} (e : Pte)
    (ht : s.tableTarget d i = some t) (dir : t ≠ d')
    (owner : s.tableTarget d' (vp / 1024 % 1024) = some t → d' = d ∧ vp / 1024 % 1024 = i) :
    (s.setEntry t j e).pte d' vp =
      if d' = d ∧ vp / 1024 % 1024 = i ∧ vp % 1024 = j then e else s.pte d' vp := by
  have same : (s.setEntry t j e).tableTarget d' (vp / 1024 % 1024) =
      s.tableTarget d' (vp / 1024 % 1024) :=
    tableTarget_congr (setEntry_page_ne s j e (Ne.symm dir)) _
  cases hu : s.tableTarget d' (vp / 1024 % 1024) with
  | none =>
    rw [pte_of_no_table (same.trans hu), pte_of_no_table hu]
    split
    · rename_i hit
      obtain ⟨rfl, rfl, -⟩ := hit
      rw [ht] at hu
      cases hu
    · rfl
  | some u =>
    rw [pte_of_table (same.trans hu), pte_of_table hu, entry_setEntry]
    by_cases hut : u = t
    · subst hut
      obtain ⟨rfl, rfl⟩ := owner hu
      simp
    · have away : ¬ (d' = d ∧ vp / 1024 % 1024 = i ∧ vp % 1024 = j) := by
        rintro ⟨rfl, rfl, -⟩
        rw [ht] at hu
        exact hut (Option.some.inj hu).symm
      simp [hut, away]

end Phys
end Xv6
