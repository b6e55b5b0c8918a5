import Xv6.Memory.Primitives
import Xv6.Memory.Fault

/-!
Frame conditions of the paging functions: which entries and which page contents a
computation leaves alone, and what one page table walk with allocation does.
-/
namespace Xv6
open RefCount Phys

/-- The bytes a process with directory d sees at page vp; a missing page reads as
    the zeroes it will be filled with. -/
def Phys.content (s : Phys) (d vp : Nat) : Nat → UInt8 :=
  if (s.pte d vp).p then (s.page (s.pte d vp).frame).byte else fun _ => 0

/-- Outside the slots in off, entries and the contents of mapped pages are kept. -/
structure KeepsOff (live : Finset Nat) (off : Nat → Nat → Prop) (s s' : Phys) : Prop where
  pte : ∀ d ∈ live, ∀ vp < 1048576, ¬ off d vp → s'.pte d vp = s.pte d vp
  page : ∀ d ∈ live, ∀ vp < NUPAGES, ¬ off d vp → ∀ f, s.userTarget d vp = some f →
    s'.page f = s.page f

namespace KeepsOff
variable {live : Finset Nat} {off off' : Nat → Nat → Prop} {s s' s'' : Phys}

theorem refl (live : Finset Nat) (off : Nat → Nat → Prop) (s : Phys) : KeepsOff live off s s :=
  ⟨fun _ _ _ _ _ => rfl, fun _ _ _ _ _ _ _ => rfl⟩

theorem mono (k : KeepsOff live off s s') (sub : ∀ d ∈ live, ∀ vp, off d vp → off' d vp) :
    KeepsOff live off' s s' :=
  ⟨fun d hd vp hv out => k.pte d hd vp hv fun h => out (sub d hd vp h),
    fun d hd vp hv out => k.page d hd vp hv fun h => out (sub d hd vp h)⟩

theorem subset {live' : Finset Nat} (k : KeepsOff live off s s') (sub : live' ⊆ live) :
    KeepsOff live' off s s' :=
  ⟨fun d hd => k.pte d (sub hd), fun d hd => k.page d (sub hd)⟩

theorem trans (k : KeepsOff live off s s') (k' : KeepsOff live off s' s'') :
    KeepsOff live off s s'' := by
  constructor
  · intro d hd vp hv out
    rw [k'.pte d hd vp hv out, k.pte d hd vp hv out]
  · intro d hd vp hv out f mapped
    have lt := Nat.lt_of_lt_of_le hv pages_lt
    have still : s'.userTarget d vp = some f := by
      rw [userTarget, k.pte d hd vp lt out]
      exact mapped
    rw [k'.page d hd vp hv out f still, k.page d hd vp hv out f mapped]

theorem content (k : KeepsOff live off s s') {d vp : Nat} (hd : d ∈ live) (hv : vp < NUPAGES)
    (out : ¬ off d vp) : s'.content d vp = s.content d vp := by
  unfold Phys.content
  rw [k.pte d hd vp (Nat.lt_of_lt_of_le hv pages_lt) out]
  by_cases present : (s.pte d vp).p = true
  · simp only [present, ↓reduceIte]
    rw [k.page d hd vp hv out _ (target_some.mpr ⟨present, rfl⟩)]
  · simp [present]

end KeepsOff

def SameTables (live : Finset Nat) (s s' : Phys) : Prop :=
  ∀ d ∈ live, ∀ i, s'.tableTarget d i = s.tableTarget d i

namespace SameTables
variable {live live' : Finset Nat} {s s' s'' : Phys}

theorem refl (live : Finset Nat) (s : Phys) : SameTables live s s := fun _ _ _ => rfl

theorem trans (t : SameTables live s s') (t' : SameTables live s' s'') : SameTables live s s'' :=
  fun d hd i => (t' d hd i).trans (t d hd i)

theorem subset (t : SameTables live s s') (sub : live' ⊆ live) : SameTables live' s s' :=
  fun d hd => t d (sub hd)

theorem of_pages (page : ∀ d ∈ live, s'.page d = s.page d) : SameTables live s s' :=
  fun d hd i => tableTarget_congr (page d hd) i

end SameTables

section
variable [Layout] {live own : Finset Nat} {x : Nat → Nat} {s : Phys}

namespace FrameInv

theorem user_ne_table (inv : FrameInv live own x s) {d vp f d' i t : Nat} (hd : d ∈ live)
    (hv : vp < NUPAGES) (h : s.userTarget d vp = some f) (hd' : d' ∈ live) (hi : i < NPDENTRIES)
    (ht : s.tableTarget d' i = some t) : f ≠ t ∧ f ∉ live := by
  obtain ⟨tab, dir, -⟩ := kernelRefs_zero (inv.user_not_kernel hd hv h)
  refine ⟨?_, dir⟩
  rintro rfl
  exact not_table_of_zero tab hd' hi ht

theorem user_held (inv : FrameInv live own x s) {d vp f : Nat} (hd : d ∈ live)
    (hv : vp < NUPAGES) (h : s.userTarget d vp = some f) : s.ref f ≠ 0 := by
  have mapped : 0 < s.userRefs live f := refs_pos hd (Finset.mem_range.mpr hv) h
  have := inv.refs f
  omega

theorem set_keeps (inv : FrameInv live own x s) {d vp t : Nat} (e : Pte) (hd : d ∈ live)
    (hv : vp < 1048576) (ht : s.tableTarget d (vp / 1024 % 1024) = some t) :
    KeepsOff live (fun d' vp' => d' = d ∧ vp' = vp) s (s.setEntry t (vp % 1024) e) := by
  constructor
  · intro d' hd' vp' hv' out
    rw [inv.pte_set e hd hv ht hd' hv']
    simp [out]
  · intro d' hd' vp' hv' _ f mapped
    have ne := inv.user_ne_table hd' hv' mapped hd (Nat.mod_lt _ (by decide)) ht
    exact setEntry_page_ne s _ e ne.1

end FrameInv

def Phys.needsTable (s : Phys) (d va : Nat) : Nat := if (s.tableTarget d (pdx va)).isSome then 0 else 1

def Phys.missing (s : Phys) (d : Nat) : Nat :=
  ((Finset.range NPDENTRIES).filter fun i => s.tableTarget d i = none).card

omit [Layout] in
theorem missing_congr {s s' : Phys} {d : Nat} (same : ∀ i, s'.tableTarget d i = s.tableTarget d i) :
    s'.missing d = s.missing d := by
  simp only [Phys.missing, same]

omit [Layout] in
theorem missing_fill {s s' : Phys} {d i : Nat} (hi : i < NPDENTRIES) (was : s.tableTarget d i = none)
    (now : s'.tableTarget d i ≠ none) (rest : ∀ j, j ≠ i → s'.tableTarget d j = s.tableTarget d j) :
    s.missing d = s'.missing d + 1 := by
  have split : ((Finset.range NPDENTRIES).filter fun j => s.tableTarget d j = none) =
      insert i ((Finset.range NPDENTRIES).filter fun j => s'.tableTarget d j = none) := by
    ext j
    by_cases here : j = i
    · simp [here, hi, was]
    · simp [here, rest j here]
  rw [Phys.missing, split, Finset.card_insert_of_notMem (by simp [now])]
  rfl

omit [Layout] in
theorem missing_pos {s : Phys} {d va : Nat} (need : s.needsTable d va = 1) : 0 < s.missing d := by
  refine Finset.card_pos.mpr ⟨pdx va, ?_⟩
  cases ht : s.tableTarget d (pdx va) with
  | some t => simp [Phys.needsTable, ht] at need
  | none => exact Finset.mem_filter.mpr ⟨Finset.mem_range.mpr (Nat.mod_lt _ (by decide)), ht⟩

omit [Layout] in
theorem needsTable_le_missing (s : Phys) (d va : Nat) : s.needsTable d va ≤ s.missing d := by
  cases ht : s.tableTarget d (pdx va) with
  | some t => simp [Phys.needsTable, ht]
  | none =>
    have need : s.needsTable d va = 1 := by simp [Phys.needsTable, ht]
    rw [need]
    exact missing_pos need

omit [Layout] in
theorem missing_le (s : Phys) (d : Nat) : s.missing d ≤ 1024 :=
  (Finset.card_filter_le _ _).trans (by simp [NPDENTRIES])

/-- The result of a successful walk: the table exists and nothing visible moved. -/
structure Walked (live : Finset Nat) (s : Phys) (d va t : Nat) (s' : Phys) : Prop where
  table : s'.tableTarget d (pdx va) = some t
  keeps : KeepsOff live (fun _ _ => False) s s'
  page : ∀ f, f ≠ d → s.ref f ≠ 0 → s'.page f = s.page f
  ref : ∀ f, s.ref f ≠ 0 → s'.ref f = s.ref f
  oom : s'.oom = s.oom
  dir : ∀ d' ∈ live, d' ≠ d → ∀ i, s'.tableTarget d' i = s.tableTarget d' i
  length : s.freelist.length = s'.freelist.length + s.needsTable d va
  tables : s'.missing d + s.freelist.length = s.missing d + s'.freelist.length
  kept : ∀ i u, s.tableTarget d i = some u → s'.tableTarget d i = some u

omit [Layout] in
theorem Walked.others {d va t : Nat} {s' : Phys} (walked : Walked live s d va t s') :
    SameTables (live.erase d) s s' :=
  fun d' hd' => walked.dir d' (Finset.mem_of_mem_erase hd') (Finset.ne_of_mem_erase hd')

theorem walk_alloc (inv : FrameInv live own x s) {d : Nat} (hd : d ∈ live) (va : Nat) :
    (s.freelist = [] ∧ s.needsTable d va = 1 ∧
      s.walkpgdir d va true = (none, { s with oom := true })) ∨
    ∃ t s', s.walkpgdir d va true = (some (t, ptx va), s') ∧ FrameInv live own x s' ∧
      Walked live s d va t s' := by
  cases ht : s.tableTarget d (pdx va) with
  | some t =>
    obtain ⟨present, frame⟩ := target_some.mp ht
    refine Or.inr ⟨t, s, ?_, inv, ht, KeepsOff.refl .., ?_, ?_, rfl, ?_, ?_, rfl, fun _ _ there => there⟩
    · simp [Phys.walkpgdir, present, frame]
    · intros; rfl
    · intros; rfl
    · intros; rfl
    · simp [Phys.needsTable, ht]
  | none =>
    have absent := target_none.mp ht
    cases list : s.freelist with
    | nil =>
      refine Or.inl ⟨rfl, by simp [Phys.needsTable, ht], ?_⟩
      simp [Phys.walkpgdir, absent, kalloc_nil list, list]
    | cons t next =>
      right
      have held := inv.kalloc list
      obtain ⟨user, kern, flight⟩ := inv.fresh (f := t) (by simp [list])
      obtain ⟨tab, dir, new⟩ := FrameInv.kernelRefs_zero kern
      have free := ((inv.free t).mp (by simp [list])).2
      -- the new table is zeroed while it is still a plain held frame
      have zeroed := held.setPage (.table fun _ => Pte.zero) dir tab
      have ne : d ≠ t := fun same => dir (same ▸ hd)
      have index : pdx va < NPDENTRIES := Nat.mod_lt _ (by decide)
      have none' : ((s.pop t next).setPage t (.table fun _ => Pte.zero)).tableTarget d (pdx va) = none := by
        rw [← ht]
        exact tableTarget_congr (by simp [ne, Phys.pop]) _
      generalize made : ((s.pop t next).setPage t (.table fun _ => Pte.zero)).setEntry d (pdx va)
        ⟨⟨true, true, false⟩, t, true⟩ = s'
      obtain ⟨done, pte⟩ := zeroed.set_table new hd index none' (by simp) ⟨true, true, false⟩
      rw [made] at done pte
      have other : ∀ f, f ≠ d → s.ref f ≠ 0 → s'.page f = s.page f := by
        intro f nd pos
        have nt : f ≠ t := by
          rintro rfl
          exact pos free
        rw [← made, setEntry_page_ne _ _ _ nd]
        simp [nt, Phys.pop]
      have flat : ∀ d' ∈ live, ∀ vp, s'.pte d' vp = s.pte d' vp := by
        intro d' hd' vp
        rw [pte d' hd' vp]
        refine pte_congr ?_ fun u hu => ?_
        · have : d' ≠ t := fun same => dir (same ▸ hd')
          simp [this, Phys.pop]
        · have : u ≠ t := by
            rintro rfl
            exact FrameInv.not_table_of_zero tab hd' (Nat.mod_lt _ (by decide)) hu
          simp [this, Phys.pop]
      have rest : ∀ j, j ≠ pdx va → s'.tableTarget d j = s.tableTarget d j := by
        intro j away
        simp [← made, tableTarget, entry, setEntry, Page.entry, away, ne, Phys.pop]
      refine ⟨t, s', ?_, done, ?_⟩
      · simp [Phys.walkpgdir, absent, kalloc_cons list, made]
      · constructor
        · simp [← made, tableTarget, entry_setEntry, Pte.target]
        · refine ⟨fun d' hd' vp _ _ => flat d' hd' vp, fun d' hd' vp hv _ f mapped => ?_⟩
          refine other f ?_ (inv.user_held hd' hv mapped)
          rintro rfl
          exact (FrameInv.kernelRefs_zero (inv.user_not_kernel hd' hv mapped)).2.1 hd
        · exact other
        · intro f pos
          have nt : f ≠ t := by
            rintro rfl
            exact pos free
          simp [← made, nt, Phys.pop]
        · rw [← made]
          rfl
        · intro d' hd' nd i
          have nt : d' ≠ t := fun same => dir (same ▸ hd')
          refine tableTarget_congr ?_ i
          rw [← made, setEntry_page_ne _ _ _ nd]
          simp [nt, Phys.pop]
        · simp [← made, Phys.needsTable, ht, list, Phys.pop]
        · have fill : s.missing d = s'.missing d + 1 := by
            refine missing_fill index ht ?_ rest
            simp [← made, tableTarget, entry_setEntry, Pte.target]
          have spent : s'.freelist.length = next.length := by simp [← made, Phys.pop]
          rw [fill, spent, list, List.length_cons]
          omega
        · intro i u there
          rw [rest i, there]
          rintro rfl
          rw [ht] at there
          cases there

omit [Layout] in
theorem mappages_one (s : Phys) (d vp f : Nat) (perm : Perm) (hv : vp < 1048576) :
    s.mappages d (vp * PGSIZE) PGSIZE f perm =
      match s.walkpgdir d (vp * PGSIZE) true with
      | (none, s) => .ok (-1, s)
      | (some (t, i), s) =>
        if (s.entry t i).p then .error .remap else .ok (0, s.setEntry t i ⟨perm, f, true⟩) := by
  have first : pgrounddown (vp * PGSIZE) = vp * PGSIZE := by
    simp only [pgrounddown, PGSIZE]
    omega
  have last : pgrounddown ((vp * PGSIZE + PGSIZE + 4294967295) % 4294967296) = vp * PGSIZE := by
    simp only [pgrounddown, PGSIZE]
    omega
  have none : (vp * PGSIZE + 4294967296 - vp * PGSIZE) % 4294967296 / PGSIZE = 0 := by
    simp only [PGSIZE]
    omega
  simp only [Phys.mappages, first, last, none]
  rcases walk : s.walkpgdir d (vp * PGSIZE) true with ⟨_ | ⟨t, i⟩, s'⟩
  · simp [Phys.mappagesLoop, walk]
  · simp [Phys.mappagesLoop, walk]

end
end Xv6
