import Xv6.Memory.Teardown

/-!
Building the kernel half of a page table. The kernel mappings lie above all user
pages and do not overlap, so mappages never meets a present entry there, and the
accounting of user frames does not see them.
-/
namespace Xv6
open RefCount Phys

section
variable [Layout] {live own : Finset Nat} {x : Nat → Nat} {s : Phys}

theorem FrameInv.set_kernel (inv : FrameInv live own x s) {d vp t : Nat} (e : Pte) (hd : d ∈ live)
    (high : NUPAGES ≤ vp) (hv : vp < 1048576) (ht : s.tableTarget d (vp / 1024 % 1024) = some t) :
    FrameInv live own x (s.setEntry t (vp % 1024) e) := by
  refine inv.transfer ?_ ?_ rfl rfl
  · intro d' hd' vp' hv'
    rw [inv.pte_set e hd hv ht hd' (Nat.lt_of_lt_of_le hv' pages_lt)]
    have ne : ¬ (d' = d ∧ vp' = vp) := by
      rintro ⟨-, same⟩
      omega
    simp [ne]
  · intro d' hd' i _
    exact inv.tableTarget_set _ e hd (Nat.mod_lt _ (by decide)) ht hd' i

/-- After a walk and a store, an entry of d is as before or carries the stored bits. -/
theorem Walked.stored {d vp t : Nat} {s1 : Phys} (walked : Walked live s d (vp * PGSIZE) t s1)
    (inv1 : FrameInv live own x s1) (hd : d ∈ live) (lt : vp < 1048576)
    (table : s1.tableTarget d (vp / 1024 % 1024) = some t) (perm : Perm) (f : Nat) :
    ∀ vp' < 1048576, (s1.setEntry t (vp % 1024) ⟨perm, f, true⟩).pte d vp' = s.pte d vp' ∨
      ((s1.setEntry t (vp % 1024) ⟨perm, f, true⟩).pte d vp').toPerm = perm := by
  intro vp' hv'
  rw [inv1.pte_set _ hd lt table hd hv']
  by_cases here : vp' = vp
  · exact Or.inr (by simp [here])
  · refine Or.inl ?_
    rw [if_neg (fun both => here both.2)]
    exact walked.keeps.pte d hd vp' hv' not_false

def slots (d lo n d' vp : Nat) : Prop := d' = d ∧ lo ≤ vp ∧ vp < lo + n

theorem mappagesLoop_kernel {d : Nat} (hd : d ∈ live) (perm : Perm) (n vp f : Nat) (s : Phys)
    (inv : FrameInv live own x s) (high : NUPAGES ≤ vp) (top : vp + n < 1048576)
    (absent : ∀ vp', vp ≤ vp' → vp' ≤ vp + n → (s.pte d vp').p = false) :
    ∃ r s', Phys.mappagesLoop d perm n (vp * PGSIZE) f s = .ok (r, s') ∧ FrameInv live own x s' ∧
      KeepsOff live (slots d vp (n + 1)) s s' ∧ SameTables (live.erase d) s s' ∧
      (∀ vp' < 1048576, s'.pte d vp' = s.pte d vp' ∨ (s'.pte d vp').toPerm = perm) ∧
      (r = 0 ∧ s'.oom = s.oom ∧ s'.missing d + s.freelist.length = s.missing d + s'.freelist.length ∨
        r = -1 ∧ s'.oom = true ∧ s.freelist.length < s.missing d) := by
  have others : ∀ {s1 : Phys} {t vp : Nat} (e : Pte), FrameInv live own x s1 →
      s1.tableTarget d (vp / 1024 % 1024) = some t →
      SameTables (live.erase d) s1 (s1.setEntry t (vp % 1024) e) := by
    intro s1 t vp e inv1 table d' hd' i
    exact inv1.tableTarget_set _ e hd (Nat.mod_lt _ (by decide)) table (Finset.mem_of_mem_erase hd') i
  have kept : ∀ {s1 : Phys} {t vp : Nat} (e : Pte), FrameInv live own x s1 →
      s1.tableTarget d (vp / 1024 % 1024) = some t →
      (s1.setEntry t (vp % 1024) e).missing d = s1.missing d := by
    intro s1 t vp e inv1 table
    exact missing_congr fun i => inv1.tableTarget_set _ e hd (Nat.mod_lt _ (by decide)) table hd i
  induction n generalizing vp f s with
  | zero =>
    rcases walk_alloc inv hd (vp * PGSIZE) with ⟨empty, need, walk⟩ | ⟨t, s1, walk, inv1, walked⟩
    · refine ⟨-1, { s with oom := true }, by simp [Phys.mappagesLoop, walk], inv.oom true, ?_,
        SameTables.refl _ _, fun _ _ => Or.inl rfl, Or.inr ⟨rfl, rfl, by rw [empty]; exact missing_pos need⟩⟩
      exact inv.keeps_of_held _ fun _ _ => rfl
    · have table := walked.table
      rw [pdx_page] at table
      have here : (s1.entry t (vp % 1024)).p = false := by
        rw [← pte_of_table table, walked.keeps.pte d hd vp top not_false]
        exact absent vp (Nat.le_refl _) (Nat.le_add_right _ _)
      refine ⟨0, s1.setEntry t (vp % 1024) ⟨perm, f, true⟩, ?_, inv1.set_kernel _ hd high top table, ?_,
        walked.others.trans (others _ inv1 table), walked.stored inv1 hd top table perm f, Or.inl ⟨rfl, walked.oom, ?_⟩⟩
      · simp [Phys.mappagesLoop, walk, ptx_page, here]
      · refine (walked.keeps.mono fun _ _ _ h => h.elim).trans ((inv1.set_keeps _ hd top table).mono ?_)
        rintro d' - vp' ⟨rfl, rfl⟩
        exact ⟨rfl, Nat.le_refl _, by omega⟩
      · rw [kept _ inv1 table]
        exact walked.tables
  | succ n ih =>
    rcases walk_alloc inv hd (vp * PGSIZE) with ⟨empty, need, walk⟩ | ⟨t, s1, walk, inv1, walked⟩
    · refine ⟨-1, { s with oom := true }, by simp [Phys.mappagesLoop, walk], inv.oom true, ?_,
        SameTables.refl _ _, fun _ _ => Or.inl rfl, Or.inr ⟨rfl, rfl, by rw [empty]; exact missing_pos need⟩⟩
      exact inv.keeps_of_held _ fun _ _ => rfl
    · have table := walked.table
      rw [pdx_page] at table
      have lt : vp < 1048576 := by omega
      have here : (s1.entry t (vp % 1024)).p = false := by
        rw [← pte_of_table table, walked.keeps.pte d hd vp lt not_false]
        exact absent vp (Nat.le_refl _) (Nat.le_add_right _ _)
      have inv2 := inv1.set_kernel ⟨perm, f, true⟩ hd high lt table
      have keeps2 : KeepsOff live (fun d' vp' => d' = d ∧ vp' = vp) s
          (s1.setEntry t (vp % 1024) ⟨perm, f, true⟩) :=
        (walked.keeps.mono fun _ _ _ h => h.elim).trans (inv1.set_keeps _ hd lt table)
      have stored2 := walked.stored inv1 hd lt table perm f
      obtain ⟨r, s', run, inv', keeps, tables, stored, result⟩ := ih (vp + 1) ((f + 1) % 1048576) _ inv2 (by omega) (by omega) (by
        intro vp' lo hi
        rw [keeps2.pte d hd vp' (by omega) (by rintro ⟨-, same⟩; omega)]
        exact absent vp' (by omega) (by omega))
      refine ⟨r, s', ?_, inv', ?_, (walked.others.trans (others _ inv1 table)).trans tables, ?_, ?_⟩
      · have next : vp * PGSIZE + PGSIZE = (vp + 1) * PGSIZE := by rw [Nat.add_mul, Nat.one_mul]
        rw [Phys.mappagesLoop]
        simp only [walk, ptx_page, here, Bool.false_eq_true, ↓reduceIte, next]
        exact run
      · refine (keeps2.mono ?_).trans (keeps.mono ?_)
        · rintro d' - vp' ⟨rfl, rfl⟩
          exact ⟨rfl, Nat.le_refl _, by omega⟩
        · rintro d' - vp' ⟨same, lo, hi⟩
          exact ⟨same, by omega, by omega⟩
      · intro vp' hv'
        rcases stored vp' hv' with same | set
        · rw [same]
          exact stored2 vp' hv'
        · exact Or.inr set
      · rw [setEntry_oom, walked.oom, kept _ inv1 table, setEntry_freelist] at result
        have spent := walked.tables
        rcases result with ⟨zero, calm, balance⟩ | ⟨minus, short, tight⟩
        · exact Or.inl ⟨zero, calm, by omega⟩
        · exact Or.inr ⟨minus, short, by omega⟩

omit [Layout] in
theorem mappages_pages (s : Phys) (d vp m f : Nat) (perm : Perm) (pos : 0 < m)
    (top : vp + m ≤ 1048576) :
    s.mappages d (vp * PGSIZE) (m * PGSIZE) f perm =
      Phys.mappagesLoop d perm (m - 1) (vp * PGSIZE) f s := by
  have first : pgrounddown (vp * PGSIZE) = vp * PGSIZE := by
    simp only [pgrounddown, PGSIZE]
    omega
  have last : pgrounddown ((vp * PGSIZE + m * PGSIZE + 4294967295) % 4294967296) =
      (vp + (m - 1)) * PGSIZE := by
    simp only [pgrounddown, PGSIZE, Nat.mul_comm _ 4096]
    omega
  have count : ((vp + (m - 1)) * PGSIZE + 4294967296 - vp * PGSIZE) % 4294967296 / PGSIZE = m - 1 := by
    simp only [PGSIZE, Nat.mul_comm _ 4096]
    omega
  simp only [Phys.mappages, first, last, count]

/-- A mapping request: first page, number of pages, and the rest of the list above it. -/
def kmapFits : Nat → List Kmap → Prop
  | _, [] => True
  | lo, k :: ks => ∃ vp m, k.virt = vp * PGSIZE ∧
      (k.physEnd + 4294967296 - k.physStart) % 4294967296 = m * PGSIZE ∧
      k.perm.u = false ∧ lo ≤ vp ∧ 0 < m ∧ vp + m ≤ 1048576 ∧ kmapFits (vp + m) ks

theorem kmap_fits : kmapFits NUPAGES Phys.kmap := by
  have lo := ‹Layout›.text_before_data
  have mid := ‹Layout›.data_before_end
  have hi := ‹Layout›.kend_le
  simp only [NFRAMES, PHYSTOP, PGSIZE] at hi
  refine ⟨524288, 256, by decide, by decide, rfl, by decide, by decide, by decide, ?_⟩
  refine ⟨524544, ‹Layout›.data - 256, rfl, ?_, rfl, by omega, by omega, by omega, ?_⟩
  · simp only [PGSIZE, EXTMEM]
    omega
  refine ⟨524288 + ‹Layout›.data, 57344 - ‹Layout›.data, ?_, ?_, rfl, by omega, by omega, by omega, ?_⟩
  · simp only [PGSIZE, KERNBASE]
    omega
  · simp only [PGSIZE, PHYSTOP]
    omega
  exact ⟨1040384, 8192, by decide, by decide, rfl, by omega, by decide, by decide, trivial⟩

theorem setupkvmLoop_spec {d : Nat} (ks : List Kmap) (lo : Nat) (s : Phys) (fresh : d ∉ live)
    (inv : FrameInv (insert d live) own x s) (high : NUPAGES ≤ lo) (fits : kmapFits lo ks)
    (absent : ∀ vp, lo ≤ vp → vp < 1048576 → (s.pte d vp).p = false)
    (kernel : ∀ vp < 1048576, (s.pte d vp).u = false) :
    ∃ r s', Phys.setupkvmLoop d ks s = .ok (r, s') ∧
      (r = some d ∧ FrameInv (insert d live) own x s' ∧
          KeepsOff (insert d live) (fun d' vp => d' = d ∧ lo ≤ vp) s s' ∧ s'.oom = s.oom ∧
          (∀ vp < 1048576, (s'.pte d vp).u = false) ∧
          s'.missing d + s.freelist.length = s.missing d + s'.freelist.length ∧ SameTables live s s' ∨
        r = none ∧ FrameInv live own x s' ∧ KeepsOff live (fun _ _ => False) s s' ∧ s'.oom = true ∧
          s.freelist.length < s.missing d ∧ SameTables live s s') := by
  induction ks generalizing lo s with
  | nil => exact ⟨some d, s, rfl, Or.inl ⟨rfl, inv, KeepsOff.refl .., rfl, kernel, rfl, SameTables.refl _ _⟩⟩
  | cons k ks ih =>
    obtain ⟨vp, m, virt, size, super, low, pos, top, fits'⟩ := fits
    have hd := Finset.mem_insert_self d live
    have others : ∀ {off : Nat → Nat → Prop} {s' : Phys}, (∀ d' vp, off d' vp → d' = d) →
        KeepsOff (insert d live) off s s' → KeepsOff live (fun _ _ => False) s s' := by
      intro off s' only keeps
      have sub := keeps.subset (Finset.subset_insert d live)
      refine sub.mono ?_
      intro d' hd' vp' here
      exact fresh (only d' vp' here ▸ hd')
    obtain ⟨r, s1, run, inv1, keeps1, tables1, stored, result⟩ := mappagesLoop_kernel hd k.perm (m - 1) vp
      (k.physStart / PGSIZE) s inv (Nat.le_trans high low) (by omega)
      (fun vp' a b => absent vp' (by omega) (by omega))
    rw [Finset.erase_insert fresh] at tables1
    rw [← mappages_pages s d vp m _ _ pos top, ← virt, ← size] at run
    rcases result with ⟨rfl, calm, balance⟩ | ⟨rfl, short, tight⟩
    · obtain ⟨r, s', run', result'⟩ := ih (vp + m) s1 inv1 (by omega) fits' (by
        intro vp' a b
        rw [keeps1.pte d hd vp' b (by rintro ⟨-, -, hi⟩; omega)]
        exact absent vp' (by omega) b) (by
        intro vp' hv'
        rcases stored vp' hv' with same | set
        · rw [same]
          exact kernel vp' hv'
        · rw [set]
          exact super)
      refine ⟨r, s', ?_, ?_⟩
      · rw [Phys.setupkvmLoop, run]
        simp only [bind, Except.bind, Int.reduceLT, ↓reduceIte]
        exact run'
      · have wide : KeepsOff (insert d live) (fun d' vp' => d' = d ∧ lo ≤ vp') s s1 := by
          refine keeps1.mono ?_
          rintro d' - vp' ⟨same, a, -⟩
          exact ⟨same, by omega⟩
        rcases result' with ⟨rfl, inv', keeps', calm', kernel', balance', tables'⟩ |
          ⟨rfl, inv', keeps', short, tight, tables'⟩
        · refine Or.inl ⟨rfl, inv', wide.trans (keeps'.mono ?_), calm'.trans calm, kernel', by omega,
            tables1.trans tables'⟩
          rintro d' - vp' ⟨same, a⟩
          exact ⟨same, by omega⟩
        · exact Or.inr ⟨rfl, inv', (others (fun _ _ h => h.1) wide).trans keeps', short, by omega,
            tables1.trans tables'⟩
    · -- out of memory: the partly built table is freed
      obtain ⟨s', run', inv', keeps', calm', tables'⟩ := freevm_spec inv1 hd
      rw [Finset.erase_insert fresh] at inv' keeps' tables'
      refine ⟨none, s', ?_, Or.inr ⟨rfl, inv', (others (fun _ _ h => h.1) keeps1).trans keeps', ?_, tight,
        tables1.trans tables'⟩⟩
      · rw [Phys.setupkvmLoop, run]
        simp only [bind, Except.bind, Int.reduceNeg, Int.reduceLT, ↓reduceIte, run']
      · rw [calm', short]

/-- The outcome of setupkvm. It takes one frame and the page tables the new directory has
    in the end, and fails only if there are not enough frames for all 1024. -/
inductive SetupOutcome (live own : Finset Nat) (x : Nat → Nat) (s : Phys) :
    Option Nat → Phys → Prop where
  | made (d : Nat) (s' : Phys) (fresh : d ∉ live) (new : d ∉ own) (free : s.ref d = 0)
      (inv : FrameInv (insert d live) own x s')
      (empty : ∀ vp < NUPAGES, (s'.pte d vp).p = false)
      (kernel : ∀ vp < 1048576, (s'.pte d vp).u = false)
      (keeps : KeepsOff live (fun _ _ => False) s s') (calm : s'.oom = s.oom)
      (balance : s'.missing d + s.freelist.length = 1025 + s'.freelist.length) (tables : SameTables live s s') :
      SetupOutcome live own x s (some d) s'
  | failed (s' : Phys) (inv : FrameInv live own x s')
      (keeps : KeepsOff live (fun _ _ => False) s s') (short : s'.oom = true)
      (tight : s.freelist.length < 1025) (tables : SameTables live s s') : SetupOutcome live own x s none s'

theorem setupkvm_spec (inv : FrameInv live own x s) :
    ∃ r s', s.setupkvm = .ok (r, s') ∧ SetupOutcome live own x s r s' := by
  cases list : s.freelist with
  | nil =>
    refine ⟨none, { s with oom := true }, by simp [Phys.setupkvm, kalloc_nil list], ?_⟩
    exact .failed _ (inv.oom true) (inv.keeps_of_held _ fun _ _ => rfl) rfl (by simp [list])
      (SameTables.refl _ _)
  | cons d next =>
    have taken := kalloc_page inv list (.table fun _ => Pte.zero)
    have free := ((inv.free d).mp (by simp [list])).2
    simp only [Phys.setupkvm, kalloc_cons list]
    generalize (s.pop d next).setPage d (.table fun _ => Pte.zero) = z at *
    have attached := taken.inv.attach taken.new taken.page
    have bare : ∀ i, z.tableTarget d i = none := fun i => by
      simp [tableTarget, entry, taken.page, Page.entry, Pte.target, Pte.zero]
    have empty : ∀ vp, z.pte d vp = Pte.zero := fun vp => pte_of_no_table (bare _)
    have all : z.missing d = 1024 := by simp [Phys.missing, bare, NPDENTRIES]
    have spent := taken.length
    obtain ⟨r, s', run, result⟩ := setupkvmLoop_spec Phys.kmap NUPAGES z taken.dir attached
      (Nat.le_refl _) kmap_fits (fun vp _ _ => by rw [empty]; rfl) (fun vp _ => by rw [empty]; rfl)
    have first := taken.keeps inv fun _ _ => False
    have same : SameTables live s z := fun d' hd' i => taken.tableTarget inv hd' i
    refine ⟨r, s', run, ?_⟩
    rcases result with ⟨rfl, inv', keeps, calm, kernel, balance, tables⟩ | ⟨rfl, inv', keeps, short, tight, tables⟩
    · refine .made d s' taken.dir taken.new free inv' ?_ kernel ?_ (calm.trans taken.calm) (by omega)
        (same.trans tables)
      · intro vp hv
        rw [keeps.pte d (Finset.mem_insert_self d live) vp (Nat.lt_of_lt_of_le hv pages_lt)
          (by rintro ⟨-, high⟩; omega), empty]
        rfl
      · refine first.trans ((keeps.subset (Finset.subset_insert d live)).mono ?_)
        rintro d' hd' vp ⟨same, -⟩
        exact taken.dir (same ▸ hd')
    · exact .failed s' inv' (first.trans keeps) short (by omega) (same.trans tables)

end
end Xv6
