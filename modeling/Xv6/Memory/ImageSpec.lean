import Xv6.Memory.Sharing
import Xv6.Memory.PageFault
import Xv6.Memory.Image

/-!
The user image of exec: allocuvm grows it, loaduvm and copyout only write to pages
of the new directory, and a failure anywhere leaves a directory freevm can take.
-/
namespace Xv6
open RefCount Phys

section
variable [Layout] {live own : Finset Nat} {x : Nat → Nat} {s : Phys}

theorem FrameInv.write_user (inv : FrameInv live own x s) {d vp : Nat} (hd : d ∈ live)
    (hv : vp < NUPAGES) (present : (s.pte d vp).p = true) (write : (s.pte d vp).w = true) (pg : Page) :
    FrameInv live own x (s.setPage (s.pte d vp).frame pg) ∧
      (∀ d' ∈ live, ∀ vp', (s.setPage (s.pte d vp).frame pg).pte d' vp' = s.pte d' vp') ∧
      KeepsOff live (fun d' vp' => d' = d ∧ vp' = vp) s (s.setPage (s.pte d vp).frame pg) := by
  have mapped : s.userTarget d vp = some (s.pte d vp).frame := target_some.mpr ⟨present, rfl⟩
  obtain ⟨tab, dir, -⟩ := kernelRefs_zero (inv.user_not_kernel hd hv mapped)
  have page : ∀ g, g ≠ (s.pte d vp).frame → (s.setPage (s.pte d vp).frame pg).page g = s.page g :=
    fun g ne => by simp [ne]
  have pte : ∀ d' ∈ live, ∀ vp', (s.setPage (s.pte d vp).frame pg).pte d' vp' = s.pte d' vp' := by
    intro d' hd' vp'
    refine pte_congr (page d' fun same => dir (same ▸ hd')) fun t ht => page t ?_
    intro same
    exact not_table_of_zero tab hd' (Nat.mod_lt _ (by decide)) (same ▸ ht)
  refine ⟨inv.setPage pg dir tab, pte, fun d' hd' vp' _ _ => pte d' hd' vp', ?_⟩
  intro d' hd' vp' hv' off f other
  refine page f ?_
  rintro rfl
  have one := inv.writable d hd vp hv present write
  have few : refsTo live (Finset.range NUPAGES) s.userTarget (s.pte d vp).frame ≤ 1 := by
    have := inv.refs (s.pte d vp).frame
    simp only [userRefs] at this
    omega
  exact off (refs_unique few hd' hd (Finset.mem_range.mpr hv') (Finset.mem_range.mpr hv) other mapped)

/-- The outcome of allocuvm from page lo up to newsz: it needs a frame for each page and
    perhaps for each page table that d does not have. -/
inductive AllocOutcome (live own : Finset Nat) (x : Nat → Nat) (s : Phys) (d lo newsz : Nat) :
    Nat → Phys → Prop where
  | grown (s' : Phys) (inv : FrameInv live own x s')
      (full : ∀ vp, lo ≤ vp → vp * 4096 < newsz →
        (s'.pte d vp).p = true ∧ (s'.pte d vp).toPerm = ⟨true, true, false⟩)
      (keeps : KeepsOff live (inRange d lo newsz) s s') (calm : s'.oom = s.oom)
      (budget : s.freelist.length ≤ s'.freelist.length + ((newsz + 4095) / 4096 - lo) + s.missing d)
      (others : SameTables (live.erase d) s s') :
      AllocOutcome live own x s d lo newsz newsz s'
  | failed (s' : Phys) (inv : FrameInv live own x s')
      (keeps : KeepsOff live (inRange d lo newsz) s s') (short : s'.oom = true)
      (tight : s.freelist.length < ((newsz + 4095) / 4096 - lo) + s.missing d)
      (others : SameTables (live.erase d) s s') :
      AllocOutcome live own x s d lo newsz 0 s'

theorem allocuvmLoop_spec {d oldsz newsz : Nat} (hd : d ∈ live) (top : newsz ≤ KERNBASE)
    (grow : oldsz < newsz) (fuel vp : Nat) (s : Phys) (enough : newsz ≤ 4096 * (vp + fuel))
    (low : pgroundup oldsz / 4096 ≤ vp) (inv : FrameInv live own x s)
    (absent : ∀ vp', vp ≤ vp' → vp' * 4096 < newsz → (s.pte d vp').p = false) :
    ∃ r s', Phys.allocuvmLoop d oldsz newsz fuel (vp * PGSIZE) s = .ok (r, s') ∧
      (r = newsz ∧ FrameInv live own x s' ∧
          (∀ vp', vp ≤ vp' → vp' * 4096 < newsz →
            (s'.pte d vp').p = true ∧ (s'.pte d vp').toPerm = ⟨true, true, false⟩) ∧
          KeepsOff live (inRange d vp newsz) s s' ∧ s'.oom = s.oom ∧
          s.freelist.length ≤ s'.freelist.length + ((newsz + 4095) / 4096 - vp) + s.missing d ∧
          SameTables (live.erase d) s s' ∨
        r = 0 ∧ FrameInv live own x s' ∧
          KeepsOff live (inRange d (pgroundup oldsz / 4096) newsz) s s' ∧ s'.oom = true ∧
          s.freelist.length < ((newsz + 4095) / 4096 - vp) + s.missing d ∧ SameTables (live.erase d) s s') := by
  induction fuel generalizing vp s with
  | zero =>
    refine ⟨newsz, s, rfl, Or.inl ⟨rfl, inv, ?_, KeepsOff.refl .., rfl, by omega, SameTables.refl _ _⟩⟩
    intro vp' lo hi
    omega
  | succ fuel ih =>
    have next : vp * PGSIZE + PGSIZE = (vp + 1) * PGSIZE := by rw [Nat.add_mul, Nat.one_mul]
    rw [Phys.allocuvmLoop]
    by_cases more : vp * PGSIZE < newsz
    · rw [if_pos more, next]
      have more' : vp * 4096 < newsz := more
      have hv : vp < NUPAGES := by
        simp only [KERNBASE, NUPAGES] at *
        omega
      have lt := Nat.lt_of_lt_of_le hv pages_lt
      cases list : s.freelist with
      | nil =>
        have calm : KeepsOff live (inRange d (pgroundup oldsz / 4096) newsz) s { s with oom := true } :=
          inv.keeps_of_held _ fun _ _ => rfl
        obtain ⟨s', run, inv', keeps, short, tables, -⟩ := deallocuvm_spec (inv.oom true) hd top grow
        refine ⟨0, s', ?_, Or.inr ⟨rfl, inv', calm.trans keeps, short, by simp only [List.length_nil]; omega,
          SameTables.subset tables (Finset.erase_subset d live)⟩⟩
        simp only [kalloc_nil list]
        rw [run, ok_bind]
      | cons f rest =>
        have taken := kalloc_page inv list (.bytes fun _ => 0)
        simp only [kalloc_cons list]
        rcases map_fresh inv hd hv (absent vp (Nat.le_refl _) more') taken with
          ⟨run, few⟩ | ⟨s1, run, -, outcome⟩
        · -- no page table: unmap what the loop has mapped, then free the page in hand
          rw [run, ok_bind, if_pos (show (-1 : Int) < 0 by decide)]
          obtain ⟨s2, undo, inv2, keeps2, short, tables2, -⟩ := deallocuvm_spec (taken.inv.oom true) hd top grow
          obtain ⟨free, inv3⟩ := inv2.kfree_own taken.new
          have tables := needsTable_le_missing s d (vp * PGSIZE)
          rw [list] at few
          have outside := inv2.own_apart (Finset.mem_insert_self f own)
          refine ⟨0, s2.drop f, ?_, Or.inr ⟨rfl, inv3, ?_, short, by omega, ?_⟩⟩
          · rw [undo, ok_bind, free, ok_bind]
          · have first := taken.keeps inv (inRange d (pgroundup oldsz / 4096) newsz)
            refine (first.trans ?_).trans (inv2.keeps_of_apart _ outside fun g ne => drop_page_ne ne)
            exact ⟨keeps2.pte, keeps2.page⟩
          · intro d' hd' i
            have hd' := Finset.mem_of_mem_erase hd'
            have away : d' ≠ f := fun same => outside.1 (same ▸ hd')
            rw [tableTarget_congr (drop_page_ne away), tables2 d' hd' i]
            exact taken.tableTarget inv hd' i
        · rw [run, ok_bind, if_neg (show ¬ (0 : Int) < 0 by decide)]
          cases outcome with
          | mapped _ f' inv1 entry zero keeps memory calm balance others =>
            have wide : KeepsOff live (inRange d vp newsz) s s1 := by
              refine keeps.mono ?_
              rintro d' - vp' ⟨rfl, rfl⟩
              exact ⟨rfl, Nat.le_refl _, more'⟩
            obtain ⟨r, s', loop, result⟩ := ih (vp + 1) s1 (by omega) (by omega) inv1 (by
              intro vp' lo hi
              have lt' : vp' < 1048576 := by
                simp only [KERNBASE] at top
                omega
              rw [keeps.pte d hd vp' lt' (by rintro ⟨-, same⟩; omega)]
              exact absent vp' (by omega) hi)
            refine ⟨r, s', loop, ?_⟩
            rw [list] at balance
            rcases result with ⟨rfl, inv', full, keeps', calm', budget, others'⟩ |
              ⟨rfl, inv', keeps', short, tight, others'⟩
            · refine Or.inl ⟨rfl, inv', ?_, wide.trans (keeps'.mono ?_), calm'.trans calm, by omega,
                others.trans others'⟩
              · intro vp' lo hi
                by_cases here : vp' = vp
                · subst here
                  rw [keeps'.pte d hd vp' lt (by rintro ⟨-, a, -⟩; omega), entry]
                  exact ⟨rfl, rfl⟩
                · exact full vp' (by omega) hi
              · rintro d' - vp' ⟨same, lo, hi⟩
                exact ⟨same, by omega, hi⟩
            · refine Or.inr ⟨rfl, inv', KeepsOff.trans (wide.mono ?_) keeps', short, by omega, others.trans others'⟩
              rintro d' - vp' ⟨same, lo, hi⟩
              exact ⟨same, by omega, hi⟩
    · rw [if_neg more]
      refine ⟨newsz, s, rfl, Or.inl ⟨rfl, inv, ?_, KeepsOff.refl .., rfl, by omega, SameTables.refl _ _⟩⟩
      intro vp' lo hi
      simp only [PGSIZE] at more
      omega

theorem allocuvm_spec (inv : FrameInv live own x s) {d oldsz newsz : Nat} (hd : d ∈ live)
    (top : newsz < KERNBASE) (grow : oldsz < newsz)
    (absent : ∀ vp, pgroundup oldsz / 4096 ≤ vp → vp * 4096 < newsz → (s.pte d vp).p = false) :
    ∃ r s', s.allocuvm d oldsz newsz = .ok (r, s') ∧
      AllocOutcome live own x s d (pgroundup oldsz / 4096) newsz r s' := by
  have round : pgroundup oldsz = pgroundup oldsz / 4096 * PGSIZE := by
    simp only [pgroundup, PGSIZE]
    omega
  obtain ⟨r, s', run, result⟩ := allocuvmLoop_spec hd (Nat.le_of_lt top) grow (newsz / PGSIZE + 1)
    (pgroundup oldsz / 4096) s (by simp only [PGSIZE]; omega) (Nat.le_refl _) inv absent
  rw [← round] at run
  refine ⟨r, s', ?_, ?_⟩
  · rw [Phys.allocuvm, if_neg (Nat.not_le.mpr top), if_neg (Nat.not_lt.mpr (Nat.le_of_lt grow))]
    exact run
  · rcases result with ⟨rfl, inv', full, keeps, calm, budget, others⟩ | ⟨rfl, inv', keeps, short, tight, others⟩
    · exact .grown s' inv' full keeps calm budget others
    · exact .failed s' inv' keeps short tight others

/-- The first n user pages of d are present and writable, no other user page is
    present, and no kernel page is open to user code. -/
structure ImageInv (s : Phys) (d n : Nat) : Prop where
  full : ∀ vp < NUPAGES, vp < n → (s.pte d vp).p = true ∧ (s.pte d vp).w = true
  rest : ∀ vp < NUPAGES, n ≤ vp → (s.pte d vp).p = false
  kernel : ∀ vp < 1048576, NUPAGES ≤ vp → (s.pte d vp).u = false

/-- Writing to pages of d: no entry moves and no other directory notices. -/
structure Filled (live own : Finset Nat) (x : Nat → Nat) (d : Nat) (s s' : Phys) : Prop where
  inv : FrameInv live own x s'
  pte : ∀ d' ∈ live, ∀ vp, s'.pte d' vp = s.pte d' vp
  keeps : KeepsOff live (fun d' _ => d' = d) s s'
  others : SameTables (live.erase d) s s'

namespace Filled

theorem refl (inv : FrameInv live own x s) (d : Nat) : Filled live own x d s s :=
  ⟨inv, fun _ _ _ => rfl, KeepsOff.refl .., SameTables.refl _ _⟩

theorem trans {d : Nat} {s' s'' : Phys} (a : Filled live own x d s s')
    (b : Filled live own x d s' s'') : Filled live own x d s s'' :=
  ⟨b.inv, fun d' hd' vp => (b.pte d' hd' vp).trans (a.pte d' hd' vp), a.keeps.trans b.keeps,
    a.others.trans b.others⟩

theorem image {d n : Nat} {s' : Phys} (a : Filled live own x d s s') (hd : d ∈ live)
    (image : ImageInv s d n) : ImageInv s' d n := by
  constructor
  · intro vp hv low
    rw [a.pte d hd]
    exact image.full vp hv low
  · intro vp hv high
    rw [a.pte d hd]
    exact image.rest vp hv high
  · intro vp hv high
    rw [a.pte d hd]
    exact image.kernel vp hv high

theorem of_write (inv : FrameInv live own x s) {d vp : Nat} (hd : d ∈ live) (hv : vp < NUPAGES)
    (present : (s.pte d vp).p = true) (write : (s.pte d vp).w = true) (pg : Page) :
    Filled live own x d s (s.setPage (s.pte d vp).frame pg) := by
  obtain ⟨inv', pte, keeps⟩ := inv.write_user hd hv present write pg
  have outside := (FrameInv.kernelRefs_zero (inv.user_not_kernel hd hv (target_some.mpr ⟨present, rfl⟩))).2.1
  refine ⟨inv', pte, keeps.mono fun _ _ _ here => here.1, SameTables.of_pages fun d' hd' => ?_⟩
  have away : d' ≠ (s.pte d vp).frame := fun same => outside (same ▸ Finset.mem_of_mem_erase hd')
  exact Function.update_of_ne away _ _

end Filled

theorem loaduvmLoop_spec {d n addr sz : Nat} (hd : d ∈ live) (ip : List UInt8) (offset : Nat)
    (fits : addr + sz ≤ 4096 * n) (top : n ≤ NUPAGES) (fuel i : Nat) (s : Phys)
    (inv : FrameInv live own x s) (image : ImageInv s d n) :
    ∃ r s', Phys.loaduvmLoop d addr ip offset sz fuel i s = .ok (r, s') ∧ Filled live own x d s s' := by
  induction fuel generalizing i s with
  | zero => exact ⟨0, s, rfl, Filled.refl inv d⟩
  | succ fuel ih =>
    rw [Phys.loaduvmLoop]
    by_cases more : i < sz
    · rw [if_pos more]
      have low : (addr + i) / 4096 < n := by omega
      have hv := Nat.lt_of_lt_of_le low top
      obtain ⟨present, write⟩ := image.full _ hv low
      obtain ⟨t, table⟩ := table_of_present present
      rw [← pdx_eq] at table
      simp only [walk_false_of_table table, entry_eq_pte table]
      generalize readi ip ((offset + i) % 4294967296) (if sz - i < PGSIZE then sz - i else PGSIZE) = got
      have filled := Filled.of_write inv hd hv present write
        ((s.page (s.pte d ((addr + i) / 4096)).frame).write 0 got.2)
      by_cases short : got.1 ≠ ((if sz - i < PGSIZE then sz - i else PGSIZE : Nat) : Int)
      · rw [if_pos short]
        exact ⟨-1, _, rfl, filled⟩
      · rw [if_neg short]
        obtain ⟨r, s', run, rest⟩ := ih (i + PGSIZE) _ filled.inv (filled.image hd image)
        exact ⟨r, s', run, filled.trans rest⟩
    · rw [if_neg more]
      exact ⟨0, s, rfl, Filled.refl inv d⟩

omit [Layout] in
theorem uva2ka_eq_some {d va f : Nat} : s.uva2ka d va = some f ↔
    (s.found d va).p = true ∧ (s.found d va).u = true ∧ (s.found d va).frame = f := by
  unfold Phys.uva2ka Phys.found
  cases (s.walkpgdir d va false).1 with
  | none => simp [Pte.zero]
  | some slot =>
    simp only [Bool.not_eq_true]
    cases (s.entry slot.1 slot.2).p with
    | false => simp
    | true =>
      cases (s.entry slot.1 slot.2).u with
      | false => simp
      | true => simp

theorem copyoutLoop_spec {d n : Nat} (hd : d ∈ live) (fuel va : Nat) (buf : List UInt8) (s : Phys)
    (inv : FrameInv live own x s) (image : ImageInv s d n) :
    Filled live own x d s (Phys.copyoutLoop d fuel va buf s).2 := by
  induction fuel generalizing va buf s with
  | zero => exact Filled.refl inv d
  | succ fuel ih =>
    rw [Phys.copyoutLoop]
    by_cases more : 0 < buf.length
    · rw [if_pos more]
      simp only
      cases found : s.uva2ka d (pgrounddown va) with
      | none => exact Filled.refl inv d
      | some f =>
        simp only
        -- uva2ka accepts user pages only, and those of the image are writable
        have slot : (s.found d (pgrounddown va)).p = true ∧ (s.found d (pgrounddown va)).u = true ∧
            (s.found d (pgrounddown va)).frame = f := uva2ka_eq_some.mp found
        generalize index : pgrounddown va / 4096 % 1048576 = vp
        have lt : vp < 1048576 := by omega
        have entry : s.found d (pgrounddown va) = s.pte d vp := by
          rw [found_eq_pte, ← index]
          unfold Phys.pte
          have hi : pgrounddown va / 4096 % 1048576 / 1024 % 1024 = pgrounddown va / 4096 / 1024 % 1024 := by
            omega
          have lo : pgrounddown va / 4096 % 1048576 % 1024 = pgrounddown va / 4096 % 1024 := by omega
          rw [hi, lo]
        rw [entry] at slot
        obtain ⟨present, user, rfl⟩ := slot
        have hv : vp < NUPAGES := by
          by_contra high
          rw [image.kernel vp lt (Nat.not_lt.mp high)] at user
          cases user
        have low : vp < n := by
          by_contra high
          rw [image.rest vp hv (Nat.not_lt.mp high)] at present
          cases present
        have filled := Filled.of_write inv hd hv present (image.full vp hv low).2
        exact (filled _).trans (ih _ _ _ (filled _).inv ((filled _).image hd image))
    · rw [if_neg more]
      exact Filled.refl inv d

theorem pushArgs_spec {d n : Nat} (hd : d ∈ live) (args : List (List UInt8)) (sp : Nat)
    (ustack : List Nat) (s : Phys) (inv : FrameInv live own x s) (image : ImageInv s d n) :
    Filled live own x d s (Phys.pushArgs d args sp ustack s).2 := by
  induction args generalizing sp ustack s with
  | nil => exact Filled.refl inv d
  | cons arg args ih =>
    rw [Phys.pushArgs]
    by_cases full : ustack.length ≥ MAXARG
    · rw [if_pos full]
      exact Filled.refl inv d
    · rw [if_neg full]
      simp only
      generalize (sp + 4294967296 - (arg.length + 1) % 4294967296) % 4294967296 / 4 * 4 = sp'
      have filled : Filled live own x d s (s.copyout d sp' (arg ++ [0])).2 :=
        copyoutLoop_spec hd _ _ _ s inv image
      split
      · exact filled
      · exact filled.trans (ih _ _ _ filled.inv (filled.image hd image))

structure Apart (live own : Finset Nat) (x : Nat → Nat) (d : Nat) (s s' : Phys) : Prop where
  inv : FrameInv live own x s'
  keeps : KeepsOff live (fun d' _ => d' = d) s s'
  others : SameTables (live.erase d) s s'

namespace Apart

theorem refl (inv : FrameInv live own x s) (d : Nat) : Apart live own x d s s :=
  ⟨inv, KeepsOff.refl .., SameTables.refl _ _⟩

theorem trans {d : Nat} {s' s'' : Phys} (a : Apart live own x d s s') (b : Apart live own x d s' s'') :
    Apart live own x d s s'' :=
  ⟨b.inv, a.keeps.trans b.keeps, a.others.trans b.others⟩

theorem of_filled {d : Nat} {s' : Phys} (a : Filled live own x d s s') : Apart live own x d s s' :=
  ⟨a.inv, a.keeps, a.others⟩

end Apart

omit [Layout] in
theorem pgroundup_pages {sz : Nat} (top : sz ≤ KERNBASE) : pgroundup sz / 4096 = (sz + 4095) / 4096 := by
  simp only [pgroundup, PGSIZE, KERNBASE] at *
  omega

theorem ImageInv.allocuvm {d sz : Nat} (hd : d ∈ live) (inv : FrameInv live own x s)
    (top : sz ≤ KERNBASE) (image : ImageInv s d ((sz + 4095) / 4096)) (newsz : Nat) :
    ∃ r s', s.allocuvm d sz newsz = .ok (r, s') ∧ Apart live own x d s s' ∧
      (r ≠ 0 → newsz ≤ r ∧ r ≤ KERNBASE ∧ (sz ≤ newsz → r = newsz ∧ r < KERNBASE) ∧
        ImageInv s' d ((r + 4095) / 4096)) ∧
      KeepsOff live (fun d' vp => d' = d ∧ (sz + 4095) / 4096 ≤ vp) s s' := by
  by_cases high : newsz ≥ KERNBASE
  · exact ⟨0, s, by rw [Phys.allocuvm, if_pos high], Apart.refl inv d, fun nonzero => (nonzero rfl).elim,
      KeepsOff.refl ..⟩
  · by_cases below : newsz < sz
    · refine ⟨sz, s, by rw [Phys.allocuvm, if_neg high, if_pos below], Apart.refl inv d, ?_, KeepsOff.refl ..⟩
      intro _
      exact ⟨Nat.le_of_lt below, top, fun le => by omega, image⟩
    · by_cases same : newsz = sz
      · subst same
        refine ⟨newsz, s, ?_, Apart.refl inv d, ?_, KeepsOff.refl ..⟩
        · have stop : ¬ pgroundup newsz < newsz := by
            simp only [pgroundup, PGSIZE, KERNBASE] at *
            omega
          rw [Phys.allocuvm, if_neg high, if_neg below, Phys.allocuvmLoop, if_neg stop]
        · intro _
          exact ⟨Nat.le_refl _, top, fun _ => ⟨rfl, Nat.not_le.mp high⟩, image⟩
      · have lo := pgroundup_pages top
        obtain ⟨r, s', run, outcome⟩ := allocuvm_spec inv hd (Nat.not_le.mp high)
          (show sz < newsz by omega) (fun vp low less => image.rest vp (by
            simp only [KERNBASE, NUPAGES] at *
            omega) (lo ▸ low))
        have above : ∀ {s'}, KeepsOff live (inRange d ((sz + 4095) / 4096) newsz) s s' →
            KeepsOff live (fun d' vp => d' = d ∧ (sz + 4095) / 4096 ≤ vp) s s' :=
          fun k => k.mono fun _ _ _ here => ⟨here.1, here.2.1⟩
        refine ⟨r, s', run, ?_⟩
        cases outcome with
        | failed _ inv' k short _ others =>
          rw [lo] at k
          exact ⟨⟨inv', k.mono fun _ _ _ here => here.1, others⟩, fun nonzero => (nonzero rfl).elim, above k⟩
        | grown _ inv' full k calm _ others =>
          rw [lo] at full k
          refine ⟨⟨inv', k.mono fun _ _ _ here => here.1, others⟩, fun _ => ⟨Nat.le_refl _, by omega,
            fun _ => ⟨rfl, Nat.not_le.mp high⟩, ?_, ?_, ?_⟩, above k⟩
          · intro vp hv low
            by_cases old : vp < (sz + 4095) / 4096
            · rw [k.pte d hd vp (Nat.lt_of_lt_of_le hv pages_lt) (by rintro ⟨-, a, -⟩; omega)]
              exact image.full vp hv old
            · obtain ⟨present, perm⟩ := full vp (by omega) (by omega)
              exact ⟨present, by rw [perm]⟩
          · intro vp hv out
            rw [k.pte d hd vp (Nat.lt_of_lt_of_le hv pages_lt) (by rintro ⟨-, -, a⟩; omega)]
            exact image.rest vp hv (by omega)
          · intro vp hv up
            refine (congrArg (fun e : Pte => e.u) (k.pte d hd vp hv ?_)).trans (image.kernel vp hv up)
            rintro ⟨-, -, a⟩
            simp only [KERNBASE, NUPAGES] at *
            omega

omit [Layout] in
theorem field_lt (bs : List UInt8) (off n : Nat) : field bs off n < 256 ^ n := by
  induction n generalizing off with
  | zero => exact Nat.one_pos
  | succ n ih =>
    have byte := (bs.getD off 0).toNat_lt
    have rest := ih (off + 1)
    rw [field, Nat.pow_succ]
    omega

omit [Layout] in
theorem Proghdr.decode_lt (bs : List UInt8) :
    (Proghdr.decode bs).vaddr < 4294967296 ∧ (Proghdr.decode bs).memsz < 4294967296 :=
  ⟨field_lt bs 8 4, field_lt bs 20 4⟩

theorem loadSegments_spec {d : Nat} (hd : d ∈ live) (ip : List UInt8) (n off sz : Nat) (s : Phys)
    (inv : FrameInv live own x s) (top : sz ≤ KERNBASE) (image : ImageInv s d ((sz + 4095) / 4096)) :
    ∃ r s', Phys.loadSegments d ip n off sz s = .ok (r, s') ∧ Apart live own x d s s' ∧
      ∀ sz', r = some sz' → sz' ≤ KERNBASE ∧ ImageInv s' d ((sz' + 4095) / 4096) := by
  induction n generalizing off sz s with
  | zero =>
    refine ⟨some sz, s, rfl, Apart.refl inv d, ?_⟩
    rintro sz' ⟨⟩
    exact ⟨top, image⟩
  | succ n ih =>
    have bad : ∀ (s' : Phys), Apart live own x d s s' →
        ∃ r s'', (Except.ok (none, s') : Except Panic (Option Nat × Phys)) = .ok (r, s'') ∧
          Apart live own x d s s'' ∧
          ∀ sz', r = some sz' → sz' ≤ KERNBASE ∧ ImageInv s'' d ((sz' + 4095) / 4096) :=
      fun s' apart => ⟨none, s', rfl, apart, fun _ none => by cases none⟩
    rw [Phys.loadSegments]
    simp only
    have bounds := Proghdr.decode_lt (readi ip off PROGHDR).2
    generalize Proghdr.decode (readi ip off PROGHDR).2 = ph at *
    by_cases short : (readi ip off PROGHDR).1 ≠ (PROGHDR : Int)
    · rw [if_pos short]
      exact bad s (Apart.refl inv d)
    rw [if_neg short]
    by_cases other : ph.type ≠ ELF_PROG_LOAD
    · rw [if_pos other]
      exact ih _ sz s inv top image
    rw [if_neg other]
    by_cases less : ph.memsz < ph.filesz
    · rw [if_pos less]
      exact bad s (Apart.refl inv d)
    rw [if_neg less]
    by_cases wraps : (ph.vaddr + ph.memsz) % 4294967296 < ph.vaddr
    · rw [if_pos wraps]
      exact bad s (Apart.refl inv d)
    rw [if_neg wraps]
    obtain ⟨r, s1, run, apart, grown, -⟩ :=
      image.allocuvm hd inv top ((ph.vaddr + ph.memsz) % 4294967296)
    rw [run, ok_bind]
    simp only
    by_cases zero : r = 0
    · rw [if_pos zero]
      exact bad s1 apart
    rw [if_neg zero]
    obtain ⟨above, top1, -, image1⟩ := grown zero
    by_cases ragged : ph.vaddr % PGSIZE ≠ 0
    · rw [if_pos ragged]
      exact bad s1 apart
    rw [if_neg ragged]
    -- the segment lies below the new size, where every page is mapped
    have fits : ph.vaddr + ph.filesz ≤ 4096 * ((r + 4095) / 4096) := by
      omega
    have few : (r + 4095) / 4096 ≤ NUPAGES := by
      simp only [KERNBASE, NUPAGES] at *
      omega
    obtain ⟨r', s2, load, filled⟩ := loaduvmLoop_spec hd ip ph.off fits few (ph.filesz / PGSIZE + 1) 0 s1
      apart.inv image1
    have start : s1.loaduvm d ph.vaddr ip ph.off ph.filesz = .ok (r', s2) := by
      rw [Phys.loaduvm, if_neg ragged]
      exact load
    rw [start, ok_bind]
    simp only
    have apart2 := apart.trans (Apart.of_filled filled)
    by_cases failed : r' < 0
    · rw [if_pos failed]
      exact bad s2 apart2
    rw [if_neg failed]
    obtain ⟨r'', s', rest, apart', result⟩ := ih ((off + PROGHDR) % 4294967296) r s2 filled.inv top1
      (filled.image hd image1)
    exact ⟨r'', s', rest, apart2.trans apart', result⟩

theorem ImageInv.clearpteu {d n vp : Nat} (hd : d ∈ live) (inv : FrameInv live own x s)
    (image : ImageInv s d n) (hv : vp < NUPAGES) (low : vp < n) :
    ∃ s', s.clearpteu d (vp * PGSIZE) = .ok s' ∧ Apart live own x d s s' ∧ ImageInv s' d n ∧
      (∀ vp' < 1048576, s'.pte d vp' = if vp' = vp then { s.pte d vp with u := false } else s.pte d vp') ∧
      KeepsOff live (fun d' vp' => d' = d ∧ vp' = vp) s s' := by
  have lt := Nat.lt_of_lt_of_le hv pages_lt
  obtain ⟨present, write⟩ := image.full vp hv low
  obtain ⟨t, table⟩ := table_of_present present
  have table' : s.tableTarget d (pdx (vp * PGSIZE)) = some t := by
    rw [pdx_page]
    exact table
  have slot : s.entry t (vp % 1024) = s.pte d vp := (pte_of_table table).symm
  have mapped : s.userTarget d vp = some (s.pte d vp).frame := target_some.mpr ⟨present, rfl⟩
  have pte : ∀ vp' < 1024 * 1024, (s.setEntry t (vp % 1024) { s.pte d vp with u := false }).pte d vp' =
      if vp' = vp then { s.pte d vp with u := false } else s.pte d vp' := by
    intro vp' hv'
    simpa using inv.pte_set { s.pte d vp with u := false } hd lt table hd hv'
  refine ⟨s.setEntry t (vp % 1024) { s.pte d vp with u := false }, ?_, ⟨?_, ?_, ?_⟩, ⟨?_, ?_, ?_⟩, pte,
    inv.set_keeps _ hd lt table⟩
  · simp only [Phys.clearpteu, walk_false_of_table table', ptx_page, slot]
  · refine inv.set_user _ hd hv table (Finset.Subset.refl own) ?_ ?_ ?_ ?_
    · intro g
      simp only [mapped, Pte.target, present, ↓reduceIte]
    · exact inv.flags d hd vp hv
    · exact inv.writable d hd vp hv
    · intro _ d' hd' vp' hv' other
      exact inv.samePage _ d' hd' d hd vp' hv' vp hv other mapped
  · exact (inv.set_keeps _ hd lt table).mono fun _ _ _ here => here.1
  · exact fun d' hd' => inv.tableTarget_set _ _ hd (Nat.mod_lt _ (by decide)) table (Finset.mem_of_mem_erase hd')
  · intro vp' hv' low'
    rw [pte vp' (Nat.lt_of_lt_of_le hv' pages_lt)]
    split
    · exact ⟨present, write⟩
    · exact image.full vp' hv' low'
  · intro vp' hv' out
    rw [pte vp' (Nat.lt_of_lt_of_le hv' pages_lt)]
    split
    · rename_i here
      omega
    · exact image.rest vp' hv' out
  · intro vp' hv' up
    rw [pte vp' hv']
    split
    · rfl
    · exact image.kernel vp' hv' up

/-- The page below the stack page is closed to user code. -/
def Guarded (s : Phys) (d sz : Nat) : Prop :=
  ∃ g, sz = 4096 * (g + 2) ∧ (s.pte d g).u = false

theorem ImageInv.stack {d sz : Nat} (hd : d ∈ live) (inv : FrameInv live own x s) (top : sz ≤ KERNBASE)
    (image : ImageInv s d ((sz + 4095) / 4096)) :
    ∃ r s1, s.allocuvm d (pgroundup sz) ((pgroundup sz + 2 * PGSIZE) % 4294967296) = .ok (r, s1) ∧
      Apart live own x d s s1 ∧ (r ≠ 0 → r = pgroundup sz + 2 * PGSIZE ∧ r < KERNBASE ∧
        ∃ s2, s1.clearpteu d (r - 2 * PGSIZE) = .ok s2 ∧ Apart live own x d s s2 ∧
          ImageInv s2 d ((r + 4095) / 4096) ∧ (s2.pte d (pgroundup sz / 4096)).u = false) := by
  have round : (pgroundup sz + 4095) / 4096 = (sz + 4095) / 4096 := by
    simp only [pgroundup, PGSIZE, KERNBASE] at *
    omega
  have top' : pgroundup sz ≤ KERNBASE := by
    simp only [pgroundup, PGSIZE, KERNBASE] at *
    omega
  have plain : (pgroundup sz + 2 * PGSIZE) % 4294967296 = pgroundup sz + 2 * PGSIZE := by
    simp only [PGSIZE, KERNBASE] at *
    omega
  rw [← round] at image
  obtain ⟨r, s1, grow, apart1, grown, -⟩ := image.allocuvm hd inv top' (pgroundup sz + 2 * PGSIZE)
  rw [plain, grow]
  refine ⟨r, s1, rfl, apart1, fun nonzero => ?_⟩
  obtain ⟨-, -, exact', image1⟩ := grown nonzero
  obtain ⟨size, high⟩ := exact' (Nat.le_add_right _ _)
  have aligned : r - 2 * PGSIZE = pgroundup sz / 4096 * PGSIZE := by
    rw [size]
    simp only [pgroundup, PGSIZE]
    omega
  have inside : pgroundup sz / 4096 < (r + 4095) / 4096 := by
    rw [size]
    simp only [PGSIZE]
    omega
  have user : pgroundup sz / 4096 < NUPAGES := by
    simp only [KERNBASE, NUPAGES] at *
    omega
  obtain ⟨s2, guard, apart2, image2, closed, -⟩ := image1.clearpteu hd apart1.inv user inside
  rw [aligned]
  refine ⟨size, high, s2, guard, apart1.trans apart2, image2, ?_⟩
  rw [closed _ (Nat.lt_of_lt_of_le user pages_lt), if_pos rfl]

theorem buildImage_spec {d : Nat} (hd : d ∈ live) (inv : FrameInv live own x s) (elf : Elfhdr)
    (ip : List UInt8) (argv : List (List UInt8)) (empty : ImageInv s d 0) :
    ∃ r s', s.buildImage d elf ip argv = .ok (r, s') ∧ Apart live own x d s s' ∧
      ∀ image, r = some image → image.pgdir = d ∧ image.sz < KERNBASE ∧
        ImageInv s' d ((image.sz + 4095) / 4096) ∧ Guarded s' d image.sz := by
  have bad : ∀ (s' : Phys), Apart live own x d s s' →
      ∃ r s'', (Except.ok (none, s') : Except Panic (Option Image × Phys)) = .ok (r, s'') ∧
        Apart live own x d s s'' ∧ ∀ image, r = some image → image.pgdir = d ∧ image.sz < KERNBASE ∧
          ImageInv s'' d ((image.sz + 4095) / 4096) ∧ Guarded s'' d image.sz :=
    fun s' apart => ⟨none, s', rfl, apart, fun _ none => by cases none⟩
  obtain ⟨r, s1, load, apart1, loaded⟩ :=
    loadSegments_spec hd ip elf.phnum elf.phoff 0 s inv (Nat.zero_le _) empty
  rw [Phys.buildImage, load, ok_bind]
  cases r with
  | none => exact bad s1 apart1
  | some sz =>
    obtain ⟨top, image1⟩ := loaded sz rfl
    simp only
    obtain ⟨r, s2, stack, apart2, grown⟩ := image1.stack hd apart1.inv top
    rw [stack, ok_bind]
    simp only
    by_cases zero : r = 0
    · rw [if_pos zero]
      exact bad s2 (apart1.trans apart2)
    rw [if_neg zero]
    obtain ⟨size, high, s3, guard, apart3, image3, closed⟩ := grown zero
    rw [guard, ok_bind]
    have filled4 := pushArgs_spec hd argv r [] s3 apart3.inv image3
    have apart4 := (apart1.trans apart3).trans (Apart.of_filled filled4)
    rcases push : Phys.pushArgs d argv r [] s3 with ⟨_ | ⟨sp, args⟩, s4⟩
    · rw [push] at filled4 apart4
      exact bad s4 apart4
    rw [push] at filled4 apart4
    simp only
    generalize ([0xffffffff, args.length, (sp + 4294967296 - (args.length + 1) * 4) % 4294967296] ++
      args ++ [0]).flatMap word = block
    generalize (sp + 4294967296 - (3 + args.length + 1) * 4) % 4294967296 = sp'
    have filled5 : Filled live own x d s4 (s4.copyout d sp' block).2 :=
      copyoutLoop_spec hd _ _ _ s4 filled4.inv (filled4.image hd image3)
    have apart5 := apart4.trans (Apart.of_filled filled5)
    by_cases failed : (s4.copyout d sp' block).1 < 0
    · rw [if_pos failed]
      exact bad _ apart5
    · rw [if_neg failed]
      refine ⟨_, _, rfl, apart5, ?_⟩
      rintro image ⟨⟩
      refine ⟨rfl, high, filled5.image hd (filled4.image hd image3), pgroundup sz / 4096, ?_, ?_⟩
      · simp only
        rw [size]
        simp only [pgroundup, PGSIZE]
        omega
      · rw [filled5.pte d hd, filled4.pte d hd, closed]

inductive ExecOutcome (live own : Finset Nat) (x : Nat → Nat) (s : Phys) :
    Option Image → Phys → Prop where
  | built (image : Image) (s' : Phys) (fresh : image.pgdir ∉ live) (new : image.pgdir ∉ own)
      (inv : FrameInv (insert image.pgdir live) own x s') (size : image.sz < KERNBASE)
      (pages : ImageInv s' image.pgdir ((image.sz + 4095) / 4096))
      (guard : Guarded s' image.pgdir image.sz)
      (keeps : KeepsOff live (fun _ _ => False) s s') (tables : SameTables live s s') :
      ExecOutcome live own x s (some image) s'
  | bad (s' : Phys) (inv : FrameInv live own x s')
      (keeps : KeepsOff live (fun _ _ => False) s s') (tables : SameTables live s s') :
      ExecOutcome live own x s none s'

theorem execImage_spec (inv : FrameInv live own x s) (ip : List UInt8) (argv : List (List UInt8)) :
    ∃ r s', s.execImage ip argv = .ok (r, s') ∧ ExecOutcome live own x s r s' := by
  rw [Phys.execImage]
  simp only
  by_cases short : (readi ip 0 ELFHDR).1 ≠ (ELFHDR : Int)
  · rw [if_pos short]
    exact ⟨none, s, rfl, .bad s inv (KeepsOff.refl ..) (SameTables.refl _ _)⟩
  rw [if_neg short]
  generalize Elfhdr.decode (readi ip 0 ELFHDR).2 = elf
  by_cases magic : elf.magic ≠ ELF_MAGIC
  · rw [if_pos magic]
    exact ⟨none, s, rfl, .bad s inv (KeepsOff.refl ..) (SameTables.refl _ _)⟩
  rw [if_neg magic]
  obtain ⟨r, s1, setup, outcome⟩ := setupkvm_spec inv
  rw [setup, ok_bind]
  cases outcome with
  | failed _ inv1 keeps short _ tables => exact ⟨none, s1, rfl, .bad s1 inv1 keeps tables⟩
  | made d _ fresh new free inv1 empty kernel keeps calm _ tables =>
    have hd := Finset.mem_insert_self d live
    have blank : ImageInv s1 d 0 :=
      ⟨fun vp _ low => absurd low (Nat.not_lt_zero vp), fun vp hv _ => empty vp hv,
        fun vp hv _ => kernel vp hv⟩
    obtain ⟨r, s2, build, apart, result⟩ := buildImage_spec hd inv1 elf ip argv blank
    simp only
    rw [build, ok_bind]
    have others : KeepsOff live (fun _ _ => False) s s2 := by
      refine keeps.trans ((apart.keeps.subset (Finset.subset_insert d live)).mono ?_)
      intro d' hd' _ same
      exact fresh (same ▸ hd')
    have tables2 := apart.others
    rw [Finset.erase_insert fresh] at tables2
    cases r with
    | some image =>
      obtain ⟨rfl, size, pages, guard⟩ := result image rfl
      exact ⟨some image, s2, rfl, .built image s2 fresh new apart.inv size pages guard others
        (tables.trans tables2)⟩
    | none =>
      obtain ⟨s3, drop, inv3, keeps3, -, tables3⟩ := freevm_spec apart.inv hd
      rw [Finset.erase_insert fresh] at inv3 keeps3 tables3
      refine ⟨none, s3, ?_, .bad s3 inv3 (others.trans keeps3) ((tables.trans tables2).trans tables3)⟩
      simp only
      rw [drop, ok_bind]

/-- inituvm maps page 0 of an empty directory, unless memory is short; then it may go
    on without having mapped anything. -/
theorem inituvm_spec (inv : FrameInv live own x s) {d : Nat} (hd : d ∈ live)
    (empty : ∀ vp < NUPAGES, (s.pte d vp).p = false) {init : List UInt8} (fits : init.length < PGSIZE) :
    (∃ s', s.inituvm d init = .ok s' ∧ FrameInv live own x s' ∧
      KeepsOff live (fun d' vp => d' = d ∧ vp = 0) s s' ∧ s'.oom = s.oom ∧
      s.freelist.length ≤ s'.freelist.length + 1 + s.missing d) ∨
    s.freelist.length < 1 + s.missing d ∧ ∀ s', s.inituvm d init = .ok s' → s'.oom = true := by
  rw [Phys.inituvm, if_neg (Nat.not_le.mpr fits)]
  cases list : s.freelist with
  | nil =>
    rw [kalloc_nil list]
    exact Or.inr ⟨by simp only [List.length_nil]; omega, fun _ run => by cases run⟩
  | cons f next =>
    have taken := kalloc_page inv list (.bytes fun _ => 0)
    have zero : 0 < NUPAGES := by decide
    have start : 0 * PGSIZE = 0 := Nat.zero_mul _
    rw [kalloc_cons list]
    simp only
    rcases map_fresh inv hd zero (empty 0 zero) taken with ⟨map, few⟩ | ⟨s1, map, frame, outcome⟩
    · rw [start] at map
      rw [map, ok_bind]
      have tables := needsTable_le_missing s d (0 * PGSIZE)
      rw [list] at few
      refine Or.inr ⟨by omega, fun s' run => ?_⟩
      cases run
      rfl
    · rw [start] at map
      rw [map, ok_bind]
      cases outcome with
      | mapped _ f' inv1 entry content keeps memory calm balance =>
        have present : (s1.pte d 0).p = true := by rw [entry]
        have write : (s1.pte d 0).w = true := by rw [entry]
        obtain ⟨inv2, -, keeps2⟩ := inv1.write_user hd zero present write ((s1.page f).write 0 init)
        rw [frame] at inv2 keeps2
        rw [list] at balance
        refine Or.inl ⟨_, rfl, inv2, keeps.trans keeps2, calm, ?_⟩
        change _ ≤ s1.freelist.length + 1 + s.missing d
        omega

end
end Xv6
