import Xv6.Memory.Boot

/-!
kmap_extend of vm.c, which adds the pages of the firmware's tables to the kernel's page
table. Its sums are uints: the end of the range and the kernel address of the end may wrap
around, and then the test against DEVSPACE means nothing.
-/
namespace Xv6
open RefCount Phys

namespace Phys

def kmapExtendLoop (kpgdir last : Nat) : Nat → Nat → Phys → Int × Phys
  | 0, _, s => (0, s)
  | fuel + 1, a, s =>
    if a < last then
      match s.walkpgdir kpgdir ((KERNBASE + a) % 4294967296) true with
      | (none, s) => (-1, s)
      | (some (t, i), s) =>
        if (s.entry t i).p then kmapExtendLoop kpgdir last fuel (a + PGSIZE) s
        else kmapExtendLoop kpgdir last fuel (a + PGSIZE)
          (s.setEntry t i ⟨⟨true, false, false⟩, a / PGSIZE, true⟩)
    else (0, s)

/-- Map len bytes at pa in the kernel's page table; what is mapped already is left alone. -/
def kmap_extend (s : Phys) (kpgdir pa len : Nat) : Int × Phys :=
  let start := pgrounddown pa
  let last := pgroundup ((pa + len) % 4294967296)
  if last ≤ start ∨ (KERNBASE + last) % 4294967296 ≥ DEVSPACE then (-1, s)
  else kmapExtendLoop kpgdir last (last / PGSIZE + 1) start s

/-- The entry at kernel page n after it has been asked for. -/
def direct (s : Phys) (d n : Nat) : Pte :=
  if (s.pte d (NUPAGES + n)).p then s.pte d (NUPAGES + n) else ⟨⟨true, false, false⟩, n, true⟩

end Phys

section
variable [Layout] {live own : Finset Nat} {x : Nat → Nat} {s s' s'' : Phys}

/-- Pages lo to hi above KERNBASE may have been added to d. -/
structure Extended (live own : Finset Nat) (x : Nat → Nat) (d lo hi : Nat) (s s' : Phys) : Prop where
  inv : FrameInv live own x s'
  keeps : KeepsOff live (slots d (NUPAGES + lo) (hi - lo)) s s'
  present : ∀ vp < 1048576, (s.pte d vp).p = true → s'.pte d vp = s.pte d vp

namespace Extended
variable {d lo mid hi : Nat}

theorem refl (inv : FrameInv live own x s) (d lo hi : Nat) : Extended live own x d lo hi s s :=
  ⟨inv, KeepsOff.refl .., fun _ _ _ => rfl⟩

theorem trans (a : Extended live own x d lo mid s s') (b : Extended live own x d mid hi s' s'')
    (first : lo ≤ mid) (last : mid ≤ hi) : Extended live own x d lo hi s s'' := by
  refine ⟨b.inv, KeepsOff.trans (a.keeps.mono ?_) (b.keeps.mono ?_), fun vp hv there => ?_⟩
  · rintro d' - vp ⟨same, low, high⟩
    exact ⟨same, low, by omega⟩
  · rintro d' - vp ⟨same, low, high⟩
    exact ⟨same, by omega, by omega⟩
  · have before := a.present vp hv there
    rw [b.present vp hv (by rw [before]; exact there), before]

end Extended

theorem kmapExtendLoop_round {d last n : Nat} (hd : d ∈ live) (inv : FrameInv live own x s)
    (top : NUPAGES + n < 1048576) (more : n * PGSIZE < last) (fuel : Nat) :
    (Phys.kmapExtendLoop d last (fuel + 1) (n * PGSIZE) s = (-1, { s with oom := true }) ∧ s.freelist = []) ∨
    ∃ s1, Phys.kmapExtendLoop d last (fuel + 1) (n * PGSIZE) s =
        Phys.kmapExtendLoop d last fuel ((n + 1) * PGSIZE) s1 ∧
      Extended live own x d n (n + 1) s s1 ∧ s1.pte d (NUPAGES + n) = s.direct d n := by
  have address : (KERNBASE + n * PGSIZE) % 4294967296 = (NUPAGES + n) * PGSIZE := by
    simp only [KERNBASE, NUPAGES, PGSIZE] at *
    omega
  have next : n * PGSIZE + PGSIZE = (n + 1) * PGSIZE := by rw [Nat.add_mul, Nat.one_mul]
  have frame : n * PGSIZE / PGSIZE = n := Nat.mul_div_cancel n (by decide)
  rw [Phys.kmapExtendLoop, if_pos more, address, next, frame]
  rcases walk_alloc inv hd ((NUPAGES + n) * PGSIZE) with ⟨empty, -, walk⟩ | ⟨t, s1, walk, inv1, walked⟩
  · rw [walk]
    exact Or.inl ⟨rfl, empty⟩
  · rw [walk, ptx_page]
    have table := walked.table
    rw [pdx_page] at table
    have slot : s1.entry t ((NUPAGES + n) % 1024) = s.pte d (NUPAGES + n) := by
      rw [← pte_of_table table, walked.keeps.pte d hd _ top not_false]
    simp only [slot]
    refine Or.inr ?_
    cases here : (s.pte d (NUPAGES + n)).p with
    | true =>
      refine ⟨s1, if_pos rfl, ⟨inv1, walked.keeps.mono fun _ _ _ h => h.elim, fun vp hv _ => ?_⟩, ?_⟩
      · exact walked.keeps.pte d hd vp hv not_false
      · rw [Phys.direct, if_pos here, walked.keeps.pte d hd _ top not_false]
    | false =>
      have pte : ∀ vp < 1048576, (s1.setEntry t ((NUPAGES + n) % 1024) ⟨⟨true, false, false⟩, n, true⟩).pte d vp =
          if vp = NUPAGES + n then ⟨⟨true, false, false⟩, n, true⟩ else s.pte d vp := by
        intro vp hv
        rw [inv1.pte_set _ hd top table hd hv, walked.keeps.pte d hd vp hv not_false]
        simp
      refine ⟨_, if_neg Bool.false_ne_true, ⟨inv1.set_kernel _ hd (Nat.le_add_right _ _) top table, ?_, fun vp hv there => ?_⟩, ?_⟩
      · refine (walked.keeps.mono fun _ _ _ h => h.elim).trans ((inv1.set_keeps _ hd top table).mono ?_)
        rintro d' - vp ⟨rfl, rfl⟩
        exact ⟨rfl, Nat.le_refl _, by omega⟩
      · rw [pte vp hv, if_neg]
        rintro rfl
        rw [here] at there
        cases there
      · rw [pte _ top, if_pos rfl, Phys.direct, here]
        rfl

theorem kmapExtendLoop_spec {d hi : Nat} (hd : d ∈ live) (top : NUPAGES + hi ≤ 1048576) (fuel n : Nat) (low : n ≤ hi)
    (s : Phys) (inv : FrameInv live own x s) :
    Extended live own x d n hi s (Phys.kmapExtendLoop d (hi * PGSIZE) fuel (n * PGSIZE) s).2 ∧
      ((Phys.kmapExtendLoop d (hi * PGSIZE) fuel (n * PGSIZE) s).1 = 0 → hi ≤ n + fuel →
        ∀ j, n ≤ j → j < hi →
          (Phys.kmapExtendLoop d (hi * PGSIZE) fuel (n * PGSIZE) s).2.pte d (NUPAGES + j) = s.direct d j) := by
  induction fuel generalizing n s with
  | zero => exact ⟨Extended.refl inv d n hi, fun _ _ j _ _ => by omega⟩
  | succ fuel ih =>
    by_cases more : n < hi
    · have more' : n * PGSIZE < hi * PGSIZE := Nat.mul_lt_mul_of_pos_right more (by decide)
      rcases kmapExtendLoop_round hd inv (by omega) more' fuel with ⟨stop, -⟩ | ⟨s1, round, first, here⟩
      · rw [stop]
        exact ⟨⟨inv.oom true, inv.keeps_of_held _ fun _ _ => rfl, fun _ _ _ => rfl⟩, nofun⟩
      · rw [round]
        obtain ⟨rest, mapped⟩ := ih (n + 1) more s1 first.inv
        refine ⟨first.trans rest (Nat.le_succ n) more, fun zero enough j low' high => ?_⟩
        by_cases same : j = n
        · subst same
          rw [rest.keeps.pte d hd _ (by omega) (by rintro ⟨-, a, -⟩; omega), here]
        · rw [mapped zero (by omega) j (by omega) high]
          unfold Phys.direct
          rw [first.keeps.pte d hd _ (by omega) (by rintro ⟨-, -, b⟩; omega)]
    · have stop : ¬ n * PGSIZE < hi * PGSIZE := Nat.not_lt.mpr (Nat.mul_le_mul_right _ (Nat.not_lt.mp more))
      rw [Phys.kmapExtendLoop, if_neg stop]
      exact ⟨Extended.refl inv d n hi, fun _ _ j _ _ => by omega⟩

/-- The sums of kmap_extend that matter do not wrap: the end of the range, rounded up,
    stays below the size of the kernel's half, unless the call is refused anyway. -/
def Fits (pa len : Nat) : Prop :=
  pa + len < 4294967296 ∧ pgroundup (pa + len) < KERNBASE ∨
    pgroundup ((pa + len) % 4294967296) ≤ pgrounddown pa

theorem kmap_extend_spec {d pa len : Nat} (hd : d ∈ live) (inv : FrameInv live own x s) (uint : pa < 4294967296)
    (fits : Fits pa len) : (s.kmap_extend d pa len = (-1, s) ∨
      pa + len < 4294967296 ∧ KERNBASE + (pa + len) < DEVSPACE) ∧
    Extended live own x d 0 516096 s (s.kmap_extend d pa len).2 ∧
    ((s.kmap_extend d pa len).1 = 0 → ∀ n, n * PGSIZE < pa + len → pa < (n + 1) * PGSIZE →
      (s.kmap_extend d pa len).2.pte d (NUPAGES + n) = s.direct d n) := by
  unfold Phys.kmap_extend
  simp only
  by_cases refused : pgroundup ((pa + len) % 4294967296) ≤ pgrounddown pa ∨
      (KERNBASE + pgroundup ((pa + len) % 4294967296)) % 4294967296 ≥ DEVSPACE
  · rw [if_pos refused]
    exact ⟨Or.inl rfl, Extended.refl inv d _ _, nofun⟩
  rw [if_neg refused]
  rw [not_or, Nat.not_le, ge_iff_le, Nat.not_le] at refused
  obtain ⟨nonempty, inside⟩ := refused
  rcases fits with ⟨whole, small⟩ | empty
  · rw [Nat.mod_eq_of_lt whole] at nonempty inside ⊢
    have rounded : pgroundup (pa + len) = pgroundup (pa + len) / PGSIZE * PGSIZE := by
      simp only [pgroundup, PGSIZE]
      omega
    have start : pgrounddown pa = pa / PGSIZE * PGSIZE := rfl
    have bound : pa + len ≤ pgroundup (pa + len) ∧ KERNBASE + pgroundup (pa + len) < DEVSPACE := by
      simp only [pgroundup, pgrounddown, PGSIZE, KERNBASE, DEVSPACE] at *
      omega
    have top : pgroundup (pa + len) / PGSIZE ≤ 516096 := by
      simp only [PGSIZE, KERNBASE, DEVSPACE] at *
      omega
    have low : pa / PGSIZE ≤ pgroundup (pa + len) / PGSIZE := by
      simp only [pgroundup, pgrounddown, PGSIZE] at *
      omega
    obtain ⟨extended, mapped⟩ := kmapExtendLoop_spec hd (show NUPAGES + pgroundup (pa + len) / PGSIZE ≤ 1048576 by
      simp only [NUPAGES] at *; omega) (pgroundup (pa + len) / PGSIZE + 1) (pa / PGSIZE) low s inv
    rw [← rounded, ← start] at extended mapped
    refine ⟨Or.inr ⟨whole, by omega⟩, ?_, fun zero n below above => ?_⟩
    · refine ⟨extended.inv, extended.keeps.mono ?_, extended.present⟩
      rintro d' - vp ⟨same, a, b⟩
      have some := Nat.zero_le (pa / PGSIZE)
      exact ⟨same, by omega, by omega⟩
    · refine mapped zero (Nat.le_trans (Nat.le_succ _) (Nat.le_add_left _ _)) n ?_ ?_
      · simp only [PGSIZE] at *
        omega
      · simp only [pgroundup, PGSIZE] at *
        omega
  · omega

omit [Layout] in
theorem kmapExtendLoop_stop {d last fuel a : Nat} (done : last ≤ a) :
    Phys.kmapExtendLoop d last fuel a s = (0, s) := by
  cases fuel with
  | zero => rfl
  | succ fuel => rw [Phys.kmapExtendLoop, if_neg (Nat.not_lt.mpr done)]

theorem kmapExtendLoop_page {d last n : Nat} (hd : d ∈ live) (inv : FrameInv live own x s)
    (top : NUPAGES + n < 1048576) (more : n * PGSIZE < last) (one : last ≤ (n + 1) * PGSIZE) (fuel : Nat)
    (memory : 2 ≤ s.freelist.length) : ∃ s1, Phys.kmapExtendLoop d last (fuel + 1) (n * PGSIZE) s = (0, s1) := by
  rcases kmapExtendLoop_round hd inv top more fuel with ⟨-, empty⟩ | ⟨s1, loop, -⟩
  · rw [empty] at memory
    cases memory
  · exact ⟨s1, by rw [loop, kmapExtendLoop_stop one]⟩

/-- The sums wrap: a range at KERNBASE is mapped at address 0, and a range of almost
    4 GB counts as one page. -/
theorem kmap_extend_wrapped (inv : FrameInv live own x s) {d : Nat} (hd : d ∈ live) (memory : 2 ≤ s.freelist.length)
    (bare : (s.pte d 0).p = false) :
    (∃ s', s.kmap_extend d 0x80000000 4096 = (0, s') ∧ s'.pte d 0 = ⟨⟨true, false, false⟩, 524288, true⟩) ∧
      (s.kmap_extend d 0x1800 0xffffff00).1 = 0 := by
  constructor
  · have round : s.kmap_extend d 0x80000000 4096 = Phys.kmapExtendLoop d 2147487744 524290 2147483648 s := by
      simp [Phys.kmap_extend, pgroundup, pgrounddown, PGSIZE, KERNBASE, DEVSPACE]
    rw [round, Phys.kmapExtendLoop, if_pos (by decide)]
    have zero : (KERNBASE + 2147483648) % 4294967296 = 0 * PGSIZE := by decide
    rw [zero]
    rcases walk_alloc inv hd (0 * PGSIZE) with ⟨empty, -, walk⟩ | ⟨t, s1, walk, inv1, walked⟩
    · rw [empty] at memory
      cases memory
    · have table := walked.table
      rw [pdx_page] at table
      have absent : (s1.entry t (0 % 1024)).p = false := by
        rw [← pte_of_table table, walked.keeps.pte d hd 0 (by decide) not_false]
        exact bare
      rw [walk, ptx_page]
      simp only [absent, Bool.false_eq_true, ↓reduceIte]
      rw [kmapExtendLoop_stop (by decide)]
      refine ⟨_, rfl, ?_⟩
      have pte := inv1.pte_set ⟨⟨true, false, false⟩, 524288, true⟩ hd (show 0 < 1048576 by decide) table hd
        (show 0 < 1048576 by decide)
      rw [if_pos ⟨rfl, rfl⟩] at pte
      exact pte
  · have round : s.kmap_extend d 0x1800 0xffffff00 = Phys.kmapExtendLoop d 8192 3 (1 * PGSIZE) s := by
      simp [Phys.kmap_extend, pgroundup, pgrounddown, PGSIZE, KERNBASE, DEVSPACE]
    rw [round]
    obtain ⟨s1, loop⟩ := kmapExtendLoop_page hd inv (show NUPAGES + 1 < 1048576 by decide)
      (show 1 * PGSIZE < 8192 by decide) (by decide) 2 memory
    rw [loop]

end

end Xv6
