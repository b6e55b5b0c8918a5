import Xv6.Memory.Boot

/-!
sys_sbrk and what it returns. growproc cannot tell a new break of 0 from a failure of
deallocuvm, and a break that would be negative wraps around and is not moved at all.
-/
namespace Xv6
open Phys

section
variable [Layout] {m : Mem} {t : Tenant} {n : Int}

namespace Mem

def growproc (m : Mem) (t : Tenant) (n : Int) : Except Panic (Int × Mem) :=
  if n > 0 then do
    let (sz, s) ← m.phys.allocuvm t.space.pgdir t.space.sz (moved t.space.sz n)
    if sz = 0 then .ok (-1, { m with phys := s })
    else .ok (0, { m with phys := s }.setSize t.space.pgdir sz)
  else if n < 0 then do
    let (sz, s) ← m.phys.deallocuvm t.space.pgdir t.space.sz (moved t.space.sz n)
    if sz = 0 then .ok (-1, { m with phys := s })
    else .ok (0, { m with phys := s }.setSize t.space.pgdir sz)
  else .ok (0, m.setSize t.space.pgdir t.space.sz)

def sys_sbrk (m : Mem) (t : Tenant) (n : Int) : Except Panic (Int × Mem) :=
  if n < 0 then do
    let (r, m) ← m.growproc t n
    .ok (if r < 0 then -1 else t.space.sz, m)
  else if moved t.space.sz n ≥ KERNBASE ∨ moved t.space.sz n < t.space.sz then .ok (-1, m)
  else .ok (t.space.sz, m.setSize t.space.pgdir (moved t.space.sz n))

/-- When the call returns -1; deallocuvm returns the smaller of the two sizes. -/
def Refused (sz : Nat) (n : Int) : Prop :=
  n < 0 ∧ min (moved sz n) sz = 0 ∨ 0 ≤ n ∧ (KERNBASE ≤ moved sz n ∨ moved sz n < sz)

theorem deallocuvm_size {s s' : Phys} {d oldsz newsz sz : Nat}
    (run : s.deallocuvm d oldsz newsz = .ok (sz, s')) : sz = min newsz oldsz := by
  unfold Phys.deallocuvm at run
  split at run
  · cases run
    omega
  · obtain ⟨s1, -, rest⟩ := bind_eq_ok run
    cases rest
    omega

theorem sys_sbrk_of_sbrk {m' : Mem} (run : m.sbrk t n = .ok m') :
    ∃ r, m.sys_sbrk t n = .ok (r, m') ∧ (Refused t.space.sz n → r = -1) ∧
      (¬ Refused t.space.sz n → r = t.space.sz) := by
  unfold sbrk at run
  unfold sys_sbrk Refused
  by_cases down : n < 0
  · rw [if_pos down] at run ⊢
    obtain ⟨⟨sz, s⟩, dealloc, rest⟩ := bind_eq_ok run
    have size := deallocuvm_size dealloc
    rw [growproc, if_neg (by omega), if_pos down, dealloc]
    dsimp only at rest
    by_cases zero : sz = 0
    · rw [if_pos zero] at rest
      cases rest
      refine ⟨-1, ?_, fun _ => rfl, fun not => absurd (Or.inl ⟨down, size ▸ zero⟩) not⟩
      simp only [ok_bind, if_pos zero]
      rfl
    · rw [if_neg zero] at rest
      cases rest
      refine ⟨t.space.sz, ?_, fun refused => ?_, fun _ => rfl⟩
      · simp only [ok_bind, if_neg zero]
        rfl
      · rcases refused with ⟨-, low⟩ | ⟨up, -⟩
        · exact absurd (size.trans low) zero
        · omega
  · rw [if_neg down] at run ⊢
    by_cases out : moved t.space.sz n ≥ KERNBASE ∨ moved t.space.sz n < t.space.sz
    · rw [if_pos out] at run ⊢
      cases run
      exact ⟨-1, rfl, fun _ => rfl, fun not => absurd (Or.inr ⟨Int.not_lt.mp down, out⟩) not⟩
    · rw [if_neg out] at run ⊢
      cases run
      refine ⟨t.space.sz, rfl, fun refused => ?_, fun _ => rfl⟩
      rcases refused with ⟨low, -⟩ | ⟨-, high⟩
      · exact absurd low down
      · exact absurd high out

/-- The break of t has moved to sz: nothing below the old and the new break reads
    differently and no page is left above the new one. -/
structure Moved (m : Mem) (p : Nat) (t : Tenant) (sz : Nat) (m' : Mem) : Prop where
  small : sz < KERNBASE
  slot : m'.slot p = some { t with space := ⟨t.space.pgdir, sz⟩ }
  others : ∀ i, i ≠ p → m'.slot i = m.slot i
  content : ∀ vp, vp * PGSIZE < min (pgroundup t.space.sz) (pgroundup sz) →
    m'.phys.content t.space.pgdir vp = m.phys.content t.space.pgdir vp
  above : ∀ vp < NUPAGES, pgroundup sz ≤ vp * PGSIZE → (m'.phys.pte t.space.pgdir vp).p = false

omit [Layout] in
theorem setSize_single (tidy : m.Tidy) {p : Nat} (sz : Nat) (used : m.slot p = some t)
    (single : m.pgdirUsers t.space.pgdir ≤ 1) :
    (m.setSize t.space.pgdir sz).slot p = some { t with space := ⟨t.space.pgdir, sz⟩ } ∧
      ∀ i, i ≠ p → (m.setSize t.space.pgdir sz).slot i = m.slot i := by
  refine ⟨(Tidy.setSize_slot _ _ _ _ _).mpr ⟨t, used, if_pos rfl⟩, fun i ne => ?_⟩
  cases other : m.slot i with
  | none => simp [setSize, other]
  | some u =>
    have apart : u.space.pgdir ≠ t.space.pgdir := fun same => ne (tidy.alone used other same single)
    simp [setSize, other, apart]

theorem above_break {m' : Mem} (inv : MemInv m') {p d sz : Nat}
    (used : m'.slot p = some { t with space := ⟨d, sz⟩ }) :
    ∀ vp < NUPAGES, pgroundup sz ≤ vp * PGSIZE → (m'.phys.pte d vp).p = false := by
  intro vp hv above
  refine inv.trim used hv ?_
  have small := inv.tidy.small p _ used
  simp only [pgroundup, PGSIZE, KERNBASE] at *
  omega

omit [Layout] in
theorem setSize_self (tidy : m.Tidy) {p : Nat} (used : m.slot p = some t) :
    m.setSize t.space.pgdir t.space.sz = m := by
  have slots : (m.setSize t.space.pgdir t.space.sz).slot = m.slot := by
    funext i
    cases other : m.slot i with
    | none => simp [setSize, other]
    | some u =>
      by_cases same : u.space.pgdir = t.space.pgdir
      · rw [← tidy.sizes i u p t other used same]
        simp [setSize, other]
      · simp [setSize, other, same]
  change { m with slot := (m.setSize t.space.pgdir t.space.sz).slot } = m
  rw [slots]

theorem Moved.grown (inv : MemInv m) {p sz : Nat} (used : m.slot p = some t)
    (single : m.pgdirUsers t.space.pgdir ≤ 1) (small : sz < KERNBASE)
    (inv' : MemInv (m.setSize t.space.pgdir sz)) : Moved m p t sz (m.setSize t.space.pgdir sz) := by
  obtain ⟨slot, others⟩ := setSize_single inv.tidy sz used single
  exact ⟨small, slot, others, fun _ _ => rfl, above_break inv' slot⟩

end Mem

open Mem

/-- init, with a guard page and a stack, gives back everything: the call fails, but the
    pages are gone. One byte more, and the call succeeds without any effect. -/
theorem sbrk_all {m : Mem} {t : Tenant} (loaded : Mem.Loaded m t) :
    (∃ m', m.sys_sbrk t (-8192) = .ok (-1, m') ∧ m'.slot 0 = some t ∧
      (m'.phys.pte t.space.pgdir 1).p = false) ∧ m.sys_sbrk t (-8193) = .ok (8192, m) := by
  have inv := loaded.reach.inv
  have hd := inv.tidy.dir_mem loaded.used
  have small := inv.tidy.small 0 t loaded.used
  have size := loaded.size
  constructor
  · obtain ⟨s', run, -, -, -, -, clear⟩ :=
      deallocuvm_spec inv.frames hd (Nat.le_of_lt small) (show 0 < t.space.sz by omega)
    have zero : moved t.space.sz (-8192) = 0 := by rw [size]; decide
    refine ⟨{ m with phys := s' }, ?_, loaded.used, target_none.mp (clear 1 (by decide) (by omega))⟩
    rw [sys_sbrk, if_pos (by decide), growproc, if_neg (by decide), if_pos (by decide), zero, run]
    rfl
  · have high : moved t.space.sz (-8193) = 4294967295 := by rw [size]; decide
    have same : m.phys.deallocuvm t.space.pgdir t.space.sz (moved t.space.sz (-8193)) = .ok (t.space.sz, m.phys) := by
      rw [Phys.deallocuvm, if_pos (by omega)]
    rw [sys_sbrk, if_pos (by decide), growproc, if_neg (by decide), if_pos (by decide), same]
    simp only [ok_bind, if_neg (show ¬ t.space.sz = 0 by omega)]
    rw [setSize_self inv.tidy loaded.used, size]
    rfl

end

end Xv6
