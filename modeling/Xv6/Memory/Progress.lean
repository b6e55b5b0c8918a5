import Xv6.Memory.Boot

/-!
A fault that the handler calls resolved lets the access through, except for user code at
a page without PTE_U. The stack guard page of exec is such a page: the handler looks
only at the write bits and returns 0 although the CPU goes on refusing the access.
-/
namespace Xv6
open Phys

section
variable [Layout]

/-- A user write to the guard page: the handler returns 0 and the write stays refused. -/
theorem guard_write_refused {live own : Finset Nat} {x : Nat → Nat} {s : Phys} (inv : FrameInv live own x s)
    {d : Nat} (sz : Nat) (hd : d ∈ live) (guard : (s.pte d 0).p = true ∧ (s.pte d 0).u = false)
    (memory : s.freelist ≠ []) : (s.pte d 0).permits true true = false ∧
      ∃ s', s.pagefault (some ⟨d, sz⟩) 0 ((s.pte d 0).faultCode true true) = .ok (0, s') ∧
        (s'.pte d 0).permits true true = false := by
  have shut : ∀ e : Pte, e.u = false → e.permits true true = false := by
    intro e closed
    simp [Pte.permits, closed]
  refine ⟨shut _ guard.2, ?_⟩
  obtain ⟨r, s', run, outcome⟩ := pagefault_spec inv sz ((s.pte d 0).faultCode true true) hd
    (show 0 < KERNBASE by decide)
  obtain ⟨-, same⟩ := outcome.user_bit guard.1
  have zero : r = 0 := by
    cases outcome with
    | beyond absent =>
      rw [Nat.zero_div, guard.1] at absent
      cases absent
    | lazy absent =>
      rw [Nat.zero_div, guard.1] at absent
      cases absent
    | cow _ _ _ _ _ done => cases done with
      | inPlace => rfl
      | copied => rfl
      | failed _ none => exact (memory none).elim
    | writable => rfl
    | refused _ read => cases read
  subst zero
  exact ⟨s', run, shut _ (same.trans guard.2)⟩

theorem lazy_write_resolved {m : Mem} {t : Tenant} (inv : MemInv m) (used : m.slot 0 = some t)
    (size : t.space.sz = 12288) (absent : (m.phys.pte t.space.pgdir 2).p = false) (small : m.Small {0} 3)
    (frames : ‹Layout›.kend + 4000 ≤ NFRAMES) :
    ∃ s', m.phys.pagefault (some t.space) 8192 ⟨false, true, true⟩ = .ok (0, s') := by
  have room := small.room inv
  rw [Finset.card_singleton] at room
  obtain ⟨r, s', run, outcome⟩ := pagefault_spec inv.frames t.space.sz ⟨false, true, true⟩ (inv.tidy.dir_mem used)
    (show 8192 < KERNBASE by decide)
  have zero : r = 0 := by
    cases outcome with
    | beyond _ above => omega
    | lazy _ _ _ _ done => cases done with
      | mapped => rfl
      | failed _ _ memory =>
        have := needsTable_le_missing m.phys t.space.pgdir (8192 / 4096 * PGSIZE)
        have := missing_le m.phys t.space.pgdir
        omega
    | cow present =>
      rw [absent] at present
      cases present
    | writable => rfl
    | refused _ read => cases read
  subst zero
  exact ⟨s', run⟩

end

end Xv6
