import Xv6.Memory.Boot

/-!
Frame accounting over every sequence of completed calls: a frame's counter is the number
of user entries that map it, plus one if the kernel holds it.
-/
namespace Xv6
open RefCount Phys

section
variable [Layout] {m : Mem}

/-- f is a page directory, a page table, a kernel stack, a pipe or a processor's stack. -/
def Mem.KernelOwned (m : Mem) (f : Nat) : Prop :=
  f ∈ m.dirs ∨ (∃ d ∈ m.dirs, ∃ i < NPDENTRIES, m.phys.tableTarget d i = some f) ∨ f ∈ m.own

namespace MemInv

theorem kernelOwned_iff (inv : MemInv m) (f : Nat) :
    (m.KernelOwned f → m.phys.kernelRefs m.dirs m.own f = 1) ∧
      (¬ m.KernelOwned f → m.phys.kernelRefs m.dirs m.own f = 0) := by
  constructor
  · intro owned
    refine (inv.frames.kernel_exclusive ?_).2.1
    unfold kernelRefs
    rcases owned with dir | ⟨d, hd, i, hi, table⟩ | page
    · simp [dir]
    · have := inv.frames.table_held hd hi table
      omega
    · simp [page]
  · intro free
    simp only [Mem.KernelOwned, not_or] at free
    obtain ⟨dir, table, page⟩ := free
    have none : m.phys.tableRefs m.dirs f = 0 := by
      refine refs_eq_zero.mpr fun d hd i hi mapped => table ⟨d, hd, i, Finset.mem_range.mp hi, mapped⟩
    simp [kernelRefs, none, dir, page]

theorem userRefs_le (inv : MemInv m) (f : Nat) : m.phys.userRefs m.dirs f ≤ NPROC := by
  have bare : m.phys.userRefs (m.dirs.erase m.kpgdir) f = m.phys.userRefs m.dirs f :=
    refs_erase_empty (fun vp hv => target_none.mpr (inv.bare (Finset.mem_range.mp hv))) f
  have card : (m.dirs.erase m.kpgdir).card ≤ NPROC := by
    have sub : m.dirs.erase m.kpgdir ⊆
        ((List.range NPROC).filterMap fun i => (m.slot i).map fun t => t.space.pgdir).toFinset :=
      Finset.erase_insert_subset _ _
    refine (Finset.card_le_card sub).trans ((List.toFinset_card_le _).trans ((List.length_filterMap_le _ _).trans ?_))
    simp
  rw [← bare]
  refine (refs_le_card fun d hd vp hv vp' hv' h h' => ?_).trans card
  have hd' := Finset.mem_of_mem_erase hd
  exact inv.frames.samePage f d hd' d hd' vp (Finset.mem_range.mp hv) vp' (Finset.mem_range.mp hv') h h'

end MemInv

/-- In every memory that completed calls lead to, failed ones included: the counters are
    exact, the free list holds exactly the frames without references, once each, a writable
    user page is not copy-on-write and belongs to one process, no counter exceeds NPROC,
    and no call reaches the panics of incref and kfree. -/
theorem frame_accounting (m : Mem) (reach : m.Reachable) :
    (∀ f, (m.KernelOwned f → m.phys.ref f = m.phys.userRefs m.dirs f + 1) ∧
      (¬ m.KernelOwned f → m.phys.ref f = m.phys.userRefs m.dirs f)) ∧
    (∀ f, Phys.Managed f → m.phys.freelist.count f = if m.phys.ref f = 0 then 1 else 0) ∧
    (∀ d ∈ m.dirs, ∀ vp < NUPAGES, (m.phys.pte d vp).p = true → (m.phys.pte d vp).w = true →
      (m.phys.pte d vp).cow = false ∧ m.phys.ref (m.phys.pte d vp).frame = 1) ∧
    (∀ f, m.phys.ref f ≤ NPROC) ∧
    ∀ op, m.step op ≠ .error .increfPageIsFree ∧ m.step op ≠ .error .kfreeNoReferences := by
  have inv := reach.inv
  refine ⟨?_, ?_, ?_, ?_, ?_⟩
  · intro f
    have sum := inv.frames.refs f
    obtain ⟨owned, free⟩ := inv.kernelOwned_iff f
    constructor
    · intro kernel
      rw [sum, owned kernel]
    · intro user
      rw [sum, free user, Nat.add_zero]
  · intro f managed
    split
    · rename_i zero
      exact List.count_eq_one_of_mem inv.frames.nodup ((inv.frames.free f).mpr ⟨managed, zero⟩)
    · rename_i held
      exact List.count_eq_zero.mpr fun member => held ((inv.frames.free f).mp member).2
  · intro d hd vp hv present write
    refine ⟨?_, inv.frames.writable d hd vp hv present write⟩
    have flags := inv.frames.flags d hd vp hv present
    rw [write] at flags
    exact (Bool.not_eq_true' _).mp flags.symm
  · intro f
    have sum := inv.frames.refs f
    by_cases held : 0 < m.phys.kernelRefs m.dirs m.own f
    · rw [inv.frames.kernel f held]
      decide
    · have := inv.userRefs_le f
      omega
  · intro op
    rcases inv.step op with ⟨m', run, -⟩ | fault | first
    · rw [run]
      exact ⟨nofun, nofun⟩
    · rw [fault]
      exact ⟨nofun, nofun⟩
    · rw [first]
      exact ⟨nofun, nofun⟩

end

/-- init and its child share their pages copy-on-write. -/
theorem frame_accounting_forked : ∃ _ : Layout, ∃ (m : Mem) (t : Tenant), m.Reachable ∧ m.slot 0 = some t ∧
    (m.phys.pte t.space.pgdir 0).cow = true ∧ ∀ f, m.phys.ref f ≤ NPROC := by
  let _ := Layout.small
  obtain ⟨m, t, np, c, forked⟩ := Mem.forked_exists (by decide)
  exact ⟨Layout.small, m, t, forked.reach, forked.used, (forked.guard _ (Or.inl rfl)).2.1,
    (frame_accounting m forked.reach).2.2.2.1⟩

end Xv6
