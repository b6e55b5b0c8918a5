import Xv6.Lib.RefCount
import Xv6.Memory.FlatView

/-!
Frame accounting. `live` is the set of page directories in use, `own` the frames
the kernel holds for itself, and `x` the references a computation in progress has
taken or not yet given back. At rest x is zero. One lemma covers every store to a
user entry: what leaves the slot goes to x or to own, what enters comes from them.
-/
namespace Xv6
open RefCount

namespace Phys

/-- Present user entries of the live directories that map f. -/
def userRefs (s : Phys) (live : Finset Nat) (f : Nat) : Nat :=
  refsTo live (Finset.range NUPAGES) s.userTarget f

def tableRefs (s : Phys) (live : Finset Nat) (f : Nat) : Nat :=
  refsTo live (Finset.range NPDENTRIES) s.tableTarget f

/-- How often the kernel itself holds f: as page table, as directory, or otherwise. -/
def kernelRefs (s : Phys) (live own : Finset Nat) (f : Nat) : Nat :=
  s.tableRefs live f + (if f ∈ live then 1 else 0) + (if f ∈ own then 1 else 0)

end Phys

def bump (x : Nat → Nat) (f : Nat) : Nat → Nat := fun g => x g + if g = f then 1 else 0

open Phys

structure FrameInv [Layout] (live own : Finset Nat) (x : Nat → Nat) (s : Phys) : Prop where
  refs : ∀ f, s.ref f = s.userRefs live f + s.kernelRefs live own f + x f
  kernel : ∀ f, 0 < s.kernelRefs live own f → s.ref f = 1
  flags : ∀ d ∈ live, ∀ vp < NUPAGES, (s.pte d vp).p = true →
    (s.pte d vp).w = !(s.pte d vp).cow
  writable : ∀ d ∈ live, ∀ vp < NUPAGES, (s.pte d vp).p = true → (s.pte d vp).w = true →
    s.ref (s.pte d vp).frame = 1
  samePage : ∀ f, ∀ d ∈ live, ∀ d' ∈ live, ∀ vp < NUPAGES, ∀ vp' < NUPAGES,
    s.userTarget d vp = some f → s.userTarget d' vp' = some f → vp = vp'
  managed : ∀ f, s.ref f ≠ 0 → Managed f
  free : ∀ f, f ∈ s.freelist ↔ Managed f ∧ s.ref f = 0
  nodup : s.freelist.Nodup

theorem pages_lt : NUPAGES ≤ 1048576 := by decide

section
variable [Layout] {live own : Finset Nat} {x : Nat → Nat} {s : Phys}

namespace FrameInv

theorem kernel_exclusive (inv : FrameInv live own x s) {f : Nat}
    (held : 0 < s.kernelRefs live own f) :
    s.userRefs live f = 0 ∧ s.kernelRefs live own f = 1 ∧ x f = 0 := by
  have one := inv.kernel f held
  have sum := inv.refs f
  omega

theorem user_not_kernel (inv : FrameInv live own x s) {d vp f : Nat} (hd : d ∈ live)
    (hv : vp < NUPAGES) (h : s.userTarget d vp = some f) : s.kernelRefs live own f = 0 := by
  have mapped : 0 < s.userRefs live f := refs_pos hd (Finset.mem_range.mpr hv) h
  by_contra held
  have := inv.kernel_exclusive (Nat.pos_of_ne_zero held)
  omega

theorem fresh (inv : FrameInv live own x s) {f : Nat} (h : f ∈ s.freelist) :
    s.userRefs live f = 0 ∧ s.kernelRefs live own f = 0 ∧ x f = 0 := by
  have zero := ((inv.free f).mp h).2
  have sum := inv.refs f
  omega

theorem table_held (_inv : FrameInv live own x s) {d i t : Nat} (hd : d ∈ live)
    (hi : i < NPDENTRIES) (h : s.tableTarget d i = some t) : 0 < s.tableRefs live t :=
  refs_pos hd (Finset.mem_range.mpr hi) h

theorem table_unique (inv : FrameInv live own x s) {d d' i i' t : Nat} (hd : d ∈ live)
    (hd' : d' ∈ live) (hi : i < NPDENTRIES) (hi' : i' < NPDENTRIES)
    (h : s.tableTarget d i = some t) (h' : s.tableTarget d' i' = some t) : d = d' ∧ i = i' := by
  have held := inv.table_held hd hi h
  have one := inv.kernel_exclusive (f := t) (by unfold kernelRefs; omega)
  refine refs_unique ?_ hd hd' (Finset.mem_range.mpr hi) (Finset.mem_range.mpr hi') h h'
  have := one.2.1
  unfold kernelRefs tableRefs at this
  omega

theorem table_not_live (inv : FrameInv live own x s) {d i t : Nat} (hd : d ∈ live)
    (hi : i < NPDENTRIES) (h : s.tableTarget d i = some t) : t ∉ live := by
  intro member
  have held := inv.table_held hd hi h
  have one := inv.kernel_exclusive (f := t) (by unfold kernelRefs; omega)
  have := one.2.1
  simp only [kernelRefs, member, ↓reduceIte] at this
  omega

omit [Layout] in
theorem kernelRefs_zero {f : Nat} (h : s.kernelRefs live own f = 0) :
    s.tableRefs live f = 0 ∧ f ∉ live ∧ f ∉ own := by
  unfold kernelRefs at h
  refine ⟨by omega, ?_, ?_⟩
  · intro member
    simp [member] at h
  · intro member
    simp [member] at h

omit [Layout] in
theorem not_table_of_zero {f d i : Nat} (h : s.tableRefs live f = 0) (hd : d ∈ live)
    (hi : i < NPDENTRIES) : s.tableTarget d i ≠ some f :=
  refs_eq_zero.mp h d hd i (Finset.mem_range.mpr hi)

theorem pte_set (inv : FrameInv live own x s) {d vp t : Nat} (e : Pte) (hd : d ∈ live)
    (hv : vp < 1048576) (ht : s.tableTarget d (vp / 1024 % 1024) = some t) {d' vp' : Nat}
    (hd' : d' ∈ live) (hv' : vp' < 1048576) :
    (s.setEntry t (vp % 1024) e).pte d' vp' = if d' = d ∧ vp' = vp then e else s.pte d' vp' := by
  have index : ∀ n, n / 1024 % 1024 < NPDENTRIES := fun n => Nat.mod_lt _ (by decide)
  have dir : t ≠ d' := fun same => inv.table_not_live hd (index vp) ht (same ▸ hd')
  rw [pte_setEntry e ht dir]
  · by_cases here : d' = d ∧ vp' = vp
    · obtain ⟨rfl, rfl⟩ := here
      simp
    · have away : ¬ (d' = d ∧ vp' / 1024 % 1024 = vp / 1024 % 1024 ∧ vp' % 1024 = vp % 1024) := by
        rintro ⟨same, hi, lo⟩
        exact here ⟨same, by omega⟩
      simp [here, away]
  · intro h
    exact inv.table_unique hd' hd (index vp') (index vp) h ht

theorem tableTarget_set (inv : FrameInv live own x s) {d i t : Nat} (j : Nat) (e : Pte)
    (hd : d ∈ live) (hi : i < NPDENTRIES) (ht : s.tableTarget d i = some t) {d' : Nat}
    (hd' : d' ∈ live) (k : Nat) : (s.setEntry t j e).tableTarget d' k = s.tableTarget d' k := by
  refine tableTarget_congr (setEntry_page_ne s j e ?_) k
  rintro rfl
  exact inv.table_not_live hd hi ht hd'

/-- The invariant reads only the flat map, the directories, the counts and the list. -/
theorem transfer (inv : FrameInv live own x s) {s' : Phys}
    (pte : ∀ d ∈ live, ∀ vp < NUPAGES, s'.pte d vp = s.pte d vp)
    (tab : ∀ d ∈ live, ∀ i < NPDENTRIES, s'.tableTarget d i = s.tableTarget d i)
    (ref : s'.ref = s.ref) (list : s'.freelist = s.freelist) : FrameInv live own x s' := by
  have user : ∀ f, s'.userRefs live f = s.userRefs live f := fun f => refs_congr
    (fun d hd vp hv => by simp [userTarget, pte d hd vp (Finset.mem_range.mp hv)]) f
  have kern : ∀ f, s'.kernelRefs live own f = s.kernelRefs live own f := by
    intro f
    have : s'.tableRefs live f = s.tableRefs live f := refs_congr
      (fun d hd i hi => tab d hd i (Finset.mem_range.mp hi)) f
    simp only [kernelRefs, this]
  constructor
  · intro f
    rw [ref, user, kern]
    exact inv.refs f
  · intro f held
    rw [ref]
    exact inv.kernel f (kern f ▸ held)
  · intro d hd vp hv
    rw [pte d hd vp hv]
    exact inv.flags d hd vp hv
  · intro d hd vp hv
    rw [pte d hd vp hv, ref]
    exact inv.writable d hd vp hv
  · intro f d hd d' hd' vp hv vp' hv'
    simp only [userTarget, pte d hd vp hv, pte d' hd' vp' hv']
    exact inv.samePage f d hd d' hd' vp hv vp' hv'
  · rw [ref]
    exact inv.managed
  · rw [ref, list]
    exact inv.free
  · rw [list]
    exact inv.nodup

theorem setPage (inv : FrameInv live own x s) {f : Nat} (pg : Page) (dir : f ∉ live)
    (tab : s.tableRefs live f = 0) : FrameInv live own x (s.setPage f pg) := by
  have page : ∀ g, g ≠ f → (s.setPage f pg).page g = s.page g := fun g ne => by simp [ne]
  have away : ∀ d ∈ live, d ≠ f := fun d hd same => dir (same ▸ hd)
  refine inv.transfer ?_ ?_ rfl rfl
  · intro d hd vp _
    refine pte_congr (page d (away d hd)) fun t ht => page t ?_
    rintro rfl
    exact not_table_of_zero tab hd (Nat.mod_lt _ (by decide)) ht
  · intro d hd i _
    exact tableTarget_congr (page d (away d hd)) i

end FrameInv
end
end Xv6
