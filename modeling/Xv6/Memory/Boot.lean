import Xv6.Memory.Steps
import Mathlib.Order.Interval.Finset.Nat
import Mathlib.Tactic.Ring

/-!
The memory main leaves to the first process, and the runs that start from it.
-/
namespace Xv6
open RefCount Phys

section
variable [Layout]

namespace Mem

theorem Empty.frames {s : Phys} (empty : Empty s) : FrameInv ∅ ∅ (fun _ => 0) s := by
  have none : ∀ f, s.userRefs ∅ f = 0 ∧ s.kernelRefs ∅ ∅ f = 0 := by
    intro f
    simp [userRefs, kernelRefs, tableRefs, refsTo]
  refine ⟨?_, ?_, ?_, ?_, ?_, ?_, ?_, empty.nodup⟩
  · intro f
    rw [empty.ref, (none f).1, (none f).2]
  · intro f held
    rw [(none f).2] at held
    cases held
  · intro d hd
    cases hd
  · intro d hd
    cases hd
  · intro f d hd
    cases hd
  · intro f held
    exact (held (empty.ref f)).elim
  · intro f
    rw [empty.free, empty.ref]
    simp

structure Started (live own : Finset Nat) (s : Phys) (fs : Finset Nat) (s' : Phys) : Prop where
  frames : FrameInv live (fs ∪ own) (fun _ => 0) s'
  keeps : KeepsOff live (fun _ _ => False) s s'
  calm : s'.oom = s.oom

theorem startothers_spec {live own : Finset Nat} (n : Nat) (s : Phys) (inv : FrameInv live own (fun _ => 0) s)
    {fs : Finset Nat} {s' : Phys} (run : startothers n s = (some fs, s')) : Started live own s fs s' := by
  induction n generalizing s own fs with
  | zero =>
    cases run
    exact ⟨by rw [Finset.empty_union]; exact inv, KeepsOff.refl .., rfl⟩
  | succ n ih =>
    rw [startothers] at run
    cases list : s.freelist with
    | nil =>
      rw [kalloc_nil list] at run
      cases run
    | cons f next =>
      rw [kalloc_cons list] at run
      simp only at run
      rcases rest : startothers n (s.pop f next) with ⟨_ | gs, s1⟩
      · rw [rest] at run
        cases run
      · rw [rest] at run
        cases run
        have first : KeepsOff live (fun _ _ => False) s (s.pop f next) := inv.keeps_of_held _ fun _ _ => rfl
        obtain ⟨frames, keeps, calm⟩ := ih (s.pop f next) (inv.kalloc list) rest
        refine ⟨?_, first.trans keeps, calm⟩
        rw [Finset.insert_union, ← Finset.union_insert]
        exact frames

omit [Layout] in
theorem first_slot {s : Phys} {k d kstack : Nat} {fs : Finset Nat} {i : Nat} {t : Tenant}
    (used : (first s k d kstack fs).slot i = some t) : i = 0 ∧ t = ⟨⟨d, PGSIZE⟩, kstack, none, false, false⟩ := by
  simp only [first] at used
  split at used
  · rename_i zero
    exact ⟨zero, (Option.some.inj used).symm⟩
  · cases used

omit [Layout] in
theorem first_tidy {k d kstack : Nat} {fs : Finset Nat} (s : Phys) (apart : d ≠ k) (new : kstack ∉ fs) :
    (first s k d kstack fs).Tidy := by
  constructor
  · intro i t used
    rw [(first_slot used).1]
    decide
  · exact ⟨_, rfl, rfl, rfl⟩
  · intro i t used
    rw [(first_slot used).2]
    change PGSIZE < KERNBASE
    decide
  · intro i t used
    rw [(first_slot used).2]
    exact apart
  · intro i t j u one two _
    rw [(first_slot one).2, (first_slot two).2]
  · intro i t j u one two _
    rw [(first_slot one).1, (first_slot two).1]
  · intro i t used
    rw [(first_slot used).2]
    exact ⟨Finset.notMem_empty _, new⟩
  · intro f member
    cases member
  · intro i t p used kin
    rw [(first_slot used).2] at kin
    cases kin

omit [Layout] in
theorem first_dirs {k d kstack : Nat} {fs : Finset Nat} (s : Phys) (apart : d ≠ k) (new : kstack ∉ fs) :
    (first s k d kstack fs).dirs = {d, k} ∧ (first s k d kstack fs).own = insert kstack fs := by
  have tidy := first_tidy s apart new
  constructor
  · ext e
    rw [tidy.mem_dirs]
    constructor
    · rintro (rfl | ⟨i, t, used, rfl⟩)
      · simp
      · rw [(first_slot used).2]
        simp
    · intro member
      rcases Finset.mem_insert.mp member with rfl | old
      · exact Or.inr ⟨0, _, rfl, rfl⟩
      · exact Or.inl (Finset.mem_singleton.mp old)
  · ext f
    rw [tidy.mem_own]
    constructor
    · rintro (ap | none | ⟨i, t, used, rfl⟩)
      · exact Finset.mem_insert_of_mem ap
      · cases none
      · rw [(first_slot used).2]
        simp
    · intro member
      rcases Finset.mem_insert.mp member with rfl | ap
      · exact Or.inr (Or.inr ⟨0, _, rfl, rfl⟩)
      · exact Or.inl ap

theorem Start.inv {m : Mem} (start : Start m) : MemInv m := by
  obtain ⟨s, naps, initcode, empty, run, calm⟩ := start
  unfold main at run
  obtain ⟨r1, s1, run1, out1⟩ := setupkvm_spec empty.frames
  rw [run1, ok_bind] at run
  cases out1 with
  | failed => cases run
  | made k _ fresh1 new1 free1 frames1 empty1 kernel1 keeps1 calm1 =>
    simp only at run
    rcases aps : startothers naps s1 with ⟨_ | fs, s2⟩
    · rw [aps] at run
      cases run
    rw [aps] at run
    simp only at run
    obtain ⟨frames2, keeps2, calm2⟩ := startothers_spec naps s1 frames1 aps
    rw [Finset.union_empty] at frames2
    cases list : s2.freelist with
    | nil =>
      rw [kalloc_nil list] at run
      cases run
    | cons kstack next =>
      rw [kalloc_cons list] at run
      simp only at run
      have frames3 := frames2.kalloc list
      have keeps3 : KeepsOff (insert k ∅) (fun _ _ => False) s2 (s2.pop kstack next) :=
        frames2.keeps_of_held _ fun _ _ => rfl
      have new3 : kstack ∉ fs :=
        (FrameInv.kernelRefs_zero (frames2.fresh (f := kstack) (by simp [list])).2.1).2.2
      obtain ⟨r4, s4, run4, out4⟩ := setupkvm_spec frames3
      rw [run4, ok_bind] at run
      cases out4 with
      | failed => cases run
      | made d _ fresh4 new4 free4 frames4 empty4 kernel4 keeps4 calm4 =>
        simp only at run
        obtain ⟨s5, run5, done⟩ := bind_eq_ok run
        cases done
        have fits : initcode.length < PGSIZE := by
          by_contra long
          rw [Phys.inituvm, if_pos (Nat.not_lt.mp long)] at run5
          cases run5
        have mine : k ∈ insert k (∅ : Finset Nat) := Finset.mem_insert_self ..
        have apart : d ≠ k := fun same => fresh4 (same ▸ mine)
        obtain ⟨dirs, own⟩ := first_dirs s5 apart new3
        rcases inituvm_spec frames4 (Finset.mem_insert_self d _) empty4 fits with
          ⟨s', run', frames5, keeps5, calm5, -⟩ | ⟨-, short⟩
        · rw [run5] at run'
          cases run'
          refine ⟨first_tidy s5 apart new3, by rw [dirs, own]; exact frames5, ?_⟩
          intro e he vp hv (there : (s5.pte e vp).p = true)
          have lt := Nat.lt_of_lt_of_le hv pages_lt
          rw [dirs] at he
          rcases Finset.mem_insert.mp he with rfl | kernel
          · refine ⟨0, _, rfl, rfl, ?_⟩
            by_contra above
            have ne : vp ≠ 0 := by
              rintro rfl
              exact above (show 4096 * 0 < PGSIZE by decide)
            rw [keeps5.pte e (Finset.mem_insert_self ..) vp lt (fun here => ne here.2), empty4 vp hv] at there
            cases there
          · obtain rfl := Finset.mem_singleton.mp kernel
            rw [keeps5.pte e (Finset.mem_insert_of_mem mine) vp lt (fun here => apart here.1.symm),
              keeps4.pte e mine vp lt not_false, keeps3.pte e mine vp lt not_false,
              keeps2.pte e mine vp lt not_false, empty1 vp hv] at there
            cases there
        · have failed := short s5 run5
          rw [show s5.oom = false from calm] at failed
          cases failed

theorem Reachable.inv {m : Mem} (reach : Reachable m) : MemInv m := by
  refine Runs.Reachable.invariant (P := MemInv) (fun _ start => Start.inv start) ?_ reach
  intro m op m' inv _ done
  rcases inv.step op with ⟨m'', run, inv'⟩ | fault | first
  · rw [done] at run
    cases run
    exact inv'
  · rw [done] at fault
    cases fault
  · rw [done] at first
    cases first

end Mem

/-- The frames in use are directories, page tables, kernel pages and user pages below the
    breaks; all others are free. -/
theorem MemInv.room {m : Mem} (inv : MemInv m) {k : Nat}
    (low : ∀ i t, m.slot i = some t → t.space.sz ≤ 4096 * k) :
    NFRAMES ≤ ‹Layout›.kend + m.phys.freelist.length + m.dirs.card * (1025 + k) + m.own.card := by
  have managed : (Finset.Ico ‹Layout›.kend NFRAMES).card = NFRAMES - ‹Layout›.kend := Nat.card_Ico _ _
  have free : ((Finset.Ico ‹Layout›.kend NFRAMES).filter fun f => m.phys.ref f = 0).card =
      m.phys.freelist.length := by
    rw [← List.toFinset_card_of_nodup inv.frames.nodup]
    congr 1
    ext f
    simp [inv.frames.free f, Phys.Managed]
  have split := Finset.card_filter_add_card_filter_not (s := Finset.Ico ‹Layout›.kend NFRAMES)
    (fun f => m.phys.ref f = 0)
  have used : ((Finset.Ico ‹Layout›.kend NFRAMES).filter fun f => ¬ m.phys.ref f = 0) ⊆
      (m.dirs ∪ m.own) ∪ ((m.dirs ×ˢ Finset.range NPDENTRIES).image (fun e => (m.phys.entry e.1 e.2).frame) ∪
        (m.dirs ×ˢ Finset.range k).image fun e => (m.phys.pte e.1 e.2).frame) := by
    intro f member
    have held := (Finset.mem_filter.mp member).2
    have sum := inv.frames.refs f
    by_cases user : 0 < m.phys.userRefs m.dirs f
    · obtain ⟨d, hd, vp, hv, mapped⟩ := exists_of_refs_pos user
      obtain ⟨present, frame⟩ := target_some.mp mapped
      obtain ⟨i, t, use, same, below⟩ := inv.below d hd vp (Finset.mem_range.mp hv) present
      have := low i t use
      refine Finset.mem_union_right _ (Finset.mem_union_right _ (Finset.mem_image.mpr ⟨(d, vp), ?_, frame⟩))
      exact Finset.mem_product.mpr ⟨hd, Finset.mem_range.mpr (by omega)⟩
    · unfold kernelRefs at sum
      by_cases table : 0 < m.phys.tableRefs m.dirs f
      · obtain ⟨d, hd, i, hi, mapped⟩ := exists_of_refs_pos table
        obtain ⟨-, frame⟩ := target_some.mp mapped
        refine Finset.mem_union_right _ (Finset.mem_union_left _ (Finset.mem_image.mpr ⟨(d, i), ?_, frame⟩))
        exact Finset.mem_product.mpr ⟨hd, hi⟩
      · refine Finset.mem_union_left _ (Finset.mem_union.mpr ?_)
        by_contra neither
        push Not at neither
        simp only [neither.1, neither.2, ↓reduceIte] at sum
        omega
  have count := Finset.card_le_card used
  have parts := Finset.card_union_le (m.dirs ∪ m.own)
    ((m.dirs ×ˢ Finset.range NPDENTRIES).image (fun e => (m.phys.entry e.1 e.2).frame) ∪
      (m.dirs ×ˢ Finset.range k).image fun e => (m.phys.pte e.1 e.2).frame)
  have kernel := Finset.card_union_le m.dirs m.own
  have pages := Finset.card_union_le
    ((m.dirs ×ˢ Finset.range NPDENTRIES).image fun e => (m.phys.entry e.1 e.2).frame)
    ((m.dirs ×ˢ Finset.range k).image fun e => (m.phys.pte e.1 e.2).frame)
  have tables : ((m.dirs ×ˢ Finset.range NPDENTRIES).image fun e => (m.phys.entry e.1 e.2).frame).card ≤
      m.dirs.card * 1024 := Finset.card_image_le.trans (by simp [Finset.card_product, NPDENTRIES])
  have user : ((m.dirs ×ˢ Finset.range k).image fun e => (m.phys.pte e.1 e.2).frame).card ≤
      m.dirs.card * k := Finset.card_image_le.trans (by simp [Finset.card_product])
  have total : m.dirs.card * (1025 + k) = m.dirs.card * 1024 + m.dirs.card + m.dirs.card * k := by
    ring
  omega

theorem Mem.main_runs {s : Phys} (empty : Mem.Empty s) (calm : s.oom = false) (room : 3078 ≤ s.freelist.length) :
    ∃ s' k d kstack, Mem.main s 0 [] = .ok (Mem.first s' k d kstack ∅) ∧ Mem.Start (Mem.first s' k d kstack ∅) := by
  unfold Mem.main
  obtain ⟨r1, s1, run1, out1⟩ := setupkvm_spec empty.frames
  cases out1 with
  | failed _ _ _ _ tight => omega
  | made k _ fresh1 new1 free1 frames1 empty1 kernel1 keeps1 calm1 balance1 =>
    have none : Mem.startothers 0 s1 = (some ∅, s1) := rfl
    cases list : s1.freelist with
    | nil =>
      have := missing_le s1 k
      rw [list, List.length_nil] at balance1
      omega
    | cons kstack next =>
      obtain ⟨r4, s4, run4, out4⟩ := setupkvm_spec (frames1.kalloc list)
      have length : (s1.pop kstack next).freelist.length + 1 = s1.freelist.length := by simp [list, Phys.pop]
      cases out4 with
      | failed _ _ _ _ tight => omega
      | made d _ fresh4 new4 free4 frames4 empty4 kernel4 keeps4 calm4 balance4 =>
        rcases inituvm_spec frames4 (Finset.mem_insert_self d _) empty4 (show ([] : List UInt8).length < PGSIZE by decide) with
          ⟨s', run', frames5, keeps5, calm5, -⟩ | ⟨tight, -⟩
        · have done : Mem.main s 0 [] = .ok (Mem.first s' k d kstack ∅) := by
            unfold Mem.main
            rw [run1, ok_bind]
            simp only [none]
            rw [kalloc_cons list]
            simp only
            rw [run4, ok_bind]
            simp only
            rw [run', ok_bind]
          refine ⟨s', k, d, kstack, done, s, 0, [], empty, done, ?_⟩
          change s'.oom = false
          rw [calm5, calm4]
          change s1.oom = false
          rw [calm1, calm]
        · omega

def bareElf : List UInt8 := [0x7f, 0x45, 0x4c, 0x46] ++ List.replicate 48 0

omit [Layout] in
theorem copyout_page {s : Phys} {d vp va : Nat} (present : (s.pte d vp).p = true) (user : (s.pte d vp).u = true)
    {bs : List UInt8} (page : va / 4096 = vp) (fits : va % 4096 + bs.length ≤ 4096) : (s.copyout d va bs).1 = 0 := by
  have base : va - pgrounddown va = va % 4096 := by
    simp only [pgrounddown, PGSIZE]
    omega
  have target : s.uva2ka d (pgrounddown va) = some (s.pte d vp).frame := by
    refine uva2ka_eq_some.mpr ?_
    rw [found_eq_pte, pgrounddown, PGSIZE, Nat.mul_div_cancel _ (by decide), page]
    exact ⟨present, user, rfl⟩
  rw [Phys.copyout, Phys.copyoutLoop]
  by_cases some : 0 < bs.length
  · rw [if_pos some]
    simp only [target, base, PGSIZE]
    have all : (if 4096 - va % 4096 > bs.length then bs.length else 4096 - va % 4096) = bs.length := by
      split
      · rfl
      · omega
    rw [all, List.drop_length]
    cases len : bs.length with
    | zero => rfl
    | succ n => rfl
  · rw [if_neg some]

def StackTakes (argv : List (List UInt8)) : Prop :=
  ∀ {live own : Finset Nat} {x : Nat → Nat} {s : Phys} {d n : Nat}, d ∈ live → FrameInv live own x s → ImageInv s d n →
    (s.pte d 1).p = true → (s.pte d 1).u = true →
    ∃ sp args s', Phys.pushArgs d argv 8192 [] s = (some (sp, args), s') ∧
      (s'.copyout d ((sp + 4294967296 - (3 + args.length + 1) * 4) % 4294967296)
        (([0xffffffff, args.length, (sp + 4294967296 - (args.length + 1) * 4) % 4294967296] ++ args ++ [0]).flatMap
          word)).1 = 0

theorem StackTakes.nil : StackTakes [] :=
  fun _ _ _ present user => ⟨8192, [], _, rfl, copyout_page present user (by decide) (by decide)⟩

theorem execImage_bare {live own : Finset Nat} {x : Nat → Nat} {s : Phys} (inv : FrameInv live own x s)
    (room : 1027 ≤ s.freelist.length) {argv : List (List UInt8)} (takes : StackTakes argv) :
    ∃ image s', s.execImage bareElf argv = .ok (some image, s') ∧ image.sz = 8192 := by
  have whole : readi bareElf 0 ELFHDR = (52, bareElf) := by decide
  have header : Elfhdr.decode bareElf = ⟨ELF_MAGIC, 0, 0, 0⟩ := by decide
  rw [Phys.execImage]
  simp only [whole, header]
  rw [if_neg (by decide), if_neg (by decide)]
  obtain ⟨r, s1, setup, outcome⟩ := setupkvm_spec inv
  rw [setup, ok_bind]
  cases outcome with
  | failed _ _ _ _ tight => omega
  | made d _ fresh new free inv1 empty kernel keeps calm balance =>
    have hd := Finset.mem_insert_self d live
    have blank : ImageInv s1 d ((0 + 4095) / 4096) :=
      ⟨fun vp _ less => by omega, fun vp hv _ => empty vp hv, fun vp hv _ => kernel vp hv⟩
    have round : pgroundup 0 = 0 := by decide
    have pages : (0 + 2 * PGSIZE) % 4294967296 = 8192 := by decide
    obtain ⟨r, s2, alloc, out2⟩ := allocuvm_spec inv1 hd (show 8192 < KERNBASE by decide)
      (show 0 < 8192 by decide) (fun vp _ below => empty vp (by simp only [NUPAGES]; omega))
    obtain ⟨r', s2', alloc', apart2, image2, -⟩ := blank.allocuvm hd inv1 (by decide) 8192
    rw [alloc] at alloc'
    cases alloc'
    cases out2 with
    | failed _ _ _ _ tight =>
      rw [round] at tight
      omega
    | grown _ inv2 full keeps2 calm2 budget =>
      obtain ⟨-, -, -, image2⟩ := image2 (by decide)
      obtain ⟨s3, guard, apart3, image3, closed, -⟩ := image2.clearpteu hd inv2 (show 0 < NUPAGES by decide) (by decide)
      have stack : (s3.pte d 1).p = true ∧ (s3.pte d 1).u = true := by
        rw [closed 1 (by decide), if_neg (by decide)]
        obtain ⟨present, perm⟩ := full 1 (by rw [round]; decide) (by decide)
        exact ⟨present, by rw [perm]⟩
      obtain ⟨sp, args, s4, push, copy⟩ := takes hd apart3.inv image3 stack.1 stack.2
      simp only
      have built : ∃ image s', s1.buildImage d ⟨ELF_MAGIC, 0, 0, 0⟩ bareElf argv = .ok (some image, s') ∧
          image.sz = 8192 := by
        rw [Phys.buildImage]
        simp only [Phys.loadSegments, ok_bind, round, pages]
        rw [alloc, ok_bind]
        simp only
        rw [if_neg (by decide), show 8192 - 2 * PGSIZE = 0 * PGSIZE by decide, guard, ok_bind, push]
        simp only
        rw [if_neg (by rw [copy]; decide)]
        exact ⟨_, _, rfl, rfl⟩
      obtain ⟨image, s', build, size⟩ := built
      rw [build, ok_bind]
      exact ⟨image, s', rfl, size⟩

def Phys.allFree : Phys :=
  ⟨fun _ => .bytes fun _ => 0, fun _ => 0, List.range' ‹Layout›.kend (NFRAMES - ‹Layout›.kend), false⟩

theorem Mem.allFree_empty : Mem.Empty Phys.allFree := by
  refine ⟨fun _ => rfl, fun f => ?_, List.nodup_range'⟩
  have := ‹Layout›.kend_le
  simp only [Phys.allFree, List.mem_range'_1, Phys.Managed]
  omega

/-- Only the slots in l are in use, with at most k pages each, and the kernel holds
    nothing but their stacks. -/
structure Mem.Small (m : Mem) (l : Finset Nat) (k : Nat) : Prop where
  only : ∀ i t, m.slot i = some t → i ∈ l
  low : ∀ i t, m.slot i = some t → t.space.sz ≤ 4096 * k
  bare : m.apstacks = ∅ ∧ m.pipes = ∅

theorem Mem.Small.room {m : Mem} {l : Finset Nat} {k : Nat} (small : m.Small l k) (inv : MemInv m) :
    NFRAMES ≤ ‹Layout›.kend + m.phys.freelist.length + (l.card + 1) * (1025 + k) + l.card := by
  obtain ⟨dirs, own⟩ := inv.tidy.card_le small.only
  have free := inv.room small.low
  rw [small.bare.1, small.bare.2, Finset.card_empty, Nat.zero_add] at own
  have times := Nat.mul_le_mul_right (1025 + k) dirs
  omega

omit [Layout] in
theorem Mem.Small.single {m : Mem} {i k : Nat} (small : m.Small {i} k) (d : Nat) : m.pgdirUsers d ≤ 1 := by
  have sub : ((List.range NPROC).filter fun j => (m.slot j).any fun t => t.space.pgdir = d) ⊆ [i] := by
    intro j member
    obtain ⟨-, here⟩ := List.mem_filter.mp member
    cases other : m.slot j with
    | none => simp [other] at here
    | some u => exact List.mem_singleton.mpr (Finset.mem_singleton.mp (small.only j u other))
  exact (List.nodup_range.filter _).length_le_of_subset sub

theorem Mem.step_running {m : Mem} {p : Nat} {t : Tenant} (inv : MemInv m) (used : m.slot p = some t)
    (alive : t.zombie = false) (k : Tenant → Except Panic Mem) : m.running p k = k t := by
  simp only [Mem.running, used]
  rw [if_pos ⟨inv.tidy.low p t used, by rw [alive]; exact Bool.false_ne_true⟩]

theorem Mem.grow_reachable {m : Mem} {p : Nat} {t : Tenant} (reach : m.Reachable) (used : m.slot p = some t)
    (alive : t.zombie = false) (fits : t.space.sz + 4096 < KERNBASE) :
    (m.setSize t.space.pgdir (t.space.sz + 4096)).Reachable := by
  have moved : Mem.moved t.space.sz 4096 = t.space.sz + 4096 := by
    simp only [Mem.moved, KERNBASE] at *
    omega
  refine Runs.Reachable.next reach (.sbrk p 4096) trivial ?_
  simp only [Mem.step]
  rw [Mem.step_running reach.inv used alive, Mem.sbrk, if_neg (by decide), moved, if_neg (by omega)]

/-- Only init runs, with an image of a guard page and a stack. -/
structure Mem.Loaded (m : Mem) (t : Tenant) : Prop where
  reach : m.Reachable
  used : m.slot 0 = some t
  alive : t.zombie = false
  size : t.space.sz = 8192
  guard : (m.phys.pte t.space.pgdir 0).p = true ∧ (m.phys.pte t.space.pgdir 0).w = true ∧
    (m.phys.pte t.space.pgdir 0).u = false
  stack : (m.phys.pte t.space.pgdir 1).p = true ∧ (m.phys.pte t.space.pgdir 1).w = true
  small : m.Small {0} 2

theorem Mem.loaded_exists (frames : ‹Layout›.kend + 4000 ≤ NFRAMES) : ∃ m t, Mem.Loaded m t := by
  obtain ⟨s, k, d, kstack, -, start⟩ := Mem.main_runs Mem.allFree_empty rfl (by
    simp only [Phys.allFree, List.length_range']
    omega)
  generalize first : (⟨⟨d, PGSIZE⟩, kstack, none, false, false⟩ : Tenant) = t
  have used : (Mem.first s k d kstack ∅).slot 0 = some t := by rw [← first]; rfl
  have inv := start.inv
  have small : (Mem.first s k d kstack ∅).Small {0} 1 := by
    refine ⟨fun i v use => ?_, fun i v use => ?_, rfl, rfl⟩
    · exact Finset.mem_singleton.mpr (Mem.first_slot use).1
    · rw [(Mem.first_slot use).2]
      exact Nat.le_refl 4096
  have room := small.room inv
  rw [Finset.card_singleton] at room
  obtain ⟨m', run, outcome⟩ := exec_spec inv used bareElf []
  obtain ⟨image, s1, load, size⟩ := execImage_bare inv.frames (show 1027 ≤ _ by omega) StackTakes.nil
  have step : (Mem.first s k d kstack ∅).step (.exec 0 bareElf []) = .ok m' := by
    simp only [Mem.step]
    rw [Mem.step_running inv used (by rw [← first])]
    exact run
  have reach : m'.Reachable := (Runs.Reachable.start start).next (.exec 0 bareElf []) trivial step
  cases outcome with
  | failed _ _ _ why =>
    rcases why with many | ⟨s', load'⟩
    · obtain ⟨j, u, other, -, away⟩ := inv.tidy.shared used (by omega)
      exact (away (Finset.mem_singleton.mp (small.only j u other))).elim
    · rw [load] at load'
      cases load'
  | done image' _ inv' load' slot pages guard _ rest =>
    rw [load] at load'
    cases load'
    obtain ⟨g, shape, closed⟩ := guard
    obtain rfl : g = 0 := by omega
    have here : m'.slot 0 = some { t with space := ⟨image.pgdir, image.sz⟩ } := by rw [slot, Function.update_self]
    obtain ⟨present, write⟩ := pages 0 (by decide) (by omega)
    refine ⟨m', _, reach, here, by rw [← first], size, ⟨present, write, closed⟩,
      pages 1 (by decide) (by omega), ?_, ?_, rest.1, rest.2⟩
    · intro i v use
      by_contra away
      rw [slot, Function.update_of_ne (by simpa using away)] at use
      exact away (small.only i v use)
    · intro i v use
      rw [slot, Function.update_apply] at use
      split at use
      · cases use
        exact Nat.le_of_eq size
      · exact (small.low i v use).trans (by decide)

structure Mem.Forked (m : Mem) (t : Tenant) (np : Nat) (c : Tenant) : Prop where
  reach : m.Reachable
  used : m.slot 0 = some t
  child : m.slot np = some c
  born : c.zombie = false
  apart : c.space.pgdir ≠ t.space.pgdir
  size : t.space.sz = 8192 ∧ c.space.sz = 8192
  guard : ∀ d, d = t.space.pgdir ∨ d = c.space.pgdir →
    (m.phys.pte d 0).p = true ∧ (m.phys.pte d 0).cow = true ∧ (m.phys.pte d 0).u = false
  small : m.Small {0, np} 2

theorem Mem.forked_exists (frames : ‹Layout›.kend + 4000 ≤ NFRAMES) : ∃ m t np c, Mem.Forked m t np c := by
  obtain ⟨m, t, loaded⟩ := Mem.loaded_exists frames
  have inv := loaded.reach.inv
  have room := loaded.small.room inv
  rw [Finset.card_singleton] at room
  obtain ⟨m', run, outcome⟩ := fork_spec inv loaded.used loaded.alive
  have step : m.step (.fork 0) = .ok m' := by
    simp only [Mem.step]
    rw [Mem.step_running inv loaded.used loaded.alive]
    exact run
  have reach : m'.Reachable := loaded.reach.next (.fork 0) trivial step
  cases outcome with
  | failed _ _ _ _ _ why =>
    rcases why with many | full | ⟨-, tight⟩
    · obtain ⟨j, u, other, -, away⟩ := inv.tidy.shared loaded.used (by omega)
      exact (away (Finset.mem_singleton.mp (loaded.small.only j u other))).elim
    · -- slot 1 is free
      have free := List.find?_eq_none.mp full 1 (by decide)
      cases other : m.slot 1 with
      | none => simp [other] at free
      | some u =>
        have := loaded.small.only 1 u other
        simp at this
    · omega
  | made np c inv' few free slot fresh size born kin user copy views fewer calm rest =>
    have away : (0 : Nat) ≠ np := by
      rintro rfl
      have := (Mem.Tidy.scan_some free).2
      rw [loaded.used] at this
      cases this
    have own : m'.slot 0 = some t := by rw [slot, Function.update_of_ne away, loaded.used]
    obtain ⟨p1, c1, u1, p2, c2, u2⟩ := user 0 (by decide) loaded.guard.1
    rw [loaded.guard.2.2] at u1 u2
    refine ⟨m', t, np, c, reach, own, by rw [slot, Function.update_self], born, ?_, ⟨loaded.size, size.trans loaded.size⟩,
      ?_, ?_, ?_, rest.1.trans loaded.small.bare.1, rest.2.trans loaded.small.bare.2⟩
    · intro same
      exact fresh (same ▸ inv.tidy.dir_mem loaded.used)
    · rintro d (rfl | rfl)
      · exact ⟨p2, c2, u2⟩
      · exact ⟨p1, c1, u1⟩
    · intro i v use
      rw [slot, Function.update_apply] at use
      split at use
      · rename_i here
        simp [here]
      · exact Finset.mem_insert.mpr (Or.inl (Finset.mem_singleton.mp (loaded.small.only i v use)))
    · intro i v use
      rw [slot, Function.update_apply] at use
      split at use
      · cases use
        exact Nat.le_of_eq (size.trans loaded.size)
      · exact loaded.small.low i v use

theorem store_present {s : Phys} {d va : Nat} (sz : Nat) (present : (s.pte d (va / 4096)).p = true)
    (write : (s.pte d (va / 4096)).w = true) (bs : List UInt8) : s.store ⟨d, sz⟩ va bs =
      .ok (s.setPage (s.pte d (va / 4096)).frame ((s.page (s.pte d (va / 4096)).frame).write (va % PGSIZE) bs)) := by
  have fine : (s.pte d (va / 4096)).permits true false = true := by simp [Pte.permits, present, write]
  simp only [Phys.store, Phys.touch, found_eq_pte]
  rw [if_pos fine, ok_bind]
  simp only [↓reduceIte]

theorem clone_made {m : Mem} (inv : MemInv m) {p np stack : Nat} {t : Tenant} (used : m.slot p = some t)
    (aligned : stack % PGSIZE = 0) (fits : stack + PGSIZE ≤ t.space.sz)
    (present : (m.phys.pte t.space.pgdir (stack / 4096)).p = true)
    (write : (m.phys.pte t.space.pgdir (stack / 4096)).w = true)
    (free : m.scan Option.isNone = some np) (memory : m.phys.freelist ≠ []) (arg : Nat) :
    ∃ m' kstack, m.clone p t stack arg = .ok m' ∧
      m'.slot = Function.update m.slot np (some ⟨t.space, kstack, some p, true, false⟩) ∧
      (∀ vp < NUPAGES, m'.phys.pte t.space.pgdir vp = m.phys.pte t.space.pgdir vp) ∧
      m'.apstacks = m.apstacks ∧ m'.pipes = m.pipes := by
  have hd := inv.tidy.dir_mem used
  have small := inv.tidy.small p t used
  have page : (stack + PGSIZE - 4) / 4096 = stack / 4096 ∧ (stack + PGSIZE - 8) / 4096 = stack / 4096 := by
    simp only [PGSIZE] at *
    omega
  have hv : stack / 4096 < NUPAGES := by
    simp only [PGSIZE, KERNBASE, NUPAGES] at *
    omega
  obtain ⟨r, m1, alloc, outcome⟩ := allocproc_spec inv
  unfold Mem.clone
  rw [if_neg (by rw [aligned]; exact fun h => h rfl), if_neg (by
    simp only [PGSIZE, KERNBASE, not_or, Nat.not_le, Nat.not_lt, ge_iff_le, gt_iff_lt] at *
    omega), alloc]
  cases outcome with
  | full all =>
    rw [free] at all
    cases all
  | short empty => exact (memory empty).elim
  | made np' kstack s1 free' new frames1 keeps1 calm1 spent =>
    cases free.symm.trans free'
    have same : s1.pte t.space.pgdir (stack / 4096) = m.phys.pte t.space.pgdir (stack / 4096) :=
      keeps1.pte _ hd _ (Nat.lt_of_lt_of_le hv pages_lt) not_false
    simp only
    rw [store_present t.space.sz (by rw [page.1, same]; exact present) (by rw [page.1, same]; exact write), ok_bind,
      page.1]
    obtain ⟨inv2, pte2, -⟩ := frames1.write_user hd hv (by rw [same]; exact present) (by rw [same]; exact write)
      ((s1.page (s1.pte t.space.pgdir (stack / 4096)).frame).write ((stack + PGSIZE - 4) % PGSIZE) (word arg))
    generalize s1.setPage _ _ = s2 at inv2 pte2 ⊢
    have same2 := (pte2 _ hd (stack / 4096)).trans same
    rw [store_present t.space.sz (by rw [page.2, same2]; exact present) (by rw [page.2, same2]; exact write), ok_bind,
      page.2]
    obtain ⟨-, pte3, -⟩ := inv2.write_user hd hv (by rw [same2]; exact present) (by rw [same2]; exact write)
      ((s2.page (s2.pte t.space.pgdir (stack / 4096)).frame).write ((stack + PGSIZE - 8) % PGSIZE) (word 0xffffffff))
    refine ⟨_, kstack, rfl, rfl, fun vp hv' => ?_, rfl, rfl⟩
    exact (pte3 _ hd vp).trans ((pte2 _ hd vp).trans (keeps1.pte _ hd vp (Nat.lt_of_lt_of_le hv' pages_lt) not_false))

/-- init and a thread of it; the page below their break is missing. -/
structure Mem.Paired (m : Mem) (t : Tenant) (np : Nat) (c : Tenant) : Prop where
  reach : m.Reachable
  used : m.slot 0 = some t
  thread : m.slot np = some c
  alive : t.zombie = false ∧ c.zombie = false
  apart : np ≠ 0
  shared : c.space = t.space
  size : t.space.sz = 12288
  absent : (m.phys.pte t.space.pgdir 2).p = false
  small : m.Small {0, np} 3

theorem Mem.grown_exists (frames : ‹Layout›.kend + 4000 ≤ NFRAMES) : ∃ m t, Mem.Reachable m ∧
    m.slot 0 = some t ∧ t.zombie = false ∧ t.space.sz = 12288 ∧
    ((m.phys.pte t.space.pgdir 1).p = true ∧ (m.phys.pte t.space.pgdir 1).w = true) ∧
    (m.phys.pte t.space.pgdir 2).p = false ∧ m.Small {0} 3 := by
  obtain ⟨m, t, loaded⟩ := Mem.loaded_exists frames
  have used : (m.setSize t.space.pgdir (t.space.sz + 4096)).slot 0 =
      some { t with space := ⟨t.space.pgdir, t.space.sz + 4096⟩ } :=
    (Mem.Tidy.setSize_slot _ _ _ _ _).mpr ⟨t, loaded.used, by rw [if_pos rfl]⟩
  have only : ∀ i v, (m.setSize t.space.pgdir (t.space.sz + 4096)).slot i = some v → i = 0 := by
    intro i v use
    obtain ⟨v', use', -⟩ := (Mem.Tidy.setSize_slot _ _ _ _ _).mp use
    exact Finset.mem_singleton.mp (loaded.small.only i v' use')
  have absent : (m.phys.pte t.space.pgdir 2).p = false :=
    loaded.reach.inv.trim loaded.used (by decide) (by rw [loaded.size])
  refine ⟨_, _, Mem.grow_reachable loaded.reach loaded.used loaded.alive (by rw [loaded.size]; decide), used,
    loaded.alive, by rw [loaded.size], loaded.stack, absent,
    fun i v use => Finset.mem_singleton.mpr (only i v use), fun i v use => ?_, loaded.small.bare⟩
  obtain rfl := only i v use
  cases use.symm.trans used
  rw [loaded.size]

theorem Mem.paired_exists (frames : ‹Layout›.kend + 8000 ≤ NFRAMES) : ∃ m t np c, Mem.Paired m t np c := by
  obtain ⟨m, t, reach, used, alive, size, stack, absent, small⟩ := Mem.grown_exists (by omega)
  have inv := reach.inv
  have room := small.room inv
  rw [Finset.card_singleton] at room
  have memory : m.phys.freelist ≠ [] := by
    intro empty
    rw [empty, List.length_nil] at room
    omega
  cases free : m.scan Option.isNone with
  | none =>
    -- slot 1 is free
    have taken := List.find?_eq_none.mp free 1 (by decide)
    cases other : m.slot 1 with
    | none => simp [other] at taken
    | some u =>
      have := small.only 1 u other
      simp at this
  | some np =>
    have away : np ≠ 0 := by
      rintro rfl
      have := (Mem.Tidy.scan_some free).2
      rw [used] at this
      cases this
    obtain ⟨m', kstack, run, slot, pte, aps, pipes⟩ := clone_made (p := 0) inv used (show 4096 % PGSIZE = 0 by decide)
      (by rw [size]; decide) stack.1 stack.2 free memory 0
    have step : m.step (.clone 0 4096 0) = .ok m' := by
      simp only [Mem.step]
      rw [Mem.step_running inv used alive]
      exact run
    have thread : m'.slot np = some ⟨t.space, kstack, some 0, true, false⟩ := by rw [slot, Function.update_self]
    have first : m'.slot 0 = some t := by rw [slot, Function.update_of_ne away.symm, used]
    refine ⟨m', t, np, _, reach.next _ trivial step, first, thread, ⟨alive, rfl⟩, away, rfl, size, ?_, ?_, ?_,
      aps.trans small.bare.1, pipes.trans small.bare.2⟩
    · rw [pte 2 (by decide)]
      exact absent
    · intro i v use
      rw [slot, Function.update_apply] at use
      split at use
      · rename_i here
        simp [here]
      · exact Finset.mem_insert.mpr (Or.inl (Finset.mem_singleton.mp (small.only i v use)))
    · intro i v use
      rw [slot, Function.update_apply] at use
      split at use
      · cases use
        rw [size]
      · exact small.low i v use

end
end Xv6
