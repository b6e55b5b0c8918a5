import Xv6.Lib.Returns
import Xv6.Memory.Touch

/-!
The kernel reads strings from the memory of the process that runs. A page that is not
there yet is faulted in, and so may a page table be; nothing else changes. A read that
cannot be served is fatal to the kernel.
-/
namespace Xv6
open RefCount Phys Runs

namespace Phys
variable [layout : Layout]

def fetch (s : Phys) (space : Space) (va : Nat) : Except Panic (UInt8 × Phys) := do
  let (done, s) ← s.touch space va false false
  if done then .ok ((s.page (s.found space.pgdir va).frame).byte (va % PGSIZE), s)
  else .error .kernelPageFault

/-- The bytes from va up to a NUL, at most n of them. -/
def stringUpto (space : Space) : Nat → Nat → Phys → Except Panic (List UInt8 × Phys)
  | 0, _, s => .ok ([], s)
  | n + 1, va, s => do
    let (c, s) ← s.fetch space va
    if c = 0 then .ok ([], s)
    else do
      let (rest, s) ← stringUpto space n (va + 1) s
      .ok (c :: rest, s)

/-- The string at va. Its end lies in user memory: argstr and fetchstr have seen to it. -/
def string (s : Phys) (space : Space) (va : Nat) : Except Panic (List UInt8 × Phys) :=
  stringUpto space (KERNBASE - va) va s

end Phys

/-- Pages of directory o that were not there have been faulted in, and nothing else. -/
structure Lazily (live : Finset Nat) (o : Nat) (s s' : Phys) : Prop where
  keeps : KeepsOff live (fun d vp => d = o ∧ (s.pte o vp).p = false) s s'
  content : ∀ d ∈ live, ∀ vp < NUPAGES, s'.content d vp = s.content d vp
  others : SameTables (live.erase o) s s'
  tables : ∀ i t, s.tableTarget o i = some t → s'.tableTarget o i = some t

namespace Lazily
variable {live live' : Finset Nat} {o : Nat} {s s' s'' : Phys}

theorem of_same (ho : o ∈ live) (keeps : KeepsOff live (fun _ _ => False) s s') (tables : SameTables live s s') :
    Lazily live o s s' := by
  refine ⟨keeps.mono fun _ _ _ => False.elim, fun d hd vp hv => keeps.content hd hv not_false,
    tables.subset (Finset.erase_subset o live), ?_⟩
  intro i t there
  rw [tables o ho]
  exact there

theorem refl (ho : o ∈ live) (s : Phys) : Lazily live o s s :=
  of_same ho (KeepsOff.refl ..) (SameTables.refl live s)

theorem present (l : Lazily live o s s') {d vp : Nat} (hd : d ∈ live) (hv : vp < 1048576)
    (there : (s.pte d vp).p = true) : s'.pte d vp = s.pte d vp := by
  refine l.keeps.pte d hd vp hv ?_
  rintro ⟨rfl, absent⟩
  rw [there] at absent
  cases absent

theorem trans (ho : o ∈ live) (l : Lazily live o s s') (l' : Lazily live o s' s'') : Lazily live o s s'' := by
  have still : ∀ vp < 1048576, (s'.pte o vp).p = false → (s.pte o vp).p = false := by
    intro vp hv absent
    by_contra there
    rw [l.present ho hv (Bool.of_not_eq_false there)] at absent
    exact there absent
  have keeps' : KeepsOff live (fun d vp => d = o ∧ (s.pte o vp).p = false) s' s'' := by
    constructor
    · intro d hd vp hv out
      exact l'.keeps.pte d hd vp hv fun ⟨same, absent⟩ => out ⟨same, still vp hv absent⟩
    · intro d hd vp hv out
      have lt := Nat.lt_of_lt_of_le hv pages_lt
      exact l'.keeps.page d hd vp hv fun ⟨same, absent⟩ => out ⟨same, still vp lt absent⟩
  refine ⟨l.keeps.trans keeps', ?_, l.others.trans l'.others, fun i t there => l'.tables i t (l.tables i t there)⟩
  intro d hd vp hv
  rw [l'.content d hd vp hv, l.content d hd vp hv]

theorem subset (l : Lazily live o s s') (sub : live' ⊆ live) : Lazily live' o s s' :=
  ⟨l.keeps.subset sub, fun d hd => l.content d (sub hd), l.others.subset (Finset.erase_subset_erase o sub),
    l.tables⟩

variable [Layout] {own : Finset Nat} {x : Nat → Nat}

theorem freed (l : Lazily live o s s') (ho : o ∈ live) (inv : FrameInv live own x s) (inv' : FrameInv live own x s')
    {f : Nat} (free : f ∈ s'.freelist) : f ∈ s.freelist := by
  obtain ⟨users, kernel, flight⟩ := inv'.fresh free
  obtain ⟨tabs, dir, held⟩ := FrameInv.kernelRefs_zero kernel
  have users0 : s.userRefs live f = 0 := by
    refine refs_eq_zero.mpr fun d hd vp hv mapped => ?_
    have hv' := Finset.mem_range.mp hv
    refine refs_eq_zero.mp users d hd vp hv ?_
    rw [userTarget, l.present hd (Nat.lt_of_lt_of_le hv' pages_lt) (target_some.mp mapped).1]
    exact mapped
  have tabs0 : s.tableRefs live f = 0 := by
    refine refs_eq_zero.mpr fun d hd i hi there => ?_
    refine refs_eq_zero.mp tabs d hd i hi ?_
    by_cases old : d = o
    · subst old
      exact l.tables i f there
    · rw [l.others d (Finset.mem_erase.mpr ⟨old, hd⟩) i]
      exact there
  refine (inv.free f).mpr ⟨((inv'.free f).mp free).1, ?_⟩
  rw [inv.refs f, users0, kernelRefs, tabs0, if_neg dir, if_neg held, flight]

/-- A frame that has been taken is a page or a page table of directory o, where there was
    none before. -/
theorem taken (l : Lazily live o s s') (inv : FrameInv live own x s) (inv' : FrameInv live own x s')
    {f : Nat} (free : f ∈ s.freelist) (now : f ∉ s'.freelist) :
    (∃ vp < NUPAGES, (s.pte o vp).p = false ∧ s'.userTarget o vp = some f) ∨
      ∃ i < NPDENTRIES, s.tableTarget o i = none ∧ s'.tableTarget o i = some f := by
  obtain ⟨users, kernel, flight⟩ := inv.fresh free
  obtain ⟨tabs, dir, held⟩ := FrameInv.kernelRefs_zero kernel
  by_contra neither
  rw [not_or] at neither
  obtain ⟨page, table⟩ := neither
  have users0 : s'.userRefs live f = 0 := by
    refine refs_eq_zero.mpr fun d hd vp hv mapped => ?_
    have hv' := Finset.mem_range.mp hv
    by_cases new : d = o ∧ (s.pte o vp).p = false
    · obtain ⟨rfl, absent⟩ := new
      exact page ⟨vp, hv', absent, mapped⟩
    · rw [userTarget, l.keeps.pte d hd vp (Nat.lt_of_lt_of_le hv' pages_lt) new] at mapped
      exact refs_eq_zero.mp users d hd vp hv mapped
  have tabs0 : s'.tableRefs live f = 0 := by
    refine refs_eq_zero.mpr fun d hd i hi there => ?_
    by_cases old : d = o
    · subst old
      cases before : s.tableTarget d i with
      | none => exact table ⟨i, Finset.mem_range.mp hi, before, there⟩
      | some t =>
        cases (l.tables i t before).symm.trans there
        exact refs_eq_zero.mp tabs d hd i hi before
    · rw [l.others d (Finset.mem_erase.mpr ⟨old, hd⟩) i] at there
      exact refs_eq_zero.mp tabs d hd i hi there
  refine now ((inv'.free f).mpr ⟨((inv.free f).mp free).1, ?_⟩)
  rw [inv'.refs f, users0, kernelRefs, tabs0, if_neg dir, if_neg held, flight]

end Lazily

section
variable [Layout] {live own : Finset Nat} {x : Nat → Nat} {s : Phys} {o : Nat}

structure Reading (live own : Finset Nat) (x : Nat → Nat) (o : Nat) (s s' : Phys) : Prop where
  inv : FrameInv live own x s'
  lazily : Lazily live o s s'

theorem Reading.refl (inv : FrameInv live own x s) (ho : o ∈ live) : Reading live own x o s s :=
  ⟨inv, Lazily.refl ho s⟩

theorem Reading.trans {s' s'' : Phys} (ho : o ∈ live) (a : Reading live own x o s s')
    (b : Reading live own x o s' s'') : Reading live own x o s s'' :=
  ⟨b.inv, a.lazily.trans ho b.lazily⟩

theorem lazyalloc_reading (inv : FrameInv live own x s) (ho : o ∈ live) {va : Nat} (user : va < KERNBASE)
    (absent : (s.pte o (va / 4096)).p = false) :
    ∃ r s', s.lazyalloc o va = .ok (r, s') ∧ Reading live own x o s s' := by
  have hv : va / 4096 < NUPAGES := by
    simp only [KERNBASE, NUPAGES] at *
    omega
  obtain ⟨r, s', run, outcome⟩ := lazyalloc_spec inv ho user absent
  obtain ⟨others, kept⟩ := lazyalloc_tables inv ho user absent run
  refine ⟨r, s', run, ?_⟩
  have fault : FaultOutcome live own x s o (va + 1) va ⟨false, false, false⟩ r s' :=
    .lazy absent (Nat.lt_succ_self va) r s' outcome
  have content : ∀ d ∈ live, ∀ vp < NUPAGES, s'.content d vp = s.content d vp :=
    fun d hd vp hv' => fault.content inv ho hv hd hv'
  have keeps : KeepsOff live (fun d vp => d = o ∧ (s.pte o vp).p = false) s s' := by
    refine (fault.keeps inv).mono ?_
    rintro d - vp ⟨same, rfl⟩
    exact ⟨same, absent⟩
  exact ⟨fault.inv inv, keeps, content, others, kept⟩

theorem touch_reading (inv : FrameInv live own x s) (ho : o ∈ live) (sz : Nat) {va : Nat} (user : va < KERNBASE) :
    ∃ done s', s.touch ⟨o, sz⟩ va false false = .ok (done, s') ∧ Reading live own x o s s' := by
  have here := Reading.refl inv ho
  simp only [Phys.touch, found_eq_pte]
  by_cases present : (s.pte o (va / 4096)).p = true
  · have fine : (s.pte o (va / 4096)).permits false false = true :=
      Pte.permits_iff.mpr ⟨present, fun write => absurd write Bool.false_ne_true, fun user => absurd user Bool.false_ne_true⟩
    rw [if_pos fine]
    exact ⟨true, s, rfl, here⟩
  · have absent := Bool.of_not_eq_true present
    have refuse : ¬ (s.pte o (va / 4096)).permits false false = true :=
      fun fine => present (Pte.permits_iff.mp fine).1
    rw [if_neg refuse]
    simp only [Phys.pagefault, found_eq_pte, if_neg (Nat.not_le.mpr user), if_pos present]
    by_cases above : va ≥ sz
    · rw [if_pos above, ok_bind]
      exact ⟨_, s, rfl, here⟩
    · obtain ⟨r, s', run, reading⟩ := lazyalloc_reading inv ho user absent
      rw [if_neg above, run, ok_bind]
      exact ⟨_, s', rfl, reading⟩

theorem fetch_reading (inv : FrameInv live own x s) (ho : o ∈ live) (sz : Nat) {va : Nat} (user : va < KERNBASE) :
    Meets (s.fetch ⟨o, sz⟩ va) (fun r => Reading live own x o s r.2) (· = .kernelPageFault) := by
  obtain ⟨done, s', run, reading⟩ := touch_reading inv ho sz user
  rw [Phys.fetch, run, ok_bind]
  cases done with
  | true => exact reading
  | false => exact rfl

theorem stringUpto_reading (ho : o ∈ live) (sz n va : Nat) (s : Phys) (inv : FrameInv live own x s)
    (user : va + n ≤ KERNBASE) :
    Meets (stringUpto ⟨o, sz⟩ n va s) (fun r => Reading live own x o s r.2) (· = .kernelPageFault) := by
  induction n generalizing va s with
  | zero => exact Reading.refl inv ho
  | succ n ih =>
    rw [Phys.stringUpto]
    refine Meets.bind (fetch_reading inv ho sz (show va < KERNBASE by omega)) ?_
    intro ⟨c, s1⟩ first
    by_cases last : c = 0
    · simp only [if_pos last]
      exact first
    · simp only [if_neg last]
      refine Meets.bind (ih (va + 1) s1 first.inv (by omega)) ?_
      intro ⟨rest, s2⟩ more
      exact first.trans ho more

theorem string_reading (inv : FrameInv live own x s) (ho : o ∈ live) (sz va : Nat) :
    Meets (s.string ⟨o, sz⟩ va) (fun r => Reading live own x o s r.2) (· = .kernelPageFault) := by
  by_cases user : va ≤ KERNBASE
  · exact stringUpto_reading ho sz _ va s inv (by omega)
  · have none : KERNBASE - va = 0 := by omega
    rw [Phys.string, none]
    exact Reading.refl inv ho

end
end Xv6
