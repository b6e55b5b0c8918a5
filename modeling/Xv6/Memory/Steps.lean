import Xv6.Memory.Tenants
import Xv6.Memory.Touch
import Xv6.Memory.Sharing

/-!
What each call does to memory and to the process table. Every call keeps the invariant;
the only panics left are a kernel access that cannot be resolved and the exit of init.
-/
namespace Xv6
open RefCount Phys

/-- No page that existed before reads differently. -/
def Mem.Views (m m' : Mem) : Prop :=
  ∀ d ∈ m.dirs, ∀ vp < NUPAGES, m'.phys.content d vp = m.phys.content d vp

/-- No page appears in a directory that was there before. -/
def Mem.Fewer (m m' : Mem) : Prop :=
  ∀ d ∈ m.dirs, d ∈ m'.dirs → ∀ vp < NUPAGES, (m'.phys.pte d vp).p = true → (m.phys.pte d vp).p = true

theorem Mem.Fewer.of_keeps {m m' : Mem} {l : Finset Nat} (keeps : KeepsOff l (fun _ _ => False) m.phys m'.phys)
    (sub : ∀ d ∈ m.dirs, d ∈ m'.dirs → d ∈ l) : m.Fewer m' := by
  intro d hd hd' vp hv there
  rw [keeps.pte d (sub d hd hd') vp (Nat.lt_of_lt_of_le hv pages_lt) not_false] at there
  exact there

section
variable [Layout] {m : Mem}

namespace MemInv
open Mem

theorem withPhys (inv : MemInv m) {s' : Phys} (frames : FrameInv m.dirs m.own (fun _ => 0) s')
    (fewer : ∀ d ∈ m.dirs, ∀ vp < NUPAGES, (s'.pte d vp).p = true → (m.phys.pte d vp).p = true ∨ m.Below d vp) :
    MemInv { m with phys := s' } := by
  refine ⟨inv.tidy.withPhys s', frames, ?_⟩
  intro d hd vp hv there
  rcases fewer d hd vp hv there with was | low
  · exact inv.below d hd vp hv was
  · exact low

theorem withPhys_keeps (inv : MemInv m) {s' : Phys} (frames : FrameInv m.dirs m.own (fun _ => 0) s')
    (keeps : KeepsOff m.dirs (fun _ _ => False) m.phys s') : MemInv { m with phys := s' } := by
  refine inv.withPhys frames fun d hd vp hv there => Or.inl ?_
  rw [keeps.pte d hd vp (Nat.lt_of_lt_of_le hv pages_lt) not_false] at there
  exact there

theorem oom (inv : MemInv m) : MemInv { m with phys := { m.phys with oom := true } } :=
  inv.withPhys (inv.frames.oom true) fun _ _ _ _ there => Or.inl there

theorem stored (inv : MemInv m) {i va : Nat} {t : Tenant} (used : m.slot i = some t) {s' : Phys}
    (done : Stored m.dirs m.own (fun _ => 0) m.phys t.space.pgdir t.space.sz va s') :
    MemInv { m with phys := s' } := by
  refine inv.withPhys done.inv fun d hd vp hv there => ?_
  by_cases here : d = t.space.pgdir ∧ vp = va / 4096
  · obtain ⟨rfl, rfl⟩ := here
    rcases done.present there with was | below
    · exact Or.inl was
    · exact Or.inr ⟨i, t, used, rfl, by omega⟩
  · rw [done.keeps.pte d hd vp (Nat.lt_of_lt_of_le hv pages_lt) here] at there
    exact Or.inl there

end MemInv

/-- The outcome of allocproc: the slot is still unused, but the caller holds the stack. -/
inductive AllocprocOutcome (m : Mem) : Option (Nat × Nat) → Mem → Prop where
  | full (all : m.scan Option.isNone = none) : AllocprocOutcome m none m
  | short (empty : m.phys.freelist = []) :
      AllocprocOutcome m none { m with phys := { m.phys with oom := true } }
  | made (np kstack : Nat) (s' : Phys) (free : m.scan Option.isNone = some np) (new : kstack ∉ m.own)
      (frames : FrameInv m.dirs (insert kstack m.own) (fun _ => 0) s')
      (keeps : KeepsOff m.dirs (fun _ _ => False) m.phys s') (calm : s'.oom = m.phys.oom)
      (spent : m.phys.freelist.length = s'.freelist.length + 1) :
      AllocprocOutcome m (some (np, kstack)) { m with phys := s' }

theorem allocproc_spec (inv : MemInv m) : ∃ r m', m.allocproc = (r, m') ∧ AllocprocOutcome m r m' := by
  unfold Mem.allocproc
  cases free : m.scan Option.isNone with
  | none => exact ⟨none, m, rfl, .full free⟩
  | some np =>
    cases list : m.phys.freelist with
    | nil =>
      simp only [kalloc_nil list]
      exact ⟨none, _, rfl, .short list⟩
    | cons f next =>
      simp only [kalloc_cons list]
      obtain ⟨-, kern, -⟩ := inv.frames.fresh (f := f) (by simp [list])
      refine ⟨some (np, f), _, rfl, .made np f _ free (FrameInv.kernelRefs_zero kern).2.2
        (inv.frames.kalloc list) ?_ rfl ?_⟩
      · exact inv.frames.keeps_of_held _ fun _ _ => rfl
      · simp [list, Phys.pop]

/-- What fork does: it fails and nothing is seen of it, or the child in np reads what the
    parent reads. -/
inductive ForkOutcome (m : Mem) (p : Nat) (t : Tenant) : Mem → Prop where
  | failed (m' : Mem) (inv : MemInv m') (slot : m'.slot = m.slot) (dirs : m'.dirs = m.dirs) (views : m.Views m')
      (fewer : m.Fewer m')
      (why : m.pgdirUsers t.space.pgdir > 1 ∨ m.scan Option.isNone = none ∨
        m'.phys.oom = true ∧ m.phys.freelist.length < 1026) : ForkOutcome m p t m'
  | made (m' : Mem) (np : Nat) (c : Tenant) (inv : MemInv m') (few : m.pgdirUsers t.space.pgdir ≤ 1)
      (free : m.scan Option.isNone = some np)
      (slot : m'.slot = Function.update m.slot np (some c)) (fresh : c.space.pgdir ∉ m.dirs)
      (size : c.space.sz = t.space.sz) (born : c.zombie = false) (kin : c.parent = some p)
      (user : ∀ vp < NUPAGES, (m.phys.pte t.space.pgdir vp).p = true →
        (m'.phys.pte c.space.pgdir vp).p = true ∧ (m'.phys.pte c.space.pgdir vp).cow = true ∧
          (m'.phys.pte c.space.pgdir vp).u = (m.phys.pte t.space.pgdir vp).u ∧
        (m'.phys.pte t.space.pgdir vp).p = true ∧ (m'.phys.pte t.space.pgdir vp).cow = true ∧
          (m'.phys.pte t.space.pgdir vp).u = (m.phys.pte t.space.pgdir vp).u)
      (copy : ∀ vp < NUPAGES, m'.phys.content c.space.pgdir vp = m.phys.content t.space.pgdir vp)
      (views : m.Views m') (fewer : m.Fewer m') (calm : m'.phys.oom = m.phys.oom)
      (rest : m'.apstacks = m.apstacks ∧ m'.pipes = m.pipes) : ForkOutcome m p t m'

theorem fork_spec (inv : MemInv m) {p : Nat} {t : Tenant} (used : m.slot p = some t) (alive : t.zombie = false) :
    ∃ m', m.fork p t = .ok m' ∧ ForkOutcome m p t m' := by
  unfold Mem.fork
  by_cases many : m.pgdirUsers t.space.pgdir > 1
  · rw [if_pos many]
    exact ⟨m, rfl, .failed m inv rfl rfl (fun _ _ _ _ => rfl) (fun _ _ _ _ _ there => there) (Or.inl many)⟩
  rw [if_neg many]
  obtain ⟨r, m1, alloc, outcome⟩ := allocproc_spec inv
  rw [alloc]
  cases outcome with
  | full all =>
    exact ⟨m, rfl, .failed m inv rfl rfl (fun _ _ _ _ => rfl) (fun _ _ _ _ _ there => there) (Or.inr (Or.inl all))⟩
  | short empty =>
    exact ⟨_, rfl, .failed _ inv.oom rfl rfl (fun _ _ _ _ => rfl) (fun _ _ _ _ _ there => there)
      (Or.inr (Or.inr ⟨rfl, by rw [empty]; decide⟩))⟩
  | made np kstack s1 free new frames1 keeps1 calm1 spent =>
    have hd := inv.tidy.dir_mem used
    have few : m.dirs.card < 65534 := by
      have := Mem.Tidy.card_dirs m
      simp only [NPROC] at this
      omega
    obtain ⟨r, s2, cow, outcome⟩ := cowuvm_spec frames1 hd few (Nat.le_of_lt (inv.tidy.small p t used))
    simp only
    rw [cow, ok_bind]
    cases outcome with
    | failed _ frames2 protects short tight =>
      obtain ⟨free', frames3⟩ := frames2.kfree_own new
      have keeps3 : KeepsOff m.dirs (fun _ _ => False) s2 (s2.drop kstack) :=
        frames2.keeps_of_apart _ (frames2.own_apart (Finset.mem_insert_self kstack m.own))
          fun g ne => drop_page_ne ne
      have views : m.Views { m with phys := s2.drop kstack } := by
        intro d hd' vp hv
        rw [show ({ m with phys := s2.drop kstack } : Mem).phys = s2.drop kstack from rfl,
          keeps3.content hd' hv not_false, protects.content hd' hv, keeps1.content hd' hv not_false]
      simp only
      rw [free', ok_bind]
      have fewer : ∀ d ∈ m.dirs, ∀ vp < NUPAGES, ((s2.drop kstack).pte d vp).p = true →
          (m.phys.pte d vp).p = true := by
        intro d hd' vp hv there
        have lt := Nat.lt_of_lt_of_le hv pages_lt
        rw [keeps3.pte d hd' vp lt not_false, (protects.present hd' lt).1, keeps1.pte d hd' vp lt not_false] at there
        exact there
      exact ⟨_, rfl, .failed _ (inv.withPhys frames3 fun d hd' vp hv there => Or.inl (fewer d hd' vp hv there)) rfl rfl
        views (fun d hd' _ => fewer d hd') (Or.inr (Or.inr ⟨short, by omega⟩))⟩
    | made d _ fresh new' frames2 inherits protects calm2 budget =>
      have ownDir : t.space.pgdir ≠ d := fun same => fresh (same ▸ hd)
      obtain ⟨tidy', dirs', own'⟩ := inv.tidy.add (t := ⟨⟨d, t.space.sz⟩, kstack, some p, false, false⟩) free s2
        used alive rfl rfl nofun (inv.tidy.small p t used)
        (fun same => fresh (by rw [show d = m.kpgdir from same]; exact inv.tidy.kernel_mem))
        (fun i v was same => (fresh (by rw [← show v.space.pgdir = d from same]; exact inv.tidy.dir_mem was)).elim) new
      have present : ∀ e ∈ m.dirs, ∀ vp < NUPAGES, (s2.pte e vp).p = (m.phys.pte e vp).p ∧
          (s2.pte e vp).u = (m.phys.pte e vp).u := by
        intro e he vp hv
        have lt := Nat.lt_of_lt_of_le hv pages_lt
        obtain ⟨p', -, u'⟩ := protects.present he lt
        rw [p', u', keeps1.pte e he vp lt not_false]
        exact ⟨rfl, rfl⟩
      have views : ∀ e ∈ m.dirs, ∀ vp < NUPAGES, s2.content e vp = m.phys.content e vp := by
        intro e he vp hv
        rw [protects.content he hv, keeps1.content he hv not_false]
      have beyond : ∀ vp < NUPAGES, t.space.sz ≤ 4096 * vp → (s2.pte d vp).p = false :=
        fun vp hv above => inherits.absent vp hv (Or.inl (by omega))
      have below : ∀ vp < NUPAGES, (s2.pte t.space.pgdir vp).p = true → vp < (t.space.sz + 4095) / 4096 := by
        intro vp hv there
        by_contra above
        rw [(present _ hd vp hv).1, inv.trim used hv (by omega)] at there
        cases there
      have same : ∀ vp < NUPAGES, (s2.pte t.space.pgdir vp).p = true → s2.pte d vp = s2.pte t.space.pgdir vp :=
        fun vp hv there => inherits.copied vp hv (below vp hv there) there
      refine ⟨_, rfl, .made _ np _ ⟨tidy', ?_, ?_⟩ (by omega) free rfl fresh rfl rfl rfl ?_ ?_ views
        (fun e he _ vp hv there => (present e he vp hv).1.symm.trans there) (calm2.trans calm1) ⟨rfl, rfl⟩⟩
      · rw [dirs', own']
        exact frames2
      · intro e he vp hv there
        rw [dirs', Finset.mem_insert] at he
        rcases he with rfl | old
        · refine ⟨np, _, Function.update_self .., rfl, ?_⟩
          by_contra above
          cases (beyond vp hv (by simpa using above)).symm.trans there
        · obtain ⟨i, v, was, rest⟩ := inv.below e old vp hv ((present e old vp hv).1.symm.trans there)
          exact ⟨i, v, Mem.Tidy.keep free was _, rest⟩
      · intro vp hv there
        -- the two directories map one frame, so its entries are read-only
        have hd' := Finset.mem_insert_of_mem hd (b := d)
        have here := Finset.mem_insert_self d m.dirs
        have parent : (s2.pte t.space.pgdir vp).p = true := (present _ hd vp hv).1.trans there
        have child := same vp hv parent
        have mapped : s2.userTarget t.space.pgdir vp = some (s2.pte t.space.pgdir vp).frame :=
          target_some.mpr ⟨parent, rfl⟩
        have cowed := frames2.cow_of_shared hd' here ownDir hv hv mapped (by rw [userTarget, child]; exact mapped)
        refine ⟨?_, ?_, ?_, parent, cowed, (present _ hd vp hv).2⟩
        · exact (congrArg (fun e : Pte => e.p) child).trans parent
        · exact (congrArg (fun e : Pte => e.cow) child).trans cowed
        · exact (congrArg (fun e : Pte => e.u) child).trans (present _ hd vp hv).2
      · intro vp hv
        rw [← views _ hd vp hv]
        exact inherits.content hv (below vp hv)

theorem clone_spec (inv : MemInv m) {p : Nat} {t : Tenant} (used : m.slot p = some t) (alive : t.zombie = false)
    (stack arg : Nat) : (∃ m', m.clone p t stack arg = .ok m' ∧ MemInv m') ∨
      m.clone p t stack arg = .error .kernelPageFault := by
  unfold Mem.clone
  by_cases odd : stack % PGSIZE ≠ 0
  · rw [if_pos odd]
    exact Or.inl ⟨m, rfl, inv⟩
  rw [if_neg odd]
  by_cases out : stack ≥ t.space.sz ∨ (stack + PGSIZE) % 4294967296 > t.space.sz
  · rw [if_pos out]
    exact Or.inl ⟨m, rfl, inv⟩
  rw [if_neg out]
  have small := inv.tidy.small p t used
  obtain ⟨r, m1, alloc, outcome⟩ := allocproc_spec inv
  rw [alloc]
  cases outcome with
  | full all => exact Or.inl ⟨m, rfl, inv⟩
  | short empty => exact Or.inl ⟨_, rfl, inv.oom⟩
  | made np kstack s1 free new frames1 keeps1 calm1 spent =>
    have hd := inv.tidy.dir_mem used
    have page : stack + PGSIZE ≤ t.space.sz := by
      simp only [PGSIZE, KERNBASE, not_or, Nat.not_le, Nat.not_lt, ge_iff_le, gt_iff_lt] at *
      omega
    have top : ∀ k, 0 < k → k ≤ PGSIZE → stack + PGSIZE - k < t.space.sz ∧ stack + PGSIZE - k < KERNBASE := by
      intro k pos le
      omega
    have at4 := top 4 (by decide) (by decide)
    have at8 := top 8 (by decide) (by decide)
    simp only
    rcases store_spec frames1 t.space.sz hd at4.2 (word arg) with ⟨s2, run2, stored2⟩ | fault
    · rcases store_spec stored2.inv t.space.sz hd at8.2 (word 0xffffffff) with
        ⟨s3, run3, stored3⟩ | fault
      · rw [run2, ok_bind, run3, ok_bind]
        obtain ⟨tidy', dirs', own'⟩ := inv.tidy.add (t := ⟨t.space, kstack, some p, true, false⟩) free s3
          used alive rfl rfl (fun _ => rfl) small (inv.tidy.apart p t used)
          (fun i v was same => inv.tidy.sizes i v p t was used same) new
        rw [Finset.insert_eq_of_mem hd] at dirs'
        -- both stores hit pages below the break
        have fewer : ∀ d ∈ m.dirs, ∀ vp < NUPAGES, (s3.pte d vp).p = true → (m.phys.pte d vp).p = true ∨
            d = t.space.pgdir ∧ 4096 * vp < t.space.sz := by
          intro d hd' vp hv there
          have lt := Nat.lt_of_lt_of_le hv pages_lt
          by_cases low : d = t.space.pgdir ∧ 4096 * vp < t.space.sz
          · exact Or.inr low
          · have away : ∀ k, 0 < k → k ≤ PGSIZE → ¬ (d = t.space.pgdir ∧ vp = (stack + PGSIZE - k) / 4096) := by
              rintro k pos le ⟨same, rfl⟩
              have := (top k pos le).1
              exact low ⟨same, by omega⟩
            rw [stored3.keeps.pte d hd' vp lt (away 8 (by decide) (by decide)),
              stored2.keeps.pte d hd' vp lt (away 4 (by decide) (by decide)),
              keeps1.pte d hd' vp lt not_false] at there
            exact Or.inl there
        refine Or.inl ⟨_, rfl, tidy', by rw [dirs', own']; exact stored3.inv, ?_⟩
        intro d hd' vp hv there
        rw [dirs'] at hd'
        rcases fewer d hd' vp hv there with was | ⟨rfl, low⟩
        · obtain ⟨i, v, use, rest⟩ := inv.below d hd' vp hv was
          exact ⟨i, v, Mem.Tidy.keep free use _, rest⟩
        · exact ⟨p, t, Mem.Tidy.keep free used _, rfl, low⟩
      · rw [run2, ok_bind, fault]
        exact Or.inr rfl
    · rw [fault]
      exact Or.inr rfl

/-- exec keeps the old image, or the process has a new one with a guard page. -/
inductive ExecCall (m : Mem) (p : Nat) (t : Tenant) (ip : List UInt8) (argv : List (List UInt8)) :
    Mem → Prop where
  | failed (m' : Mem) (inv : MemInv m') (slot : m'.slot = m.slot) (fewer : m.Fewer m')
      (why : m.pgdirUsers t.space.pgdir > 1 ∨ ∃ s', m.phys.execImage ip argv = .ok (none, s')) :
      ExecCall m p t ip argv m'
  | done (m' : Mem) (image : Image) (s1 : Phys) (inv : MemInv m')
      (load : m.phys.execImage ip argv = .ok (some image, s1))
      (slot : m'.slot = Function.update m.slot p (some { t with space := ⟨image.pgdir, image.sz⟩ }))
      (pages : ∀ vp < NUPAGES, 4096 * vp < image.sz →
        (m'.phys.pte image.pgdir vp).p = true ∧ (m'.phys.pte image.pgdir vp).w = true)
      (guard : Guarded m'.phys image.pgdir image.sz) (fewer : m.Fewer m')
      (rest : m'.apstacks = m.apstacks ∧ m'.pipes = m.pipes) : ExecCall m p t ip argv m'

theorem exec_spec (inv : MemInv m) {p : Nat} {t : Tenant} (used : m.slot p = some t) (ip : List UInt8)
    (argv : List (List UInt8)) : ∃ m', m.exec p t ip argv = .ok m' ∧ ExecCall m p t ip argv m' := by
  unfold Mem.exec
  by_cases many : m.pgdirUsers t.space.pgdir > 1
  · rw [if_pos many]
    exact ⟨m, rfl, .failed m inv rfl (fun _ _ _ _ _ there => there) (Or.inl many)⟩
  rw [if_neg many]
  have hd := inv.tidy.dir_mem used
  have alone : ∀ j u, m.slot j = some u → u.space.pgdir = t.space.pgdir → j = p :=
    fun j u other same => inv.tidy.alone used other same (by omega)
  obtain ⟨r, s1, run, outcome⟩ := execImage_spec inv.frames ip argv
  rw [run, ok_bind]
  cases outcome with
  | bad _ frames1 keeps =>
    exact ⟨_, rfl, .failed _ (inv.withPhys_keeps frames1 keeps) rfl
      (Mem.Fewer.of_keeps keeps fun _ hd _ => hd) (Or.inr ⟨s1, run⟩)⟩
  | built image _ fresh new frames1 size pages guard keeps =>
    obtain ⟨s2, free, frames2, keeps2, -⟩ := freevm_spec frames1 (Finset.mem_insert_of_mem hd)
    simp only
    rw [free, ok_bind]
    obtain ⟨tidy', dirs', own'⟩ := inv.tidy.move used alone fresh size s2
    have here : image.pgdir ∈ (insert image.pgdir m.dirs).erase t.space.pgdir :=
      Finset.mem_erase.mpr ⟨fun same => fresh (same ▸ hd), Finset.mem_insert_self ..⟩
    have pte : ∀ vp < 1048576, s2.pte image.pgdir vp = s1.pte image.pgdir vp :=
      fun vp hv => keeps2.pte _ here vp hv not_false
    refine ⟨_, rfl, .done _ image s1 ⟨tidy', by rw [dirs', own']; exact frames2, ?_⟩ run rfl ?_ ?_ ?_ ⟨rfl, rfl⟩⟩
    · intro d hd' vp hv (there : (s2.pte d vp).p = true)
      have lt := Nat.lt_of_lt_of_le hv pages_lt
      rw [dirs'] at hd'
      obtain ⟨ne, member⟩ := Finset.mem_erase.mp hd'
      rw [keeps2.pte d hd' vp lt not_false] at there
      rcases Finset.mem_insert.mp member with rfl | old
      · refine ⟨p, _, Function.update_self .., rfl, ?_⟩
        by_contra above
        rw [pages.rest vp hv (by simp only at above; omega)] at there
        cases there
      · rw [keeps.pte d old vp lt not_false] at there
        obtain ⟨i, v, use, same, low⟩ := inv.below d old vp hv there
        have away : i ≠ p := by
          rintro rfl
          rw [used] at use
          cases use
          exact ne same.symm
        exact ⟨i, v, by simp only [Mem.setSlot, Function.update_of_ne away]; exact use, same, low⟩
    · intro vp hv low
      change (s2.pte _ vp).p = true ∧ (s2.pte _ vp).w = true
      rw [pte vp (Nat.lt_of_lt_of_le hv pages_lt)]
      exact pages.full vp hv (by omega)
    · obtain ⟨g, shape, closed⟩ := guard
      refine ⟨g, shape, ?_⟩
      change (s2.pte _ g).u = false
      rw [pte g (by simp only [KERNBASE] at size; omega)]
      exact closed
    · intro d hd' left vp hv (there : (s2.pte d vp).p = true)
      rw [dirs'] at left
      have lt := Nat.lt_of_lt_of_le hv pages_lt
      rw [keeps2.pte d left vp lt not_false, keeps.pte d hd' vp lt not_false] at there
      exact there

inductive SbrkOutcome (m : Mem) (t : Tenant) (n : Int) : Mem → Prop where
  | refused (why : 0 ≤ n ∧ (KERNBASE ≤ Mem.moved t.space.sz n ∨ Mem.moved t.space.sz n < t.space.sz) ∨
      n < 0 ∧ t.space.sz = 0) : SbrkOutcome m t n m
  | grown (up : 0 ≤ n) (more : t.space.sz ≤ Mem.moved t.space.sz n) (fits : Mem.moved t.space.sz n < KERNBASE)
      (inv : MemInv (m.setSize t.space.pgdir (Mem.moved t.space.sz n))) :
      SbrkOutcome m t n (m.setSize t.space.pgdir (Mem.moved t.space.sz n))
  | same (down : n < 0) (wrapped : t.space.sz ≤ Mem.moved t.space.sz n)
      (inv : MemInv (m.setSize t.space.pgdir t.space.sz)) :
      SbrkOutcome m t n (m.setSize t.space.pgdir t.space.sz)
  | emptied (m' : Mem) (inv : MemInv m') (down : n < 0) (zero : Mem.moved t.space.sz n = 0)
      (slot : m'.slot = m.slot) (fewer : m.Fewer m') : SbrkOutcome m t n m'
  | shrunk (m' : Mem) (inv : MemInv m') (down : n < 0) (pos : Mem.moved t.space.sz n ≠ 0)
      (less : Mem.moved t.space.sz n < t.space.sz)
      (slot : m'.slot = (m.setSize t.space.pgdir (Mem.moved t.space.sz n)).slot)
      (views : ∀ d ∈ m.dirs, ∀ vp < NUPAGES, (d = t.space.pgdir → 4096 * vp < Mem.moved t.space.sz n) →
        m'.phys.content d vp = m.phys.content d vp) (fewer : m.Fewer m') (calm : m'.phys.oom = m.phys.oom) :
      SbrkOutcome m t n m'

theorem MemInv.setSize (inv : MemInv m) {sz : Nat} {t : Tenant} (small : sz < KERNBASE) {s' : Phys}
    (frames : FrameInv m.dirs m.own (fun _ => 0) s')
    (fewer : ∀ d ∈ m.dirs, ∀ vp < NUPAGES, (s'.pte d vp).p = true → (m.phys.pte d vp).p = true)
    (top : ∀ vp < NUPAGES, (s'.pte t.space.pgdir vp).p = true → 4096 * vp < sz) :
    MemInv ({ m with phys := s' }.setSize t.space.pgdir sz) := by
  obtain ⟨tidy', dirs', own'⟩ := (inv.tidy.withPhys s').resize t.space.pgdir small
  refine ⟨tidy', by rw [dirs', own']; exact frames, ?_⟩
  intro d hd vp hv there
  rw [dirs'] at hd
  obtain ⟨i, v, use, same, low⟩ := inv.below d hd vp hv (fewer d hd vp hv there)
  refine ⟨i, _, (Mem.Tidy.setSize_slot _ _ _ i _).mpr ⟨v, use, rfl⟩, ?_⟩
  by_cases here : v.space.pgdir = t.space.pgdir
  · rw [if_pos here]
    refine ⟨here.symm.trans same, top vp hv ?_⟩
    rw [← here, same]
    exact there
  · rw [if_neg here]
    exact ⟨same, low⟩

theorem sbrk_spec (inv : MemInv m) {p : Nat} {t : Tenant} (used : m.slot p = some t) (n : Int) :
    ∃ m', m.sbrk t n = .ok m' ∧ SbrkOutcome m t n m' := by
  have hd := inv.tidy.dir_mem used
  have small := inv.tidy.small p t used
  have low : ∀ vp < NUPAGES, (m.phys.pte t.space.pgdir vp).p = true → 4096 * vp < t.space.sz := by
    intro vp hv there
    by_contra above
    rw [inv.trim used hv (by omega)] at there
    cases there
  unfold Mem.sbrk
  by_cases down : n < 0
  · rw [if_pos down]
    by_cases less : Mem.moved t.space.sz n < t.space.sz
    · obtain ⟨s', run, frames, keeps, calm, -, clear⟩ :=
        deallocuvm_spec inv.frames hd (Nat.le_of_lt small) less
      rw [run, ok_bind]
      simp only
      have round : pgroundup (Mem.moved t.space.sz n) / 4096 = (Mem.moved t.space.sz n + 4095) / 4096 :=
        pgroundup_pages (by omega)
      have gone : ∀ vp < NUPAGES, (s'.pte t.space.pgdir vp).p = true →
          4096 * vp < Mem.moved t.space.sz n ∧ (m.phys.pte t.space.pgdir vp).p = true := by
        intro vp hv there
        by_cases inside : pgroundup (Mem.moved t.space.sz n) ≤ vp * 4096 ∧ vp * 4096 < t.space.sz
        · have none := target_none.mp (clear vp inside.1 inside.2)
          rw [there] at none
          cases none
        · rw [keeps.pte _ hd vp (Nat.lt_of_lt_of_le hv pages_lt) (by
            rintro ⟨-, a, b⟩
            refine inside ⟨?_, b⟩
            simp only [pgroundup, PGSIZE] at *
            omega)] at there
          have := low vp hv there
          refine ⟨?_, there⟩
          simp only [pgroundup, PGSIZE, KERNBASE] at *
          omega
      have fewer : ∀ d ∈ m.dirs, ∀ vp < NUPAGES, (s'.pte d vp).p = true → (m.phys.pte d vp).p = true := by
        intro d hd' vp hv there
        by_cases here : d = t.space.pgdir
        · subst here
          exact (gone vp hv there).2
        · rw [keeps.pte d hd' vp (Nat.lt_of_lt_of_le hv pages_lt) (fun range => here range.1)] at there
          exact there
      by_cases zero : Mem.moved t.space.sz n = 0
      · rw [if_pos zero]
        exact ⟨_, rfl, .emptied _ (inv.withPhys frames fun d hd' vp hv there => Or.inl (fewer d hd' vp hv there))
          down zero rfl fun d hd' _ => fewer d hd'⟩
      · rw [if_neg zero]
        refine ⟨_, rfl, .shrunk _ (inv.setSize (by omega) frames fewer fun vp hv there => (gone vp hv there).1)
          down zero less rfl ?_ (fun d hd' _ => fewer d hd') calm⟩
        intro d hd' vp hv below
        refine keeps.content hd' hv ?_
        rintro ⟨same, above, -⟩
        have := below same
        omega
    · rw [show m.phys.deallocuvm t.space.pgdir t.space.sz (Mem.moved t.space.sz n) = .ok (t.space.sz, m.phys) by
        rw [Phys.deallocuvm, if_pos (Nat.not_lt.mp less)], ok_bind]
      simp only
      by_cases zero : t.space.sz = 0
      · rw [if_pos zero]
        exact ⟨_, rfl, .refused (Or.inr ⟨down, zero⟩)⟩
      · rw [if_neg zero]
        refine ⟨_, rfl, .same down (Nat.not_lt.mp less) ?_⟩
        exact inv.setSize small inv.frames (fun _ _ _ _ there => there) low
  · rw [if_neg down]
    by_cases out : Mem.moved t.space.sz n ≥ KERNBASE ∨ Mem.moved t.space.sz n < t.space.sz
    · rw [if_pos out]
      exact ⟨m, rfl, .refused (Or.inl ⟨Int.not_lt.mp down, out⟩)⟩
    · rw [if_neg out]
      refine ⟨_, rfl, .grown (by omega) (by omega) (by omega) ?_⟩
      refine inv.setSize (by omega) inv.frames (fun _ _ _ _ there => there) ?_
      intro vp hv there
      have := low vp hv there
      omega

/-- What an access does: afterwards every process reads what it read before, except that
    a byte written at va is the new byte for the threads on that directory. -/
structure Accessed (m : Mem) (t : Tenant) (va : Nat) (wr u : Bool) (b : UInt8) (m' : Mem) : Prop where
  inv : MemInv m'
  slot : m'.slot = m.slot
  dirs : m'.dirs = m.dirs
  others : ∀ d ∈ m.dirs, ∀ vp < NUPAGES, ¬ (d = t.space.pgdir ∧ vp = va / 4096) →
    m'.phys.content d vp = m.phys.content d vp
  here : m'.phys.content t.space.pgdir (va / 4096) = m.phys.content t.space.pgdir (va / 4096) ∨
    wr = true ∧ m'.phys.content t.space.pgdir (va / 4096) =
      Function.update (m.phys.content t.space.pgdir (va / 4096)) (va % 4096) b
  complete : va < t.space.sz → m'.phys.oom = false →
    (u = true → (m.phys.pte t.space.pgdir (va / 4096)).p = true →
      (m.phys.pte t.space.pgdir (va / 4096)).u = true) → wr = true →
    m'.phys.content t.space.pgdir (va / 4096) =
      Function.update (m.phys.content t.space.pgdir (va / 4096)) (va % 4096) b

theorem access_spec (inv : MemInv m) {p va : Nat} {t : Tenant} (used : m.slot p = some t) (user : va < KERNBASE)
    (wr u : Bool) (b : UInt8) : (∃ m', m.access t va wr u b = .ok m' ∧ Accessed m t va wr u b m') ∨
      m.access t va wr u b = .error .kernelPageFault := by
  have hd := inv.tidy.dir_mem used
  have hv : va / 4096 < NUPAGES := by
    simp only [KERNBASE, NUPAGES] at *
    omega
  obtain ⟨done, s1, run, touched⟩ := touch_spec inv.frames t.space.sz hd user wr u
  have inv1 := inv.stored used ⟨touched.inv, touched.keeps, touched.present⟩
  unfold Mem.access
  rw [if_pos user, run, ok_bind]
  simp only [found_eq_pte]
  cases fine : done with
  | false =>
    rw [if_neg Bool.false_ne_true]
    cases asUser : u with
    | false =>
      rw [if_neg Bool.false_ne_true]
      exact Or.inr rfl
    | true =>
      rw [if_pos rfl]
      refine Or.inl ⟨_, rfl, inv1, rfl, rfl, fun d hd' vp hv' _ => touched.content d hd' vp hv',
        Or.inl (touched.content _ hd _ hv), ?_⟩
      intro below calm legal _
      have := touched.complete below calm (fun _ => legal rfl)
      rw [fine] at this
      cases this
  | true =>
    rw [if_pos rfl]
    cases write : wr with
    | false =>
      rw [if_neg Bool.false_ne_true]
      exact Or.inl ⟨_, rfl, inv1, rfl, rfl, fun d hd' vp hv' _ => touched.content d hd' vp hv',
        Or.inl (touched.content _ hd _ hv), fun _ _ _ asWrite => by cases asWrite⟩
    | true =>
      rw [if_pos rfl]
      have stored := touched.write fine write hd hv
        (.bytes (Function.update (s1.page (s1.pte t.space.pgdir (va / 4096)).frame).byte (va % PGSIZE) b))
      obtain ⟨present, writable, -⟩ := Pte.permits_iff.mp (touched.permits fine)
      have pte2 := (touched.inv.write_user hd hv present (writable write)
        (.bytes (Function.update (s1.page (s1.pte t.space.pgdir (va / 4096)).frame).byte (va % PGSIZE) b))).2
      have now : (s1.setByte (s1.pte t.space.pgdir (va / 4096)).frame (va % PGSIZE) b).content t.space.pgdir (va / 4096) =
          Function.update (m.phys.content t.space.pgdir (va / 4096)) (va % 4096) b := by
        rw [← touched.content _ hd _ hv]
        have same := pte2.1 _ hd (va / 4096)
        unfold Phys.content Phys.setByte
        rw [same, present]
        simp only [↓reduceIte, setPage_page, Function.update_self, PGSIZE]
        rfl
      refine Or.inl ⟨_, rfl, inv.stored used stored, rfl, rfl, ?_, Or.inr ⟨rfl, now⟩, fun _ _ _ _ => now⟩
      intro d hd' vp hv' away
      rw [← touched.content d hd' vp hv']
      exact pte2.2.content hd' hv' away

structure Reaped (m : Mem) (q : Nat) (m' : Mem) : Prop where
  inv : MemInv m'
  slot : m'.slot = Function.update m.slot q none
  views : ∀ i t, m'.slot i = some t → ∀ vp < NUPAGES,
    m'.phys.content t.space.pgdir vp = m.phys.content t.space.pgdir vp
  fewer : m.Fewer m'
  calm : m'.phys.oom = m.phys.oom

theorem free_stack (inv : MemInv m) {q : Nat} {t : Tenant} (used : m.slot q = some t) :
    ∃ s', m.phys.kfree t.kstack = .ok s' ∧ FrameInv m.dirs (m.own.erase t.kstack) (fun _ => 0) s' ∧
      KeepsOff m.dirs (fun _ _ => False) m.phys s' ∧ s'.oom = m.phys.oom := by
  have member := inv.tidy.stack_mem used
  have frames := inv.frames
  rw [← Finset.insert_erase member] at frames
  obtain ⟨run, frames'⟩ := frames.kfree_own (Finset.notMem_erase _ _)
  refine ⟨_, run, frames', ?_, rfl⟩
  exact inv.frames.keeps_of_apart _ (inv.frames.own_apart member) fun g ne => drop_page_ne ne

theorem reap_shared (inv : MemInv m) {q : Nat} {t : Tenant} (used : m.slot q = some t) (dead : t.zombie = true)
    (shared : ∃ j u, m.slot j = some u ∧ u.space.pgdir = t.space.pgdir ∧ j ≠ q) {s' : Phys}
    (frames : FrameInv m.dirs (m.own.erase t.kstack) (fun _ => 0) s')
    (keeps : KeepsOff m.dirs (fun _ _ => False) m.phys s') (calm : s'.oom = m.phys.oom) :
    Reaped m q ({ m with phys := s' }.setSlot q none) := by
  obtain ⟨tidy', own', dirs', -⟩ := inv.tidy.remove used dead s'
  refine ⟨⟨tidy', by rw [dirs' shared, own']; exact frames, ?_⟩, rfl, ?_,
    Mem.Fewer.of_keeps keeps fun _ hd _ => hd, calm⟩
  · intro d hd vp hv (there : (s'.pte d vp).p = true)
    rw [dirs' shared] at hd
    rw [keeps.pte d hd vp (Nat.lt_of_lt_of_le hv pages_lt) not_false] at there
    obtain ⟨i, v, use, same, low⟩ := inv.below d hd vp hv there
    by_cases here : i = q
    · subst here
      rw [used] at use
      cases use
      obtain ⟨j, u, other, eq, away⟩ := shared
      refine ⟨j, u, ?_, eq.trans same, ?_⟩
      · simp only [Mem.setSlot, Function.update_of_ne away]
        exact other
      · rw [inv.tidy.sizes j u i t other used eq]
        exact low
    · exact ⟨i, v, by simp only [Mem.setSlot, Function.update_of_ne here]; exact use, same, low⟩
  · intro i v use vp hv
    refine keeps.content (d := v.space.pgdir) ?_ hv not_false
    rw [← dirs' shared]
    exact tidy'.dir_mem use

theorem wait_spec (inv : MemInv m) (p : Nat) : ∃ m', m.wait p = .ok m' ∧
    (m.scan (Mem.isZombieOf p) = none ∧ m' = m ∨
      ∃ q t, m.scan (Mem.isZombieOf p) = some q ∧ m.slot q = some t ∧ t.zombie = true ∧ Reaped m q m') := by
  unfold Mem.wait
  cases found : m.scan (Mem.isZombieOf p) with
  | none => exact ⟨m, rfl, Or.inl ⟨rfl, rfl⟩⟩
  | some q =>
    simp only
    have test := (Mem.Tidy.scan_some found).2
    cases used : m.slot q with
    | none =>
      rw [used] at test
      cases test
    | some t =>
      rw [used] at test
      have child : t.parent = some p ∧ t.zombie = true := by simpa [Mem.isZombieOf] using test
      obtain ⟨s1, run1, frames1, keeps1, calm1⟩ := free_stack inv used
      simp only
      rw [run1, ok_bind]
      by_cases last : m.pgdirUsers t.space.pgdir = 1
      · rw [if_pos last]
        have hd := inv.tidy.dir_mem used
        have alone : ∀ j u, m.slot j = some u → u.space.pgdir = t.space.pgdir → j = q :=
          fun j u other same => inv.tidy.alone used other same (by omega)
        obtain ⟨s2, run2, frames2, keeps2, calm2, -⟩ := freevm_spec frames1 hd
        rw [run2, ok_bind]
        obtain ⟨tidy', own', -, dirs'⟩ := inv.tidy.remove used child.2 s2
        have dirs' := dirs' alone
        have keeps : KeepsOff (m.dirs.erase t.space.pgdir) (fun _ _ => False) m.phys s2 :=
          (keeps1.subset (Finset.erase_subset _ _)).trans keeps2
        refine ⟨_, rfl, Or.inr ⟨q, t, rfl, used, child.2, ⟨tidy', by rw [dirs', own']; exact frames2, ?_⟩, rfl, ?_,
          Mem.Fewer.of_keeps keeps fun _ _ left => dirs' ▸ left, calm2.trans calm1⟩⟩
        · intro d hd' vp hv (there : (s2.pte d vp).p = true)
          rw [dirs'] at hd'
          rw [keeps.pte d hd' vp (Nat.lt_of_lt_of_le hv pages_lt) not_false] at there
          obtain ⟨ne, old⟩ := Finset.mem_erase.mp hd'
          obtain ⟨i, v, use, same, low⟩ := inv.below d old vp hv there
          have away : i ≠ q := by
            rintro rfl
            rw [used] at use
            cases use
            exact ne same.symm
          exact ⟨i, v, by simp only [Mem.setSlot, Function.update_of_ne away]; exact use, same, low⟩
        · intro i v use vp hv
          refine keeps.content (d := v.space.pgdir) ?_ hv not_false
          rw [← dirs']
          exact tidy'.dir_mem use
      · rw [if_neg last, ok_bind]
        exact ⟨_, rfl, Or.inr ⟨q, t, rfl, used, child.2,
          reap_shared inv used child.2 (inv.tidy.shared used last) frames1 keeps1 calm1⟩⟩

theorem join_spec (inv : MemInv m) {p : Nat} {v : Tenant} (caller : m.slot p = some v) (alive : v.zombie = false) :
    ∃ m', m.join p = .ok m' ∧ (m' = m ∨ ∃ q t, m.slot q = some t ∧ t.zombie = true ∧ Reaped m q m') := by
  unfold Mem.join
  by_cases first : p = m.initproc
  · rw [if_pos first]
    exact ⟨m, rfl, Or.inl rfl⟩
  rw [if_neg first]
  cases found : m.scan fun c => Mem.isZombieOf p c && c.any Tenant.isthread with
  | none => exact ⟨m, rfl, Or.inl rfl⟩
  | some q =>
    simp only
    have test := (Mem.Tidy.scan_some found).2
    cases used : m.slot q with
    | none => exact ⟨m, rfl, Or.inl rfl⟩
    | some t =>
      rw [used] at test
      have child : (t.parent = some p ∧ t.zombie = true) ∧ t.isthread = true := by
        simpa [Mem.isZombieOf] using test
      obtain ⟨s1, run1, frames1, keeps1, calm1⟩ := free_stack inv used
      simp only
      rw [run1, ok_bind]
      -- the creator is still on the directory
      obtain ⟨u, there, -, thread⟩ := inv.tidy.kin q t p used child.1.1
      have away : p ≠ q := by
        rintro rfl
        rw [caller] at used
        cases used
        rw [alive] at child
        cases child.1.2
      exact ⟨_, rfl, Or.inr ⟨q, t, used, child.1.2, reap_shared inv used child.1.2
        ⟨p, u, there, thread child.2 first, away⟩ frames1 keeps1 calm1⟩⟩

theorem exit_spec (inv : MemInv m) {p : Nat} {t : Tenant} (used : m.slot p = some t) :
    (∃ m', m.exit p t = .ok m' ∧ MemInv m' ∧ m'.phys = m.phys ∧
      (∀ i, (m'.slot i).map Tenant.space = (m.slot i).map Tenant.space) ∧
      ∀ i, i ≠ p → (m'.slot i).map Tenant.zombie = (m.slot i).map Tenant.zombie) ∨
      m.exit p t = .error .initExiting := by
  by_cases first : p = m.initproc
  · right
    rw [Mem.exit, if_pos first]
  · obtain ⟨m', run, tidy', dirs', own', phys', spaces, others⟩ := inv.tidy.leave used first
    refine Or.inl ⟨m', run, ⟨tidy', by rw [dirs', own', phys']; exact inv.frames, ?_⟩, phys', spaces, others⟩
    intro d hd vp hv there
    rw [dirs'] at hd
    rw [phys'] at there
    obtain ⟨i, v, use, same, low⟩ := inv.below d hd vp hv there
    have here := spaces i
    rw [use, Option.map_some] at here
    obtain ⟨w, use', eq⟩ := Option.map_eq_some_iff.mp here
    exact ⟨i, w, use', by rw [eq]; exact same, by rw [eq]; exact low⟩

theorem pipealloc_spec (inv : MemInv m) : ∃ m', m.step .pipealloc = .ok m' ∧ MemInv m' ∧ m'.slot = m.slot ∧
    m.Fewer m' := by
  simp only [Mem.step]
  cases list : m.phys.freelist with
  | nil =>
    simp only [kalloc_nil list]
    exact ⟨_, rfl, inv.oom, rfl, fun _ _ _ _ _ there => there⟩
  | cons f next =>
    simp only [kalloc_cons list]
    obtain ⟨-, kern, -⟩ := inv.frames.fresh (f := f) (by simp [list])
    have new := (FrameInv.kernelRefs_zero kern).2.2
    have tidy' : Mem.Tidy { m with phys := m.phys.pop f next, pipes := insert f m.pipes } := by
      refine ⟨inv.tidy.low, inv.tidy.root, inv.tidy.small, inv.tidy.apart, inv.tidy.sizes, inv.tidy.once, ?_, ?_,
        inv.tidy.kin⟩
      · intro i t used
        obtain ⟨pipe, ap⟩ := inv.tidy.owners i t used
        refine ⟨?_, ap⟩
        intro member
        rcases Finset.mem_insert.mp member with same | old
        · exact new (same ▸ inv.tidy.stack_mem used)
        · exact pipe old
      · intro g member
        rcases Finset.mem_insert.mp member with rfl | old
        · intro ap
          exact new (inv.tidy.mem_own.mpr (Or.inl ap))
        · exact inv.tidy.disjoint g old
    have own' : Mem.own { m with phys := m.phys.pop f next, pipes := insert f m.pipes } = insert f m.own := by
      simp only [Mem.own]
      rw [Finset.union_insert, Finset.insert_union]
    have keeps : KeepsOff m.dirs (fun _ _ => False) m.phys (m.phys.pop f next) :=
      inv.frames.keeps_of_held _ fun _ _ => rfl
    refine ⟨_, rfl, ⟨tidy', by rw [own']; exact inv.frames.kalloc list, ?_⟩, rfl,
      Mem.Fewer.of_keeps keeps fun _ hd _ => hd⟩
    intro d hd vp hv there
    rw [show ({ m with phys := m.phys.pop f next, pipes := insert f m.pipes } : Mem).phys = m.phys.pop f next from rfl,
      keeps.pte d hd vp (Nat.lt_of_lt_of_le hv pages_lt) not_false] at there
    exact inv.below d hd vp hv there

theorem pipeclose_spec (inv : MemInv m) (f : Nat) : ∃ m', m.step (.pipeclose f) = .ok m' ∧ MemInv m' ∧
    m'.slot = m.slot ∧ m.Fewer m' := by
  simp only [Mem.step]
  by_cases pipe : f ∈ m.pipes
  · rw [if_pos pipe]
    have member : f ∈ m.own := inv.tidy.mem_own.mpr (Or.inr (Or.inl pipe))
    have frames := inv.frames
    rw [← Finset.insert_erase member] at frames
    obtain ⟨run, frames'⟩ := frames.kfree_own (Finset.notMem_erase _ _)
    rw [run, ok_bind]
    have keeps : KeepsOff m.dirs (fun _ _ => False) m.phys (m.phys.drop f) :=
      inv.frames.keeps_of_apart _ (inv.frames.own_apart member) fun g ne => drop_page_ne ne
    have tidy' : Mem.Tidy { m with phys := m.phys.drop f, pipes := m.pipes.erase f } := by
      refine ⟨inv.tidy.low, inv.tidy.root, inv.tidy.small, inv.tidy.apart, inv.tidy.sizes, inv.tidy.once, ?_, ?_,
        inv.tidy.kin⟩
      · intro i t used
        obtain ⟨pipe', ap⟩ := inv.tidy.owners i t used
        exact ⟨fun old => pipe' (Finset.mem_of_mem_erase old), ap⟩
      · intro g old
        exact inv.tidy.disjoint g (Finset.mem_of_mem_erase old)
    have own' : Mem.own { m with phys := m.phys.drop f, pipes := m.pipes.erase f } = m.own.erase f := by
      ext g
      rw [tidy'.mem_own, Finset.mem_erase (s := m.own), inv.tidy.mem_own]
      constructor
      · rintro (ap | old | ⟨i, t, used, rfl⟩)
        · exact ⟨fun same => inv.tidy.disjoint f pipe (same ▸ ap), Or.inl ap⟩
        · exact ⟨Finset.ne_of_mem_erase old, Or.inr (Or.inl (Finset.mem_of_mem_erase old))⟩
        · exact ⟨fun same => (inv.tidy.owners i t used).1 (same ▸ pipe), Or.inr (Or.inr ⟨i, t, used, rfl⟩)⟩
      · rintro ⟨ne, ap | old | ⟨i, t, used, rfl⟩⟩
        · exact Or.inl ap
        · exact Or.inr (Or.inl (Finset.mem_erase.mpr ⟨ne, old⟩))
        · exact Or.inr (Or.inr ⟨i, t, used, rfl⟩)
    refine ⟨_, rfl, ⟨tidy', by rw [own']; exact frames', ?_⟩, rfl, Mem.Fewer.of_keeps keeps fun _ hd _ => hd⟩
    intro d hd vp hv there
    rw [show ({ m with phys := m.phys.drop f, pipes := m.pipes.erase f } : Mem).phys = m.phys.drop f from rfl,
      keeps.pte d hd vp (Nat.lt_of_lt_of_le hv pages_lt) not_false] at there
    exact inv.below d hd vp hv there
  · rw [if_neg pipe]
    exact ⟨m, rfl, inv, rfl, fun _ _ _ _ _ there => there⟩

/-- The result of a call keeps P, or it is one of the two panics that remain. -/
def Mem.Safe (P : Mem → Prop) (r : Except Panic Mem) : Prop :=
  (∃ m', r = .ok m' ∧ P m') ∨ r = .error .kernelPageFault ∨ r = .error .initExiting

omit [Layout] in
theorem Mem.running_cases (m : Mem) (p : Nat) {P : Except Panic Mem → Prop} {k : Tenant → Except Panic Mem}
    (idle : P (.ok m)) (busy : ∀ t, m.slot p = some t → t.zombie = false → P (k t)) : P (m.running p k) := by
  unfold Mem.running
  cases used : m.slot p with
  | none => exact idle
  | some t =>
    simp only
    split
    · rename_i runs
      exact busy t used (by simpa using runs.2)
    · exact idle

theorem MemInv.step (inv : MemInv m) (op : Op) : Mem.Safe MemInv (m.step op) := by
  have idle : Mem.Safe MemInv (.ok m) := Or.inl ⟨m, rfl, inv⟩
  cases op with
  | fork p =>
    refine Mem.running_cases m p idle fun t used alive => Or.inl ?_
    obtain ⟨m', run, outcome⟩ := fork_spec inv used alive
    refine ⟨m', run, ?_⟩
    cases outcome with
    | failed inv' => assumption
    | made np c inv' => assumption
  | clone p stack arg =>
    refine Mem.running_cases m p idle fun t used alive => ?_
    rcases clone_spec inv used alive stack arg with done | fault
    · exact Or.inl done
    · exact Or.inr (Or.inl fault)
  | exec p ip argv =>
    refine Mem.running_cases m p idle fun t used _ => Or.inl ?_
    obtain ⟨m', run, outcome⟩ := exec_spec inv used ip argv
    refine ⟨m', run, ?_⟩
    cases outcome with
    | failed inv' => assumption
    | done image s1 inv' => assumption
  | sbrk p n =>
    refine Mem.running_cases m p idle fun t used _ => Or.inl ?_
    obtain ⟨m', run, outcome⟩ := sbrk_spec inv used n
    refine ⟨m', run, ?_⟩
    cases outcome with
    | refused => exact inv
    | grown _ _ _ inv' => exact inv'
    | same _ _ inv' => exact inv'
    | emptied inv' => assumption
    | shrunk inv' => assumption
  | access p va wr u b =>
    refine Mem.running_cases m p idle fun t used _ => ?_
    by_cases user : va < KERNBASE
    · rcases access_spec inv used user wr u b with ⟨m', run, accessed⟩ | fault
      · exact Or.inl ⟨m', run, accessed.inv⟩
      · exact Or.inr (Or.inl fault)
    · rw [Mem.access, if_neg user]
      exact idle
  | exit p =>
    refine Mem.running_cases m p idle fun t used _ => ?_
    rcases exit_spec inv used with ⟨m', run, inv', -⟩ | first
    · exact Or.inl ⟨m', run, inv'⟩
    · exact Or.inr (Or.inr first)
  | wait p =>
    refine Mem.running_cases m p idle fun t used _ => Or.inl ?_
    obtain ⟨m', run, ⟨-, rfl⟩ | ⟨q, c, -, -, -, reaped⟩⟩ := wait_spec inv p
    · exact ⟨_, run, inv⟩
    · exact ⟨m', run, reaped.inv⟩
  | join p =>
    refine Mem.running_cases m p idle fun t used alive => Or.inl ?_
    obtain ⟨m', run, rfl | ⟨q, c, -, -, reaped⟩⟩ := join_spec inv used alive
    · exact ⟨_, run, inv⟩
    · exact ⟨m', run, reaped.inv⟩
  | pipealloc =>
    obtain ⟨m', run, inv', -⟩ := pipealloc_spec inv
    exact Or.inl ⟨m', run, inv'⟩
  | pipeclose f =>
    obtain ⟨m', run, inv', -⟩ := pipeclose_spec inv f
    exact Or.inl ⟨m', run, inv'⟩

end
end Xv6
