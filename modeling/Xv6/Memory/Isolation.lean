import Xv6.Memory.Threads

/-!
Isolation. Between its own calls a process reads the same memory, whatever the other
processes do: their calls and faults keep its entries and the pages behind them.
-/
namespace Xv6
open Phys

/-- The process in slot i goes on with the address space and the memory that t has in m. -/
def Mem.Spared (m : Mem) (i : Nat) (t : Tenant) (m' : Mem) : Prop :=
  ∃ t', m'.slot i = some t' ∧ t'.space = t.space ∧ t'.zombie = false ∧
    ∀ vp < NUPAGES, m'.phys.content t.space.pgdir vp = m.phys.content t.space.pgdir vp

section
variable [Layout] {m m' : Mem} {i p : Nat} {t u : Tenant}

namespace Mem.Spared

omit [Layout] in
theorem same (mine : m.slot i = some t) (alive : t.zombie = false) : m.Spared i t m :=
  ⟨t, mine, rfl, alive, fun _ _ => rfl⟩

variable (inv : MemInv m) (mine : m.slot i = some t) (alive : t.zombie = false)
include inv mine alive

theorem of_keeps {off : Nat → Nat → Prop} (keeps : KeepsOff m.dirs off m.phys m'.phys)
    (out : ∀ vp, ¬ off t.space.pgdir vp) (slot : m'.slot i = some t) : m.Spared i t m' :=
  ⟨t, slot, rfl, alive, fun _ hv => keeps.content (inv.tidy.dir_mem mine) hv (out _)⟩

theorem fork (outcome : ForkOutcome m p u m') : m.Spared i t m' := by
  have hd := inv.tidy.dir_mem mine
  cases outcome with
  | failed _ slot _ views => exact ⟨t, by rw [slot, mine], rfl, alive, views _ hd⟩
  | made np c _ _ free slot _ _ _ _ _ _ views =>
    exact ⟨t, by rw [slot]; exact Mem.Tidy.keep free mine _, rfl, alive, views _ hd⟩

theorem clone (caller : m.slot p = some u) (apart : u.space.pgdir ≠ t.space.pgdir) {stack arg : Nat}
    (done : m.clone p u stack arg = .ok m') : m.Spared i t m' := by
  have hd := inv.tidy.dir_mem caller
  have small := inv.tidy.small p u caller
  unfold Mem.clone at done
  split at done
  · cases done
    exact same mine alive
  split at done
  · cases done
    exact same mine alive
  rename_i inside
  obtain ⟨r, m1, alloc, outcome⟩ := allocproc_spec inv
  rw [alloc] at done
  cases outcome with
  | full =>
    cases done
    exact same mine alive
  | short =>
    cases done
    exact of_keeps inv mine alive (inv.frames.keeps_of_held (fun _ _ => False) fun _ _ => rfl) (fun _ => not_false) mine
  | made np kstack s1 free _ frames1 keeps1 =>
    have top : stack + PGSIZE - 4 < KERNBASE ∧ stack + PGSIZE - 8 < KERNBASE := by
      simp only [PGSIZE, KERNBASE] at *
      omega
    simp only at done
    rcases store_spec frames1 u.space.sz hd top.1 (word arg) with ⟨s2, run2, stored2⟩ | fault
    · rcases store_spec stored2.inv u.space.sz hd top.2 (word 0xffffffff) with ⟨s3, run3, stored3⟩ | fault
      · rw [run2, ok_bind, run3, ok_bind] at done
        cases done
        have off : ∀ vp k : Nat, ¬ (t.space.pgdir = u.space.pgdir ∧ vp = k) := fun _ _ both => apart both.1.symm
        refine ⟨t, Mem.Tidy.keep free mine _, rfl, alive, fun vp hv => ?_⟩
        have home := inv.tidy.dir_mem mine
        exact ((stored3.keeps.content home hv (off _ _)).trans (stored2.keeps.content home hv (off _ _))).trans
          (keeps1.content home hv not_false)
      · rw [run2, ok_bind, fault] at done
        cases done
    · rw [fault] at done
      cases done

theorem exec (caller : m.slot p = some u) (apart : u.space.pgdir ≠ t.space.pgdir) {ip : List UInt8}
    {argv : List (List UInt8)} (done : m.exec p u ip argv = .ok m') : m.Spared i t m' := by
  unfold Mem.exec at done
  split at done
  · cases done
    exact same mine alive
  obtain ⟨r, s1, run, outcome⟩ := execImage_spec inv.frames ip argv
  rw [run, ok_bind] at done
  cases outcome with
  | bad _ _ keeps =>
    cases done
    exact of_keeps inv mine alive keeps (fun _ => not_false) mine
  | built image _ _ _ frames1 _ _ _ keeps =>
    obtain ⟨s2, free, -, keeps2, -⟩ := freevm_spec frames1 (Finset.mem_insert_of_mem (inv.tidy.dir_mem caller))
    simp only at done
    rw [free, ok_bind] at done
    cases done
    have home := inv.tidy.dir_mem mine
    have left : t.space.pgdir ∈ (insert image.pgdir m.dirs).erase u.space.pgdir :=
      Finset.mem_erase.mpr ⟨apart.symm, Finset.mem_insert_of_mem home⟩
    have away : i ≠ p := by
      rintro rfl
      rw [Option.some.inj (caller.symm.trans mine)] at apart
      exact apart rfl
    refine ⟨t, by simp only [Mem.setSlot, Function.update_of_ne away, mine], rfl, alive, fun vp hv => ?_⟩
    exact (keeps2.content left hv not_false).trans (keeps.content home hv not_false)

theorem setSize (apart : u.space.pgdir ≠ t.space.pgdir) {s' : Phys} {off : Nat → Nat → Prop}
    (keeps : KeepsOff m.dirs off m.phys s') (out : ∀ vp, ¬ off t.space.pgdir vp) (sz : Nat) :
    m.Spared i t ({ m with phys := s' }.setSize u.space.pgdir sz) :=
  of_keeps inv mine alive keeps out ((Mem.Tidy.setSize_slot _ _ sz i _).mpr ⟨t, mine, by rw [if_neg apart.symm]⟩)

theorem sbrk (caller : m.slot p = some u) (apart : u.space.pgdir ≠ t.space.pgdir) {n : Int}
    (done : m.sbrk u n = .ok m') : m.Spared i t m' := by
  unfold Mem.sbrk at done
  split at done
  · by_cases less : Mem.moved u.space.sz n < u.space.sz
    · obtain ⟨s', run, -, keeps, -⟩ := deallocuvm_spec inv.frames (inv.tidy.dir_mem caller)
        (Nat.le_of_lt (inv.tidy.small p u caller)) less
      have out : ∀ vp, ¬ inRange u.space.pgdir (pgroundup (Mem.moved u.space.sz n) / 4096) u.space.sz t.space.pgdir vp :=
        fun _ range => apart range.1.symm
      rw [run, ok_bind] at done
      simp only at done
      split at done
      · cases done
        exact of_keeps inv mine alive keeps out mine
      · cases done
        exact setSize inv mine alive apart keeps out _
    · rw [Phys.deallocuvm, if_pos (Nat.not_lt.mp less), ok_bind] at done
      simp only at done
      split at done
      · cases done
        exact same mine alive
      · cases done
        exact setSize inv mine alive apart (KeepsOff.refl _ (fun _ _ => False) _) (fun _ => not_false) _
  · split at done
    · cases done
      exact same mine alive
    · cases done
      exact setSize inv mine alive apart (KeepsOff.refl _ (fun _ _ => False) _) (fun _ => not_false) _

omit [Layout] inv in
theorem exit (away : i ≠ p) (phys : m'.phys = m.phys)
    (spaces : ∀ j, (m'.slot j).map Tenant.space = (m.slot j).map Tenant.space)
    (flags : ∀ j, j ≠ p → (m'.slot j).map Tenant.zombie = (m.slot j).map Tenant.zombie) : m.Spared i t m' := by
  have space := spaces i
  have flag := flags i away
  rw [mine] at space flag
  obtain ⟨t', used, same⟩ := Option.map_eq_some_iff.mp space
  rw [used] at flag
  exact ⟨t', used, same, (Option.some.inj flag).trans alive, fun _ _ => by rw [phys]⟩

omit inv in
theorem reaped {q : Nat} {z : Tenant}
    (used : m.slot q = some z) (dead : z.zombie = true) (reaped : Reaped m q m') : m.Spared i t m' := by
  have away : i ≠ q := by
    rintro rfl
    rw [Option.some.inj (mine.symm.trans used), dead] at alive
    cases alive
  have slot : m'.slot i = some t := by rw [reaped.slot, Function.update_of_ne away, mine]
  exact ⟨t, slot, rfl, alive, reaped.views i t slot⟩

theorem step {o : Op} (apart : ∀ p u, o.actor = some p → m.slot p = some u → u.space.pgdir ≠ t.space.pgdir)
    (done : m.step o = .ok m') : m.Spared i t m' := by
  have call {p : Nat} {k : Tenant → Except Panic Mem} (actor : o.actor = some p) (run : m.running p k = .ok m')
      (busy : ∀ u, m.slot p = some u → u.zombie = false → u.space.pgdir ≠ t.space.pgdir → k u = .ok m' →
        m.Spared i t m') : m.Spared i t m' := by
    refine Mem.running_cases m p (P := fun r => r = .ok m' → m.Spared i t m') ?_ ?_ run
    · intro idle
      cases idle
      exact same mine alive
    · exact fun u caller alive done => busy u caller alive (apart p u actor caller) done
  cases o with
  | fork p =>
    refine call rfl done fun u caller alive' _ done => ?_
    obtain ⟨_, run, outcome⟩ := fork_spec inv caller alive'
    cases run.symm.trans done
    exact fork inv mine alive outcome
  | clone p => exact call rfl done fun u caller _ apart done => clone inv mine alive caller apart done
  | exec p => exact call rfl done fun u caller _ apart done => exec inv mine alive caller apart done
  | sbrk p => exact call rfl done fun u caller _ apart done => sbrk inv mine alive caller apart done
  | access p va wr w b =>
    refine call rfl done fun u caller _ apart done => ?_
    by_cases user : va < KERNBASE
    · rcases access_spec inv caller user wr w b with ⟨_, run, accessed⟩ | fault
      · cases run.symm.trans done
        exact ⟨t, by rw [accessed.slot, mine], rfl, alive, fun vp hv =>
          accessed.others _ (inv.tidy.dir_mem mine) vp hv fun both => apart both.1.symm⟩
      · cases fault.symm.trans done
    · rw [Mem.access, if_neg user] at done
      cases done
      exact same mine alive
  | exit p =>
    refine call rfl done fun u caller _ _ done => ?_
    rcases exit_spec inv caller with ⟨_, run, -, phys, spaces, flags⟩ | first
    · cases run.symm.trans done
      refine exit mine alive ?_ phys spaces flags
      rintro rfl
      exact apart _ t rfl mine rfl
    · cases first.symm.trans done
  | wait p =>
    refine call rfl done fun _ _ _ _ done => ?_
    obtain ⟨_, run, ⟨-, rfl⟩ | ⟨q, z, -, used, dead, outcome⟩⟩ := wait_spec inv p
    · cases run.symm.trans done
      exact same mine alive
    · cases run.symm.trans done
      exact reaped mine alive used dead outcome
  | join p =>
    refine call rfl done fun _ caller alive' _ done => ?_
    obtain ⟨_, run, rfl | ⟨q, z, used, dead, outcome⟩⟩ := join_spec inv caller alive'
    · cases run.symm.trans done
      exact same mine alive
    · cases run.symm.trans done
      exact reaped mine alive used dead outcome
  | pipealloc =>
    have keeps (s' : Phys) (page : s'.page = m.phys.page) : KeepsOff m.dirs (fun _ _ => False) m.phys s' :=
      inv.frames.keeps_of_held _ fun _ _ => by rw [page]
    simp only [Mem.step] at done
    cases list : m.phys.freelist with
    | nil =>
      rw [kalloc_nil list] at done
      cases done
      exact of_keeps inv mine alive (keeps _ rfl) (fun _ => not_false) mine
    | cons f next =>
      rw [kalloc_cons list] at done
      cases done
      exact of_keeps inv mine alive (keeps _ rfl) (fun _ => not_false) mine
  | pipeclose f =>
    simp only [Mem.step] at done
    split at done
    · rename_i pipe
      have member : f ∈ m.own := inv.tidy.mem_own.mpr (Or.inr (Or.inl pipe))
      have frames := inv.frames
      rw [← Finset.insert_erase member] at frames
      rw [(frames.kfree_own (Finset.notMem_erase _ _)).1, ok_bind] at done
      cases done
      exact of_keeps inv mine alive (inv.frames.keeps_of_apart (fun _ _ => False) (inv.frames.own_apart member)
        fun g ne => drop_page_ne ne) (fun _ => not_false) mine
    · cases done
      exact same mine alive

end Mem.Spared

/-- While no thread of its own address space makes a call, a process keeps its break and
    reads the same bytes on every page, over any run of calls, faults, forks, execs and
    exits of all other processes. -/
theorem isolation (m m' : Mem) (reach : m.Reachable) (i : Nat) (t : Tenant) (mine : m.slot i = some t)
    (alive : t.zombie = false) (ops : List Op)
    (path : Runs.Path Mem.step (fun m o => ∀ p u, o.actor = some p → m.slot p = some u →
      u.space.pgdir ≠ t.space.pgdir) m ops m') : m.Spared i t m' := by
  refine (path.carry (P := fun _ s => MemInv s ∧ m.Spared i t s) ⟨reach.inv, .same mine alive⟩ ?_).2
  rintro - s o s' ⟨inv, t', used, space, alive', before⟩ apart done
  rcases inv.step o with ⟨_, run, inv'⟩ | run | run <;> cases run.symm.trans done
  obtain ⟨t₂, used₂, space₂, alive₂, after⟩ := Mem.Spared.step inv used alive' (by rwa [space]) done
  rw [space] at space₂ after
  exact ⟨inv', t₂, used₂, space₂, alive₂, fun vp hv => (after vp hv).trans (before vp hv)⟩

/-- A page that its process can write without a fault is no other page of any process, no
    page table or directory, no kernel page and not free. -/
theorem writable_private (m : Mem) (reach : m.Reachable) (d vp : Nat) (live : d ∈ m.dirs) (user : vp < NUPAGES)
    (present : (m.phys.pte d vp).p = true) (writable : (m.phys.pte d vp).w = true) :
    (∀ d' ∈ m.dirs, ∀ vp' < NUPAGES, m.phys.userTarget d' vp' = some (m.phys.pte d vp).frame → d' = d ∧ vp' = vp) ∧
      (∀ d' ∈ m.dirs, ∀ i < NPDENTRIES, m.phys.tableTarget d' i ≠ some (m.phys.pte d vp).frame) ∧
      (m.phys.pte d vp).frame ∉ m.dirs ∧ (m.phys.pte d vp).frame ∉ m.own ∧
      (m.phys.pte d vp).frame ∉ m.phys.freelist := by
  have inv := reach.inv.frames
  have one := inv.writable d live vp user present writable
  have mine : m.phys.userTarget d vp = some (m.phys.pte d vp).frame := by
    rw [Phys.userTarget, Pte.target, if_pos present]
  obtain ⟨table, dir, own⟩ := FrameInv.kernelRefs_zero (inv.user_not_kernel live user mine)
  refine ⟨?_, fun d' live' i hi => FrameInv.not_table_of_zero table live' hi, dir, own, ?_⟩
  · intro d' live' vp' user' same
    refine RefCount.refs_unique ?_ live' live (Finset.mem_range.mpr user') (Finset.mem_range.mpr user) same mine
    have sum := inv.refs (m.phys.pte d vp).frame
    rw [Phys.userRefs] at sum
    omega
  · intro free
    rw [((inv.free _).mp free).2] at one
    cases one

end

/-- init has loaded an image, whose pages are all writable. -/
theorem writable_private_loaded : ∃ _ : Layout, ∃ (m : Mem) (t : Tenant), m.Reachable ∧ m.slot 0 = some t ∧
    ∀ d' ∈ m.dirs, ∀ vp' < NUPAGES, m.phys.userTarget d' vp' = some (m.phys.pte t.space.pgdir 0).frame →
      d' = t.space.pgdir ∧ vp' = 0 := by
  let _ := Layout.small
  obtain ⟨m, t, loaded⟩ := Mem.loaded_exists (by decide)
  exact ⟨_, m, t, loaded.reach, loaded.used, (writable_private m loaded.reach t.space.pgdir 0
    (loaded.reach.inv.tidy.dir_mem loaded.used) (by decide) loaded.guard.1 loaded.guard.2.1).1⟩

/-- init forks again while its first child does nothing. -/
theorem isolation_forked : ∃ _ : Layout, ∃ (m m' : Mem) (c : Tenant) (np : Nat), m.slot np = some c ∧
    (m.phys.pte c.space.pgdir 0).cow = true ∧ m.step (.fork 0) = .ok m' ∧ m.Spared np c m' := by
  let _ := Layout.small
  obtain ⟨m, t, np, c, forked⟩ := Mem.forked_exists (by decide)
  obtain ⟨m', done⟩ : ∃ m', m.step (.fork 0) = .ok m' := by
    refine Mem.running_cases m 0 (P := fun r => ∃ m', r = .ok m') ⟨m, rfl⟩ fun u used alive => ?_
    obtain ⟨m', run, -⟩ := fork_spec forked.reach.inv used alive
    exact ⟨m', run⟩
  have other : ∀ p u, (Op.fork 0).actor = some p → m.slot p = some u → u.space.pgdir ≠ c.space.pgdir := by
    intro p u actor caller
    cases actor
    rw [Option.some.inj (caller.symm.trans forked.used)]
    exact forked.apart.symm
  exact ⟨_, m, m', c, np, forked.child, (forked.guard _ (Or.inr rfl)).2.1, done,
    isolation m m' forked.reach np c forked.child forked.born [.fork 0] (.cons _ other done .nil)⟩

end Xv6
