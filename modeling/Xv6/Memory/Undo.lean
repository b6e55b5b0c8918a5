import Xv6.Memory.Boot

/-!
A fork that runs out of memory half way. What cowuvm has done by then is undone, except
that some entries of the parent stay copy-on-write; a write there faults once and finds
the frame with a single reference again.
-/
namespace Xv6
open RefCount Phys

section
variable [Layout] {live own : Finset Nat} {x : Nat → Nat} {s s' : Phys}

theorem FrameInv.same_counts (inv : FrameInv live own x s) (inv' : FrameInv live own x s')
    (user : ∀ d ∈ live, ∀ vp < NUPAGES, s'.userTarget d vp = s.userTarget d vp)
    (tables : SameTables live s s') : s'.ref = s.ref ∧ s'.freelist.Perm s.freelist := by
  have ref : s'.ref = s.ref := by
    funext f
    have users : s'.userRefs live f = s.userRefs live f :=
      refs_congr (fun d hd vp hv => user d hd vp (Finset.mem_range.mp hv)) f
    have tabs : s'.tableRefs live f = s.tableRefs live f := refs_congr (fun d hd i _ => tables d hd i) f
    rw [inv'.refs f, inv.refs f, users, kernelRefs, kernelRefs, tabs]
  refine ⟨ref, (List.perm_ext_iff_of_nodup inv'.nodup inv.nodup).mpr fun f => ?_⟩
  rw [inv'.free f, inv.free f, ref]

/-- An access that completes, at once or after the fault it raises. -/
def Phys.Serves (s : Phys) (d sz va : Nat) (wr u : Bool) : Prop :=
  (s.pte d (va / 4096)).permits wr u = true ∨
  s.faultNeed d va ≤ s.freelist.length ∧
    ((s.pte d (va / 4096)).p = false ∧ va < sz ∨
      (s.pte d (va / 4096)).p = true ∧ wr = true ∧ (s.pte d (va / 4096)).cow = true ∧
        (u = true → (s.pte d (va / 4096)).u = true))

/-- Whether the handler resolves a fault depends on the entry and on the frames it needs. -/
theorem FaultOutcome.zero_iff {d sz va : Nat} {err : FaultCode} {r : Int}
    (o : FaultOutcome live own x s d sz va err r s') :
    r = 0 ↔ s.faultNeed d va ≤ s.freelist.length ∧
      ((s.pte d (va / 4096)).p = false ∧ va < sz ∨ (s.pte d (va / 4096)).p = true ∧ err.wr = true) := by
  unfold Phys.faultNeed
  cases o with
  | beyond absent above =>
    simp [absent]
    omega
  | lazy absent below _ _ done =>
    rw [absent]
    cases done with
    | mapped _ f inv entry zero keeps memory =>
      rw [needsTable_page] at memory
      simpa [below] using memory
    | failed _ inv keeps memory =>
      rw [needsTable_page] at memory
      simp [below]
      omega
  | cow present write mark _ _ done =>
    rw [present, mark]
    cases done with
    | inPlace _ inv single => simp [write, single]
    | copied _ f inv shared entry other same keeps memory => simpa [write, shared] using memory
    | failed shared memory => simp [write, shared, memory]
  | writable present write plain w => simp [present, write, plain]
  | refused present read => simp [present, read]

theorem touch_done_iff (inv : FrameInv live own x s) {d va sz : Nat} (hd : d ∈ live) (user : va < KERNBASE)
    {wr u done : Bool} (run : s.touch ⟨d, sz⟩ va wr u = .ok (done, s')) :
    done = true ↔ s.Serves d sz va wr u := by
  have hv : va / 4096 < NUPAGES := by
    simp only [KERNBASE, NUPAGES] at *
    omega
  rw [Phys.touch, found_eq_pte] at run
  by_cases fine : (s.pte d (va / 4096)).permits wr u = true
  · rw [if_pos fine] at run
    cases run
    exact ⟨fun _ => Or.inl fine, fun _ => rfl⟩
  rw [if_neg fine] at run
  obtain ⟨⟨r, s1⟩, fault, rest⟩ := bind_eq_ok run
  cases rest
  obtain ⟨r', s'', fault', outcome⟩ := pagefault_spec inv sz ((s.pte d (va / 4096)).faultCode wr u) hd user
  cases fault.symm.trans fault'
  have zero := outcome.zero_iff
  rw [Bool.and_eq_true, decide_eq_true_iff, zero, found_eq_pte, Pte.permits_iff]
  have refused : ¬ (s.pte d (va / 4096)).permits wr u = true := fine
  rw [Pte.permits_iff] at refused
  constructor
  · rintro ⟨⟨memory, which⟩, present', write', user'⟩
    refine Or.inr ⟨memory, ?_⟩
    rcases which with absent | ⟨present, write⟩
    · exact Or.inl absent
    · have open' : u = true → (s.pte d (va / 4096)).u = true := by
        intro asUser
        rw [← (outcome.user_bit present).2]
        exact user' asUser
      refine Or.inr ⟨present, write, ?_, open'⟩
      by_contra plain
      have flags := inv.flags d hd _ hv present
      rw [Bool.not_eq_true] at plain
      rw [plain] at flags
      exact refused ⟨present, fun _ => flags, open'⟩
  · rintro (now | ⟨memory, ⟨absent, below⟩ | ⟨present, write, mark, open'⟩⟩)
    · exact absurd now fine
    · have done : r = 0 := zero.mpr ⟨memory, Or.inl ⟨absent, below⟩⟩
      subst done
      obtain ⟨here, written, open'⟩ := outcome.resolved
      exact ⟨⟨memory, Or.inl ⟨absent, below⟩⟩, here, written, fun _ => open' fun present => by simp [absent] at present⟩
    · have done : r = 0 := zero.mpr ⟨memory, Or.inr ⟨present, write⟩⟩
      subst done
      obtain ⟨here, written, open''⟩ := outcome.resolved
      exact ⟨⟨memory, Or.inr ⟨present, write⟩⟩, here, written, fun asUser => open'' fun _ => open' asUser⟩

theorem FaultOutcome.in_place {d sz va : Nat} {err : FaultCode} {r : Int}
    (o : FaultOutcome live own x s d sz va err r s') (present : (s.pte d (va / 4096)).p = true)
    (single : s.ref (s.pte d (va / 4096)).frame = 1) : s'.freelist = s.freelist := by
  cases o with
  | beyond => rfl
  | lazy absent =>
    rw [absent] at present
    cases present
  | cow _ _ _ _ _ done =>
    cases done with
    | inPlace _ _ _ _ _ _ _ list => exact list
    | copied _ f _ shared => exact absurd single shared
    | failed shared => exact absurd single shared
  | writable => rfl
  | refused => rfl

theorem touch_in_place (inv : FrameInv live own x s) {d va sz : Nat} (hd : d ∈ live) (user : va < KERNBASE) {u : Bool}
    (present : (s.pte d (va / 4096)).p = true) (open' : u = true → (s.pte d (va / 4096)).u = true)
    (single : s.ref (s.pte d (va / 4096)).frame = 1) :
    ∃ s', s.touch ⟨d, sz⟩ va true u = .ok (true, s') ∧ s'.freelist = s.freelist := by
  have hv : va / 4096 < NUPAGES := by
    simp only [KERNBASE, NUPAGES] at *
    omega
  obtain ⟨done, s', run, -⟩ := touch_spec inv sz hd user true u
  have serves : s.Serves d sz va true u := by
    have flags := inv.flags d hd _ hv present
    cases mark : (s.pte d (va / 4096)).cow with
    | false =>
      rw [mark] at flags
      exact Or.inl (Pte.permits_iff.mpr ⟨present, fun _ => flags, open'⟩)
    | true => exact Or.inr ⟨by simp [Phys.faultNeed, present, single], Or.inr ⟨present, rfl, mark, open'⟩⟩
  obtain rfl := (touch_done_iff inv hd user run).mpr serves
  refine ⟨s', run, ?_⟩
  rw [Phys.touch, found_eq_pte] at run
  split at run
  · cases run
    rfl
  · obtain ⟨⟨r, s1⟩, fault, rest⟩ := bind_eq_ok run
    obtain ⟨r', s2, fault', outcome⟩ := pagefault_spec inv sz ((s.pte d (va / 4096)).faultCode true u) hd user
    cases fault.symm.trans fault'
    obtain rfl : s1 = s' := congrArg Prod.snd (Except.ok.inj rest)
    exact outcome.in_place present single

namespace Mem
variable {m m' : Mem} {p : Nat} {t : Tenant}

/-- fork with its result: the child's slot, or none for -1. -/
def sys_fork (m : Mem) (p : Nat) (t : Tenant) : Except Panic (Option Nat × Mem) :=
  if m.pgdirUsers t.space.pgdir > 1 then .ok (none, m)
  else match m.allocproc with
    | (none, m) => .ok (none, m)
    | (some (np, kstack), m) => do
      match ← m.phys.cowuvm t.space.pgdir t.space.sz with
      | (none, s) =>
        let s ← s.kfree kstack
        .ok (none, { m with phys := s })
      | (some d, s) =>
        .ok (some np, { m with phys := s }.setSlot np (some ⟨⟨d, t.space.sz⟩, kstack, some p, false, false⟩))

omit [Layout] in
theorem allocproc_slot {np kstack : Nat} (alloc : m.allocproc = (some (np, kstack), m')) : m.slot np = none := by
  unfold allocproc at alloc
  split at alloc
  · cases alloc
  · rename_i found
    split at alloc
    · cases alloc
    · cases alloc
      exact Option.isNone_iff_eq_none.mp (Tidy.scan_some found).2

theorem sys_fork_of_fork (run : m.fork p t = .ok m') :
    ∃ r, m.sys_fork p t = .ok (r, m') ∧ (r ≠ none → m'.slot ≠ m.slot) := by
  unfold fork at run
  unfold sys_fork
  split at run
  · rename_i many
    cases run
    exact ⟨none, if_pos many, fun made => absurd rfl made⟩
  · rename_i few
    rw [if_neg few]
    rcases alloc : m.allocproc with ⟨_ | ⟨np, kstack⟩, m1⟩
    · rw [alloc] at run
      cases run
      exact ⟨none, rfl, fun made => absurd rfl made⟩
    · rw [alloc] at run
      obtain ⟨⟨_ | d, s⟩, cow, rest⟩ := bind_eq_ok run
      · obtain ⟨s', free, rest⟩ := bind_eq_ok rest
        cases rest
        refine ⟨none, ?_, fun made => absurd rfl made⟩
        simp only [cow, ok_bind, free]
      · cases rest
        refine ⟨some np, ?_, fun _ same => ?_⟩
        · simp only [cow, ok_bind]
        · have here := congrFun same np
          rw [allocproc_slot alloc] at here
          simp [setSlot] at here

structure Undone (m : Mem) (d : Nat) (m' : Mem) : Prop where
  slot : m'.slot = m.slot
  frames : FrameInv m.dirs m.own (fun _ => 0) m'.phys
  protects : Protects m.dirs d m.phys m'.phys
  tables : SameTables m.dirs m.phys m'.phys

omit [Layout] in
theorem allocproc_page (m : Mem) : m.allocproc.2.phys.page = m.phys.page := by
  unfold allocproc
  split
  · rfl
  · cases list : m.phys.freelist with
    | nil => rw [kalloc_nil list]
    | cons f next => rw [kalloc_cons list]; rfl

theorem sys_fork_undone (inv : MemInv m) (used : m.slot p = some t) (run : m.sys_fork p t = .ok (none, m')) :
    Undone m t.space.pgdir m' := by
  have refl : ∀ b, Undone m t.space.pgdir { m with phys := { m.phys with oom := b } } := fun b =>
    ⟨rfl, inv.frames.oom b, Protects.of_keeps (inv.frames.keeps_of_held _ fun _ _ => rfl), SameTables.refl _ _⟩
  unfold sys_fork at run
  split at run
  · cases run
    exact refl m.phys.oom
  obtain ⟨r, m1, alloc, outcome⟩ := allocproc_spec inv
  have page := allocproc_page m
  rw [alloc] at run page
  cases outcome with
  | full all =>
    cases run
    exact refl m.phys.oom
  | short empty =>
    cases run
    exact refl true
  | made np kstack s1 free new frames1 keeps1 calm1 spent =>
    have hd := inv.tidy.dir_mem used
    have few : m.dirs.card < 65534 := by
      have := Tidy.card_dirs m
      simp only [NPROC] at this
      omega
    obtain ⟨⟨d | d, s2⟩, cow, rest⟩ := bind_eq_ok run
    · obtain ⟨r, s', cow', outcome⟩ := cowuvm_spec frames1 hd few (Nat.le_of_lt (inv.tidy.small p t used))
      cases cow.symm.trans cow'
      cases outcome with
      | failed _ frames2 protects short tight tables =>
        obtain ⟨give, frames3⟩ := frames2.kfree_own new
        obtain ⟨s3, give', rest⟩ := bind_eq_ok rest
        cases give.symm.trans give'
        cases rest
        have outside := frames2.own_apart (Finset.mem_insert_self kstack m.own)
        have keeps3 : KeepsOff m.dirs (fun _ _ => False) s2 (s2.drop kstack) :=
          frames2.keeps_of_apart _ outside fun g ne => drop_page_ne ne
        have tables1 : SameTables m.dirs m.phys s1 := SameTables.of_pages fun d _ => congrFun page d
        have tables3 : SameTables m.dirs s2 (s2.drop kstack) :=
          SameTables.of_pages fun d hd => drop_page_ne fun same => outside.1 (same ▸ hd)
        exact ⟨rfl, frames3, ((Protects.of_keeps keeps1).trans protects).trans (Protects.of_keeps keeps3),
          (tables1.trans tables).trans tables3⟩
    · cases rest

namespace Undone

theorem counts (undone : Undone m t.space.pgdir m') (inv : MemInv m) :
    m'.phys.ref = m.phys.ref ∧ m'.phys.freelist.Perm m.phys.freelist :=
  inv.frames.same_counts undone.frames
    (fun _ hd _ hv => undone.protects.target hd (Nat.lt_of_lt_of_le hv pages_lt)) undone.tables

theorem faultNeed_le (undone : Undone m t.space.pgdir m') (inv : MemInv m) (used : m.slot p = some t) {va : Nat}
    (user : va < KERNBASE) : m'.phys.faultNeed t.space.pgdir va ≤ m.phys.faultNeed t.space.pgdir va := by
  have hd := inv.tidy.dir_mem used
  have hv : va / 4096 < NUPAGES := by
    simp only [KERNBASE, NUPAGES] at *
    omega
  have ref := (undone.counts inv).1
  have need : m'.phys.needsTable t.space.pgdir va = m.phys.needsTable t.space.pgdir va := by
    unfold Phys.needsTable
    rw [undone.tables _ hd]
  unfold Phys.faultNeed
  rw [need, ref]
  rcases undone.protects.pte _ hd (va / 4096) (Nat.lt_of_lt_of_le hv pages_lt) with same | ⟨-, present, protect⟩
  · rw [same]
  · rw [protect]
    simp only [Pte.protect, present, ↓reduceIte]
    by_cases write : (m.phys.pte t.space.pgdir (va / 4096)).w = true
    · rw [inv.frames.writable _ hd _ hv present write]
      simp
    · have flags := inv.frames.flags _ hd _ hv present
      rw [Bool.not_eq_true] at write
      rw [write] at flags
      have mark : (m.phys.pte t.space.pgdir (va / 4096)).cow = true := by simpa using flags.symm
      rw [mark]

theorem serves (undone : Undone m t.space.pgdir m') (inv : MemInv m) (used : m.slot p = some t) {va : Nat}
    (user : va < KERNBASE) {wr u : Bool} (before : m.phys.Serves t.space.pgdir t.space.sz va wr u) :
    m'.phys.Serves t.space.pgdir t.space.sz va wr u := by
  have hd := inv.tidy.dir_mem used
  have hv : va / 4096 < NUPAGES := by
    simp only [KERNBASE, NUPAGES] at *
    omega
  have need := undone.faultNeed_le inv used user
  have length := (undone.counts inv).2.length_eq
  rcases undone.protects.pte _ hd (va / 4096) (Nat.lt_of_lt_of_le hv pages_lt) with same | ⟨-, present, protect⟩
  · unfold Phys.Serves at before ⊢
    rw [same]
    exact before.imp_right fun both => ⟨by have := both.1; omega, both.2⟩
  · unfold Phys.Serves at before ⊢
    rw [protect]
    rcases before with now | ⟨memory, ⟨absent, -⟩ | ⟨-, write, mark, open'⟩⟩
    · obtain ⟨-, written, open'⟩ := Pte.permits_iff.mp now
      cases wr with
      | false => exact Or.inl (Pte.permits_iff.mpr ⟨present, fun write => absurd write Bool.false_ne_true, open'⟩)
      | true =>
        refine Or.inr ⟨?_, Or.inr ⟨present, rfl, rfl, open'⟩⟩
        have none : m.phys.faultNeed t.space.pgdir va = 0 := by
          simp [Phys.faultNeed, present, inv.frames.writable _ hd _ hv present (written rfl)]
        omega
    · rw [present] at absent
      cases absent
    · exact Or.inr ⟨by omega, Or.inr ⟨present, write, rfl, open'⟩⟩

end Undone
end Mem

/-- A fork that fails leaves the counters, the number of free frames, the process table
    and all contents as they were, the parent can touch what it could touch before, and a
    write to a page of its own takes no frame. -/
theorem failed_fork_traceless (m : Mem) (reach : m.Reachable) (p : Nat) (t : Tenant) (used : m.slot p = some t)
    (alive : t.zombie = false) : ∃ r m', m.sys_fork p t = .ok (r, m') ∧ (r ≠ none → m'.phys.oom = m.phys.oom) ∧
      (r = none →
        m'.phys.freelist.length = m.phys.freelist.length ∧ m'.phys.ref = m.phys.ref ∧ m'.slot = m.slot ∧
        (∀ vp < NUPAGES, m'.phys.content t.space.pgdir vp = m.phys.content t.space.pgdir vp) ∧
        (∀ va < KERNBASE, ∀ wr u s1, m.phys.touch t.space va wr u = .ok (true, s1) →
          ∃ s2, m'.phys.touch t.space va wr u = .ok (true, s2)) ∧
        ∀ va < KERNBASE, ∀ u s1, m.phys.touch t.space va true u = .ok (true, s1) →
          (m.phys.pte t.space.pgdir (va / 4096)).p = true →
          m.phys.ref (m.phys.pte t.space.pgdir (va / 4096)).frame = 1 →
          ∃ s2, m'.phys.touch t.space va true u = .ok (true, s2) ∧ s2.freelist = m'.phys.freelist) := by
  have inv := reach.inv
  have hd := inv.tidy.dir_mem used
  obtain ⟨m', run, outcome⟩ := fork_spec inv used alive
  obtain ⟨r, call, child⟩ := Mem.sys_fork_of_fork run
  refine ⟨r, m', call, ?_, ?_⟩
  · intro made
    cases outcome with
    | failed inv' slot => exact absurd slot (child made)
    | made np c inv' few free slot fresh size born kin user copy views fewer calm => exact calm
  · rintro rfl
    have undone := Mem.sys_fork_undone inv used call
    obtain ⟨ref, list⟩ := undone.counts inv
    refine ⟨list.length_eq, ref, undone.slot, fun vp hv => undone.protects.content hd hv, ?_, ?_⟩
    · intro va user wr u s1 done
      have serves := undone.serves inv used user ((touch_done_iff inv.frames hd user done).mp rfl)
      obtain ⟨done', s2, again, -⟩ := touch_spec undone.frames t.space.sz hd user wr u
      obtain rfl := (touch_done_iff undone.frames hd user again).mpr serves
      exact ⟨s2, again⟩
    · intro va user u s1 done present single
      have hv : va / 4096 < NUPAGES := by
        simp only [KERNBASE, NUPAGES] at *
        omega
      obtain ⟨here, frame, open'⟩ := undone.protects.present hd (Nat.lt_of_lt_of_le hv pages_lt)
      refine touch_in_place undone.frames hd user (here.trans present) ?_ (by rw [frame, ref]; exact single)
      intro asUser
      rw [open']
      rcases (touch_done_iff inv.frames hd user done).mp rfl with now | ⟨-, ⟨absent, -⟩ | ⟨-, -, -, user'⟩⟩
      · exact (Pte.permits_iff.mp now).2.2 asUser
      · rw [present] at absent
        cases absent
      · exact user' asUser

theorem Mem.drained {m : Mem} (reach : m.Reachable) {k : Nat} (enough : k ≤ m.phys.freelist.length) :
    ∃ m' : Mem, m'.Reachable ∧ m'.slot = m.slot ∧ m'.phys.page = m.phys.page ∧ m'.phys.freelist.length = k := by
  generalize count : m.phys.freelist.length = n at enough
  induction n generalizing m with
  | zero => exact ⟨m, reach, rfl, rfl, by omega⟩
  | succ n ih =>
    rcases Nat.lt_or_eq_of_le enough with less | rfl
    · cases list : m.phys.freelist with
      | nil => simp [list] at count
      | cons f next =>
        have step : m.step .pipealloc = .ok { m with phys := m.phys.pop f next, pipes := insert f m.pipes } := by
          simp only [Mem.step, kalloc_cons list]
        rw [list, List.length_cons, Nat.add_right_cancel_iff] at count
        obtain ⟨m', reach', slot, page, length⟩ := ih (reach.next _ trivial step) count (by omega)
        exact ⟨m', reach', slot, page, length⟩
    · exact ⟨m, reach, rfl, rfl, count⟩

theorem Mem.sys_fork_short {m m' : Mem} {p f : Nat} {t : Tenant} {r : Option Nat} (list : m.phys.freelist = [f])
    (run : m.sys_fork p t = .ok (r, m')) : r = none := by
  unfold sys_fork at run
  split at run
  · cases run
    rfl
  rcases alloc : m.allocproc with ⟨_ | ⟨np, kstack⟩, m1⟩
  · rw [alloc] at run
    cases run
    rfl
  · rw [alloc] at run
    have empty : m1.phys.freelist = [] := by
      unfold allocproc at alloc
      rw [kalloc_cons list] at alloc
      split at alloc
      · cases alloc
      · cases alloc
        rfl
    have none : m1.phys.cowuvm t.space.pgdir t.space.sz = .ok (none, { m1.phys with oom := true }) := by
      simp only [Phys.cowuvm, Phys.setupkvm, kalloc_nil empty]
      rfl
    simp only [none, ok_bind] at run
    obtain ⟨s, -, rest⟩ := bind_eq_ok run
    cases rest
    rfl

end

/-- init forks when one frame is left. -/
theorem failed_fork_traceless_short : ∃ _ : Layout, ∃ (m : Mem) (t : Tenant) (m' : Mem), m.Reachable ∧
    m.slot 0 = some t ∧ m.phys.freelist.length = 1 ∧ (m.phys.pte t.space.pgdir 1).w = true ∧
    m.sys_fork 0 t = .ok (none, m') ∧ m'.phys.freelist.length = 1 ∧ m'.phys.ref = m.phys.ref := by
  let _ := Layout.small
  obtain ⟨m, t, loaded⟩ := Mem.loaded_exists (by decide)
  have room := loaded.small.room loaded.reach.inv
  have frames : NFRAMES = 57344 := rfl
  have first : Layout.small.kend = 300 := rfl
  rw [Finset.card_singleton, frames, first] at room
  obtain ⟨m1, reach, slot, page, one⟩ := Mem.drained loaded.reach (k := 1) (by omega)
  have used : m1.slot 0 = some t := by rw [slot]; exact loaded.used
  obtain ⟨f, list⟩ := List.length_eq_one_iff.mp one
  obtain ⟨r, m', run, -, failed⟩ := failed_fork_traceless m1 reach 0 t used loaded.alive
  obtain rfl := Mem.sys_fork_short list run
  obtain ⟨length, ref, -⟩ := failed rfl
  have stack : m1.phys.pte t.space.pgdir 1 = m.phys.pte t.space.pgdir 1 :=
    pte_congr (congrFun page _) fun u _ => congrFun page u
  exact ⟨Layout.small, m1, t, m', reach, used, one, by rw [stack]; exact loaded.stack.2, run, length.trans one, ref⟩

end Xv6
