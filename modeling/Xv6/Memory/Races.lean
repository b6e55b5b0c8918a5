import Xv6.Memory.Threads

/-!
Page faults of threads that share an address space. The handler decides on the page
table it finds, which may be newer than the error code. A write fault is answered
correctly in any order; a read fault is refused when a sibling has brought the page in
meanwhile. If the kernel took that fault, or if a sibling lowered the break after a
pointer was checked, the refusal is a kernel panic.
-/
namespace Xv6
open RefCount Phys

section
variable [Layout]

/-- Below the break, with enough frames, a fault is resolved unless it was a read of a
    page that is there by now. -/
theorem FaultOutcome.enough {live own : Finset Nat} {x : Nat → Nat} {s s' : Phys} {d sz va : Nat} {err : FaultCode}
    {r : Int} (outcome : FaultOutcome live own x s d sz va err r s') (below : va < sz)
    (memory : s.faultNeed d va ≤ s.freelist.length)
    (current : err.wr = true ∨ (s.pte d (va / 4096)).p = false) : r = 0 := by
  unfold Phys.faultNeed at memory
  cases outcome with
  | beyond absent above => omega
  | lazy absent _ _ _ done => cases done with
    | mapped => rfl
    | failed _ _ _ few =>
      rw [absent, if_neg Bool.false_ne_true] at memory
      rw [needsTable_page] at few
      omega
  | cow present write mark _ _ done => cases done with
    | inPlace => rfl
    | copied => rfl
    | failed shared empty =>
      rw [present, if_pos rfl, mark, empty, if_pos (by simpa using shared)] at memory
      cases memory
  | writable => rfl
  | refused present read =>
    rcases current with write | absent
    · cases read.symm.trans write
    · cases present.symm.trans absent

/-- Whenever the handler gets to see a fault, it does not panic, and it resolves the fault
    if frames suffice, the address is below the break, and either the access was a write or
    the page is still missing. -/
theorem pending_fault_resolved (c : Calls) (reach : c.Reachable fun _ _ => True) (p : Nat) (t : Tenant)
    (used : c.mem.slot p = some t) (va : Nat) (err : FaultCode) (pending : c.fault p = some (va, err)) :
    ∃ r s', c.mem.phys.pagefault (some t.space) va err = .ok (r, s') ∧
      (va < t.space.sz → c.mem.phys.faultNeed t.space.pgdir va ≤ c.mem.phys.freelist.length →
        err.wr = true ∨ (c.mem.phys.pte t.space.pgdir (va / 4096)).p = false → r = 0) := by
  have sound := reach.sound
  obtain ⟨r, s', run, outcome, -⟩ := sound.mem.pagefault used err (sound.user p va err pending)
  exact ⟨r, s', run, outcome.enough⟩

namespace Calls
variable {c : Calls}

/-- What keeps the kernel's accesses safe: frames are left when the kernel faults, no thread
    gives up memory that a sibling's call has checked, and no thread brings in a page that
    a sibling's call waits to read. -/
def Careful (c : Calls) : Act → Prop
  | .op (.sbrk p n) => n < 0 → ∀ t q u, c.mem.slot p = some t → q ≠ p → c.mem.slot q = some u →
      t.space.pgdir = u.space.pgdir → ∀ r ∈ c.accepted q, r.1 + r.2 ≤ Mem.moved t.space.sz n
  | .handle p => ∀ va err t, c.fault p = some (va, err) → c.mem.slot p = some t →
      (err.u = false → c.mem.phys.faultNeed t.space.pgdir va ≤ c.mem.phys.freelist.length) ∧
      ∀ q u va' err', q ≠ p → c.mem.slot q = some u → u.space.pgdir = t.space.pgdir →
        c.fault q = some (va', err') → err'.u = false → err'.wr = false → va' / 4096 ≠ va / 4096
  | _ => True

/-- Checked ranges lie below the break; the kernel faults only inside them, and a page that
    it waits to read is still missing. -/
structure Checked (c : Calls) : Prop where
  sound : c.Sound
  ranges : ∀ i t, c.mem.slot i = some t → ∀ r ∈ c.accepted i, r.1 + r.2 ≤ t.space.sz
  inside : ∀ i va err, c.fault i = some (va, err) → err.u = false → ∃ r ∈ c.accepted i, r.1 ≤ va ∧ va < r.1 + r.2
  absent : ∀ i t va err, c.mem.slot i = some t → c.fault i = some (va, err) → err.u = false → err.wr = false →
    (c.mem.phys.pte t.space.pgdir (va / 4096)).p = false

theorem Checked.waits (checked : c.Checked) {i va : Nat} {err : FaultCode} (pending : c.fault i = some (va, err)) :
    ∃ t, c.mem.slot i = some t ∧ t.zombie = false ∧ t.space.pgdir ∈ c.mem.dirs ∧ va / 4096 < NUPAGES := by
  obtain ⟨t, used, alive⟩ := checked.sound.busy i (Or.inl (by rw [pending]; exact Option.some_ne_none _))
  refine ⟨t, used, alive, checked.sound.mem.tidy.dir_mem used, ?_⟩
  have := checked.sound.user i va err pending
  simp only [KERNBASE, NUPAGES] at *
  omega

theorem Checked.called (checked : c.Checked) {o : Op} {m' : Mem} (effect : Mem.Effect o c.mem m')
    (careful : c.Careful (.op o)) {i : Nat} (other : o.over ≠ some i) {t' : Tenant} (used' : m'.slot i = some t') :
    (∀ r ∈ c.accepted i, r.1 + r.2 ≤ t'.space.sz) ∧
      ∀ va err, c.fault i = some (va, err) → err.u = false → err.wr = false →
        (m'.phys.pte t'.space.pgdir (va / 4096)).p = false := by
  constructor
  · intro r member
    obtain ⟨t, used, alive⟩ := checked.sound.busy i (Or.inr (List.ne_nil_of_mem member))
    obtain ⟨t1, used1, -, dir, size⟩ := effect.stay i t used alive other
    cases used'.symm.trans used1
    have low := checked.ranges i t used r member
    rcases size with more | ⟨p, n, u, rfl, down, use, same, less⟩
    · exact low.trans more
    · rw [less]
      exact careful down u i t use (fun here => other (by rw [here]; rfl)) used same r member
  · intro va err pending kernel read
    obtain ⟨t, used, alive, hd, hv⟩ := checked.waits pending
    obtain ⟨t1, used1, -, dir, -⟩ := effect.stay i t used alive other
    cases used'.symm.trans used1
    rw [dir]
    by_contra there
    have was := effect.fewer _ hd (dir ▸ effect.inv.tidy.dir_mem used') _ hv (by simpa using there)
    cases was.symm.trans (checked.absent i t va err used pending kernel read)

theorem Checked.next (checked : c.Checked) {a : Act} (careful : c.Careful a) {c' : Calls}
    (happens : c.Happens a (.ok c')) : c'.Checked := by
  have sound' := checked.sound.next happens
  cases happens with
  | idle => exact checked
  | called o m' effect calm =>
    refine ⟨sound', fun i t' used' r member => ?_, fun i va err pending kernel => ?_,
      fun i t' va err used' pending kernel read => ?_⟩
    · by_cases last : o.over = some i
      · simp only [if_pos last] at member
        cases member
      · simp only [if_neg last] at member
        exact (checked.called effect careful last used').1 r member
    · by_cases last : o.over = some i
      · cases (calm i last).symm.trans pending
      · simp only [if_neg last]
        exact checked.inside i va err pending kernel
    · by_cases last : o.over = some i
      · cases (calm i last).symm.trans pending
      · exact (checked.called effect careful last used').2 va err pending kernel read
  | checked p lo n t going fits =>
    refine ⟨sound', fun i t' used' r member => ?_, fun i va err pending kernel => ?_, checked.absent⟩
    · by_cases here : i = p
      · subst here
        cases used'.symm.trans going.used
        simp only [accept, Function.update_self, List.mem_cons] at member
        rcases member with rfl | member
        · exact fits
        · exact checked.ranges i t used' r member
      · simp only [accept, Function.update_of_ne here] at member
        exact checked.ranges i t' used' r member
    · obtain ⟨r, member, within⟩ := checked.inside i va err pending kernel
      refine ⟨r, ?_, within⟩
      by_cases here : i = p
      · subst here
        simp only [accept, Function.update_self]
        exact List.mem_cons_of_mem _ member
      · simp only [accept, Function.update_of_ne here]
        exact member
  | remembered _ m' inv slot fewer =>
    refine ⟨sound', fun i t used => checked.ranges i t (slot ▸ used), checked.inside,
      fun i t va err used pending kernel read => ?_⟩
    have was : c.mem.slot i = some t := slot ▸ used
    obtain ⟨t1, used1, -, hd, hv⟩ := checked.waits pending
    cases was.symm.trans used1
    by_contra there
    have before := fewer _ hd (inv.tidy.dir_mem used) _ hv (by simpa [withMem] using there)
    cases before.symm.trans (checked.absent i t va err was pending kernel read)
  | faulted p va wr u bs t going user kernel denied =>
    refine ⟨sound', checked.ranges, fun i va' err' pending mode => ?_, fun i t' va' err' used pending mode read => ?_⟩
    · by_cases here : i = p
      · subst here
        simp only [setFault, Function.update_self] at pending
        cases pending
        exact inside_iff.mp (kernel mode)
      · simp only [setFault, Function.update_of_ne here] at pending
        exact checked.inside i va' err' pending mode
    · by_cases here : i = p
      · subst here
        simp only [setFault, Function.update_self] at pending
        cases pending
        cases going.used.symm.trans used
        change wr = false at read
        change u = false at mode
        subst read mode
        simpa [setFault, Pte.permits] using denied
      · simp only [setFault, Function.update_of_ne here] at pending
        exact checked.absent i t' va' err' used pending mode read
  | resolved p va err t s' pending used outcome inv =>
    refine ⟨sound', checked.ranges, fun i va' err' pending' kernel => ?_,
      fun i t' va' err' used' pending' kernel read => ?_⟩
    · by_cases here : i = p
      · subst here
        simp only [setFault, Function.update_self] at pending'
        cases pending'
      · simp only [setFault, Function.update_of_ne here] at pending'
        exact checked.inside i va' err' pending' kernel
    · by_cases here : i = p
      · subst here
        simp only [setFault, Function.update_self] at pending'
        cases pending'
      · simp only [setFault, Function.update_of_ne here] at pending'
        obtain ⟨t1, used1, -, hd, hv⟩ := checked.waits pending'
        cases used'.symm.trans used1
        have still := checked.absent i t' va' err' used' pending' kernel read
        have away : ¬ (t'.space.pgdir = t.space.pgdir ∧ va' / 4096 = va / 4096) := by
          rintro ⟨dir, page⟩
          exact (careful va err t pending used).2 i t' va' err' here used' dir pending' kernel read page
        change (s'.pte t'.space.pgdir (va' / 4096)).p = false
        rwa [(outcome.keeps checked.sound.mem.frames).pte _ hd _ (Nat.lt_of_lt_of_le hv pages_lt) away]
  | killed p va err m' pending effect =>
    have other : ∀ {i}, i ≠ p → (Op.exit p).over ≠ some i := fun away same => away (Option.some.inj same).symm
    refine ⟨sound', fun i t' used' r member => ?_, fun i va' err' pending' kernel => ?_,
      fun i t' va' err' used' pending' kernel read => ?_⟩
    · by_cases here : i = p
      · subst here
        simp only [Function.update_self] at member
        cases member
      · simp only [Function.update_of_ne here] at member
        exact (checked.called effect trivial (other here) used').1 r member
    · by_cases here : i = p
      · subst here
        simp only [setFault, Function.update_self] at pending'
        cases pending'
      · simp only [setFault, Function.update_of_ne here] at pending' ⊢
        exact checked.inside i va' err' pending' kernel
    · by_cases here : i = p
      · subst here
        simp only [setFault, Function.update_self] at pending'
        cases pending'
      · simp only [setFault, Function.update_of_ne here] at pending'
        exact (checked.called effect trivial (other here) used').2 va' err' pending' kernel read
  | spawned p stack np kstack t m' going inv free slot fewer fits =>
    -- the slot of the new thread was unused, so nobody there waits for anything
    have kept : ∀ {i v}, c.mem.slot i = some v → m'.slot i = some v := fun use => by
      rw [slot]
      exact Mem.Tidy.keep free use _
    have old : ∀ i, c.fault i ≠ none ∨ (c.accept p stack PGSIZE).accepted i ≠ [] →
        ∃ v, c.mem.slot i = some v := by
      intro i active
      by_cases here : i = p
      · exact ⟨t, here ▸ going.used⟩
      · simp only [accept, Function.update_of_ne here] at active
        obtain ⟨v, use, -⟩ := checked.sound.busy i active
        exact ⟨v, use⟩
    refine ⟨sound', fun i t' used' r member => ?_, fun i va err pending kernel => ?_,
      fun i t' va err used' pending kernel read => ?_⟩
    · obtain ⟨v, use⟩ := old i (Or.inr (List.ne_nil_of_mem member))
      cases used'.symm.trans (kept use)
      by_cases here : i = p
      · subst here
        cases use.symm.trans going.used
        simp only [accept, Function.update_self, List.mem_cons] at member
        rcases member with rfl | member
        · exact fits
        · exact checked.ranges i t use r member
      · simp only [accept, Function.update_of_ne here] at member
        exact checked.ranges i t' use r member
    · obtain ⟨r, member, within⟩ := checked.inside i va err pending kernel
      refine ⟨r, ?_, within⟩
      by_cases here : i = p
      · subst here
        cases going.calm.symm.trans pending
      · simp only [accept, Function.update_of_ne here]
        exact member
    · obtain ⟨v, use, -, hd, hv⟩ := checked.waits pending
      cases used'.symm.trans (kept use)
      by_contra there
      have before := fewer _ hd (inv.tidy.dir_mem used') _ hv (by simpa using there)
      cases before.symm.trans (checked.absent i t' va err use pending kernel read)
  | returned p t going =>
    refine ⟨sound', fun i t' used r member => ?_, fun i va err pending kernel => ?_, checked.absent⟩
    · by_cases here : i = p
      · subst here
        simp only [sysret, Function.update_self] at member
        cases member
      · simp only [sysret, Function.update_of_ne here] at member
        exact checked.ranges i t' used r member
    · by_cases here : i = p
      · subst here
        cases going.calm.symm.trans pending
      · simp only [sysret, Function.update_of_ne here]
        exact checked.inside i va err pending kernel

theorem Start.checked (start : c.Start) : c.Checked := by
  have sound := start.sound
  obtain ⟨-, fault, accepted, -⟩ := start
  refine ⟨sound, fun i t _ r member => ?_, fun i va err pending => ?_, fun i t va err _ pending => ?_⟩
  · rw [accepted] at member
    cases member
  · rw [fault] at pending
    cases pending
  · rw [fault] at pending
    cases pending

theorem Reachable.checked (reach : c.Reachable Careful) : c.Checked :=
  Runs.Reachable.invariant (fun _ start => start.checked)
    (fun _ a _ checked careful done => checked.next careful (done ▸ step_happens checked.sound a)) reach

end Calls

namespace Calls
variable {c : Calls}

def quiet (m : Mem) : Calls := ⟨m, fun _ => none, fun _ => [], fun _ => none⟩

theorem quiet_reachable (cond : Calls → Act → Prop) {m : Mem} (reach : m.Reachable) : (quiet m).Reachable cond :=
  Runs.Reachable.start ⟨reach, rfl, rfl, rfl⟩

omit [Layout] in
theorem going_eq {p : Nat} {t : Tenant} (going : c.Going p t) (grown : c.embryo p = none)
    (k : Tenant → Except Panic Calls) : c.going p k = k t := by
  simp only [Calls.going, going.used]
  rw [if_pos ⟨ready_iff.mpr ⟨grown, going.calm⟩, by rw [going.alive]; exact Bool.false_ne_true⟩]

theorem access_missing {p va : Nat} {t : Tenant} (going : c.Going p t) (grown : c.embryo p = none)
    (user : va < KERNBASE) {u : Bool} (allowed : u = true ∨ c.inside p va = true)
    (absent : (c.mem.phys.pte t.space.pgdir (va / 4096)).p = false) :
    c.step (.access p va false u []) = .ok (c.setFault p (some (va, ⟨false, false, u⟩))) := by
  simp only [step]
  rw [going_eq going grown, access, if_pos ⟨user, allowed⟩]
  simp only [found_eq_pte]
  rw [if_neg (by simp [Pte.permits, absent]), Pte.faultCode, absent]

end Calls

theorem Mem.Paired.raced {m : Mem} {t : Tenant} {np : Nat} {u : Tenant} (paired : Mem.Paired m t np u)
    (frames : ‹Layout›.kend + 8000 ≤ NFRAMES) : ∃ c : Calls, c.Reachable (fun _ _ => True) ∧
      c.fault np = some (8192, ⟨false, false, true⟩) ∧ c.mem.slot np = some u ∧
      (c.mem.phys.pte u.space.pgdir 2).p = true ∧ (c.mem.phys.pte u.space.pgdir 2).u = true ∧
      (c.mem.phys.pte u.space.pgdir 2).cow = false := by
  have inv := paired.reach.inv
  have room := paired.small.room inv
  have pair : ({0, np} : Finset Nat).card = 2 := Finset.card_pair paired.apart.symm
  rw [pair] at room
  have first := Calls.access_missing (c := Calls.quiet m) (u := true)
    ⟨paired.used, paired.alive.1, rfl⟩ rfl (show 8192 < KERNBASE by decide) (Or.inl rfl) paired.absent
  have second := Calls.access_missing (c := (Calls.quiet m).setFault 0 (some (8192, ⟨false, false, true⟩)))
    (p := np) (u := true) ⟨paired.thread, paired.alive.2,
      by simp [Calls.setFault, Calls.quiet, paired.apart]⟩ rfl (show 8192 < KERNBASE by decide) (Or.inl rfl)
    (by rw [paired.shared]; exact paired.absent)
  have reach := ((Calls.quiet_reachable (fun _ _ => True) paired.reach).next _ trivial first).next
    _ trivial second
  generalize both : ((Calls.quiet m).setFault 0 (some (8192, ⟨false, false, true⟩))).setFault np
    (some (8192, ⟨false, false, true⟩)) = c at reach
  have mem : c.mem = m := by rw [← both]; rfl
  have mine : c.fault 0 = some (8192, ⟨false, false, true⟩) := by
    rw [← both]
    simp [Calls.setFault, paired.apart.symm]
  have other : c.fault np = some (8192, ⟨false, false, true⟩) := by
    rw [← both]
    simp [Calls.setFault]
  obtain ⟨r, s', run, outcome, -⟩ := inv.pagefault paired.used ⟨false, false, true⟩ (show 8192 < KERNBASE by decide)
  have zero : r = 0 := by
    refine outcome.enough (by rw [paired.size]; decide) ?_ (Or.inr paired.absent)
    have := needsTable_le_missing m.phys t.space.pgdir 8192
    have := missing_le m.phys t.space.pgdir
    rw [Phys.faultNeed, paired.absent, if_neg Bool.false_ne_true]
    omega
  subst zero
  have handled : c.step (.handle 0) = .ok ((c.withMem { c.mem with phys := s' }).setFault 0 none) := by
    simp only [Calls.step, Calls.handle, mine, mem, paired.used, run]
    rfl
  refine ⟨_, reach.next _ trivial handled, ?_, ?_, ?_⟩
  · simp only [Calls.setFault, Calls.withMem, Function.update_of_ne paired.apart]
    exact other
  · simp only [Calls.setFault, Calls.withMem, mem]
    exact paired.thread
  · change (s'.pte u.space.pgdir 2).p = true ∧ (s'.pte u.space.pgdir 2).u = true ∧
      (s'.pte u.space.pgdir 2).cow = false
    rw [paired.shared]
    cases outcome with
    | lazy _ _ _ _ done => cases done with
      | mapped _ f _ entry =>
        rw [entry]
        exact ⟨rfl, rfl, rfl⟩
    | cow present => cases present.symm.trans paired.absent
    | writable present => cases present.symm.trans paired.absent

theorem Mem.Paired.withdrawn {m : Mem} {t : Tenant} {np : Nat} {u : Tenant} (paired : Mem.Paired m t np u) :
    ∃ c : Calls, c.Reachable (fun _ _ => True) ∧ c.fault 0 = some (8192, ⟨false, false, false⟩) ∧
      c.inside 0 8192 = true ∧ ∃ t', c.mem.slot 0 = some t' ∧ t'.space.sz ≤ 8192 ∧
        (c.mem.phys.pte t'.space.pgdir 2).p = false := by
  have inv := paired.reach.inv
  have checked : (Calls.quiet m).step (.check 0 8192 1) = .ok ((Calls.quiet m).accept 0 8192 1) := by
    simp only [Calls.step]
    rw [Calls.going_eq ⟨paired.used, paired.alive.1, rfl⟩ rfl, Calls.check, if_neg (by rw [paired.size]; decide)]
  have start := (Calls.quiet_reachable (fun _ _ => True) paired.reach).next _ trivial checked
  obtain ⟨m', run, outcome⟩ := sbrk_spec inv paired.thread (-4096)
  have size : u.space.sz = 12288 := by rw [paired.shared, paired.size]
  have moved : Mem.moved u.space.sz (-4096) = 8192 := by
    rw [size]
    decide
  have shrunk : ((Calls.quiet m).accept 0 8192 1).step (.op (.sbrk np (-4096))) =
      .ok (((Calls.quiet m).accept 0 8192 1).withMem m') := by
    have step : m.step (.sbrk np (-4096)) = .ok m' := by
      simp only [Mem.step]
      rw [Mem.step_running inv paired.thread paired.alive.2]
      exact run
    have ranges : (fun i => if (Op.sbrk np (-4096)).over = some i then [] else
        ((Calls.quiet m).accept 0 8192 1).accepted i) = ((Calls.quiet m).accept 0 8192 1).accepted := by
      funext i
      by_cases here : i = np
      · subst here
        simp [Op.over, Calls.accept, Calls.quiet, paired.apart]
      · exact if_neg fun same => here (Option.some.inj same).symm
    simp only [Calls.step, Calls.op]
    rw [if_pos ⟨rfl, rfl⟩, show ((Calls.quiet m).accept 0 8192 1).mem = m from rfl, step, ok_bind, ranges]
    rfl
  have gone : ∃ t', m'.slot 0 = some t' ∧ t'.zombie = false ∧ t'.space.pgdir = t.space.pgdir ∧ t'.space.sz = 8192 ∧
      MemInv m' := by
    cases outcome with
    | refused why => omega
    | grown up => omega
    | same _ wrapped => omega
    | emptied _ _ _ zero => omega
    | shrunk _ inv' _ _ _ slot =>
      obtain ⟨t', used', alive', dir, size'⟩ := setSize_stay u.space.pgdir
        (Mem.moved u.space.sz (-4096)) paired.used paired.alive.1
      rw [if_pos (by rw [paired.shared]), moved] at size'
      exact ⟨t', by rw [slot]; exact used', alive', dir, size', inv'⟩
  obtain ⟨t', used', alive', dir, size', inv'⟩ := gone
  have absent : (m'.phys.pte t'.space.pgdir (8192 / 4096)).p = false :=
    inv'.trim used' (by decide) (by rw [size'])
  have within : ((Calls.quiet m).accept 0 8192 1).inside 0 8192 = true :=
    Calls.inside_iff.mpr ⟨(8192, 1), List.mem_cons_self, by decide⟩
  have fault := Calls.access_missing (c := ((Calls.quiet m).accept 0 8192 1).withMem m') (p := 0) (u := false) ⟨used', alive', rfl⟩ rfl (show 8192 < KERNBASE by decide) (Or.inr within) absent
  refine ⟨_, (start.next _ trivial shrunk).next _ trivial fault, ?_, within, t', used', Nat.le_of_eq size', absent⟩
  simp [Calls.setFault]

end

/-- Two threads of init read the page their break was just moved over. The first fault is
    resolved; the second, whose page is there and open to user code, is refused. -/
theorem second_read_fault_refused : ∃ _ : Layout, ∃ (c : Calls) (p va : Nat) (t : Tenant) (err : FaultCode),
    c.Reachable (fun _ _ => True) ∧ c.mem.slot p = some t ∧ c.fault p = some (va, err) ∧ va < t.space.sz ∧
    (c.mem.phys.pte t.space.pgdir (va / 4096)).permits err.wr err.u = true ∧
    c.mem.phys.faultNeed t.space.pgdir va ≤ c.mem.phys.freelist.length ∧
    c.mem.phys.pagefault (some t.space) va err = .ok (-1, c.mem.phys) := by
  let _ := Layout.small
  obtain ⟨m, t, np, u, paired⟩ := Mem.paired_exists (by decide)
  obtain ⟨c, reach, pending, used, present, user, plain⟩ := paired.raced (by decide)
  have need : c.mem.phys.faultNeed u.space.pgdir 8192 = 0 := by
    simp [Phys.faultNeed, present, plain]
  refine ⟨Layout.small, c, np, 8192, u, ⟨false, false, true⟩, reach, used, pending,
    by rw [paired.shared, paired.size]; decide, ?_, by rw [need]; exact Nat.zero_le _, ?_⟩
  · exact Pte.permits_iff.mpr ⟨present, fun write => (Bool.false_ne_true write).elim, fun _ => user⟩
  · simp only [Phys.pagefault, found_eq_pte]
    rw [if_neg (by decide), if_neg (by rw [show 8192 / 4096 = 2 by decide, present]; exact fun h => h rfl)]
    simp

/-- A thread of init reads a missing page, and the handler brings it in. -/
theorem pending_fault_resolved_first : ∃ _ : Layout, ∃ (c : Calls) (t : Tenant) (s' : Phys),
    c.Reachable (fun _ _ => True) ∧ c.mem.slot 0 = some t ∧ c.fault 0 = some (8192, ⟨false, false, true⟩) ∧
    c.mem.phys.pagefault (some t.space) 8192 ⟨false, false, true⟩ = .ok (0, s') := by
  let _ := Layout.small
  obtain ⟨m, t, reach, used, alive, size, -, absent, small⟩ := Mem.grown_exists (by decide)
  have fault := Calls.access_missing (c := Calls.quiet m) (u := true)
    ⟨used, alive, rfl⟩ rfl (show 8192 < KERNBASE by decide) (Or.inl rfl) absent
  have reach' := (Calls.quiet_reachable (fun _ _ => True) reach).next _ trivial fault
  have room := small.room reach.inv
  rw [Finset.card_singleton] at room
  obtain ⟨r, s', run, zero⟩ := pending_fault_resolved _ reach' 0 t used 8192 ⟨false, false, true⟩
    (by simp [Calls.setFault])
  have done : r = 0 := by
    refine zero (by rw [size]; decide) ?_ (Or.inr absent)
    change m.phys.faultNeed t.space.pgdir 8192 ≤ m.phys.freelist.length
    have := needsTable_le_missing m.phys t.space.pgdir 8192
    have := missing_le m.phys t.space.pgdir
    have kend : Layout.small.kend + 4000 ≤ NFRAMES := by decide
    rw [Phys.faultNeed, absent, if_neg Bool.false_ne_true]
    omega
  subst done
  exact ⟨Layout.small, _, t, s', reach', used, by simp [Calls.setFault], run⟩

end Xv6
