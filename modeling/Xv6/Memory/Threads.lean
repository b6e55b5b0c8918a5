import Xv6.Memory.Boot

/-!
Threads of shared address spaces at the grain of page faults. A fault is raised against
the page table that the access meets, and the handler sees it later, after any number of
steps of other threads. The kernel uses a pointer some time after the system call has
checked it, and siblings run in between. The calls that change address spaces are single
steps here, except for clone, whose stores to the new stack come one by one.
-/
namespace Xv6
open RefCount Phys

structure Calls where
  mem : Mem
  /-- the fault that a thread has taken and the handler has not seen: rcr2 and tf->err -/
  fault : Nat → Option (Nat × FaultCode)
  /-- the user ranges that the system call in progress has checked: start and length -/
  accepted : Nat → List (Nat × Nat)
  /-- a slot in EMBRYO and the thread that clones it -/
  embryo : Nat → Option Nat

inductive Calls.Act where
  | op (o : Op)
  /-- the test of fetchint, fetchstr, argptr or clone for n bytes at lo -/
  | check (p lo n : Nat)
  /-- user code or the kernel reads at va, or writes the bytes bs of one page there -/
  | access (p va : Nat) (wr u : Bool) (bs : List UInt8)
  /-- trap with T_PGFLT -/
  | handle (p : Nat)
  | clone (p stack : Nat)
  | sysret (p : Nat)
  deriving Repr

def Op.actor : Op → Option Nat
  | .fork p | .clone p _ _ | .exec p _ _ | .sbrk p _ | .access p _ _ _ _ | .exit p | .wait p | .join p => some p
  | .pipealloc | .pipeclose _ => none

/-- Calls that are one step; the others come in parts. -/
def Op.whole : Op → Bool
  | .clone .. | .access .. => false
  | _ => true

/-- The caller, if the call uses no user pointer afterwards. -/
def Op.over : Op → Option Nat
  | .exec p _ _ | .sbrk p _ | .exit p => some p
  | _ => none

namespace Calls
variable [layout : Layout]

def ready (c : Calls) (p : Nat) : Bool := (c.embryo p).isNone && (c.fault p).isNone

def inside (c : Calls) (p va : Nat) : Bool := (c.accepted p).any fun r => r.1 ≤ va && va < r.1 + r.2

def going (c : Calls) (p : Nat) (k : Tenant → Except Panic Calls) : Except Panic Calls :=
  match c.mem.slot p with
  | some t => if c.ready p ∧ ¬ t.zombie then k t else .ok c
  | none => .ok c

def accept (c : Calls) (p lo n : Nat) : Calls :=
  { c with accepted := Function.update c.accepted p ((lo, n) :: c.accepted p) }

def withMem (c : Calls) (m : Mem) : Calls := { c with mem := m }

def setFault (c : Calls) (p : Nat) (f : Option (Nat × FaultCode)) : Calls :=
  { c with fault := Function.update c.fault p f }

def op (c : Calls) (o : Op) : Except Panic Calls :=
  if o.whole ∧ o.actor.all c.ready then do
    let m ← c.mem.step o
    .ok { c with mem := m, accepted := fun i => if o.over = some i then [] else c.accepted i }
  else .ok c

/-- size is an int, the sum an uint. -/
def check (c : Calls) (p : Nat) (t : Tenant) (lo n : Nat) : Except Panic Calls :=
  if n ≥ 2147483648 ∨ lo ≥ t.space.sz ∨ (lo + n) % 4294967296 > t.space.sz then .ok c
  else .ok (c.accept p lo n)

def access (c : Calls) (p : Nat) (t : Tenant) (va : Nat) (wr u : Bool) (bs : List UInt8) : Except Panic Calls :=
  if va < KERNBASE ∧ (u ∨ c.inside p va) then
    let pte := c.mem.phys.found t.space.pgdir va
    if pte.permits wr u then
      let s := c.mem.phys
      .ok (c.withMem { c.mem with
        phys := if wr then s.setPage pte.frame ((s.page pte.frame).write (va % PGSIZE) bs) else s })
    else .ok (c.setFault p (some (va, pte.faultCode wr u)))
  else .ok c

/-- A user process whose fault stays unresolved is killed and exits on the way back. -/
def handle (c : Calls) (p : Nat) : Except Panic Calls :=
  match c.fault p, c.mem.slot p with
  | some (va, err), some t => do
    let (r, s) ← c.mem.phys.pagefault (some t.space) va err
    let m := { c.mem with phys := s }
    if r = 0 then .ok ((c.withMem m).setFault p none)
    else if err.u then do
      let m ← m.step (.exit p)
      .ok { (c.withMem m).setFault p none with accepted := Function.update c.accepted p [] }
    else .error .kernelPageFault
  | _, _ => .ok c

def clone (c : Calls) (p : Nat) (t : Tenant) (stack : Nat) : Except Panic Calls :=
  if stack % PGSIZE ≠ 0 then .ok c
  else if stack ≥ t.space.sz ∨ (stack + PGSIZE) % 4294967296 > t.space.sz then .ok c
  else match c.mem.allocproc with
    | (none, m) => .ok (c.withMem m)
    | (some (np, kstack), m) =>
      .ok { (c.accept p stack PGSIZE) with
        mem := m.setSlot np (some ⟨t.space, kstack, some p, true, false⟩)
        embryo := Function.update c.embryo np (some p) }

/-- Back to user code; a cloned thread becomes RUNNABLE. -/
def sysret (c : Calls) (p : Nat) : Calls :=
  { c with accepted := Function.update c.accepted p []
           embryo := fun i => if c.embryo i = some p then none else c.embryo i }

def step (c : Calls) : Act → Except Panic Calls
  | .op o => c.op o
  | .check p lo n => c.going p fun t => c.check p t lo n
  | .access p va wr u bs => c.going p fun t => c.access p t va wr u bs
  | .handle p => c.handle p
  | .clone p stack => c.going p fun t => c.clone p t stack
  | .sysret p => c.going p fun _ => .ok (c.sysret p)

def Start (c : Calls) : Prop :=
  c.mem.Reachable ∧ c.fault = (fun _ => none) ∧ c.accepted = (fun _ => []) ∧ c.embryo = fun _ => none

end Calls

section
variable [Layout] {m : Mem}

/-- What one call does to the address spaces of the threads that go on. -/
structure Mem.Effect (o : Op) (m m' : Mem) : Prop where
  inv : MemInv m'
  stay : ∀ i t, m.slot i = some t → t.zombie = false → o.over ≠ some i →
    ∃ t', m'.slot i = some t' ∧ t'.zombie = false ∧ t'.space.pgdir = t.space.pgdir ∧
      (t.space.sz ≤ t'.space.sz ∨ ∃ p n u, o = .sbrk p n ∧ n < 0 ∧ m.slot p = some u ∧
        u.space.pgdir = t.space.pgdir ∧ t'.space.sz = Mem.moved u.space.sz n)
  fewer : m.Fewer m'

theorem Mem.Effect.same {o : Op} {m' : Mem} (inv' : MemInv m') (slot : m'.slot = m.slot)
    (fewer : m.Fewer m') : Mem.Effect o m m' :=
  ⟨inv', fun i t used alive _ => ⟨t, by rw [slot, used], alive, rfl, Or.inl (Nat.le_refl _)⟩, fewer⟩

theorem Mem.Effect.none {o : Op} (inv : MemInv m) : Mem.Effect o m m :=
  .same inv rfl fun _ _ _ _ _ there => there

theorem Mem.Effect.reaped {o : Op} {m' : Mem} {q : Nat} {z : Tenant} (used : m.slot q = some z)
    (dead : z.zombie = true) (reaped : Reaped m q m') : Mem.Effect o m m' := by
  refine ⟨reaped.inv, fun i t use alive _ => ⟨t, ?_, alive, rfl, Or.inl (Nat.le_refl _)⟩, reaped.fewer⟩
  have away : i ≠ q := by
    rintro rfl
    rw [used] at use
    cases use
    rw [dead] at alive
    cases alive
  rw [reaped.slot, Function.update_of_ne away, use]

theorem fork_effect {p : Nat} {t : Tenant} {m' : Mem} (outcome : ForkOutcome m p t m') :
    Mem.Effect (.fork p) m m' := by
  cases outcome with
  | failed inv' slot _ _ fewer => exact .same ‹_› slot fewer
  | made np c _ _ free slot _ _ _ _ _ _ _ fewer =>
    refine ⟨‹_›, fun i v use alive _ => ⟨v, ?_, alive, rfl, Or.inl (Nat.le_refl _)⟩, fewer⟩
    rw [slot]
    exact Mem.Tidy.keep free use _

theorem exec_effect {p : Nat} {t : Tenant} {ip : List UInt8} {argv : List (List UInt8)}
    {m' : Mem} (outcome : ExecCall m p t ip argv m') : Mem.Effect (.exec p ip argv) m m' := by
  cases outcome with
  | failed inv' slot fewer => exact .same ‹_› slot fewer
  | done image s1 _ _ slot _ _ fewer =>
    refine ⟨‹_›, fun i v use alive other => ⟨v, ?_, alive, rfl, Or.inl (Nat.le_refl _)⟩, fewer⟩
    have away : i ≠ p := fun same => other (by rw [same]; rfl)
    rw [slot, Function.update_of_ne away, use]

omit [Layout] in
theorem setSize_stay (d sz : Nat) {i : Nat} {v : Tenant} (use : m.slot i = some v) (alive : v.zombie = false) :
    ∃ v', (m.setSize d sz).slot i = some v' ∧ v'.zombie = false ∧ v'.space.pgdir = v.space.pgdir ∧
      v'.space.sz = if v.space.pgdir = d then sz else v.space.sz := by
  refine ⟨if v.space.pgdir = d then { v with space := ⟨d, sz⟩ } else v,
    (Mem.Tidy.setSize_slot m d sz i _).mpr ⟨v, use, rfl⟩, ?_⟩
  split
  · rename_i same
    exact ⟨alive, same.symm, rfl⟩
  · exact ⟨alive, rfl, rfl⟩

theorem sbrk_effect (inv : MemInv m) {p : Nat} {t : Tenant} (used : m.slot p = some t) {n : Int} {m' : Mem}
    (outcome : SbrkOutcome m t n m') : Mem.Effect (.sbrk p n) m m' := by
  have up : ∀ sz, t.space.sz ≤ sz → ∀ i v, m.slot i = some v → v.zombie = false →
      ∃ v', (m.setSize t.space.pgdir sz).slot i = some v' ∧ v'.zombie = false ∧
        v'.space.pgdir = v.space.pgdir ∧ v.space.sz ≤ v'.space.sz := by
    intro sz more i v use alive
    obtain ⟨v', use', alive', dir, size⟩ := setSize_stay t.space.pgdir sz use alive
    refine ⟨v', use', alive', dir, ?_⟩
    rw [size]
    split
    · rename_i same
      rwa [inv.tidy.sizes i v p t use used same]
    · exact Nat.le_refl _
  cases outcome with
  | refused => exact .none inv
  | grown _ more _ inv' =>
    refine ⟨inv', fun i v use alive _ => ?_, fun _ _ _ _ _ there => there⟩
    obtain ⟨v', use', alive', dir, size⟩ := up _ more i v use alive
    exact ⟨v', use', alive', dir, Or.inl size⟩
  | same _ _ inv' =>
    refine ⟨inv', fun i v use alive _ => ?_, fun _ _ _ _ _ there => there⟩
    obtain ⟨v', use', alive', dir, size⟩ := up _ (Nat.le_refl _) i v use alive
    exact ⟨v', use', alive', dir, Or.inl size⟩
  | emptied _ _ _ _ slot fewer => exact .same ‹_› slot fewer
  | shrunk _ _ down _ less slot _ fewer =>
    refine ⟨‹_›, fun i v use alive _ => ?_, fewer⟩
    rw [slot]
    obtain ⟨v', use', alive', dir, size⟩ :=
      setSize_stay t.space.pgdir (Mem.moved t.space.sz n) use alive
    refine ⟨v', use', alive', dir, ?_⟩
    by_cases same : v.space.pgdir = t.space.pgdir
    · rw [if_pos same] at size
      exact Or.inr ⟨p, n, t, rfl, down, used, same.symm, size⟩
    · rw [if_neg same] at size
      exact Or.inl (Nat.le_of_eq size.symm)

theorem exit_effect {p : Nat} {m' : Mem} (inv' : MemInv m') (phys : m'.phys = m.phys)
    (spaces : ∀ i, (m'.slot i).map Tenant.space = (m.slot i).map Tenant.space)
    (flags : ∀ i, i ≠ p → (m'.slot i).map Tenant.zombie = (m.slot i).map Tenant.zombie) :
    Mem.Effect (.exit p) m m' := by
  refine ⟨inv', fun i v use alive other => ?_, ?_⟩
  · have away : i ≠ p := fun same => other (by rw [same]; rfl)
    have space := spaces i
    have flag := flags i away
    rw [use] at space flag
    cases now : m'.slot i with
    | none =>
      rw [now] at space
      cases space
    | some v' =>
      rw [now] at space flag
      have space := Option.some.inj space
      have flag := Option.some.inj flag
      exact ⟨v', rfl, flag.trans alive, by rw [space], Or.inl (by rw [space])⟩
  · intro d _ _ vp _ there
    rwa [phys] at there

theorem Mem.step_effect (inv : MemInv m) (o : Op) (whole : o.whole = true) :
    (∃ m', m.step o = .ok m' ∧ Mem.Effect o m m') ∨ m.step o = .error .initExiting := by
  have idle : (∃ m', (.ok m : Except Panic Mem) = .ok m' ∧ Mem.Effect o m m') ∨
      (.ok m : Except Panic Mem) = .error .initExiting := Or.inl ⟨m, rfl, .none inv⟩
  cases o with
  | fork p =>
    refine Mem.running_cases m p (P := fun r => (∃ m', r = .ok m' ∧ Mem.Effect _ m m') ∨ r = .error .initExiting)
      idle fun t used alive => Or.inl ?_
    obtain ⟨m', run, outcome⟩ := fork_spec inv used alive
    exact ⟨m', run, fork_effect outcome⟩
  | clone => cases whole
  | access => cases whole
  | exec p ip argv =>
    refine Mem.running_cases m p (P := fun r => (∃ m', r = .ok m' ∧ Mem.Effect _ m m') ∨ r = .error .initExiting)
      idle fun t used _ => Or.inl ?_
    obtain ⟨m', run, outcome⟩ := exec_spec inv used ip argv
    exact ⟨m', run, exec_effect outcome⟩
  | sbrk p n =>
    refine Mem.running_cases m p (P := fun r => (∃ m', r = .ok m' ∧ Mem.Effect _ m m') ∨ r = .error .initExiting)
      idle fun t used _ => Or.inl ?_
    obtain ⟨m', run, outcome⟩ := sbrk_spec inv used n
    exact ⟨m', run, sbrk_effect inv used outcome⟩
  | exit p =>
    refine Mem.running_cases m p (P := fun r => (∃ m', r = .ok m' ∧ Mem.Effect _ m m') ∨ r = .error .initExiting)
      idle fun t used _ => ?_
    rcases exit_spec inv used with ⟨m', run, inv', phys, spaces, flags⟩ | first
    · exact Or.inl ⟨m', run, exit_effect inv' phys spaces flags⟩
    · exact Or.inr first
  | wait p =>
    refine Mem.running_cases m p (P := fun r => (∃ m', r = .ok m' ∧ Mem.Effect _ m m') ∨ r = .error .initExiting)
      idle fun t used _ => Or.inl ?_
    obtain ⟨m', run, ⟨-, rfl⟩ | ⟨q, z, -, use, dead, reaped⟩⟩ := wait_spec inv p
    · exact ⟨_, run, .none inv⟩
    · exact ⟨m', run, .reaped use dead reaped⟩
  | join p =>
    refine Mem.running_cases m p (P := fun r => (∃ m', r = .ok m' ∧ Mem.Effect _ m m') ∨ r = .error .initExiting)
      idle fun t used alive => Or.inl ?_
    obtain ⟨m', run, rfl | ⟨q, z, use, dead, reaped⟩⟩ := join_spec inv used alive
    · exact ⟨_, run, .none inv⟩
    · exact ⟨m', run, .reaped use dead reaped⟩
  | pipealloc =>
    obtain ⟨m', run, inv', slot, fewer⟩ := pipealloc_spec inv
    exact Or.inl ⟨m', run, .same inv' slot fewer⟩
  | pipeclose f =>
    obtain ⟨m', run, inv', slot, fewer⟩ := pipeclose_spec inv f
    exact Or.inl ⟨m', run, .same inv' slot fewer⟩

theorem FaultOutcome.fewer {live own : Finset Nat} {x : Nat → Nat} {s s' : Phys} {d sz va : Nat} {err : FaultCode}
    {r : Int} (outcome : FaultOutcome live own x s d sz va err r s') (old : FrameInv live own x s) (ne : r ≠ 0) :
    KeepsOff live (fun _ _ => False) s s' := by
  cases outcome with
  | beyond => exact KeepsOff.refl ..
  | lazy _ _ _ _ done => cases done with
    | mapped => exact (ne rfl).elim
    | failed _ _ keeps => exact keeps
  | cow _ _ _ _ _ done => cases done with
    | inPlace => exact (ne rfl).elim
    | copied => exact (ne rfl).elim
    | failed => exact old.keeps_of_held _ fun _ _ => rfl
  | writable => exact (ne rfl).elim
  | refused => exact KeepsOff.refl ..

theorem MemInv.pagefault (inv : MemInv m) {p va : Nat} {t : Tenant} (used : m.slot p = some t) (err : FaultCode)
    (user : va < KERNBASE) : ∃ r s', m.phys.pagefault (some t.space) va err = .ok (r, s') ∧
      FaultOutcome m.dirs m.own (fun _ => 0) m.phys t.space.pgdir t.space.sz va err r s' ∧
      MemInv { m with phys := s' } := by
  obtain ⟨r, s', run, outcome⟩ := pagefault_spec inv.frames t.space.sz err (inv.tidy.dir_mem used) user
  exact ⟨r, s', run, outcome,
    inv.stored used ⟨outcome.inv inv.frames, outcome.keeps inv.frames, outcome.present⟩⟩

namespace Calls
variable {c : Calls}

structure Going (c : Calls) (p : Nat) (t : Tenant) : Prop where
  used : c.mem.slot p = some t
  alive : t.zombie = false
  calm : c.fault p = none

inductive Happens (c : Calls) : Act → Except Panic Calls → Prop where
  | idle (a : Act) : Happens c a (.ok c)
  | called (o : Op) (m' : Mem) (effect : Mem.Effect o c.mem m') (calm : ∀ p, o.over = some p → c.fault p = none) :
      Happens c (.op o)
        (.ok { c with mem := m', accepted := fun i => if o.over = some i then [] else c.accepted i })
  | initExits (a : Act) : Happens c a (.error .initExiting)
  | checked (p lo n : Nat) (t : Tenant) (going : c.Going p t) (fits : lo + n ≤ t.space.sz) :
      Happens c (.check p lo n) (.ok (c.accept p lo n))
  | remembered (a : Act) (m' : Mem) (inv : MemInv m') (slot : m'.slot = c.mem.slot) (fewer : c.mem.Fewer m') :
      Happens c a (.ok (c.withMem m'))
  | faulted (p va : Nat) (wr u : Bool) (bs : List UInt8) (t : Tenant) (going : c.Going p t) (user : va < KERNBASE)
      (kernel : u = false → c.inside p va = true)
      (denied : (c.mem.phys.pte t.space.pgdir (va / 4096)).permits wr u = false) :
      Happens c (.access p va wr u bs)
        (.ok (c.setFault p (some (va, (c.mem.phys.pte t.space.pgdir (va / 4096)).faultCode wr u))))
  | resolved (p va : Nat) (err : FaultCode) (t : Tenant) (s' : Phys) (pending : c.fault p = some (va, err))
      (used : c.mem.slot p = some t)
      (outcome : FaultOutcome c.mem.dirs c.mem.own (fun _ => 0) c.mem.phys t.space.pgdir t.space.sz va err 0 s')
      (inv : MemInv { c.mem with phys := s' }) :
      Happens c (.handle p) (.ok ((c.withMem { c.mem with phys := s' }).setFault p none))
  | killed (p va : Nat) (err : FaultCode) (m' : Mem) (pending : c.fault p = some (va, err))
      (effect : Mem.Effect (.exit p) c.mem m') :
      Happens c (.handle p)
        (.ok { (c.withMem m').setFault p none with accepted := Function.update c.accepted p [] })
  | panicked (p va : Nat) (err : FaultCode) (t : Tenant) (r : Int) (s' : Phys)
      (pending : c.fault p = some (va, err)) (used : c.mem.slot p = some t) (kernel : err.u = false) (ne : r ≠ 0)
      (outcome : FaultOutcome c.mem.dirs c.mem.own (fun _ => 0) c.mem.phys t.space.pgdir t.space.sz va err r s') :
      Happens c (.handle p) (.error .kernelPageFault)
  | spawned (p stack np kstack : Nat) (t : Tenant) (m' : Mem) (going : c.Going p t) (inv : MemInv m')
      (free : c.mem.scan Option.isNone = some np)
      (slot : m'.slot = Function.update c.mem.slot np (some ⟨t.space, kstack, some p, true, false⟩))
      (fewer : c.mem.Fewer m') (fits : stack + PGSIZE ≤ t.space.sz) :
      Happens c (.clone p stack) (.ok { (c.accept p stack PGSIZE) with
        mem := m', embryo := Function.update c.embryo np (some p) })
  | returned (p : Nat) (t : Tenant) (going : c.Going p t) : Happens c (.sysret p) (.ok (c.sysret p))

/-- A thread in the handler or in a system call is there, and its fault is at a user address. -/
structure Sound (c : Calls) : Prop where
  mem : MemInv c.mem
  busy : ∀ i, c.fault i ≠ none ∨ c.accepted i ≠ [] → ∃ t, c.mem.slot i = some t ∧ t.zombie = false
  user : ∀ i va err, c.fault i = some (va, err) → va < KERNBASE

omit [Layout] in
theorem ready_iff {p : Nat} : c.ready p = true ↔ c.embryo p = none ∧ c.fault p = none := by
  simp [ready]

omit [Layout] in
theorem inside_iff {p va : Nat} : c.inside p va = true ↔ ∃ r ∈ c.accepted p, r.1 ≤ va ∧ va < r.1 + r.2 := by
  simp [inside]

theorem going_cases {a : Act} {p : Nat} {k : Tenant → Except Panic Calls}
    (busy : ∀ t, c.Going p t → c.Happens a (k t)) : c.Happens a (c.going p k) := by
  unfold going
  cases used : c.mem.slot p with
  | none => exact .idle a
  | some t =>
    simp only
    split
    · rename_i able
      exact busy t ⟨used, by simpa using able.2, (ready_iff.mp able.1).2⟩
    · exact .idle a

theorem op_happens (sound : c.Sound) (o : Op) : c.Happens (.op o) (c.op o) := by
  unfold op
  split
  · rename_i able
    rcases Mem.step_effect sound.mem o able.1 with ⟨m', run, effect⟩ | first
    · rw [run]
      refine .called o m' effect fun p last => ?_
      have actor : o.actor = some p := by
        cases o <;> first | exact last | cases last
      have ready := able.2
      rw [actor] at ready
      exact (ready_iff.mp ready).2
    · rw [first]
      exact .initExits _
  · exact .idle _

theorem check_happens (sound : c.Sound) {p lo n : Nat} {t : Tenant} (going : c.Going p t) :
    c.Happens (.check p lo n) (c.check p t lo n) := by
  unfold check
  split
  · exact .idle _
  · rename_i fine
    have small := sound.mem.tidy.small p t going.used
    refine .checked p lo n t going ?_
    simp only [KERNBASE, not_or, Nat.not_le, Nat.not_lt, ge_iff_le, gt_iff_lt] at *
    omega

theorem access_happens (sound : c.Sound) {p va : Nat} {wr u : Bool} {bs : List UInt8} {t : Tenant}
    (going : c.Going p t) : c.Happens (.access p va wr u bs) (c.access p t va wr u bs) := by
  unfold access
  split
  · rename_i able
    have hd := sound.mem.tidy.dir_mem going.used
    have hv : va / 4096 < NUPAGES := by
      have := able.1
      simp only [KERNBASE, NUPAGES] at *
      omega
    rw [found_eq_pte]
    simp only
    split
    · rename_i fine
      cases wr with
      | false => exact .remembered _ _ sound.mem rfl fun _ _ _ _ _ there => there
      | true =>
        obtain ⟨present, writable, -⟩ := Pte.permits_iff.mp fine
        obtain ⟨inv2, pte2, keeps2⟩ := sound.mem.frames.write_user hd hv present (writable rfl)
          ((c.mem.phys.page (c.mem.phys.pte t.space.pgdir (va / 4096)).frame).write (va % PGSIZE) bs)
        rw [if_pos rfl]
        refine .remembered _ _ (sound.mem.withPhys inv2 ?_) rfl ?_
        · intro d hd' vp _ there
          rw [pte2 d hd'] at there
          exact Or.inl there
        · intro d hd' _ vp _ there
          change ((c.mem.phys.setPage _ _).pte d vp).p = true at there
          rwa [pte2 d hd'] at there
    · rename_i fine
      refine .faulted p va wr u bs t going able.1 (fun kernel => ?_) (by simpa using fine)
      rcases able.2 with user | within
      · rw [kernel] at user
        cases user
      · exact within
  · exact .idle _

theorem handle_happens (sound : c.Sound) (p : Nat) : c.Happens (.handle p) (c.handle p) := by
  unfold handle
  split
  · rename_i va err t pending used
    have inv := sound.mem
    obtain ⟨r, s', run, outcome, inv'⟩ := inv.pagefault used err (sound.user p va err pending)
    rw [run, ok_bind]
    simp only
    by_cases zero : r = 0
    · subst zero
      rw [if_pos rfl]
      exact .resolved p va err t s' pending used outcome inv'
    rw [if_neg zero]
    cases mode : err.u with
    | false =>
      rw [if_neg Bool.false_ne_true]
      exact .panicked p va err t r s' pending used mode zero outcome
    | true =>
      rw [if_pos rfl]
      rcases Mem.step_effect inv' (.exit p) rfl with ⟨m', gone, effect⟩ | first
      · rw [gone]
        have same : c.mem.Fewer { c.mem with phys := s' } :=
          .of_keeps (outcome.fewer inv.frames zero) fun d hd _ => hd
        exact .killed p va err m' pending
          ⟨effect.inv, effect.stay, fun d hd hd' vp hv there => same d hd hd vp hv (effect.fewer d hd hd' vp hv there)⟩
      · rw [first]
        exact .initExits _
  · exact .idle _

theorem clone_happens (sound : c.Sound) {p stack : Nat} {t : Tenant} (going : c.Going p t) :
    c.Happens (.clone p stack) (c.clone p t stack) := by
  have inv := sound.mem
  have small := inv.tidy.small p t going.used
  unfold clone
  split
  · exact .idle _
  split
  · exact .idle _
  rename_i _ within
  obtain ⟨r, m1, alloc, outcome⟩ := allocproc_spec inv
  rw [alloc]
  cases outcome with
  | full => exact .idle _
  | short => exact .remembered _ _ inv.oom rfl fun _ _ _ _ _ there => there
  | made np kstack s1 free new frames1 keeps1 calm1 spent =>
    have hd := inv.tidy.dir_mem going.used
    obtain ⟨tidy', dirs', own'⟩ := inv.tidy.add (t := ⟨t.space, kstack, some p, true, false⟩) free s1
      going.used going.alive rfl rfl (fun _ => rfl) small (inv.tidy.apart p t going.used)
      (fun i v was same => inv.tidy.sizes i v p t was going.used same) new
    rw [Finset.insert_eq_of_mem hd] at dirs'
    have fewer : ∀ d ∈ c.mem.dirs, ∀ vp < NUPAGES, (s1.pte d vp).p = true → (c.mem.phys.pte d vp).p = true := by
      intro d hd' vp hv there
      rwa [keeps1.pte d hd' vp (Nat.lt_of_lt_of_le hv pages_lt) not_false] at there
    refine .spawned p stack np kstack t _ going ⟨tidy', by rw [dirs', own']; exact frames1, ?_⟩ free rfl
      (fun d hd' _ vp hv there => fewer d hd' vp hv there) ?_
    · intro d hd' vp hv there
      rw [dirs'] at hd'
      obtain ⟨i, v, use, rest⟩ := inv.below d hd' vp hv (fewer d hd' vp hv there)
      exact ⟨i, v, Mem.Tidy.keep free use _, rest⟩
    · simp only [PGSIZE, KERNBASE, not_or, Nat.not_le, Nat.not_lt, ge_iff_le, gt_iff_lt] at *
      omega

theorem step_happens (sound : c.Sound) (a : Act) : c.Happens a (c.step a) := by
  cases a with
  | op o => exact op_happens sound o
  | check p lo n => exact going_cases fun t going => check_happens sound going
  | access p va wr u bs => exact going_cases fun t going => access_happens sound going
  | handle p => exact handle_happens sound p
  | clone p stack => exact going_cases fun t going => clone_happens sound going
  | sysret p => exact going_cases fun t going => .returned p t going

theorem Sound.called (sound : c.Sound) {o : Op} {m' : Mem} (effect : Mem.Effect o c.mem m') {i : Nat}
    (active : c.fault i ≠ none ∨ c.accepted i ≠ []) (other : o.over ≠ some i) :
    ∃ t, m'.slot i = some t ∧ t.zombie = false := by
  obtain ⟨t, used, alive⟩ := sound.busy i active
  obtain ⟨t', used', alive', -⟩ := effect.stay i t used alive other
  exact ⟨t', used', alive'⟩

theorem Sound.next (sound : c.Sound) {a : Act} {c' : Calls} (happens : c.Happens a (.ok c')) : c'.Sound := by
  cases happens with
  | idle => exact sound
  | called o m' effect calm =>
    refine ⟨effect.inv, fun i active => ?_, sound.user⟩
    by_cases last : o.over = some i
    · simp only [if_pos last, ne_eq, not_true_eq_false, or_false] at active
      exact (active (calm i last)).elim
    · simp only [if_neg last] at active
      exact sound.called effect active last
  | checked p lo n t going fits =>
    refine ⟨sound.mem, fun i active => ?_, sound.user⟩
    by_cases here : i = p
    · subst here
      exact ⟨t, going.used, going.alive⟩
    · simp only [accept, Function.update_of_ne here] at active
      exact sound.busy i active
  | remembered _ m' inv slot fewer =>
    refine ⟨inv, fun i active => ?_, sound.user⟩
    simp only [withMem, slot]
    exact sound.busy i active
  | faulted p va wr u bs t going user kernel denied =>
    refine ⟨sound.mem, fun i active => ?_, fun i va' err' pending => ?_⟩
    · by_cases here : i = p
      · subst here
        exact ⟨t, going.used, going.alive⟩
      · simp only [setFault, Function.update_of_ne here] at active
        exact sound.busy i active
    · by_cases here : i = p
      · subst here
        simp only [setFault, Function.update_self] at pending
        cases pending
        exact user
      · simp only [setFault, Function.update_of_ne here] at pending
        exact sound.user i va' err' pending
  | resolved p va err t s' pending used outcome inv =>
    refine ⟨inv, fun i active => ?_, fun i va' err' pending' => ?_⟩
    · by_cases here : i = p
      · subst here
        exact sound.busy i (Or.inl (by rw [pending]; exact Option.some_ne_none _))
      · simp only [setFault, withMem, Function.update_of_ne here] at active
        exact sound.busy i active
    · by_cases here : i = p
      · subst here
        simp only [setFault, Function.update_self] at pending'
        cases pending'
      · simp only [setFault, Function.update_of_ne here] at pending'
        exact sound.user i va' err' pending'
  | killed p va err m' pending effect =>
    refine ⟨effect.inv, fun i active => ?_, fun i va' err' pending' => ?_⟩
    · by_cases here : i = p
      · subst here
        simp [setFault] at active
      · simp only [setFault, withMem, Function.update_of_ne here] at active
        exact sound.called effect active fun same => here (Option.some.inj same).symm
    · by_cases here : i = p
      · subst here
        simp only [setFault, Function.update_self] at pending'
        cases pending'
      · simp only [setFault, Function.update_of_ne here] at pending'
        exact sound.user i va' err' pending'
  | spawned p stack np kstack t m' going inv free slot fewer fits =>
    refine ⟨inv, fun i active => ?_, sound.user⟩
    have was : ∃ t, c.mem.slot i = some t ∧ t.zombie = false := by
      by_cases here : i = p
      · subst here
        exact ⟨t, going.used, going.alive⟩
      · simp only [accept, Function.update_of_ne here] at active
        exact sound.busy i active
    obtain ⟨v, use, alive⟩ := was
    refine ⟨v, ?_, alive⟩
    simp only [slot]
    exact Mem.Tidy.keep free use _
  | returned p t going =>
    refine ⟨sound.mem, fun i active => ?_, sound.user⟩
    by_cases here : i = p
    · subst here
      exact ⟨t, going.used, going.alive⟩
    · simp only [sysret, Function.update_of_ne here] at active
      exact sound.busy i active

theorem Start.sound (start : c.Start) : c.Sound := by
  obtain ⟨reach, fault, accepted, -⟩ := start
  refine ⟨reach.inv, fun i active => ?_, fun i va err pending => ?_⟩
  · rw [fault, accepted] at active
    simp at active
  · rw [fault] at pending
    cases pending

/-- Every state that some interleaving leads to, if all steps meet cond. -/
def Reachable (cond : Calls → Act → Prop) (c : Calls) : Prop := Runs.Reachable Start step cond c

theorem Reachable.sound {cond : Calls → Act → Prop} (reach : c.Reachable cond) : c.Sound :=
  Runs.Reachable.invariant (fun _ start => start.sound)
    (fun _ a _ sound _ done => sound.next (done ▸ step_happens sound a)) reach

end Calls
end
end Xv6
