import Xv6.Memory.Boot

/-!
Memory without sharing: fork copies every page at once, and growth adds zero-filled
pages at once. With copy-on-write and lazy allocation every process reads the bytes it
has here, as long as kalloc does not fail.
-/
namespace Xv6
open RefCount Phys

structure Eager.Proc where
  sz : Nat
  byte : Nat → UInt8
  parent : Option Nat
  zombie : Bool

structure Eager where
  initproc : Nat
  slot : Nat → Option Eager.Proc

namespace Eager

def set (e : Eager) (i : Nat) (q : Option Proc) : Eager := { e with slot := Function.update e.slot i q }

def scan (e : Eager) (test : Option Proc → Bool) : Option Nat :=
  (List.range NPROC).find? fun i => test (e.slot i)

def running (e : Eager) (p : Nat) (k : Proc → Eager) : Eager :=
  match e.slot p with
  | some q => if p < NPROC ∧ ¬ q.zombie then k q else e
  | none => e

def fork (e : Eager) (p : Nat) (q : Proc) : Eager :=
  match e.scan Option.isNone with
  | none => e
  | some np => e.set np (some { q with parent := some p, zombie := false })

def sbrk (e : Eager) (p : Nat) (q : Proc) (n : Int) : Eager :=
  let sz := Mem.moved q.sz n
  if n < 0 then
    if sz < q.sz then e.set p (some { q with sz := sz }) else e
  else if sz ≥ KERNBASE ∨ sz < q.sz then e
  else e.set p (some { q with
    sz := sz
    byte := fun a => if pgroundup q.sz ≤ a ∧ a < pgroundup sz then 0 else q.byte a })

def access (e : Eager) (p : Nat) (q : Proc) (va : Nat) (wr : Bool) (b : UInt8) : Eager :=
  if wr then e.set p (some { q with byte := Function.update q.byte va b }) else e

def exit (e : Eager) (p : Nat) (q : Proc) : Eager :=
  let orphan (c : Proc) := if c.parent = some p then { c with parent := some e.initproc } else c
  { e with slot := fun i => (e.slot i).map orphan }.set p (some { orphan q with zombie := true })

def isZombieOf (p : Nat) (c : Option Proc) : Bool := c.any fun q => q.parent = some p ∧ q.zombie

def wait (e : Eager) (p : Nat) : Eager :=
  match e.scan (isZombieOf p) with
  | none => e
  | some q => e.set q none

def step (e : Eager) : Op → Eager
  | .fork p => e.running p (e.fork p)
  | .sbrk p n => e.running p fun q => e.sbrk p q n
  | .access p va wr _ b => e.running p fun q => e.access p q va wr b
  | .exit p => e.running p (e.exit p)
  | .wait p => e.running p fun _ => e.wait p
  | _ => e

end Eager

namespace Mem

def Solo (m : Mem) : Prop :=
  ∀ i t j u, m.slot i = some t → m.slot j = some u → t.space.pgdir = u.space.pgdir → i = j

def eager (m : Mem) : Eager :=
  ⟨m.initproc, fun i => (m.slot i).map fun t =>
    ⟨t.space.sz, fun va => m.phys.content t.space.pgdir (va / 4096) (va % 4096), t.parent, t.zombie⟩⟩

def calm (m : Mem) : Mem := { m with phys := { m.phys with oom := false } }

/-- The operations in question: accesses to user pages below the break, growth, shrinking
    to a break that is not 0, fork, exit and wait. -/
def Plain (m : Mem) : Op → Prop
  | .access p va _ u _ => ∀ t, m.slot p = some t → va < t.space.sz ∧
      (u = true → (m.phys.pte t.space.pgdir (va / 4096)).p = true →
        (m.phys.pte t.space.pgdir (va / 4096)).u = true)
  | .sbrk p n => ∀ t, m.slot p = some t → n < 0 → Mem.moved t.space.sz n ≠ 0
  | .fork _ | .exit _ | .wait _ => True
  | _ => False

section
variable [Layout]

def Lockstep : Mem × Eager → Prop :=
  Runs.Reachable (fun s => ∃ m : Mem, m.Reachable ∧ m.Solo ∧ s = (m.calm, m.eager))
    (fun s op => (s.1.step op).map fun m => (m, s.2.step op))
    fun s op => s.1.Plain op ∧ ∀ m, s.1.step op = .ok m → m.phys.oom = false

end
end Mem

structure Eager.Same (t : Tenant) (s : Phys) (q : Eager.Proc) : Prop where
  sz : q.sz = t.space.sz
  parent : q.parent = t.parent
  zombie : q.zombie = t.zombie
  byte : ∀ va, va / 4096 < (t.space.sz + 4095) / 4096 → q.byte va = s.content t.space.pgdir (va / 4096) (va % 4096)

section
variable [Layout]

structure Mirrors (m : Mem) (e : Eager) : Prop where
  inv : MemInv m
  root : e.initproc = m.initproc
  solo : m.Solo
  unused : ∀ i, m.slot i = none → e.slot i = none
  used : ∀ i t, m.slot i = some t → ∃ q, e.slot i = some q ∧ Eager.Same t m.phys q

namespace Mem
variable {m m' : Mem} {p : Nat} {t : Tenant}

omit [Layout] in
theorem allocproc_root : m.allocproc.2.initproc = m.initproc := by
  unfold allocproc
  split
  · rfl
  · split <;> rfl

theorem fork_root (run : m.fork p t = .ok m') : m'.initproc = m.initproc := by
  unfold fork at run
  split at run
  · cases run
    rfl
  · have root := allocproc_root (m := m)
    split at run
    · rename_i alloc
      cases run
      rw [alloc] at root
      exact root
    · rename_i alloc
      rw [alloc] at root
      obtain ⟨⟨r, s⟩, -, run⟩ := bind_eq_ok run
      cases r with
      | none =>
        obtain ⟨s', -, run⟩ := bind_eq_ok run
        cases run
        exact root
      | some d =>
        cases run
        exact root

theorem sbrk_root {n : Int} (run : m.sbrk t n = .ok m') : m'.initproc = m.initproc := by
  unfold sbrk at run
  split at run
  · obtain ⟨⟨sz, s⟩, -, run⟩ := bind_eq_ok run
    simp only at run
    split at run <;> cases run <;> rfl
  · split at run <;> cases run <;> rfl

theorem access_root {va : Nat} {wr u : Bool} {b : UInt8} (run : m.access t va wr u b = .ok m') :
    m'.initproc = m.initproc := by
  unfold access at run
  split at run
  · obtain ⟨⟨done, s⟩, -, run⟩ := bind_eq_ok run
    simp only at run
    split at run
    · cases run
      rfl
    · split at run <;> cases run
      rfl
  · cases run
    rfl

theorem wait_root (run : m.wait p = .ok m') : m'.initproc = m.initproc := by
  unfold wait at run
  split at run
  · cases run
    rfl
  · split at run
    · cases run
      rfl
    · obtain ⟨s1, -, run⟩ := bind_eq_ok run
      simp only at run
      split at run
      · obtain ⟨s2, -, run⟩ := bind_eq_ok run
        cases run
        rfl
      · cases run
        rfl

end Mem

namespace Mirrors
variable {m m' : Mem} {e : Eager}

theorem slot (mirrors : Mirrors m e) (i : Nat) :
    m.slot i = none ∧ e.slot i = none ∨
      ∃ t q, m.slot i = some t ∧ e.slot i = some q ∧ Eager.Same t m.phys q := by
  cases was : m.slot i with
  | none => exact Or.inl ⟨rfl, mirrors.unused i was⟩
  | some t =>
    obtain ⟨q, seen, same⟩ := mirrors.used i t was
    exact Or.inr ⟨t, q, rfl, seen, same⟩

omit [Layout] in
theorem scan {m : Mem} {e : Eager} {test : Option Tenant → Bool} {test' : Option Eager.Proc → Bool}
    (agree : ∀ i, test' (e.slot i) = test (m.slot i)) : e.scan test' = m.scan test := by
  simp only [Eager.scan, Mem.scan, agree]

theorem running (mirrors : Mirrors m e) {p : Nat} {k : Tenant → Except Panic Mem} {k' : Eager.Proc → Eager}
    (run : m.running p k = .ok m')
    (busy : ∀ t q, m.slot p = some t → t.zombie = false → e.slot p = some q → Eager.Same t m.phys q →
      k t = .ok m' → Mirrors m' (k' q)) : Mirrors m' (e.running p k') := by
  unfold Mem.running at run
  unfold Eager.running
  rcases mirrors.slot p with ⟨none, none'⟩ | ⟨t, q, use, use', same⟩
  · rw [none] at run
    rw [none']
    cases run
    exact mirrors
  · rw [use] at run
    rw [use']
    simp only [same.zombie] at run ⊢
    split at run
    · rename_i able
      rw [if_pos able]
      exact busy t q use (by simpa using able.2) use' same run
    · rename_i stuck
      rw [if_neg stuck]
      cases run
      exact mirrors

theorem update (mirrors : Mirrors m e) {p : Nat} {t t' : Tenant} {q' : Eager.Proc} (use : m.slot p = some t)
    (inv' : MemInv m') (root : m'.initproc = m.initproc) (slot : m'.slot = Function.update m.slot p (some t'))
    (dir : t'.space.pgdir = t.space.pgdir) (here : Eager.Same t' m'.phys q')
    (others : ∀ d ∈ m.dirs, d ≠ t.space.pgdir → ∀ vp < NUPAGES, m'.phys.content d vp = m.phys.content d vp) :
    Mirrors m' (e.set p (some q')) := by
  have back : ∀ i v, m'.slot i = some v → i = p ∧ v = t' ∨ i ≠ p ∧ m.slot i = some v := by
    intro i v use'
    rw [slot, Function.update_apply] at use'
    split at use'
    · rename_i same
      exact Or.inl ⟨same, (Option.some.inj use').symm⟩
    · rename_i away
      exact Or.inr ⟨away, use'⟩
  have alone : ∀ i v, i ≠ p → m.slot i = some v → v.space.pgdir ≠ t.space.pgdir :=
    fun i v away use' same => away (mirrors.solo i v p t use' use same)
  refine ⟨inv', mirrors.root.trans root.symm, fun i v j w use1 use2 same => ?_, fun i none => ?_, fun i v use' => ?_⟩
  · rcases back i v use1 with ⟨rfl, rfl⟩ | ⟨away1, was1⟩ <;> rcases back j w use2 with ⟨rfl, rfl⟩ | ⟨away2, was2⟩
    · rfl
    · exact (alone j w away2 was2 (same.symm.trans dir)).elim
    · exact (alone i v away1 was1 (same.trans dir)).elim
    · exact mirrors.solo i v j w was1 was2 same
  · rw [slot, Function.update_apply] at none
    split at none
    · cases none
    · rename_i away
      simp only [Eager.set, Function.update_of_ne away]
      exact mirrors.unused i none
  · rcases back i v use' with ⟨rfl, rfl⟩ | ⟨away, was⟩
    · exact ⟨q', by simp [Eager.set], here⟩
    · obtain ⟨q, seen, same⟩ := mirrors.used i v was
      refine ⟨q, by simp only [Eager.set, Function.update_of_ne away]; exact seen, same.sz, same.parent, same.zombie, ?_⟩
      intro va low
      have small := mirrors.inv.tidy.small i v was
      rw [others _ (mirrors.inv.tidy.dir_mem was) (alone i v away was) _ (by
        simp only [KERNBASE, NUPAGES] at *
        omega)]
      exact same.byte va low

theorem quiet (mirrors : Mirrors m e) (inv' : MemInv m') (root : m'.initproc = m.initproc) (slot : m'.slot = m.slot)
    (views : ∀ d ∈ m.dirs, ∀ vp < NUPAGES, m'.phys.content d vp = m.phys.content d vp) : Mirrors m' e := by
  refine ⟨inv', mirrors.root.trans root.symm, fun i t j u => ?_, fun i => ?_, fun i t use => ?_⟩
  · rw [slot]
    exact mirrors.solo i t j u
  · rw [slot]
    exact mirrors.unused i
  · rw [slot] at use
    obtain ⟨q, seen, same⟩ := mirrors.used i t use
    refine ⟨q, seen, same.sz, same.parent, same.zombie, fun va low => ?_⟩
    have small := mirrors.inv.tidy.small i t use
    rw [views _ (mirrors.inv.tidy.dir_mem use) _ (by
      simp only [KERNBASE, NUPAGES] at *
      omega)]
    exact same.byte va low

theorem access (mirrors : Mirrors m e) {p va : Nat} {wr u : Bool} {b : UInt8} {t : Tenant} {q : Eager.Proc}
    (use : m.slot p = some t) (same : Eager.Same t m.phys q) (low : va < t.space.sz)
    (legal : u = true → (m.phys.pte t.space.pgdir (va / 4096)).p = true →
      (m.phys.pte t.space.pgdir (va / 4096)).u = true)
    (run : m.access t va wr u b = .ok m') (calm : m'.phys.oom = false) : Mirrors m' (e.access p q va wr b) := by
  have small := mirrors.inv.tidy.small p t use
  rcases access_spec mirrors.inv use (Nat.lt_trans low small) wr u b with ⟨m1, run1, accessed⟩ | fault
  · cases run.symm.trans run1
    have root := Mem.access_root run
    cases wr with
    | false =>
      refine mirrors.quiet accessed.inv root accessed.slot fun d hd vp hv => ?_
      by_cases here : d = t.space.pgdir ∧ vp = va / 4096
      · rw [here.1, here.2]
        rcases accessed.here with still | ⟨write, -⟩
        · exact still
        · cases write
      · exact accessed.others d hd vp hv here
    | true =>
      have now := accessed.complete low calm legal rfl
      have slot : m'.slot = Function.update m.slot p (some t) := by
        rw [accessed.slot, ← use, Function.update_eq_self]
      refine mirrors.update use accessed.inv root slot rfl ⟨same.sz, same.parent, same.zombie, ?_⟩
        fun d hd away vp hv => accessed.others d hd vp hv fun here => away here.1
      intro va' low'
      change Function.update q.byte va b va' = m'.phys.content t.space.pgdir (va' / 4096) (va' % 4096)
      by_cases page : va' / 4096 = va / 4096
      · -- in the page that was written, only the byte at va is new
        rw [page, now]
        by_cases byte : va' = va
        · subst byte
          rw [Function.update_self, Function.update_self]
        · rw [Function.update_of_ne byte, Function.update_of_ne (by omega), same.byte va' low', page]
      · have far : va' ≠ va := fun here => page (by rw [here])
        rw [Function.update_of_ne far, same.byte va' low']
        refine (congrFun (accessed.others _ (mirrors.inv.tidy.dir_mem use) _ ?_ fun here => page here.2) _).symm
        simp only [KERNBASE, NUPAGES] at *
        omega
  · cases run.symm.trans fault

omit [Layout] in
theorem setSize_solo {m : Mem} {p : Nat} {t : Tenant} (solo : m.Solo) (use : m.slot p = some t) (sz : Nat) :
    (m.setSize t.space.pgdir sz).slot =
      Function.update m.slot p (some { t with space := ⟨t.space.pgdir, sz⟩ }) := by
  funext i
  by_cases here : i = p
  · subst here
    rw [Function.update_self]
    simp [Mem.setSize, use]
  · rw [Function.update_of_ne here]
    cases other : m.slot i with
    | none => simp [Mem.setSize, other]
    | some v =>
      have away : v.space.pgdir ≠ t.space.pgdir := fun same => here (solo i v p t other use same)
      simp [Mem.setSize, other, away]

theorem sbrk (mirrors : Mirrors m e) {p : Nat} {n : Int} {t : Tenant} {q : Eager.Proc} (use : m.slot p = some t)
    (use' : e.slot p = some q) (same : Eager.Same t m.phys q) (positive : n < 0 → Mem.moved t.space.sz n ≠ 0)
    (run : m.sbrk t n = .ok m') : Mirrors m' (e.sbrk p q n) := by
  have small := mirrors.inv.tidy.small p t use
  have root := Mem.sbrk_root run
  obtain ⟨m1, run1, outcome⟩ := sbrk_spec mirrors.inv use n
  cases run.symm.trans run1
  have keep : e.set p (some q) = e := by rw [Eager.set, ← use', Function.update_eq_self]
  simp only [Eager.sbrk, same.sz]
  cases outcome with
  | refused why =>
    have stays : (if n < 0 then if Mem.moved t.space.sz n < t.space.sz then
        e.set p (some { q with sz := Mem.moved t.space.sz n }) else e
      else if Mem.moved t.space.sz n ≥ KERNBASE ∨ Mem.moved t.space.sz n < t.space.sz then e
      else e.set p (some { q with
        sz := Mem.moved t.space.sz n
        byte := fun a => if pgroundup t.space.sz ≤ a ∧ a < pgroundup (Mem.moved t.space.sz n) then 0 else q.byte a }))
        = e := by
      rcases why with ⟨up, out⟩ | ⟨down, zero⟩
      · rw [if_neg (by omega), if_pos out]
      · rw [if_pos down, if_neg (by omega)]
    rw [stays]
    exact mirrors
  | grown up more fits inv' =>
    rw [if_neg (by omega), if_neg (by omega)]
    refine mirrors.update use inv' rfl (setSize_solo mirrors.solo use _) rfl
      ⟨rfl, same.parent, same.zombie, fun va low => ?_⟩ fun _ _ _ _ _ => rfl
    change va / 4096 < (Mem.moved t.space.sz n + 4095) / 4096 at low
    change (if pgroundup t.space.sz ≤ va ∧ va < pgroundup (Mem.moved t.space.sz n) then 0 else q.byte va) =
      m.phys.content t.space.pgdir (va / 4096) (va % 4096)
    by_cases new : pgroundup t.space.sz ≤ va ∧ va < pgroundup (Mem.moved t.space.sz n)
    · -- a page above the old break is not there yet and reads as zeroes
      rw [if_pos new, Phys.content, mirrors.inv.trim use _ _]
      · rfl
      · simp only [KERNBASE, NUPAGES] at *
        omega
      · have := new.1
        simp only [pgroundup, PGSIZE, KERNBASE] at *
        omega
    · rw [if_neg new]
      refine same.byte va ?_
      simp only [pgroundup, PGSIZE, KERNBASE] at *
      omega
  | same down wrapped inv' =>
    rw [if_pos down, if_neg (by omega), ← keep]
    exact mirrors.update use inv' rfl (setSize_solo mirrors.solo use _) rfl
      ⟨same.sz, same.parent, same.zombie, same.byte⟩ fun _ _ _ _ _ => rfl
  | emptied _ _ down zero => exact (positive down zero).elim
  | shrunk _ inv' down _ less slot views =>
    rw [if_pos down, if_pos less]
    refine mirrors.update use inv' root (slot.trans (setSize_solo mirrors.solo use _)) rfl
      ⟨rfl, same.parent, same.zombie, fun va low => ?_⟩ fun d hd away vp hv => views d hd vp hv fun here => (away here).elim
    change va / 4096 < (Mem.moved t.space.sz n + 4095) / 4096 at low
    rw [views _ (mirrors.inv.tidy.dir_mem use) _ (by
      simp only [KERNBASE, NUPAGES] at *
      omega) fun _ => by omega]
    exact same.byte va (by omega)

theorem fork (mirrors : Mirrors m e) {p : Nat} {t : Tenant} {q : Eager.Proc} (use : m.slot p = some t)
    (alive : t.zombie = false) (same : Eager.Same t m.phys q) (run : m.fork p t = .ok m')
    (calm : m'.phys.oom = false) : Mirrors m' (e.fork p q) := by
  have root := Mem.fork_root run
  obtain ⟨m1, run1, outcome⟩ := fork_spec mirrors.inv use alive
  cases run.symm.trans run1
  have free' : e.scan Option.isNone = m.scan Option.isNone := scan fun i => by
    rcases mirrors.slot i with ⟨none, none'⟩ | ⟨v, r, some, some', -⟩
    · rw [none, none']
      rfl
    · rw [some, some']
      rfl
  unfold Eager.fork
  cases outcome with
  | failed inv' slot dirs views _ why =>
    rcases why with many | full | ⟨short, -⟩
    · -- nobody else has the directory
      obtain ⟨j, u, other, sameDir, away⟩ := mirrors.inv.tidy.shared use (by omega)
      exact (away (mirrors.solo j u p t other use sameDir)).elim
    · rw [free', full]
      exact mirrors.quiet inv' root slot views
    · cases calm.symm.trans short
  | made np c inv' few free slot fresh size born kin _ copy views =>
    rw [free', free]
    have empty : m.slot np = none := by simpa using (Mem.Tidy.scan_some free).2
    have back : ∀ i v, m'.slot i = some v → i = np ∧ v = c ∨ i ≠ np ∧ m.slot i = some v := by
      intro i v use'
      rw [slot, Function.update_apply] at use'
      split at use'
      · rename_i here
        exact Or.inl ⟨here, (Option.some.inj use').symm⟩
      · rename_i away
        exact Or.inr ⟨away, use'⟩
    have new : ∀ i v, m.slot i = some v → v.space.pgdir ≠ c.space.pgdir :=
      fun i v was here => fresh (here ▸ mirrors.inv.tidy.dir_mem was)
    have page : ∀ {i v va}, m.slot i = some v → va / 4096 < (v.space.sz + 4095) / 4096 → va / 4096 < NUPAGES := by
      intro i v va was low
      have small := mirrors.inv.tidy.small i v was
      simp only [KERNBASE, NUPAGES] at *
      omega
    refine ⟨inv', mirrors.root.trans root.symm, fun i v j w use1 use2 sameDir => ?_, fun i none => ?_, fun i v use' => ?_⟩
    · rcases back i v use1 with ⟨rfl, rfl⟩ | ⟨-, was1⟩ <;> rcases back j w use2 with ⟨rfl, rfl⟩ | ⟨-, was2⟩
      · rfl
      · exact (new j w was2 sameDir.symm).elim
      · exact (new i v was1 sameDir).elim
      · exact mirrors.solo i v j w was1 was2 sameDir
    · rw [slot, Function.update_apply] at none
      split at none
      · cases none
      · rename_i away
        simp only [Eager.set, Function.update_of_ne away]
        exact mirrors.unused i none
    · rcases back i v use' with ⟨rfl, rfl⟩ | ⟨away, was⟩
      · refine ⟨_, Function.update_self .., same.sz.trans size.symm, kin.symm, born.symm, ?_⟩
        intro va low
        rw [size] at low
        rw [copy _ (page use low)]
        exact same.byte va low
      · obtain ⟨r, seen, like⟩ := mirrors.used i v was
        refine ⟨r, by simp only [Eager.set, Function.update_of_ne away]; exact seen, like.sz, like.parent, like.zombie, ?_⟩
        intro va low
        rw [views _ (mirrors.inv.tidy.dir_mem was) _ (page was low)]
        exact like.byte va low

theorem exit (mirrors : Mirrors m e) {p : Nat} {t : Tenant} {q : Eager.Proc} (use : m.slot p = some t)
    (same : Eager.Same t m.phys q) (run : m.exit p t = .ok m') : Mirrors m' (e.exit p q) := by
  rcases exit_spec mirrors.inv use with ⟨m1, run1, inv', -⟩ | first
  swap
  · cases run.symm.trans first
  cases run.symm.trans run1
  unfold Mem.exit at run
  split at run
  · cases run
  cases run
  have like : ∀ v r, Eager.Same v m.phys r → Eager.Same
      (if v.parent = some p then { v with parent := some m.initproc } else v) m.phys
      (if r.parent = some p then { r with parent := some e.initproc } else r) := by
    intro v r same
    rw [same.parent, mirrors.root]
    split
    · exact ⟨same.sz, rfl, same.zombie, same.byte⟩
    · exact same
  have space : ∀ v : Tenant,
      (if v.parent = some p then { v with parent := some m.initproc } else v).space = v.space := by
    intro v
    split <;> rfl
  have back : ∀ i v, Function.update (fun i => (m.slot i).map fun c : Tenant =>
      if c.parent = some p then { c with parent := some m.initproc } else c) p
      (some { (if t.parent = some p then { t with parent := some m.initproc } else t) with zombie := true }) i = some v →
      ∃ w, m.slot i = some w ∧ v.space = w.space := by
    intro i v now
    by_cases here : i = p
    · subst here
      rw [Function.update_self] at now
      cases now
      exact ⟨t, use, space t⟩
    · rw [Function.update_of_ne here] at now
      obtain ⟨w, was, rfl⟩ := Option.map_eq_some_iff.mp now
      exact ⟨w, was, space w⟩
  refine ⟨inv', mirrors.root, fun i v j w use1 use2 sameDir => ?_, fun i none => ?_, fun i v now => ?_⟩
  · obtain ⟨v', was1, same1⟩ := back i v use1
    obtain ⟨w', was2, same2⟩ := back j w use2
    rw [same1, same2] at sameDir
    exact mirrors.solo i v' j w' was1 was2 sameDir
  · by_cases here : i = p
    · subst here
      simp [Mem.setSlot] at none
    · simp only [Mem.setSlot, Function.update_of_ne here, Option.map_eq_none_iff] at none
      simp only [Eager.exit, Eager.set, Function.update_of_ne here, mirrors.unused i none, Option.map_none]
  · by_cases here : i = p
    · subst here
      simp only [Mem.setSlot, Function.update_self] at now
      cases now
      have now := like t q same
      exact ⟨_, Function.update_self .., now.sz, now.parent, rfl, now.byte⟩
    · simp only [Mem.setSlot, Function.update_of_ne here] at now
      obtain ⟨w, was, rfl⟩ := Option.map_eq_some_iff.mp now
      obtain ⟨r, seen, same'⟩ := mirrors.used i w was
      exact ⟨_, by simp only [Eager.exit, Eager.set, Function.update_of_ne here, seen, Option.map_some], like w r same'⟩

theorem wait (mirrors : Mirrors m e) {p : Nat} (run : m.wait p = .ok m') : Mirrors m' (e.wait p) := by
  have root := Mem.wait_root run
  obtain ⟨m1, run1, outcome⟩ := wait_spec mirrors.inv p
  cases run.symm.trans run1
  have found : e.scan (Eager.isZombieOf p) = m.scan (Mem.isZombieOf p) := scan fun i => by
    rcases mirrors.slot i with ⟨none, none'⟩ | ⟨v, r, some, some', same⟩
    · rw [none, none']
      rfl
    · rw [some, some']
      simp [Eager.isZombieOf, Mem.isZombieOf, same.parent, same.zombie]
  unfold Eager.wait
  rcases outcome with ⟨nobody, rfl⟩ | ⟨q, t, chosen, use, dead, reaped⟩
  · rw [found, nobody]
    exact mirrors
  · rw [found, chosen]
    have back : ∀ i v, m'.slot i = some v → i ≠ q ∧ m.slot i = some v := by
      intro i v now
      rw [reaped.slot, Function.update_apply] at now
      split at now
      · cases now
      · rename_i away
        exact ⟨away, now⟩
    refine ⟨reaped.inv, mirrors.root.trans root.symm, fun i v j w use1 use2 => ?_, fun i gone => ?_, fun i v now => ?_⟩
    · exact mirrors.solo i v j w (back i v use1).2 (back j w use2).2
    · by_cases here : i = q
      · subst here
        simp [Eager.set]
      · rw [reaped.slot, Function.update_of_ne here] at gone
        simp only [Eager.set, Function.update_of_ne here]
        exact mirrors.unused i gone
    · obtain ⟨away, was⟩ := back i v now
      obtain ⟨r, seen, same⟩ := mirrors.used i v was
      refine ⟨r, by simp only [Eager.set, Function.update_of_ne away]; exact seen, same.sz, same.parent, same.zombie, ?_⟩
      intro va low
      have small := mirrors.inv.tidy.small i v was
      rw [reaped.views i v now _ (by
        simp only [KERNBASE, NUPAGES] at *
        omega)]
      exact same.byte va low

theorem step (mirrors : Mirrors m e) {op : Op} (plain : m.Plain op) (run : m.step op = .ok m')
    (calm : m'.phys.oom = false) : Mirrors m' (e.step op) := by
  cases op with
  | fork p => exact mirrors.running run fun t q use alive _ same run => mirrors.fork use alive same run calm
  | sbrk p n =>
    exact mirrors.running run fun t q use _ use' same run => mirrors.sbrk use use' same (plain t use) run
  | access p va wr u b =>
    exact mirrors.running run fun t q use _ _ same run =>
      mirrors.access use same (plain t use).1 (plain t use).2 run calm
  | exit p => exact mirrors.running run fun t q use _ _ same run => mirrors.exit use same run
  | wait p => exact mirrors.running run fun t q _ _ _ _ run => mirrors.wait run
  | clone => exact plain.elim
  | exec => exact plain.elim
  | join => exact plain.elim
  | pipealloc => exact plain.elim
  | pipeclose => exact plain.elim

theorem start (reach : m.Reachable) (solo : m.Solo) : Mirrors m.calm m.eager := by
  refine ⟨reach.inv.withPhys (reach.inv.frames.oom false) fun _ _ _ _ there => Or.inl there, rfl, solo,
    fun i none => ?_, fun i t use => ?_⟩
  · change (m.slot i).map _ = Option.none
    rw [show m.slot i = Option.none from none]
    rfl
  · have seen : m.eager.slot i = some ⟨t.space.sz, fun va => m.phys.content t.space.pgdir (va / 4096) (va % 4096),
        t.parent, t.zombie⟩ := by
      simp only [Mem.eager, show m.slot i = some t from use, Option.map_some]
    exact ⟨_, seen, rfl, rfl, rfl, fun _ _ => rfl⟩

end Mirrors

theorem Mem.Lockstep.mirrors {s : Mem × Eager} (lockstep : Mem.Lockstep s) : Mirrors s.1 s.2 := by
  refine Runs.Reachable.invariant (P := fun s => Mirrors s.1 s.2) ?_ ?_ lockstep
  · rintro _ ⟨m, reach, solo, rfl⟩
    exact Mirrors.start reach solo
  · rintro ⟨m, e⟩ op s' mirrors ⟨plain, calm⟩ run
    cases first : m.step op with
    | error stop =>
      simp only [first] at run
      cases run
    | ok m' =>
      simp only [first] at run
      cases run
      exact mirrors.step plain first (calm m' first)

/-- A byte that a process reads is the byte it has in the memory without sharing, and a
    write changes nothing for a process with another directory. -/
theorem cow_refines_eager (m : Mem) (e : Eager) (lockstep : Mem.Lockstep (m, e)) (p : Nat) (t : Tenant)
    (used : m.slot p = some t) (alive : t.zombie = false) (va : Nat) (u : Bool) (below : va < t.space.sz)
    (legal : u = true → (m.phys.pte t.space.pgdir (va / 4096)).p = true →
      (m.phys.pte t.space.pgdir (va / 4096)).u = true) (b : UInt8) :
    (∀ m', m.step (.access p va false u b) = .ok m' → m'.phys.oom = false →
      ∃ q, e.slot p = some q ∧ m.read t va u = .ok (some (q.byte va))) ∧
    ∀ m', m.step (.access p va true u b) = .ok m' → ∀ i v, m.slot i = some v → v.space.pgdir ≠ t.space.pgdir →
      ∀ vp < NUPAGES, m'.phys.content v.space.pgdir vp = m.phys.content v.space.pgdir vp := by
  have mirrors := lockstep.mirrors
  have inv := mirrors.inv
  have user : va < KERNBASE := Nat.lt_trans below (inv.tidy.small p t used)
  have hd := inv.tidy.dir_mem used
  have hv : va / 4096 < NUPAGES := by
    simp only [KERNBASE, NUPAGES] at *
    omega
  constructor
  · intro m' run calm
    obtain ⟨q, seen, same⟩ := mirrors.used p t used
    obtain ⟨done, s', touch, touched⟩ := touch_spec inv.frames t.space.sz hd user false u
    have run : m.access t va false u b = .ok m' := by
      simp only [Mem.step] at run
      rwa [Mem.step_running inv used alive] at run
    have calm' : s'.oom = false := by
      rw [Mem.access, if_pos user, touch, ok_bind] at run
      simp only at run
      split at run
      · cases run
        exact calm
      · split at run
        · cases run
          exact calm
        · cases run
    have done := touched.complete below calm' legal
    subst done
    have present := (Pte.permits_iff.mp (touched.permits rfl)).1
    refine ⟨q, seen, ?_⟩
    simp only [Mem.read, touch, ok_bind, found_eq_pte, ↓reduceIte]
    rw [same.byte va (by omega), ← touched.content _ hd _ hv, Phys.content, if_pos present]
    rfl
  · intro m' run i v other apart vp hv'
    have run : m.access t va true u b = .ok m' := by
      simp only [Mem.step] at run
      rwa [Mem.step_running inv used alive] at run
    rcases access_spec inv used user true u b with ⟨m1, run1, accessed⟩ | fault
    · cases run.symm.trans run1
      exact accessed.others _ (inv.tidy.dir_mem other) vp hv' fun here => apart here.1
    · cases run.symm.trans fault

end

/-- init's child reads a byte that it shares with init. -/
theorem cow_refines_eager_forked : ∃ _ : Layout, ∃ (m : Mem) (e : Eager) (p : Nat) (t : Tenant) (q : Eager.Proc),
    Mem.Lockstep (m, e) ∧ m.slot p = some t ∧ (m.phys.pte t.space.pgdir 0).cow = true ∧ e.slot p = some q ∧
    m.read t 0 false = .ok (some (q.byte 0)) := by
  let _ := Layout.small
  obtain ⟨m, t, np, c, forked⟩ := Mem.forked_exists (by decide)
  have inv := forked.reach.inv
  have solo : m.Solo := by
    have only : ∀ i v, m.slot i = some v → i = 0 ∧ v = t ∨ i = np ∧ v = c := by
      intro i v use
      have member := forked.small.only i v use
      simp only [Finset.mem_insert, Finset.mem_singleton] at member
      rcases member with rfl | rfl
      · exact Or.inl ⟨rfl, Option.some.inj (use.symm.trans forked.used)⟩
      · exact Or.inr ⟨rfl, Option.some.inj (use.symm.trans forked.child)⟩
    intro i v j w use1 use2 same
    rcases only i v use1 with ⟨rfl, rfl⟩ | ⟨rfl, rfl⟩ <;> rcases only j w use2 with ⟨rfl, rfl⟩ | ⟨rfl, rfl⟩
    · rfl
    · exact (forked.apart same.symm).elim
    · exact (forked.apart same).elim
    · rfl
  have lockstep : Mem.Lockstep (m.calm, m.eager) := Runs.Reachable.start ⟨m, forked.reach, solo, rfl⟩
  obtain ⟨present, cow, -⟩ := forked.guard c.space.pgdir (Or.inr rfl)
  have child : m.calm.slot np = some c := forked.child
  have read : m.calm.step (.access np 0 false false 0) = .ok m.calm := by
    simp only [Mem.step]
    rw [Mem.step_running lockstep.mirrors.inv child forked.born, Mem.access, if_pos (by decide), Phys.touch]
    have fine : (m.calm.phys.found c.space.pgdir 0).permits false false = true := by
      rw [found_eq_pte]
      exact Pte.permits_iff.mpr ⟨present, fun write => absurd write Bool.false_ne_true,
        fun user => absurd user Bool.false_ne_true⟩
    simp only [fine, ↓reduceIte, ok_bind, Bool.false_eq_true]
  obtain ⟨q, seen, same⟩ := (cow_refines_eager m.calm m.eager lockstep np c child forked.born 0 false
    (by rw [forked.size.2]; decide) (fun user => absurd user Bool.false_ne_true) 0).1 m.calm read rfl
  exact ⟨Layout.small, m.calm, m.eager, np, c, q, lockstep, child, cow, seen, same⟩

end Xv6
