import Xv6.Process.Kinship

/-!
The page directories there are: each one is some process's pgdir, or exec holds it
as the new image or as the one it has just left.
-/
namespace Xv6

def Sys.Uses (s : Sys) (d i : Nat) : Prop :=
  (s.sched.proc i).state ≠ .unused ∧ (s.sched.proc i).pgdir = d

/-- The directory that exec alone knows: the new image, or the old one after the commit. -/
def Pc.holds : Pc → Option Nat
  | .execLoaded d | .execCommitted d => some d
  | _ => none

structure DirInv (s : Sys) : Prop where
  null : 0 ∉ s.dirs
  member : ∀ d i, d ≠ 0 → s.Uses d i → d ∈ s.dirs
  used : ∀ d ∈ s.dirs, (∃ i, s.Uses d i) ∨ ∃ p, (s.pc p).holds = some d
  held : ∀ p d, (s.pc p).holds = some d → d ∈ s.dirs ∧ ∀ i, ¬ s.Uses d i
  once : ∀ p q d, (s.pc p).holds = some d → (s.pc q).holds = some d → p = q
  alone : s.Alone

variable {s s' : Sys}

theorem Pc.busy_of_exclusive {pc : Pc} (h : pc.exclusive = true) : pc ≠ .user := by
  rintro rfl
  cases h

theorem Pc.quiet_of_making {pc : Pc} {np : Nat} (h : pc.making = some np) :
    pc.holds = none ∧ pc.exclusive = false := by
  cases pc <;> simp_all [Pc.making, Pc.holds, Pc.exclusive]

theorem KinInv.users (kin : KinInv s) (d i : Nat) : i ∈ s.sched.users d ↔ s.Uses d i := by
  unfold Sched.users Sys.Uses
  rw [List.mem_filter, List.mem_range, Bool.and_eq_true, decide_eq_true_eq, beq_iff_eq]
  constructor
  · exact fun h => h.2
  · intro h
    refine ⟨?_, h⟩
    by_contra high
    exact h.1 (kin.outside i (Nat.not_lt.mp high))

theorem KinInv.last (kin : KinInv s) {p : Nat} (used : (s.sched.proc p).state ≠ .unused)
    (pos : (s.sched.proc p).pgdir ≠ 0) (few : s.sched.pgdirUsers (s.sched.proc p).pgdir ≤ 1) {j : Nat}
    (uses : s.Uses (s.sched.proc p).pgdir j) : j = p := by
  unfold Sched.pgdirUsers at few
  rw [if_neg pos] at few
  have mine := (kin.users _ p).mpr ⟨used, rfl⟩
  have other := (kin.users _ j).mpr uses
  generalize s.sched.users (s.sched.proc p).pgdir = l at few mine other
  match l, few with
  | [], _ => cases mine
  | [k], _ => rw [List.mem_singleton.mp mine, List.mem_singleton.mp other]

theorem KinInv.another (kin : KinInv s) {p : Nat} (used : (s.sched.proc p).state ≠ .unused)
    (pos : (s.sched.proc p).pgdir ≠ 0) (more : s.sched.pgdirUsers (s.sched.proc p).pgdir ≠ 1) :
    ∃ j, j ≠ p ∧ s.Uses (s.sched.proc p).pgdir j := by
  unfold Sched.pgdirUsers at more
  rw [if_neg pos] at more
  by_contra none
  push Not at none
  refine more ?_
  have mine := (kin.users _ p).mpr ⟨used, rfl⟩
  have only : ∀ j ∈ s.sched.users (s.sched.proc p).pgdir, j = p := by
    intro j member
    by_contra ne
    exact none j ne ((kin.users _ j).mp member)
  have nodup : (s.sched.users (s.sched.proc p).pgdir).Nodup := List.nodup_range.filter _
  generalize s.sched.users (s.sched.proc p).pgdir = l at mine only nodup
  match l with
  | [] => cases mine
  | [_] => rfl
  | j :: k :: l =>
    have first := only j (by simp)
    have second := only k (by simp)
    simp [first, second] at nodup

theorem PcInv.zombie_idle (pcs : PcInv s) {p : Nat} (zombie : (s.sched.proc p).state = .zombie) :
    s.pc p = .user := by
  by_contra busy
  have alive := pcs.active p busy
  rw [zombie] at alive
  exact Procstate.zombie_dead alive

theorem reap_uses (s : Sys) (p : Nat) {dirs : Finset Nat} {log : List Event} (d i : Nat) (_ : d ≠ 0) :
    ({ s with sched := s.sched.reap p, dirs := dirs, log := log } : Sys).Uses d i ↔ s.Uses d i ∧ i ≠ p := by
  unfold Sys.Uses
  by_cases here : i = p
  · subst here
    simp [Sched.reap]
  · simp [Sched.reap, here]

namespace DirInv

theorem same (inv : DirInv s) (dirs : s'.dirs = s.dirs) (uses : ∀ d i, d ≠ 0 → (s'.Uses d i ↔ s.Uses d i))
    (holds : ∀ p, (s'.pc p).holds = (s.pc p).holds)
    (exec : ∀ p, (s'.pc p).exclusive = true → (s'.sched.proc p).pgdir = (s.sched.proc p).pgdir ∧
      (s.sched.proc p).pgdir ≠ 0 ∧ ((s.pc p).exclusive = true ∨ ∀ j, s.Uses (s.sched.proc p).pgdir j → j = p)) :
    DirInv s' := by
  have notNull : ∀ d ∈ s.dirs, d ≠ 0 := by
    rintro d member rfl
    exact inv.null member
  refine ⟨by rw [dirs]; exact inv.null, ?_, ?_, ?_, ?_, ?_⟩
  · intro d i pos use
    rw [dirs]
    exact inv.member d i pos ((uses d i pos).mp use)
  · intro d member
    rw [dirs] at member
    rcases inv.used d member with ⟨i, use⟩ | ⟨p, hold⟩
    · exact Or.inl ⟨i, (uses d i (notNull d member)).mpr use⟩
    · exact Or.inr ⟨p, (holds p).trans hold⟩
  · intro p d hold
    rw [holds p] at hold
    obtain ⟨member, unused⟩ := inv.held p d hold
    rw [dirs]
    exact ⟨member, fun i use => unused i ((uses d i (notNull d member)).mp use)⟩
  · intro p q d one two
    rw [holds p] at one
    rw [holds q] at two
    exact inv.once p q d one two
  · intro p here j used eq
    obtain ⟨pgdir, pos, before⟩ := exec p here
    have use := (uses _ j pos).mp ⟨used, eq.trans pgdir⟩
    rcases before with old | few
    · exact inv.alone p old j use.1 use.2
    · exact few j use

theorem adopt (inv : DirInv s) (np : Nat) {d : Nat} (fresh : s.Fresh d) (dirs : s'.dirs = insert d s.dirs)
    (new : ∀ i, s'.Uses d i ↔ i = np) (uses : ∀ e i, e ≠ 0 → e ≠ d → (s'.Uses e i ↔ s.Uses e i))
    (holds : ∀ p, (s'.pc p).holds = (s.pc p).holds)
    (exec : ∀ p, (s'.pc p).exclusive = true → (s.pc p).exclusive = true ∧
      (s'.sched.proc p).pgdir = (s.sched.proc p).pgdir ∧ (s.sched.proc p).pgdir ∈ s.dirs) : DirInv s' := by
  have old : ∀ e ∈ s.dirs, e ≠ 0 ∧ e ≠ d := by
    intro e member
    constructor
    · rintro rfl
      exact inv.null member
    · rintro rfl
      exact fresh.2 member
  refine ⟨?_, ?_, ?_, ?_, ?_, ?_⟩
  · rw [dirs, Finset.mem_insert]
    rintro (zero | member)
    · exact fresh.1 zero.symm
    · exact inv.null member
  · intro e i pos use
    rw [dirs, Finset.mem_insert]
    by_cases here : e = d
    · exact Or.inl here
    · exact Or.inr (inv.member e i pos ((uses e i pos here).mp use))
  · intro e member
    rw [dirs, Finset.mem_insert] at member
    rcases member with rfl | member
    · exact Or.inl ⟨np, (new np).mpr rfl⟩
    · rcases inv.used e member with ⟨i, use⟩ | ⟨p, hold⟩
      · exact Or.inl ⟨i, (uses e i (old e member).1 (old e member).2).mpr use⟩
      · exact Or.inr ⟨p, (holds p).trans hold⟩
  · intro p e hold
    rw [holds p] at hold
    obtain ⟨member, unused⟩ := inv.held p e hold
    rw [dirs]
    exact ⟨Finset.mem_insert_of_mem member,
      fun i use => unused i ((uses e i (old e member).1 (old e member).2).mp use)⟩
  · intro p q e one two
    rw [holds p] at one
    rw [holds q] at two
    exact inv.once p q e one two
  · intro p here j used eq
    obtain ⟨old', pgdir, member⟩ := exec p here
    have use := (uses _ j (old _ member).1 (old _ member).2).mp ⟨used, eq.trans pgdir⟩
    exact inv.alone p old' j use.1 use.2

theorem share (inv : DirInv s) (cur np : Nat) (dirs : s'.dirs = s.dirs)
    (mine : s.Uses (s.sched.proc cur).pgdir cur) (pos : (s.sched.proc cur).pgdir ≠ 0)
    (uses : ∀ e i, e ≠ 0 → (s'.Uses e i ↔ s.Uses e i ∨ i = np ∧ e = (s.sched.proc cur).pgdir))
    (holds : ∀ p, (s'.pc p).holds = (s.pc p).holds) (busy : (s.pc cur).exclusive = false)
    (exec : ∀ p, (s'.pc p).exclusive = true → (s.pc p).exclusive = true ∧
      (s'.sched.proc p).pgdir = (s.sched.proc p).pgdir ∧ (s.sched.proc p).pgdir ≠ 0) : DirInv s' := by
  have notNull : ∀ d ∈ s.dirs, d ≠ 0 := by
    rintro d member rfl
    exact inv.null member
  refine ⟨by rw [dirs]; exact inv.null, ?_, ?_, ?_, ?_, ?_⟩
  · intro e i ne use
    rw [dirs]
    rcases (uses e i ne).mp use with old | ⟨-, rfl⟩
    · exact inv.member e i ne old
    · exact inv.member _ cur pos mine
  · intro e member
    rw [dirs] at member
    rcases inv.used e member with ⟨i, use⟩ | ⟨p, hold⟩
    · exact Or.inl ⟨i, (uses e i (notNull e member)).mpr (Or.inl use)⟩
    · exact Or.inr ⟨p, (holds p).trans hold⟩
  · intro p e hold
    rw [holds p] at hold
    obtain ⟨member, unused⟩ := inv.held p e hold
    rw [dirs]
    refine ⟨member, fun i use => ?_⟩
    rcases (uses e i (notNull e member)).mp use with old | ⟨-, rfl⟩
    · exact unused i old
    · exact unused cur mine
  · intro p q d one two
    rw [holds p] at one
    rw [holds q] at two
    exact inv.once p q d one two
  · intro p here j used eq
    obtain ⟨old, pgdir, ne⟩ := exec p here
    rcases (uses _ j ne).mp ⟨used, eq.trans pgdir⟩ with use | ⟨-, same⟩
    · exact inv.alone p old j use.1 use.2
    · obtain rfl := inv.alone p old cur mine.1 same.symm
      rw [busy] at old
      cases old

theorem load (inv : DirInv s) {cur d : Nat} (fresh : s.Fresh d) (at' : s.pc cur = .execChecked) :
    DirInv ({ s with dirs := insert d s.dirs }.setPc cur (.execLoaded d)) := by
  have unused : ∀ i, ¬ s.Uses d i := fun i use => fresh.2 (inv.member d i fresh.1 use)
  have apart : ∀ p, (s.pc p).holds ≠ some d := fun p hold => fresh.2 (inv.held p d hold).1
  have pc : ∀ p e, (({ s with dirs := insert d s.dirs }.setPc cur (.execLoaded d)).pc p).holds = some e →
      p = cur ∧ e = d ∨ p ≠ cur ∧ (s.pc p).holds = some e := by
    intro p e hold
    rw [Sys.setPc_pc] at hold
    split at hold
    · rename_i here
      exact Or.inl ⟨here, (Option.some.inj hold).symm⟩
    · rename_i other
      exact Or.inr ⟨other, hold⟩
  constructor
  · change 0 ∉ insert d s.dirs
    rw [Finset.mem_insert]
    rintro (zero | member)
    · exact fresh.1 zero.symm
    · exact inv.null member
  · intro e i pos use
    exact Finset.mem_insert_of_mem (inv.member e i pos use)
  · intro e member
    rcases Finset.mem_insert.mp member with rfl | old
    · exact Or.inr ⟨cur, by rw [Sys.setPc_pc, if_pos rfl]; rfl⟩
    · rcases inv.used e old with use | ⟨p, hold⟩
      · exact Or.inl use
      · refine Or.inr ⟨p, ?_⟩
        rw [Sys.setPc_pc, if_neg]
        · exact hold
        · rintro rfl
          rw [at'] at hold
          cases hold
  · intro p e hold
    rcases pc p e hold with ⟨-, rfl⟩ | ⟨-, old⟩
    · exact ⟨Finset.mem_insert_self _ _, unused⟩
    · exact ⟨Finset.mem_insert_of_mem (inv.held p e old).1, (inv.held p e old).2⟩
  · intro p q e one two
    rcases pc p e one with ⟨rfl, rfl⟩ | ⟨-, old⟩
    · rcases pc q e two with ⟨rfl, -⟩ | ⟨-, old⟩
      · rfl
      · exact (apart q old).elim
    · rcases pc q e two with ⟨-, rfl⟩ | ⟨-, old'⟩
      · exact (apart p old).elim
      · exact inv.once p q e old old'
  · intro p here
    refine inv.alone p ?_
    rw [Sys.setPc_pc] at here
    split at here
    · rename_i eq
      rw [eq, at']
      rfl
    · exact here

theorem commit (inv : DirInv s) {cur d : Nat} (at' : s.pc cur = .execLoaded d)
    (used : (s.sched.proc cur).state ≠ .unused) (pos : (s.sched.proc cur).pgdir ≠ 0)
    (dirs : s'.dirs = insert d s.dirs) (uses : ∀ e i, s'.Uses e i ↔ i = cur ∧ e = d ∨ i ≠ cur ∧ s.Uses e i)
    (here : s'.pc cur = .execCommitted (s.sched.proc cur).pgdir) (pc : ∀ p, p ≠ cur → s'.pc p = s.pc p)
    (pgdir : ∀ p, p ≠ cur → (s'.sched.proc p).pgdir = (s.sched.proc p).pgdir)
    (active : ∀ p, (s.pc p).exclusive = true → (s.sched.proc p).state ≠ .unused) : DirInv s' := by
  have mine : s.Uses (s.sched.proc cur).pgdir cur := ⟨used, rfl⟩
  have oldIn := inv.member _ cur pos mine
  obtain ⟨newIn, newFree⟩ := inv.held cur d (by rw [at']; rfl)
  have differ : d ≠ (s.sched.proc cur).pgdir := by
    rintro rfl
    exact newFree cur mine
  have same : s'.dirs = s.dirs := by
    rw [dirs]
    exact Finset.insert_eq_self.mpr newIn
  have holds : ∀ p e, (s'.pc p).holds = some e →
      p = cur ∧ e = (s.sched.proc cur).pgdir ∨ p ≠ cur ∧ (s.pc p).holds = some e := by
    intro p e hold
    by_cases eq : p = cur
    · subst eq
      rw [here] at hold
      exact Or.inl ⟨rfl, (Option.some.inj hold).symm⟩
    · rw [pc p eq] at hold
      exact Or.inr ⟨eq, hold⟩
  have notOld : ∀ p, (s.pc p).holds ≠ some (s.sched.proc cur).pgdir :=
    fun p hold => (inv.held p _ hold).2 cur mine
  have busy : ∀ p, p ≠ cur → (s.pc p).holds ≠ some d :=
    fun p ne hold => ne (inv.once p cur d hold (by rw [at']; rfl))
  refine ⟨by rw [same]; exact inv.null, ?_, ?_, ?_, ?_, ?_⟩
  · intro e i ne use
    rw [same]
    rcases (uses e i).mp use with ⟨-, rfl⟩ | ⟨-, old⟩
    · exact newIn
    · exact inv.member e i ne old
  · intro e member
    rw [same] at member
    by_cases new : e = d
    · exact Or.inl ⟨cur, (uses e cur).mpr (Or.inl ⟨rfl, new⟩)⟩
    by_cases old : e = (s.sched.proc cur).pgdir
    · exact Or.inr ⟨cur, by rw [here, old]; rfl⟩
    rcases inv.used e member with ⟨i, use⟩ | ⟨p, hold⟩
    · refine Or.inl ⟨i, (uses e i).mpr (Or.inr ⟨?_, use⟩)⟩
      rintro rfl
      exact old use.2.symm
    · refine Or.inr ⟨p, ?_⟩
      rw [pc p]
      · exact hold
      · rintro rfl
        rw [at'] at hold
        exact new (Option.some.inj hold).symm
  · intro p e hold
    rw [same]
    rcases holds p e hold with ⟨-, rfl⟩ | ⟨ne, old⟩
    · refine ⟨oldIn, fun i use => ?_⟩
      rcases (uses _ i).mp use with ⟨-, eq⟩ | ⟨ne, old⟩
      · exact differ eq.symm
      · exact ne (inv.alone cur (by rw [at']; rfl) i old.1 old.2)
    · obtain ⟨member, unused⟩ := inv.held p e old
      refine ⟨member, fun i use => ?_⟩
      rcases (uses e i).mp use with ⟨-, rfl⟩ | ⟨-, was⟩
      · exact busy p ne old
      · exact unused i was
  · intro p q e one two
    rcases holds p e one with ⟨rfl, rfl⟩ | ⟨-, old⟩
    · rcases holds q _ two with ⟨rfl, -⟩ | ⟨-, old⟩
      · rfl
      · exact (notOld q old).elim
    · rcases holds q e two with ⟨-, rfl⟩ | ⟨-, old'⟩
      · exact (notOld p old).elim
      · exact inv.once p q e old old'
  · intro p exec j used' eq
    have ne : p ≠ cur := by
      rintro rfl
      rw [here] at exec
      cases exec
    rw [pc p ne] at exec
    rw [pgdir p ne] at eq
    rcases (uses _ j).mp ⟨used', eq⟩ with ⟨-, taken⟩ | ⟨-, old⟩
    · exact (newFree p ⟨active p exec, taken⟩).elim
    · exact inv.alone p exec j old.1 old.2

theorem free (inv : DirInv s) {cur old : Nat} (at' : s.pc cur = .execCommitted old)
    (dirs : s'.dirs = s.dirs.erase old) (sched : s'.sched = s.sched) (here : s'.pc cur = .user)
    (pc : ∀ p, p ≠ cur → s'.pc p = s.pc p) : DirInv s' := by
  obtain ⟨member, unused⟩ := inv.held cur old (by rw [at']; rfl)
  have uses : ∀ e i, s'.Uses e i ↔ s.Uses e i := by
    intro e i
    unfold Sys.Uses
    rw [sched]
  have holds : ∀ p e, (s'.pc p).holds = some e → p ≠ cur ∧ (s.pc p).holds = some e := by
    intro p e hold
    by_cases eq : p = cur
    · subst eq
      rw [here] at hold
      cases hold
    · rw [pc p eq] at hold
      exact ⟨eq, hold⟩
  refine ⟨?_, ?_, ?_, ?_, ?_, ?_⟩
  · rw [dirs]
    exact fun h => inv.null (Finset.mem_of_mem_erase h)
  · intro e i ne use
    rw [dirs, Finset.mem_erase]
    refine ⟨?_, inv.member e i ne ((uses e i).mp use)⟩
    rintro rfl
    exact unused i ((uses e i).mp use)
  · intro e member'
    rw [dirs, Finset.mem_erase] at member'
    rcases inv.used e member'.2 with ⟨i, use⟩ | ⟨p, hold⟩
    · exact Or.inl ⟨i, (uses e i).mpr use⟩
    · refine Or.inr ⟨p, ?_⟩
      rw [pc p]
      · exact hold
      · rintro rfl
        rw [at'] at hold
        exact member'.1 (Option.some.inj hold).symm
  · intro p e hold
    obtain ⟨ne, was⟩ := holds p e hold
    obtain ⟨member', unused'⟩ := inv.held p e was
    rw [dirs, Finset.mem_erase]
    refine ⟨⟨?_, member'⟩, fun i use => unused' i ((uses e i).mp use)⟩
    rintro rfl
    exact ne (inv.once p cur e was (by rw [at']; rfl))
  · intro p q e one two
    exact inv.once p q e (holds p e one).2 (holds q e two).2
  · intro p exec j used eq
    have ne : p ≠ cur := by
      rintro rfl
      rw [here] at exec
      cases exec
    rw [pc p ne] at exec
    rw [sched] at used eq
    exact inv.alone p exec j used eq

/-- The zombie p is reaped: its directory is freed exactly when p was the last user. -/
theorem bury (inv : DirInv s) {p : Nat} (dead : (s.pc p).exclusive = false)
    (uses : ∀ e i, e ≠ 0 → (s'.Uses e i ↔ s.Uses e i ∧ i ≠ p)) (pc : s'.pc = s.pc)
    (pgdir : ∀ j, j ≠ p → (s'.sched.proc j).pgdir = (s.sched.proc j).pgdir)
    (pos : ∀ q, (s.pc q).exclusive = true → (s.sched.proc q).pgdir ≠ 0)
    (rest : s'.dirs = s.dirs ∧ (∃ j, j ≠ p ∧ s.Uses (s.sched.proc p).pgdir j) ∨
      s'.dirs = s.dirs.erase (s.sched.proc p).pgdir ∧ s.Uses (s.sched.proc p).pgdir p ∧
        ∀ j, s.Uses (s.sched.proc p).pgdir j → j = p) : DirInv s' := by
  have notNull : ∀ d ∈ s.dirs, d ≠ 0 := by
    rintro d member rfl
    exact inv.null member
  have sub : ∀ e ∈ s'.dirs, e ∈ s.dirs := by
    intro e member
    rcases rest with ⟨same, -⟩ | ⟨erased, -⟩
    · rw [← same]
      exact member
    · rw [erased] at member
      exact Finset.mem_of_mem_erase member
  refine ⟨fun h => inv.null (sub 0 h), ?_, ?_, ?_, ?_, ?_⟩
  · intro e i ne use
    obtain ⟨old, other⟩ := (uses e i ne).mp use
    have member := inv.member e i ne old
    rcases rest with ⟨same, -⟩ | ⟨erased, -, last⟩
    · rw [same]
      exact member
    · rw [erased, Finset.mem_erase]
      refine ⟨?_, member⟩
      rintro rfl
      exact other (last i old)
  · intro e member
    have ne := notNull e (sub e member)
    rcases inv.used e (sub e member) with ⟨i, use⟩ | hold
    · by_cases other : i = p
      · subst other
        rcases rest with ⟨-, j, off, use'⟩ | ⟨erased, -⟩
        · rw [use.2] at use'
          exact Or.inl ⟨j, (uses e j ne).mpr ⟨use', off⟩⟩
        · rw [erased, Finset.mem_erase] at member
          exact (member.1 use.2.symm).elim
      · exact Or.inl ⟨i, (uses e i ne).mpr ⟨use, other⟩⟩
    · rw [pc]
      exact Or.inr hold
  · intro q e hold
    rw [pc] at hold
    obtain ⟨member, unused⟩ := inv.held q e hold
    refine ⟨?_, fun i use => unused i ((uses e i (notNull e member)).mp use).1⟩
    rcases rest with ⟨same, -⟩ | ⟨erased, mine, -⟩
    · rw [same]
      exact member
    · rw [erased, Finset.mem_erase]
      refine ⟨?_, member⟩
      rintro rfl
      exact unused p mine
  · rw [pc]
    exact inv.once
  · intro q exec j used eq
    rw [pc] at exec
    have ne : q ≠ p := by
      rintro rfl
      rw [dead] at exec
      cases exec
    rw [pgdir q ne] at eq
    have use := ((uses _ j (pos q exec)).mp ⟨used, eq⟩).1
    exact inv.alone q exec j use.1 use.2

theorem exec_active (kin : KinInv s) (pcs : PcInv s) {p : Nat} (exec : (s.pc p).exclusive = true) :
    (s.sched.proc p).state.Alive ∧ (s.sched.proc p).pgdir ≠ 0 := by
  have alive := pcs.active p (Pc.busy_of_exclusive exec)
  refine ⟨alive, kin.dir p ?_ ?_⟩
  · intro free
    exact Procstate.unused_dead (free ▸ alive)
  · intro young
    exact Procstate.embryo_dead (young ▸ alive)

/-- A slot i that is not a process yet, or no more, changes without using a directory. -/
theorem slot (inv : DirInv s) (kin : KinInv s) (pcs : PcInv s) (cur i : Nat)
    (dead : ¬ (s.sched.proc i).state.Alive) (others : Others i s.sched s'.sched) (dirs : s'.dirs = s.dirs)
    (uses : ∀ d, d ≠ 0 → (s'.Uses d i ↔ s.Uses d i)) (pc : ∀ p, p ≠ cur → s'.pc p = s.pc p)
    (before : (s.pc cur).holds = none) (after : (s'.pc cur).holds = none)
    (idle : (s'.pc cur).exclusive = false) : DirInv s' := by
  refine inv.same dirs ?_ ?_ ?_
  · intro d j pos
    by_cases here : j = i
    · subst here
      exact uses d pos
    · unfold Sys.Uses
      rw [others.pgdir j here, ne_eq, others.unused here]
  · intro p
    by_cases here : p = cur
    · rw [here, before, after]
    · rw [pc p here]
  · intro p exec
    have ne : p ≠ cur := by
      rintro rfl
      rw [idle] at exec
      cases exec
    rw [pc p ne] at exec
    obtain ⟨alive, pos⟩ := exec_active kin pcs exec
    refine ⟨others.pgdir p ?_, pos, Or.inl exec⟩
    rintro rfl
    exact dead alive

theorem store (inv : DirInv s) (kin : KinInv s) (pcs : PcInv s) {cur i : Nat} {sched : Sched} {next : Pc}
    (dead : ¬ (s.sched.proc i).state.Alive) (others : Others i s.sched sched)
    (uses : ∀ d, d ≠ 0 → ((s.withSched sched).Uses d i ↔ s.Uses d i))
    (before : (s.pc cur).holds = none) (after : next.holds = none ∧ next.exclusive = false) :
    DirInv ((s.withSched sched).setPc cur next) := by
  refine inv.slot kin pcs cur i dead others rfl uses ?_ before ?_ ?_
  · intro p ne
    rw [Sys.setPc_pc, if_neg ne]
    rfl
  · rw [Sys.setPc_pc, if_pos rfl]
    exact after.1
  · rw [Sys.setPc_pc, if_pos rfl]
    exact after.2

theorem fill (inv : DirInv s) (kin : KinInv s) (pcs : PcInv s) {i d : Nat} (fresh : s.Fresh d)
    (embryo : (s.sched.proc i).state = .embryo) (null : (s.sched.proc i).pgdir = 0)
    (others : Others i s.sched s'.sched) (used : (s'.sched.proc i).state ≠ .unused)
    (new : (s'.sched.proc i).pgdir = d) (dirs : s'.dirs = insert d s.dirs)
    (pc : ∀ p, s'.pc p = s.pc p ∨ (s.pc p).holds = none ∧ (s'.pc p).holds = none ∧ (s'.pc p).exclusive = false) :
    DirInv s' := by
  have elsewhere : ∀ e j, j ≠ i → (s'.Uses e j ↔ s.Uses e j) := by
    intro e j ne
    unfold Sys.Uses
    rw [others.pgdir j ne, ne_eq, others.unused ne]
  refine inv.adopt i fresh dirs ?_ ?_ ?_ ?_
  · intro j
    constructor
    · intro use
      by_contra ne
      exact fresh.2 (inv.member d j fresh.1 ((elsewhere d j ne).mp use))
    · rintro rfl
      exact ⟨used, new⟩
  · intro e j pos ne
    by_cases here : j = i
    · subst here
      constructor
      · intro use
        exact (ne (use.2.symm.trans new)).elim
      · intro use
        exact (pos (use.2.symm.trans null)).elim
    · exact elsewhere e j here
  · intro p
    rcases pc p with same | ⟨before, after, -⟩
    · rw [same]
    · rw [before, after]
  · intro p exec
    rcases pc p with same | ⟨-, -, idle⟩
    · rw [same] at exec
      obtain ⟨alive, pos⟩ := exec_active kin pcs exec
      have ne : p ≠ i := by
        rintro rfl
        rw [embryo] at alive
        exact Procstate.embryo_dead alive
      refine ⟨exec, others.pgdir p ne, inv.member _ p pos ⟨?_, rfl⟩⟩
      intro free
      exact Procstate.unused_dead (free ▸ alive)
    · rw [idle] at exec
      cases exec

theorem step (inv : DirInv s) (kin : KinInv s) (pcs : PcInv s)
    (m : Move (fun cur => s.sched.initproc ≠ some cur) s s') : DirInv s' := by
  have live : ∀ p, (s.pc p).exclusive = true → (s.sched.proc p).pgdir ≠ 0 :=
    fun p exec => (exec_active kin pcs exec).2
  have active : ∀ p, (s.pc p).exclusive = true → (s.sched.proc p).state ≠ .unused :=
    fun p exec free => Procstate.unused_dead (free ▸ (exec_active kin pcs exec).1)
  have dirOf : ∀ cur, (s.sched.proc cur).state = .running → (s.sched.proc cur).pgdir ≠ 0 :=
    fun cur run => kin.dir cur (by rw [run]; decide) (by rw [run]; decide)
  cases m with
  | schedule sched ok keeps =>
    refine inv.same rfl ?_ (fun _ => rfl) ?_
    · intro d i _
      unfold Sys.Uses
      rw [Sys.withSched_sched, keeps.pgdir i, ne_eq, (keeps.state i).fixed Procstate.unused_dead]
    · intro p exec
      exact ⟨keeps.pgdir p, live p exec, Or.inl exec⟩
  | userinitAlloc p kstack sched boot alloc =>
    obtain ⟨lt, free, embryo, pgdir, -, -, other, -⟩ := Sched.allocproc_some alloc
    have early : s.boot ≠ .done := by rw [boot]; decide
    have still := kin.idle pcs early p
    have others : Others p s.sched (sched.modify p fun q => { q with kstack := kstack }) :=
      Others.of_eq fun j ne => by simp [ne, other j ne]
    refine inv.slot kin pcs p p (kin.early early p)
      ⟨others.state, others.pgdir, others.parent, others.isthread⟩ rfl ?_ (fun _ _ => rfl)
      (by rw [still]; rfl) ?_ ?_
    · intro d pos
      unfold Sys.Uses
      simp [free, pgdir, pos.symm]
    · change (s.pc p).holds = none
      rw [still]
      rfl
    · change (s.pc p).exclusive = false
      rw [still]
      rfl
  | userinitRun p d boot fresh =>
    obtain ⟨lt, embryo, -⟩ := pcs.boot p boot
    obtain ⟨-, -, null, -⟩ := kin.boot p boot
    have filled := pcs.sched.touch (i := p) (f := fun q => { q with pgdir := d, sz := PGSIZE })
      rfl rfl rfl rfl rfl
    obtain ⟨others, -, alive, pgdir, -⟩ := Others.setRunnable filled lt (by simpa using embryo)
    refine inv.fill kin pcs fresh embryo null ((Others.modify s.sched p _).others others) ?_
      (pgdir.trans (by simp)) rfl (fun _ => Or.inl rfl)
    intro free
    exact Procstate.unused_dead (free ▸ alive)
  | check cur pc run at' next few =>
    refine inv.same rfl (fun _ _ _ => Iff.rfl) ?_ ?_
    · intro p
      rw [Sys.setPc_pc]
      split
      · rename_i here
        rw [here, at']
        rcases next with rfl | rfl
        · rfl
        · rfl
      · rfl
    · intro p exec
      rw [Sys.setPc_pc] at exec
      split at exec
      · rename_i here
        subst here
        exact ⟨rfl, dirOf p run, Or.inr fun j use =>
          kin.last (by rw [run]; decide) (dirOf p run) few use⟩
      · exact ⟨rfl, live p exec, Or.inl exec⟩
  | giveUp cur run slot empty =>
    have none : (s.pc cur).holds = none := by
      cases at' : s.pc cur with
      | execLoaded d => exact ((empty d).1 at').elim
      | execCommitted d => exact ((empty d).2 at').elim
      | _ => rfl
    refine inv.same rfl (fun _ _ _ => Iff.rfl) ?_ ?_
    · intro p
      rw [Sys.setPc_pc]
      split
      · rename_i here
        rw [here, none]
        rfl
      · rfl
    · intro p exec
      rw [Sys.setPc_pc] at exec
      split at exec
      · cases exec
      · exact ⟨rfl, live p exec, Or.inl exec⟩
  | claim cur np sched next run at' alloc =>
    obtain ⟨lt, free, embryo, pgdir, -, -, other, -⟩ := Sched.allocproc_some alloc
    have ends : (s.pc cur).holds = none ∧ next.making = some np := by
      rcases at' with ⟨rfl, here⟩ | ⟨⟨stack, rfl⟩, here⟩
      · exact ⟨by rw [here]; rfl, rfl⟩
      · exact ⟨by rw [here]; rfl, rfl⟩
    refine inv.store kin pcs (i := np) ?_ (Others.of_eq other) ?_ ends.1 (Pc.quiet_of_making ends.2)
    · rw [free]
      exact Procstate.unused_dead
    · intro d pos
      unfold Sys.Uses
      simp [free, pgdir, pos.symm]
  | release cur np f run at' shape =>
    have blank : (s.pc cur).blank = some np := by
      rcases at' with here | here | ⟨stack, here⟩
      · rw [here]; rfl
      · rw [here]; rfl
      · rw [here]; rfl
    have making := Pc.making_of_blank blank
    have embryo := (pcs.making cur np making).2
    obtain ⟨null, -⟩ := kin.blank cur np blank
    refine inv.store kin pcs (i := np) ?_ (Others.modify s.sched np f) ?_ (Pc.quiet_of_making making).1 ⟨rfl, rfl⟩
    · rw [embryo]
      exact Procstate.embryo_dead
    · intro d pos
      unfold Sys.Uses
      rcases shape with rfl | rfl
      · simp [null, pos.symm]
      · simp [null, pos.symm]
  | stack cur np kstack next run at' =>
    have ends : (s.pc cur).making = some np ∧ next.making = some np := by
      rcases at' with ⟨here, rfl⟩ | ⟨stack, here, rfl⟩
      · exact ⟨by rw [here]; rfl, rfl⟩
      · exact ⟨by rw [here]; rfl, rfl⟩
    refine inv.store kin pcs (i := np) ?_ (Others.modify s.sched np _) ?_ (Pc.quiet_of_making ends.1).1
      (Pc.quiet_of_making ends.2)
    · rw [(pcs.making cur np ends.1).2]
      exact Procstate.embryo_dead
    · intro d _
      unfold Sys.Uses
      simp
  | cow cur np d run at' fresh =>
    have embryo := (pcs.making cur np (by rw [at']; rfl)).2
    obtain ⟨null, -⟩ := kin.blank cur np (by rw [at']; rfl)
    refine inv.fill kin pcs fresh embryo null (Others.modify s.sched np fun p => { p with pgdir := d }) ?_ ?_
      rfl ?_
    · simp [embryo]
    · simp
    · intro p
      rw [Sys.setPc_pc]
      split
      · rename_i here
        rw [here, at']
        exact Or.inr ⟨rfl, rfl, rfl⟩
      · exact Or.inl rfl
  | share cur np stack run at' =>
    have embryo := (pcs.making cur np (by rw [at']; rfl)).2
    obtain ⟨null, -⟩ := kin.blank cur np (by rw [at']; rfl)
    refine inv.share cur np rfl ⟨by rw [run]; decide, rfl⟩ (dirOf cur run) ?_ ?_
      (by rw [at']; rfl) ?_
    · intro e i pos
      unfold Sys.Uses
      by_cases here : i = np
      · subst here
        simp [embryo, null, pos.symm, eq_comm]
      · simp [here]
    · intro p
      rw [Sys.setPc_pc]
      split
      · rename_i here
        rw [here, at']
        rfl
      · rfl
    · intro p exec
      rw [Sys.setPc_pc] at exec
      split at exec
      · cases exec
      · refine ⟨exec, ?_, live p exec⟩
        have ne : p ≠ np := by
          rintro rfl
          have alive := (exec_active kin pcs exec).1
          rw [embryo] at alive
          exact Procstate.embryo_dead alive
        simp [ne]
  | link cur np isthread ustack next run at' =>
    have ends : (s.pc cur).making = some np ∧ next.making = some np := by
      rcases at' with ⟨here, rfl, -⟩ | ⟨here, rfl, -⟩
      · exact ⟨by rw [here]; rfl, rfl⟩
      · exact ⟨by rw [here]; rfl, rfl⟩
    refine inv.store kin pcs (i := np) ?_ (Others.modify s.sched np _) ?_ (Pc.quiet_of_making ends.1).1
      (Pc.quiet_of_making ends.2)
    · rw [(pcs.making cur np ends.1).2]
      exact Procstate.embryo_dead
    · intro d _
      unfold Sys.Uses
      simp
  | launch cur np run at' =>
    have making : (s.pc cur).making = some np := by
      rcases at' with here | here
      · rw [here]; rfl
      · rw [here]; rfl
    obtain ⟨lt, embryo⟩ := pcs.making cur np making
    obtain ⟨others, -, alive, pgdir, -⟩ := Others.setRunnable pcs.sched lt embryo
    rw [pcs.launch_eq making]
    refine inv.store kin pcs (i := np) ?_ others ?_ (Pc.quiet_of_making making).1 ⟨rfl, rfl⟩
    · rw [embryo]
      exact Procstate.embryo_dead
    · intro d _
      have used : ((s.sched.setRunnable np).proc np).state ≠ .unused :=
        fun free => Procstate.unused_dead (free ▸ alive)
      unfold Sys.Uses
      rw [Sys.withSched_sched, pgdir, embryo]
      exact ⟨fun use => ⟨nofun, use.2⟩, fun use => ⟨used, use.2⟩⟩
  | load cur d run at' fresh => exact inv.load fresh at'
  | commit cur d sz run at' =>
    have used : (s.sched.proc cur).state ≠ .unused := by rw [run]; decide
    refine inv.commit at' used (dirOf cur run) rfl ?_ (by rw [Sys.setPc_pc, if_pos rfl]) ?_ ?_ active
    · intro e i
      unfold Sys.Uses
      by_cases here : i = cur
      · subst here
        simp [used, eq_comm]
      · simp [here]
    · intro p ne
      rw [Sys.setPc_pc, if_neg ne]
      rfl
    · intro p ne
      simp [ne]
  | free cur old run at' =>
    refine inv.free at' rfl rfl (by rw [Sys.setPc_pc, if_pos rfl]) ?_
    intro p ne
    rw [Sys.setPc_pc, if_neg ne]
    rfl
  | exit c cur hc on at' notInit =>
    obtain ⟨-, -, zombie, others, pgdir, -⟩ := Sched.exit_facts pcs.sched hc on notInit
    have run := (pcs.sched.cpus.on c hc cur on).2
    generalize s.sched.exit c cur = sched at *
    refine inv.same rfl ?_ (fun _ => rfl) ?_
    · intro d i _
      unfold Sys.Uses
      rw [Sys.withSched_sched, pgdir i]
      by_cases here : i = cur
      · subst here
        simp [zombie, run]
      · rw [ne_eq, (others i here).fixed Procstate.unused_dead]
    · intro p exec
      exact ⟨pgdir p, live p exec, Or.inl exec⟩
  | reap cur p run at' found =>
    obtain ⟨lt, -, zombie, -⟩ := Sched.zombieChild_some found
    have used : (s.sched.proc p).state ≠ .unused := by rw [zombie]; decide
    have pos := kin.dir p used (by rw [zombie]; decide)
    have still := pcs.zombie_idle zombie
    split
    · rename_i last
      refine inv.bury (p := p) (by rw [still]; rfl) (reap_uses s p) rfl ?_ live (Or.inr ⟨rfl, ⟨used, rfl⟩, ?_⟩)
      · intro j ne
        simp [Sched.reap, ne]
      · intro j use
        exact kin.last used pos (Nat.le_of_eq last.2) use
    · rename_i more
      refine inv.bury (p := p) (by rw [still]; rfl) (reap_uses s p) rfl ?_ live (Or.inl ⟨rfl, ?_⟩)
      · intro j ne
        simp [Sched.reap, ne]
      · exact kin.another used pos fun one => more ⟨pos, one⟩
  | reapThread cur p run at' found may =>
    obtain ⟨lt, child, zombie, thread⟩ := Sched.zombieChild_some found
    have used : (s.sched.proc p).state ≠ .unused := by rw [zombie]; decide
    have same := kin.thread p cur used (thread rfl) child may
    refine inv.bury (p := p) (by rw [pcs.zombie_idle zombie]; rfl) (reap_uses s p) rfl ?_ live
      (Or.inl ⟨rfl, cur, ?_, ?_⟩)
    · intro j ne
      simp [Sched.reap, ne]
    · exact (kin.parent p cur used child).2
    · exact ⟨by rw [run]; decide, same⟩

end DirInv

end Xv6
