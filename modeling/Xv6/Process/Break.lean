import Mathlib
import Xv6.Lib.Runs
import Xv6.Sched.RunQueue

/-!
Growing calls of sbrk by processes and threads, at the granularity of single reads and
writes of the caller's own sz and of syncsize. Every thread has its own copy of the
break; a call reads it, adds to it and then copies it to the other threads, so two calls
in one address space keep apart only if they do not overlap.
-/
namespace Xv6

/-- Where a process stands in sys_sbrk(n); addr is what the call will return. -/
inductive SbrkPc where
  | idle
  | entered (n addr : Nat)
  | bounded (n addr : Nat)
  | checked (n addr : Nat)
  | loaded (n addr sz : Nat)
  | stored (n addr : Nat)
  deriving DecidableEq, Repr

structure Grown where
  thread : Nat
  addr : Nat
  n : Nat
  deriving DecidableEq, Repr

structure BreakSys where
  sched : Sched
  pc : Nat → SbrkPc
  done : List Grown

inductive BreakAct where
  /-- the process t calls sbrk(n) -/
  | call (t n : Nat)
  /-- t goes on with its call -/
  | go (t : Nat)
  deriving DecidableEq, Repr

namespace BreakSys

def setPc (s : BreakSys) (t : Nat) (pc : SbrkPc) : BreakSys := { s with pc := Function.update s.pc t pc }

/-- One step of sys_sbrk; a call that fails a check returns −1 and leaves nothing. -/
def advance (s : BreakSys) (t : Nat) : Except Unit BreakSys :=
  let sz := (s.sched.proc t).sz
  match s.pc t with
  | .idle => .error ()
  | .entered n addr =>
    if (sz + n) % 4294967296 ≥ KERNBASE then .ok (s.setPc t .idle) else .ok (s.setPc t (.bounded n addr))
  | .bounded n addr =>
    if (sz + n) % 4294967296 < sz then .ok (s.setPc t .idle) else .ok (s.setPc t (.checked n addr))
  | .checked n addr => .ok (s.setPc t (.loaded n addr sz))
  | .loaded n addr old =>
    .ok ({ s with sched := s.sched.modify t fun p => { p with sz := (old + n) % 4294967296 } }.setPc t (.stored n addr))
  | .stored n addr =>
    .ok ({ s with sched := s.sched.syncsize t, done := s.done ++ [Grown.mk t addr n] }.setPc t .idle)

/-- The caller is a slot in use, and n is an int that is not negative. -/
def step (s : BreakSys) : BreakAct → Except Unit BreakSys
  | .call t n =>
    if t < NPROC ∧ (s.sched.proc t).state ≠ .unused ∧ s.pc t = .idle ∧ n < 2147483648 then
      .ok (s.setPc t (.entered n (s.sched.proc t).sz))
    else .error ()
  | .go t => if t < NPROC ∧ (s.sched.proc t).state ≠ .unused then s.advance t else .error ()

def Thread (s : BreakSys) (d t : Nat) : Prop :=
  t < NPROC ∧ (s.sched.proc t).state ≠ .unused ∧ (s.sched.proc t).pgdir = d

instance (s : BreakSys) (d t : Nat) : Decidable (s.Thread d t) := inferInstanceAs (Decidable (_ ∧ _ ∧ _))

def grown (s : BreakSys) (d : Nat) : List Grown := s.done.filter fun g => (s.sched.proc g.thread).pgdir == d

/-- The break of the address space d, as the calls that have returned leave it. -/
def total (s : BreakSys) (d brk : Nat) : Nat := brk + ((s.grown d).map Grown.n).sum

/-- Nobody is in sbrk, and the threads of d agree on the break brk. -/
def Init (d brk : Nat) (s : BreakSys) : Prop :=
  (∀ t, s.pc t = .idle) ∧ s.done = [] ∧ brk < KERNBASE ∧ ∀ t, s.Thread d t → (s.sched.proc t).sz = brk

/-- A process calls sbrk only while no other thread of its address space is in sbrk. -/
def alone (s : BreakSys) : BreakAct → Bool
  | .call t _ => (List.range NPROC).all fun u =>
      u == t || !decide (s.Thread (s.sched.proc t).pgdir u) || s.pc u == .idle
  | .go _ => true

end BreakSys

def Grown.Apart (g h : Grown) : Prop := g.addr + g.n ≤ h.addr ∨ h.addr + h.n ≤ g.addr

theorem Sched.syncsize_proc (s : Sched) (cur j : Nat) :
    (s.syncsize cur).proc j =
      if j < NPROC ∧ j ≠ cur ∧ (s.proc j).state ≠ .unused ∧ (s.proc j).pgdir = (s.proc cur).pgdir then
        { s.proc j with sz := (s.proc cur).sz } else s.proc j := by
  have loop : ∀ (is : List Nat) (s : Sched), is.Nodup → (is.foldl (Sched.syncsizeIn cur) s).proc j =
      if j ∈ is ∧ j ≠ cur ∧ (s.proc j).state ≠ .unused ∧ (s.proc j).pgdir = (s.proc cur).pgdir then
        { s.proc j with sz := (s.proc cur).sz } else s.proc j := by
    intro is
    induction is with
    | nil =>
      intro s _
      simp
    | cons i is ih =>
      intro s nodup
      obtain ⟨off, nodup⟩ := List.nodup_cons.mp nodup
      rw [List.foldl_cons, ih _ nodup]
      have self : (Sched.syncsizeIn cur s i).proc cur = s.proc cur := by
        unfold Sched.syncsizeIn
        split
        · rename_i other
          simp [other.1.symm]
        · rfl
      rw [self]
      by_cases here : j = i
      · subst here
        simp only [off, false_and, ↓reduceIte, List.mem_cons, true_or, true_and]
        unfold Sched.syncsizeIn
        split
        · simp
        · rfl
      · have same : (Sched.syncsizeIn cur s i).proc j = s.proc j := by
          unfold Sched.syncsizeIn
          split
          · simp [here]
          · rfl
        rw [same]
        simp [here]
  rw [Sched.syncsize, loop _ s List.nodup_range]
  simp only [List.mem_range]

/-- The copy sz of the break B by a thread that stands at the pc. -/
def SbrkPc.Fits (B sz : Nat) : SbrkPc → Prop
  | .idle => sz = B
  | .entered n addr => sz = B ∧ addr = B ∧ n < 2147483648
  | .bounded n addr | .checked n addr => sz = B ∧ addr = B ∧ B + n < KERNBASE
  | .loaded n addr old => sz = B ∧ addr = B ∧ old = B ∧ B + n < KERNBASE
  | .stored n addr => sz = B + n ∧ addr = B ∧ B + n < KERNBASE

structure BreakInv (d brk : Nat) (s : BreakSys) : Prop where
  top : s.total d brk < KERNBASE
  apart : (s.grown d).Pairwise Grown.Apart
  below : ∀ g ∈ s.grown d, g.addr + g.n ≤ s.total d brk
  one : ∀ t u, s.Thread d t → s.Thread d u → s.pc t ≠ .idle → s.pc u ≠ .idle → t = u
  fits : ∀ t, s.Thread d t → (s.pc t).Fits (s.total d brk) (s.sched.proc t).sz

namespace BreakInv
variable {d brk : Nat} {s s' : BreakSys}

theorem move (inv : BreakInv d brk s) {t : Nat} {pc : SbrkPc} {f : Proc → Proc}
    (state : (f (s.sched.proc t)).state = (s.sched.proc t).state)
    (pgdir : (f (s.sched.proc t)).pgdir = (s.sched.proc t).pgdir)
    (alone : s.Thread d t → pc ≠ .idle → ∀ u, s.Thread d u → s.pc u ≠ .idle → u = t)
    (fits : s.Thread d t → pc.Fits (s.total d brk) (f (s.sched.proc t)).sz) :
    BreakInv d brk ({ s with sched := s.sched.modify t f }.setPc t pc) := by
  have kept : ∀ j, ((s.sched.modify t f).proc j).state = (s.sched.proc j).state ∧
      ((s.sched.modify t f).proc j).pgdir = (s.sched.proc j).pgdir := by
    intro j
    by_cases here : j = t
    · subst here
      simpa using ⟨state, pgdir⟩
    · simp [here]
  have thread : ∀ j, ({ s with sched := s.sched.modify t f }.setPc t pc).Thread d j ↔ s.Thread d j := by
    intro j
    change _ ∧ _ ∧ _ ↔ _ ∧ _ ∧ _
    rw [← (kept j).1, ← (kept j).2]
    rfl
  have grown : ({ s with sched := s.sched.modify t f }.setPc t pc).grown d = s.grown d := by
    change s.done.filter _ = s.done.filter _
    congr 1
    funext g
    rw [← (kept g.thread).2]
    rfl
  have total : ({ s with sched := s.sched.modify t f }.setPc t pc).total d brk = s.total d brk := by
    rw [BreakSys.total, grown]
    rfl
  have others : ∀ j, j ≠ t → ({ s with sched := s.sched.modify t f }.setPc t pc).pc j = s.pc j := by
    intro j ne
    exact Function.update_of_ne ne _ _
  have self : ({ s with sched := s.sched.modify t f }.setPc t pc).pc t = pc := Function.update_self _ _ _
  refine ⟨by rw [total]; exact inv.top, by rw [grown]; exact inv.apart, ?_, ?_, ?_⟩
  · rw [grown, total]
    exact inv.below
  · intro u v hu hv busy busy'
    rw [thread] at hu hv
    by_cases here : u = t
    · subst here
      by_cases there : v = u
      · exact there.symm
      · rw [self] at busy
        rw [others v there] at busy'
        exact (alone hu busy v hv busy').symm
    · rw [others u here] at busy
      by_cases there : v = t
      · subst there
        rw [self] at busy'
        exact alone hv busy' u hu busy
      · rw [others v there] at busy'
        exact inv.one u v hu hv busy busy'
  · intro u hu
    rw [thread] at hu
    rw [total]
    by_cases here : u = t
    · subst here
      rw [self]
      simpa [BreakSys.setPc] using fits hu
    · rw [others u here]
      simpa [BreakSys.setPc, here] using inv.fits u hu

theorem stay (inv : BreakInv d brk s) {t : Nat} {pc : SbrkPc}
    (alone : s.Thread d t → pc ≠ .idle → ∀ u, s.Thread d u → s.pc u ≠ .idle → u = t)
    (fits : s.Thread d t → pc.Fits (s.total d brk) (s.sched.proc t).sz) : BreakInv d brk (s.setPc t pc) := by
  have moved := inv.move (f := fun p => p) rfl rfl alone fits
  rwa [show s.sched.modify t (fun p => p) = s.sched by simp [Sched.modify]] at moved

/-- syncsize ends a call: the break that t has stored is now that of all threads of d. -/
theorem sync (inv : BreakInv d brk s) {t n addr : Nat} (slot : t < NPROC ∧ (s.sched.proc t).state ≠ .unused)
    (at' : s.pc t = .stored n addr) :
    BreakInv d brk
      ({ s with sched := s.sched.syncsize t, done := s.done ++ [Grown.mk t addr n] }.setPc t .idle) := by
  have sync := Sched.syncsize_proc s.sched t
  generalize s.sched.syncsize t = sched at *
  have kept : ∀ j, (sched.proc j).state = (s.sched.proc j).state ∧ (sched.proc j).pgdir = (s.sched.proc j).pgdir := by
    intro j
    rw [sync j]
    split
    all_goals exact ⟨rfl, rfl⟩
  generalize shape : ({ s with sched := sched, done := s.done ++ [Grown.mk t addr n] }.setPc t .idle) = s'
  have thread : ∀ j, s'.Thread d j ↔ s.Thread d j := by
    intro j
    rw [← shape]
    change _ ∧ _ ∧ _ ↔ _ ∧ _ ∧ _
    rw [← (kept j).1, ← (kept j).2]
    rfl
  have grown : s'.grown d = s.grown d ++ if (s.sched.proc t).pgdir = d then [Grown.mk t addr n] else [] := by
    have old : ∀ gs : List Grown, gs.filter (fun g => (sched.proc g.thread).pgdir == d) =
        gs.filter fun g => (s.sched.proc g.thread).pgdir == d := by
      intro gs
      congr 1
      funext g
      rw [(kept g.thread).2]
    rw [← shape]
    change (s.done ++ [Grown.mk t addr n]).filter (fun g => (sched.proc g.thread).pgdir == d) = _
    rw [old, List.filter_append]
    congr 1
    by_cases own : (s.sched.proc t).pgdir = d
    · simp [own]
    · simp [own]
  have idle : s'.pc t = .idle := by
    rw [← shape]
    exact Function.update_self _ _ _
  have others : ∀ j, j ≠ t → s'.pc j = s.pc j := by
    intro j ne
    rw [← shape]
    exact Function.update_of_ne ne _ _
  have table : s'.sched = sched := by
    rw [← shape]
    rfl
  have one : ∀ u v, s'.Thread d u → s'.Thread d v → s'.pc u ≠ .idle → s'.pc v ≠ .idle → u = v := by
    intro u v hu hv busy busy'
    have awayFrom : ∀ w, s'.pc w ≠ .idle → w ≠ t := by
      rintro w busy rfl
      exact busy idle
    rw [others u (awayFrom u busy)] at busy
    rw [others v (awayFrom v busy')] at busy'
    exact inv.one u v ((thread u).mp hu) ((thread v).mp hv) busy busy'
  by_cases own : (s.sched.proc t).pgdir = d
  · have ht : s.Thread d t := ⟨slot.1, slot.2, own⟩
    obtain ⟨size, rfl, low⟩ : (s.sched.proc t).sz = s.total d brk + n ∧ addr = s.total d brk ∧
        s.total d brk + n < KERNBASE := by
      have := inv.fits t ht
      rwa [at'] at this
    rw [if_pos own] at grown
    have total : s'.total d brk = s.total d brk + n := by
      rw [BreakSys.total, grown]
      simp [BreakSys.total, Nat.add_assoc]
    refine ⟨by rw [total]; exact low, ?_, ?_, one, ?_⟩
    · rw [grown, List.pairwise_append]
      refine ⟨inv.apart, List.pairwise_singleton _ _, ?_⟩
      intro g hg h hh
      rw [List.mem_singleton] at hh
      subst hh
      exact Or.inl (inv.below g hg)
    · rw [grown, total]
      intro g hg
      rcases List.mem_append.mp hg with old | new
      · have := inv.below g old
        omega
      · rw [List.mem_singleton] at new
        subst new
        exact Nat.le_refl _
    · intro u hu
      rw [thread] at hu
      have quiet : s'.pc u = .idle := by
        by_cases here : u = t
        · rw [here, idle]
        · rw [others u here]
          by_contra busy
          exact here (inv.one u t hu ht busy (by rw [at']; nofun))
      rw [quiet, total, table]
      change (sched.proc u).sz = _
      rw [sync u]
      by_cases here : u = t
      · subst here
        simpa using size
      · rw [if_pos ⟨hu.1, here, hu.2.1, hu.2.2.trans own.symm⟩]
        exact size
  · rw [if_neg own, List.append_nil] at grown
    have total : s'.total d brk = s.total d brk := by
      rw [BreakSys.total, grown]
      rfl
    refine ⟨by rw [total]; exact inv.top, by rw [grown]; exact inv.apart, by rw [grown, total]; exact inv.below, one, ?_⟩
    intro u hu
    rw [thread] at hu
    have ne : u ≠ t := by
      rintro rfl
      exact own hu.2.2
    have away : ¬ (u < NPROC ∧ u ≠ t ∧ (s.sched.proc u).state ≠ .unused ∧
        (s.sched.proc u).pgdir = (s.sched.proc t).pgdir) := by
      rintro ⟨-, -, -, same⟩
      exact own (same.symm.trans hu.2.2)
    rw [others u ne, total, table, sync u, if_neg away]
    exact inv.fits u hu

theorem go (inv : BreakInv d brk s) {t : Nat} (slot : t < NPROC ∧ (s.sched.proc t).state ≠ .unused)
    (h : s.advance t = .ok s') : BreakInv d brk s' := by
  have top := inv.top
  -- a thread that is in sbrk stays the only one there
  have inside : s.pc t ≠ .idle → ∀ {pc : SbrkPc}, s.Thread d t → pc ≠ .idle →
      ∀ u, s.Thread d u → s.pc u ≠ .idle → u = t := by
    intro busy _ ht _ u hu busy'
    exact inv.one u t hu ht busy' busy
  unfold BreakSys.advance at h
  cases at' : s.pc t with
  | idle =>
    rw [at'] at h
    cases h
  | entered n addr =>
    rw [at'] at h
    simp only at h
    have fits : s.Thread d t → (s.sched.proc t).sz = s.total d brk ∧ addr = s.total d brk ∧ n < 2147483648 := by
      intro ht
      have := inv.fits t ht
      rwa [at'] at this
    split at h
    · cases h
      exact inv.stay (fun _ no => (no rfl).elim) fun ht => (fits ht).1
    · rename_i low
      cases h
      refine inv.stay (inside (by rw [at']; nofun)) ?_
      intro ht
      obtain ⟨size, start, small⟩ := fits ht
      refine ⟨size, start, ?_⟩
      rw [size] at low
      simp only [KERNBASE] at low top ⊢
      omega
  | bounded n addr =>
    rw [at'] at h
    simp only at h
    have fits : s.Thread d t → (s.sched.proc t).sz = s.total d brk ∧ addr = s.total d brk ∧
        s.total d brk + n < KERNBASE := by
      intro ht
      have := inv.fits t ht
      rwa [at'] at this
    split at h
    · cases h
      exact inv.stay (fun _ no => (no rfl).elim) fun ht => (fits ht).1
    · cases h
      exact inv.stay (inside (by rw [at']; nofun)) fits
  | checked n addr =>
    rw [at'] at h
    cases h
    refine inv.stay (inside (by rw [at']; nofun)) ?_
    intro ht
    have fits := inv.fits t ht
    rw [at'] at fits
    exact ⟨fits.1, fits.2.1, fits.1, fits.2.2⟩
  | loaded n addr old =>
    rw [at'] at h
    cases h
    refine inv.move rfl rfl (inside (by rw [at']; nofun)) ?_
    intro ht
    have fits := inv.fits t ht
    rw [at'] at fits
    obtain ⟨-, start, rfl, low⟩ := fits
    refine ⟨?_, start, low⟩
    simp only [KERNBASE] at low
    exact Nat.mod_eq_of_lt (by omega)
  | stored n addr =>
    rw [at'] at h
    cases h
    exact inv.sync slot at'

theorem call (inv : BreakInv d brk s) {t n : Nat} (small : n < 2147483648) (idle : s.pc t = .idle)
    (alone : s.alone (.call t n) = true) : BreakInv d brk (s.setPc t (.entered n (s.sched.proc t).sz)) := by
  have fits := inv.fits t
  rw [idle] at fits
  refine inv.stay ?_ fun ht => ⟨fits ht, fits ht, small⟩
  intro ht _ u hu busy
  by_contra ne
  simp only [BreakSys.alone, List.all_eq_true, List.mem_range, Bool.or_eq_true, beq_iff_eq, Bool.not_eq_true',
    decide_eq_false_iff_not] at alone
  rcases alone u hu.1 with (here | away) | quiet
  · exact ne here
  · exact away (by rw [ht.2.2]; exact hu)
  · exact busy quiet

theorem step (inv : BreakInv d brk s) {a : BreakAct} (alone : s.alone a = true) (h : s.step a = .ok s') :
    BreakInv d brk s' := by
  cases a with
  | call t n =>
    simp only [BreakSys.step] at h
    split at h
    · rename_i may
      cases h
      exact inv.call may.2.2.2 may.2.2.1 alone
    · cases h
  | go t =>
    simp only [BreakSys.step] at h
    split at h
    · rename_i slot
      exact inv.go slot h
    · cases h

theorem init (first : s.Init d brk) : BreakInv d brk s := by
  obtain ⟨pc, done, low, size⟩ := first
  have grown : s.grown d = [] := by simp [BreakSys.grown, done]
  have total : s.total d brk = brk := by simp [BreakSys.total, grown]
  refine ⟨by rw [total]; exact low, by rw [grown]; exact List.Pairwise.nil, ?_, ?_, ?_⟩
  · rw [grown]
    nofun
  · intro t _ _ _ busy
    exact (busy (pc t)).elim
  · intro t ht
    rw [pc t, total]
    exact size t ht

end BreakInv

/-- If no two calls of sbrk in one address space overlap, the regions they return are
    disjoint, and when none is under way every thread's break is the sum. -/
theorem sbrk_loses_no_update (d brk : Nat) (s : BreakSys)
    (reach : Runs.Reachable (BreakSys.Init d brk) BreakSys.step (fun s a => s.alone a = true) s) :
    (s.grown d).Pairwise Grown.Apart ∧
      ((∀ t, s.Thread d t → s.pc t = .idle) → ∀ t, s.Thread d t →
        (s.sched.proc t).sz = brk + ((s.grown d).map Grown.n).sum) := by
  have inv : BreakInv d brk s :=
    Runs.Reachable.invariant (fun _ first => BreakInv.init first) (fun _ _ _ inv alone done => inv.step alone done) reach
  refine ⟨inv.apart, ?_⟩
  intro idle t ht
  have fits := inv.fits t ht
  rwa [idle t ht] at fits

/-- Two threads of the directory 7 with the break at 8192. -/
def BreakSys.pair : BreakSys where
  sched := ⟨2, fun i => if i < 2 then { Proc.zero with state := .running, pgdir := 7, sz := 8192 } else Proc.zero,
    fun _ => ⟨fun _ => none, fun _ => none, 0⟩, fun c => if c < 2 then some c else none, 0, 3, none⟩
  pc := fun _ => .idle
  done := []

theorem BreakSys.pair_init : BreakSys.pair.Init 7 8192 := by
  refine ⟨fun _ => rfl, rfl, by decide, ?_⟩
  intro t ht
  have running : t < 2 := by
    by_contra no
    apply ht.2.1
    change (if t < 2 then _ else Proc.zero : Proc).state = .unused
    rw [if_neg no]
    rfl
  change (if t < 2 then _ else Proc.zero : Proc).sz = 8192
  rw [if_pos running]

/-- One call after the other. -/
theorem sbrk_loses_no_update_pair :
    ∃ s, Runs.walk BreakSys.step BreakSys.alone BreakSys.pair
        (.call 0 4096 :: List.replicate 5 (.go 0) ++ .call 1 100 :: List.replicate 5 (.go 1)) = some s ∧
      s.grown 7 = [⟨0, 8192, 4096⟩, ⟨1, 12288, 100⟩] ∧ (s.grown 7).Pairwise Grown.Apart := by
  have seen : (Runs.walk BreakSys.step BreakSys.alone BreakSys.pair
      (.call 0 4096 :: List.replicate 5 (.go 0) ++ .call 1 100 :: List.replicate 5 (.go 1))).map
        (fun s => s.grown 7) = some [⟨0, 8192, 4096⟩, ⟨1, 12288, 100⟩] := by
    decide +kernel
  obtain ⟨s, walk, grown⟩ := Option.map_eq_some_iff.mp seen
  have start : Runs.Reachable (BreakSys.Init 7 8192) BreakSys.step (fun s a => s.alone a = true) BreakSys.pair :=
    .start BreakSys.pair_init
  exact ⟨s, walk, grown, (sbrk_loses_no_update 7 8192 s (start.walk (fun _ _ passed => passed) walk)).1⟩

/-- Both threads read the break before either writes it: both calls return 8192, and the
    break grows once. -/
theorem sbrk_loses_update :
    ∃ s, Runs.Reachable (BreakSys.Init 7 8192) BreakSys.step (fun _ _ => True) s ∧
      s.grown 7 = [⟨0, 8192, 4096⟩, ⟨1, 8192, 4096⟩] ∧ ¬ (s.grown 7).Pairwise Grown.Apart ∧
      (∀ t < NPROC, s.pc t = .idle) ∧ s.Thread 7 0 ∧ (s.sched.proc 0).sz = 8192 + 4096 := by
  have seen : (Runs.run BreakSys.step BreakSys.pair ([.call 0 4096, .call 1 4096, .go 0, .go 1, .go 0, .go 1, .go 0,
      .go 1, .go 0, .go 1, .go 0, .go 1])).toOption.map (fun s =>
        (s.grown 7, decide (∀ t < NPROC, s.pc t = .idle), decide (s.Thread 7 0), (s.sched.proc 0).sz)) =
      some ([⟨0, 8192, 4096⟩, ⟨1, 8192, 4096⟩], true, true, 12288) := by
    decide +kernel
  obtain ⟨s, run, facts⟩ := Runs.observed seen
  have start : Runs.Reachable (BreakSys.Init 7 8192) BreakSys.step (fun _ _ => True) BreakSys.pair :=
    .start BreakSys.pair_init
  have grown : s.grown 7 = [⟨0, 8192, 4096⟩, ⟨1, 8192, 4096⟩] := congrArg Prod.fst facts
  refine ⟨s, start.run (fun _ _ _ => trivial) run, grown, ?_, of_decide_eq_true (congrArg (fun x => x.2.1) facts),
    of_decide_eq_true (congrArg (fun x => x.2.2.1) facts), congrArg (fun x => x.2.2.2) facts⟩
  rw [grown]
  simp [Grown.Apart]

end Xv6
