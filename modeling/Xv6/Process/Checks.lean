import Xv6.Lib.Runs
import Xv6.Memory.Boot

/-!
The tests of system call arguments against the break. Seven of them are written by hand, with
32 bit sums; they are sound as long as the break is below KERNBASE. Two overlapping calls of
sbrk in one address space can push it beyond: `curproc->sz += n` loads sz once more after the
test, and a sibling's syncsize may have raised it in between.
-/
namespace Xv6.Syscall

def WORD : Nat := 4294967296

/-- User memory as the kernel reads it. -/
abbrev Bytes := Nat → UInt8

/-- The int at addr, as a uint. -/
def int (m : Bytes) (addr : Nat) : Nat :=
  (m addr).toNat + 256 * (m (addr + 1)).toNat + 65536 * (m (addr + 2)).toNat + 16777216 * (m (addr + 3)).toNat

def fetchint (m : Bytes) (sz addr : Nat) : Option Nat :=
  if addr ≥ sz ∨ (addr + 4) % WORD > sz then none else some (int m addr)

/-- The loop of fetchstr, with n addresses left below ep. -/
def fetchstrLoop (m : Bytes) : Nat → Nat → Option Nat
  | 0, _ => none
  | n + 1, s => if m s = 0 then some s else fetchstrLoop m n (s + 1)

def fetchstr (m : Bytes) (sz addr : Nat) : Option Nat :=
  if addr ≥ sz then none else (fetchstrLoop m (sz - addr) addr).map (· - addr)

def argint (m : Bytes) (sz esp n : Nat) : Option Nat := fetchint m sz ((esp + 4 + 4 * n) % WORD)

def argptr (m : Bytes) (sz esp n : Nat) (size : Int) : Option Nat :=
  match argint m sz esp n with
  | none => none
  | some i => if size < 0 ∨ i ≥ sz ∨ (i + size.toNat) % WORD > sz then none else some i

def argstr (m : Bytes) (sz esp n : Nat) : Option (Nat × Nat) :=
  match argint m sz esp n with
  | none => none
  | some addr => (fetchstr m sz addr).map fun length => (addr, length)

/-- The tests of clone. -/
def cloneCheck (sz stack : Nat) : Bool :=
  !(decide (stack % PGSIZE ≠ 0) || decide (stack ≥ sz ∨ (stack + PGSIZE) % WORD > sz))

def cloneWords (stack : Nat) : List Nat :=
  [((stack + PGSIZE) % WORD + WORD - 4) % WORD, ((stack + PGSIZE) % WORD + WORD - 8) % WORD]

/-- The test of futex_wait and futex_wake. -/
def futexCheck (sz addr : Nat) : Bool := !decide (addr % 4 ≠ 0 ∨ (addr + 4) % WORD > sz)

/-- The address and the second argument of sys_futex_wait and sys_futex_wake, if all tests pass. -/
def futexArgs (m : Bytes) (sz esp : Nat) : Option (Nat × Nat) :=
  match argptr m sz esp 0 4, argint m sz esp 1 with
  | some addr, some v => if futexCheck sz addr then some (addr, v) else none
  | _, _ => none

theorem fetchint_sound {m : Bytes} {sz addr v : Nat} (small : sz < KERNBASE) (ok : fetchint m sz addr = some v) :
    addr + 4 ≤ sz := by
  unfold fetchint at ok
  split at ok
  · cases ok
  · simp only [WORD, KERNBASE] at *
    omega

theorem argint_sound {m : Bytes} {sz esp n v : Nat} (small : sz < KERNBASE) (ok : argint m sz esp n = some v) :
    (esp + 4 + 4 * n) % WORD + 4 ≤ sz := fetchint_sound small ok

theorem argptr_sound {m : Bytes} {sz esp n p : Nat} {size : Int} (small : sz < KERNBASE) (int : size < 2147483648)
    (ok : argptr m sz esp n size = some p) :
    (esp + 4 + 4 * n) % WORD + 4 ≤ sz ∧ 0 ≤ size ∧ p + size ≤ sz := by
  unfold argptr at ok
  split at ok
  · cases ok
  · rename_i i read
    refine ⟨argint_sound small read, ?_⟩
    split at ok
    · cases ok
    · cases ok
      simp only [WORD, KERNBASE] at *
      omega

theorem fetchstrLoop_sound {m : Bytes} {n s e : Nat} (ok : fetchstrLoop m n s = some e) :
    s ≤ e ∧ e < s + n ∧ m e = 0 ∧ ∀ a, s ≤ a → a < e → m a ≠ 0 := by
  induction n generalizing s with
  | zero => cases ok
  | succ n ih =>
    rw [fetchstrLoop] at ok
    split at ok
    · rename_i zero
      cases ok
      exact ⟨Nat.le_refl _, by omega, zero, fun a low high => by omega⟩
    · rename_i more
      obtain ⟨low, high, zero, before⟩ := ih ok
      refine ⟨by omega, by omega, zero, ?_⟩
      intro a low' high'
      by_cases here : a = s
      · rw [here]
        exact more
      · exact before a (by omega) high'

theorem fetchstr_sound {m : Bytes} {sz addr len : Nat} (ok : fetchstr m sz addr = some len) :
    addr + len < sz ∧ m (addr + len) = 0 ∧ ∀ i < len, m (addr + i) ≠ 0 := by
  unfold fetchstr at ok
  split at ok
  · cases ok
  · obtain ⟨e, run, rfl⟩ := Option.map_eq_some_iff.mp ok
    obtain ⟨low, high, zero, before⟩ := fetchstrLoop_sound run
    rw [show addr + (e - addr) = e by omega]
    exact ⟨by omega, zero, fun i hi => before (addr + i) (by omega) (by omega)⟩

theorem argstr_sound {m : Bytes} {sz esp n p len : Nat} (small : sz < KERNBASE)
    (ok : argstr m sz esp n = some (p, len)) :
    (esp + 4 + 4 * n) % WORD + 4 ≤ sz ∧ p + len < sz ∧ m (p + len) = 0 := by
  unfold argstr at ok
  split at ok
  · cases ok
  · rename_i addr read
    obtain ⟨l, run, pair⟩ := Option.map_eq_some_iff.mp ok
    cases pair
    obtain ⟨inside, zero, -⟩ := fetchstr_sound run
    exact ⟨argint_sound small read, inside, zero⟩

theorem cloneCheck_sound {sz stack : Nat} (small : sz < KERNBASE) (ok : cloneCheck sz stack = true) :
    stack + PGSIZE ≤ sz ∧ cloneWords stack = [stack + PGSIZE - 4, stack + PGSIZE - 8] := by
  simp only [cloneCheck, Bool.not_eq_true', Bool.or_eq_false_iff, decide_eq_false_iff_not] at ok
  simp only [cloneWords, List.cons.injEq, and_true, WORD, KERNBASE, PGSIZE] at *
  omega

theorem futexArgs_sound {m : Bytes} {sz esp addr v : Nat} (small : sz < KERNBASE)
    (ok : futexArgs m sz esp = some (addr, v)) : addr % 4 = 0 ∧ addr + 4 ≤ sz ∧ (esp + 8) % WORD + 4 ≤ sz := by
  unfold futexArgs at ok
  split at ok
  · rename_i a w ptr second
    split at ok
    · rename_i test
      cases ok
      obtain ⟨-, -, inside⟩ := argptr_sound small (by decide) ptr
      have word := argint_sound small second
      simp only [futexCheck, Bool.not_eq_true', decide_eq_false_iff_not, not_or, not_not] at test
      exact ⟨test.1, by omega, word⟩
    · cases ok
  · cases ok

example : futexCheck 4096 0xfffffffc = true := by decide

/-- Where a process stands in sys_sbrk. -/
inductive Pc where
  | idle
  | entered (n : Int)
  | bounded (n : Nat)
  | checked (n : Nat)
  | loaded (n old : Nat)
  /-- in growproc -/
  | shrinking (n : Int) (old : Nat)
  | lowered (sz : Nat)
  | stored
  deriving DecidableEq, Repr

structure Task where
  pgdir : Nat
  sz : Nat
  pc : Pc
  deriving DecidableEq, Repr

/-- Every process with its directory and its copy of the break. -/
structure Breaks where
  proc : Nat → Option Task

inductive Act where
  /-- t calls sbrk(n) -/
  | sbrk (t : Nat) (n : Int)
  /-- t goes on with its call -/
  | go (t : Nat)
  /-- the child np gets the fresh directory d -/
  | fork (t np d : Nat)
  | clone (t np stack : Nat)
  /-- the new image is in the fresh directory d and ends at top -/
  | exec (t d top : Nat)
  /-- wait or join has found t dead -/
  | reap (t : Nat)
  deriving DecidableEq, Repr

namespace Breaks

def set (b : Breaks) (t : Nat) (task : Option Task) : Breaks := ⟨Function.update b.proc t task⟩

@[simp] theorem set_proc (b : Breaks) (t : Nat) (task : Option Task) :
    (b.set t task).proc = Function.update b.proc t task := rfl

def fresh (b : Breaks) (d : Nat) : Bool :=
  (List.range NPROC).all fun i => (b.proc i).all fun task => task.pgdir != d

def users (b : Breaks) (d : Nat) : Nat :=
  (List.range NPROC).countP fun i => (b.proc i).any fun task => task.pgdir == d

/-- syncsize copies the break of t to the others in its address space. -/
def syncsize (b : Breaks) (t : Nat) (cur : Task) : Breaks :=
  ⟨fun i => (b.proc i).map fun task =>
    if i ≠ t ∧ task.pgdir = cur.pgdir then { task with sz := cur.sz } else task⟩

/-- The next step of a call of sbrk; one that fails a test returns. -/
def advance (b : Breaks) (t : Nat) (task : Task) : Breaks :=
  let at_ pc := b.set t (some { task with pc := pc })
  match task.pc with
  | .idle => b
  | .entered n =>
    if n < 0 then at_ (.shrinking n task.sz)
    else if (task.sz + n.toNat) % WORD ≥ KERNBASE then at_ .idle
    else at_ (.bounded n.toNat)
  | .bounded n => if (task.sz + n) % WORD < task.sz then at_ .idle else at_ (.checked n)
  | .checked n => at_ (.loaded n task.sz)
  | .loaded n old => b.set t (some { task with sz := (old + n) % WORD, pc := .stored })
  | .shrinking n old =>
    -- what deallocuvm returns
    let sz := if Mem.moved old n ≥ old then old else Mem.moved old n
    if sz = 0 then at_ .idle else at_ (.lowered sz)
  | .lowered sz => b.set t (some { task with sz := sz, pc := .stored })
  | .stored => (b.set t (some { task with pc := .idle })).syncsize t task

/-- A call by t, possible if the test holds for its task. -/
def call (b : Breaks) (t : Nat) (test : Task → Bool) (effect : Task → Breaks) : Except Unit Breaks :=
  match b.proc t with
  | some task => if test task then .ok (effect task) else .error ()
  | none => .error ()

def step (b : Breaks) : Act → Except Unit Breaks
  | .sbrk t n =>
    b.call t (fun task => decide (task.pc = .idle ∧ -2147483648 ≤ n ∧ n < 2147483648))
      fun task => b.set t (some { task with pc := .entered n })
  | .go t => b.call t (fun _ => true) (b.advance t)
  | .fork t np d =>
    b.call t (fun task => decide (task.pc = .idle ∧ np < NPROC) && (b.proc np).isNone && b.fresh d)
      fun task => b.set np (some ⟨d, task.sz, .idle⟩)
  | .clone t np stack =>
    b.call t (fun task => decide (task.pc = .idle ∧ np < NPROC) && (b.proc np).isNone && cloneCheck task.sz stack)
      fun task => b.set np (some ⟨task.pgdir, task.sz, .idle⟩)
  | .exec t d top =>
    -- the break comes from allocuvm, which refuses KERNBASE and what is above
    b.call t (fun task => decide (task.pc = .idle ∧ b.users task.pgdir ≤ 1 ∧ top < KERNBASE) && b.fresh d)
      fun _ => b.set t (some ⟨d, top, .idle⟩)
  | .reap t => b.call t (fun task => decide (task.pc = .idle)) fun _ => b.set t none

theorem call_ok {b b' : Breaks} {t : Nat} {test : Task → Bool} {effect : Task → Breaks}
    (done : b.call t test effect = .ok b') : ∃ task, b.proc t = some task ∧ test task = true ∧ effect task = b' := by
  unfold call at done
  split at done
  · rename_i task used
    split at done
    · rename_i ok
      exact ⟨task, used, ok, Except.ok.inj done⟩
    · cases done
  · cases done

def Init (b : Breaks) : Prop := ∃ d, b.proc = fun i => if i = 0 then some ⟨d, PGSIZE, .idle⟩ else none

/-- A process calls sbrk only while no other thread of its address space is in sbrk. -/
def Alone (b : Breaks) : Act → Prop
  | .sbrk t _ => ∀ u task other, u ≠ t → b.proc t = some task → b.proc u = some other → other.pgdir = task.pgdir →
      other.pc = .idle
  | _ => True

end Breaks

/-- What has been tested for a copy sz of the break. -/
def Pc.Fits (sz : Nat) : Pc → Prop
  | .bounded n | .checked n => sz + n < KERNBASE
  | .loaded n old => old + n < KERNBASE
  | .shrinking _ old => old < KERNBASE
  | .lowered new => new < KERNBASE
  | .idle | .entered _ | .stored => True

structure BreaksInv (b : Breaks) : Prop where
  small : ∀ i task, b.proc i = some task → task.sz < KERNBASE
  fits : ∀ i task, b.proc i = some task → task.pc.Fits task.sz
  ints : ∀ i task n, b.proc i = some task → task.pc = .entered n → n < 2147483648
  inside : ∀ i task, b.proc i = some task → i < NPROC
  one : ∀ i j task other, b.proc i = some task → b.proc j = some other → task.pgdir = other.pgdir →
    task.pc ≠ .idle → other.pc ≠ .idle → i = j

namespace BreaksInv
variable {b : Breaks}

/-- A task changes without a new directory; a task that goes to work is the only one of its space that does. -/
theorem set (inv : BreaksInv b) {t : Nat} {task : Task} (inside : t < NPROC) (small : task.sz < KERNBASE)
    (fits : task.pc.Fits task.sz) (ints : ∀ n, task.pc = .entered n → n < 2147483648)
    (alone : task.pc ≠ .idle → ∀ u other, u ≠ t → b.proc u = some other → other.pgdir = task.pgdir →
      other.pc = .idle) : BreaksInv (b.set t (some task)) := by
  have cases_ : ∀ {i v}, (b.set t (some task)).proc i = some v → i = t ∧ v = task ∨ i ≠ t ∧ b.proc i = some v := by
    intro i v is
    by_cases here : i = t
    · subst here
      rw [Breaks.set_proc, Function.update_self] at is
      exact Or.inl ⟨rfl, (Option.some.inj is).symm⟩
    · rw [Breaks.set_proc, Function.update_of_ne here] at is
      exact Or.inr ⟨here, is⟩
  constructor
  · intro i v is
    rcases cases_ is with ⟨-, rfl⟩ | ⟨-, old⟩
    · exact small
    · exact inv.small i v old
  · intro i v is
    rcases cases_ is with ⟨-, rfl⟩ | ⟨-, old⟩
    · exact fits
    · exact inv.fits i v old
  · intro i v n is
    rcases cases_ is with ⟨-, rfl⟩ | ⟨-, old⟩
    · exact ints n
    · exact inv.ints i v n old
  · intro i v is
    rcases cases_ is with ⟨rfl, -⟩ | ⟨-, old⟩
    · exact inside
    · exact inv.inside i v old
  · intro i j v w is js same busy busy'
    rcases cases_ is with ⟨rfl, rfl⟩ | ⟨off, old⟩
    · rcases cases_ js with ⟨rfl, -⟩ | ⟨off', old'⟩
      · rfl
      · exact (busy' (alone busy j w off' old' same.symm)).elim
    · rcases cases_ js with ⟨rfl, rfl⟩ | ⟨off', old'⟩
      · exact (busy (alone busy' i v off old same)).elim
      · exact inv.one i j v w old old' same busy busy'

theorem clear (inv : BreaksInv b) (t : Nat) : BreaksInv (b.set t none) := by
  have old : ∀ {i v}, (b.set t none).proc i = some v → b.proc i = some v := by
    intro i v is
    by_cases here : i = t
    · subst here
      rw [Breaks.set_proc, Function.update_self] at is
      cases is
    · rwa [Breaks.set_proc, Function.update_of_ne here] at is
  exact ⟨fun i v is => inv.small i v (old is), fun i v is => inv.fits i v (old is),
    fun i v n is => inv.ints i v n (old is), fun i v is => inv.inside i v (old is),
    fun i j v w is js => inv.one i j v w (old is) (old js)⟩

theorem others (inv : BreaksInv b) {t : Nat} {task : Task} (used : b.proc t = some task) (busy : task.pc ≠ .idle) :
    ∀ u other, u ≠ t → b.proc u = some other → other.pgdir = task.pgdir → other.pc = .idle := by
  intro u other off there same
  by_contra busy'
  exact off (inv.one u t other task there used same busy' busy)

theorem move (inv : BreaksInv b) {t : Nat} {task : Task} (used : b.proc t = some task) (busy : task.pc ≠ .idle)
    {sz : Nat} {pc : Pc} (small : sz < KERNBASE) (fits : pc.Fits sz) (ints : ∀ n, pc ≠ .entered n) :
    BreaksInv (b.set t (some { task with sz := sz, pc := pc })) :=
  inv.set (inv.inside t task used) small fits (fun n is => (ints n is).elim)
    fun _ u other off there same => inv.others used busy u other off there same

theorem syncsize (inv : BreaksInv b) {t : Nat} {cur : Task} (small : cur.sz < KERNBASE)
    (idle : ∀ u other, u ≠ t → b.proc u = some other → other.pgdir = cur.pgdir → other.pc = .idle) :
    BreaksInv (b.syncsize t cur) := by
  have copied : ∀ {i v}, (b.syncsize t cur).proc i = some v → ∃ w, b.proc i = some w ∧ v.pgdir = w.pgdir ∧
      v.pc = w.pc ∧ (v.sz = w.sz ∨ v.sz = cur.sz ∧ w.pc = .idle) := by
    intro i v is
    obtain ⟨w, old, new⟩ := Option.map_eq_some_iff.mp is
    refine ⟨w, old, ?_⟩
    split at new
    · rename_i sibling
      subst new
      exact ⟨rfl, rfl, Or.inr ⟨rfl, idle i w sibling.1 old sibling.2⟩⟩
    · subst new
      exact ⟨rfl, rfl, Or.inl rfl⟩
  constructor
  · intro i v is
    obtain ⟨w, old, -, -, same | ⟨new, -⟩⟩ := copied is
    · rw [same]
      exact inv.small i w old
    · rw [new]
      exact small
  · intro i v is
    obtain ⟨w, old, -, pc, same | ⟨-, rest⟩⟩ := copied is
    · rw [pc, same]
      exact inv.fits i w old
    · rw [pc, rest]
      trivial
  · intro i v n is
    obtain ⟨w, old, -, pc, -⟩ := copied is
    rw [pc]
    exact inv.ints i w n old
  · intro i v is
    obtain ⟨w, old, -⟩ := copied is
    exact inv.inside i w old
  · intro i j v v' is js same busy busy'
    obtain ⟨w, old, dir, pc, -⟩ := copied is
    obtain ⟨w', old', dir', pc', -⟩ := copied js
    rw [dir, dir'] at same
    rw [pc] at busy
    rw [pc'] at busy'
    exact inv.one i j w w' old old' same busy busy'

theorem advance (inv : BreaksInv b) {t : Nat} {task : Task} (used : b.proc t = some task) :
    BreaksInv (b.advance t task) := by
  have small := inv.small t task used
  have fits := inv.fits t task used
  have word : KERNBASE + KERNBASE = WORD := by decide
  have half : (2147483648 : Int) = KERNBASE := rfl
  unfold Breaks.advance
  cases pc : task.pc with
  | idle => exact inv
  | entered n =>
    have busy : task.pc ≠ .idle := by rw [pc]; nofun
    have int := inv.ints t task n used pc
    simp only
    split
    · exact inv.move used busy small small nofun
    · split
      · exact inv.move used busy small trivial nofun
      · rename_i low
        refine inv.move used busy small ?_ nofun
        rw [Nat.mod_eq_of_lt (by omega)] at low
        exact Nat.lt_of_not_le low
  | bounded n =>
    have busy : task.pc ≠ .idle := by rw [pc]; nofun
    rw [pc] at fits
    simp only
    split
    · exact inv.move used busy small trivial nofun
    · exact inv.move used busy small fits nofun
  | checked n =>
    have busy : task.pc ≠ .idle := by rw [pc]; nofun
    rw [pc] at fits
    exact inv.move used busy small fits nofun
  | loaded n old =>
    have busy : task.pc ≠ .idle := by rw [pc]; nofun
    rw [pc] at fits
    have sum : (old + n) % WORD < KERNBASE := Nat.lt_of_le_of_lt (Nat.mod_le _ _) fits
    exact inv.move used busy sum trivial nofun
  | shrinking n old =>
    have busy : task.pc ≠ .idle := by rw [pc]; nofun
    rw [pc] at fits
    have lower : (if Mem.moved old n ≥ old then old else Mem.moved old n) ≤ old := by
      split <;> omega
    simp only
    generalize (if Mem.moved old n ≥ old then old else Mem.moved old n) = new at lower ⊢
    split
    · exact inv.move used busy small trivial nofun
    · exact inv.move used busy small (Nat.lt_of_le_of_lt lower fits) nofun
  | lowered new =>
    have busy : task.pc ≠ .idle := by rw [pc]; nofun
    rw [pc] at fits
    exact inv.move used busy fits trivial nofun
  | stored =>
    have busy : task.pc ≠ .idle := by rw [pc]; nofun
    have left : BreaksInv (b.set t (some { task with pc := .idle })) := inv.move used busy small trivial nofun
    refine left.syncsize small ?_
    intro u other off there
    rw [Breaks.set_proc, Function.update_of_ne off] at there
    exact inv.others used busy u other off there

theorem start (first : Breaks.Init b) : BreaksInv b := by
  obtain ⟨d, procs⟩ := first
  have only : ∀ i task, b.proc i = some task → i = 0 ∧ task = ⟨d, PGSIZE, .idle⟩ := by
    intro i task is
    rw [procs] at is
    by_cases here : i = 0
    · simp only [here, if_true] at is
      exact ⟨here, (Option.some.inj is).symm⟩
    · simp only [here, if_false] at is
      cases is
  have page : PGSIZE < KERNBASE := by decide
  constructor
  · intro i task is
    rw [(only i task is).2]
    exact page
  · intro i task is
    rw [(only i task is).2]
    trivial
  · intro i task n is
    rw [(only i task is).2]
    nofun
  · intro i task is
    rw [(only i task is).1]
    decide
  · intro i j task other is js _ _ _
    rw [(only i task is).1, (only j other js).1]

theorem next (inv : BreaksInv b) {a : Act} {b' : Breaks} (alone : b.Alone a) (done : b.step a = .ok b') :
    BreaksInv b' := by
  cases a with
  | sbrk t n =>
    obtain ⟨task, used, ok, rfl⟩ := Breaks.call_ok done
    refine inv.set (inv.inside t task used) (inv.small t task used) trivial ?_ ?_
    · intro k is
      cases is
      exact (of_decide_eq_true ok).2.2
    · intro _ u other off there same
      exact alone u task other off used there same
  | go t =>
    obtain ⟨task, used, -, rfl⟩ := Breaks.call_ok done
    exact inv.advance used
  | fork t np d =>
    obtain ⟨task, used, ok, rfl⟩ := Breaks.call_ok done
    simp only [Bool.and_eq_true, decide_eq_true_eq] at ok
    exact inv.set ok.1.1.2 (inv.small t task used) trivial nofun fun busy => (busy rfl).elim
  | clone t np stack =>
    obtain ⟨task, used, ok, rfl⟩ := Breaks.call_ok done
    simp only [Bool.and_eq_true, decide_eq_true_eq] at ok
    exact inv.set ok.1.1.2 (inv.small t task used) trivial nofun fun busy => (busy rfl).elim
  | exec t d top =>
    obtain ⟨task, used, ok, rfl⟩ := Breaks.call_ok done
    simp only [Bool.and_eq_true, decide_eq_true_eq] at ok
    exact inv.set (inv.inside t task used) ok.1.2.2 trivial nofun fun busy => (busy rfl).elim
  | reap t =>
    obtain ⟨task, used, -, rfl⟩ := Breaks.call_ok done
    exact inv.clear t

end BreaksInv

def onlyInit : Breaks := ⟨fun i => if i = 0 then some ⟨1, PGSIZE, .idle⟩ else none⟩

/-- init grows to 8 KB below KERNBASE and starts a thread; both ask for 6000 bytes, and the thread's call runs
between the tests and the store of init's. -/
def overlap : List Act :=
  [.sbrk 0 0x7fffd000] ++ List.replicate 6 (.go 0) ++ [.clone 0 1 0, .sbrk 0 6000, .go 0, .go 0] ++
    [.sbrk 1 6000] ++ List.replicate 6 (.go 1) ++ [.go 0, .go 0]

end Xv6.Syscall
