import Xv6.Lib.Runs
import Xv6.Memory.Frames

/-!
thread_create and thread_join of uthread.c, called by one thread, over the part of the
kernel that they see: clone puts a thread into the process table, and join returns the
first one that has exited. The stack of a thread is the aligned page inside a block of
two pages from malloc. No call gives such a block back.
-/
namespace Xv6.Uthread

def MAXTHREADS : Nat := 32
def UTHREAD_STACK : Nat := 4096

structure Slot where
  stack : Nat
  used : Bool
  deriving DecidableEq, Repr

/-- A thread in the process table whose parent is the caller. -/
structure Thread where
  tid : Nat
  ustack : Nat
  zombie : Bool
  deriving DecidableEq, Repr

/-- The library's data, the heap and the caller's threads in the order of the process
    table. heap has the blocks that malloc returned and free did not take back; the last
    three fields count the blocks, the threads created and the threads joined so far. -/
structure Lib where
  slots : List Slot
  initialized : Bool
  heap : List Nat
  threads : List Thread
  killed : Bool
  blocks : Nat
  created : Nat
  joined : Nat
  deriving DecidableEq, Repr

namespace Lib

def start : Lib := ⟨List.replicate MAXTHREADS ⟨0, false⟩, false, [], [], false, 0, 0, 0⟩

def thread_init (s : Lib) : Lib :=
  { s with slots := s.slots.map fun _ => ⟨0, false⟩, initialized := true }

def aligned (raw : Nat) : Nat := (raw + UTHREAD_STACK - 1) % 4294967296 / UTHREAD_STACK * UTHREAD_STACK

/-- raw is what malloc(UTHREAD_STACK * 2) returns. -/
def aligned_stack (s : Lib) (raw : Nat) : Nat × Lib :=
  if raw = 0 then (0, s)
  else (aligned raw, { s with heap := raw :: s.heap, blocks := s.blocks + 1 })

/-- cloned is what clone returns: none for -1, or the new thread's pid and its place
    among the caller's threads in the process table. -/
def thread_create (s : Lib) (raw : Nat) (cloned : Option (Nat × Nat)) : Option Nat × Lib :=
  let s := if s.initialized then s else s.thread_init
  let (stack, s) := s.aligned_stack raw
  if stack = 0 then (none, s)
  else match s.slots.findIdx? fun slot => !slot.used with
    | none => (none, s)
    | some i =>
      let s := { s with slots := s.slots.set i ⟨stack, true⟩ }
      match cloned with
      | none => (none, { s with slots := s.slots.set i ⟨stack, false⟩ })
      | some (tid, place) =>
        (some tid, { s with threads := s.threads.insertIdx place ⟨tid, stack, false⟩, created := s.created + 1 })

/-- join sleeps while there are threads and none of them has exited. -/
inductive Stop where
  | sleeps

/-- join: the pid and the stack of the first thread that has exited, or none for -1. -/
def join (s : Lib) : Except Stop (Option (Nat × Nat) × Lib) :=
  match s.threads.find? (·.zombie) with
  | some t => .ok (some (t.tid, t.ustack), { s with threads := s.threads.eraseP (·.zombie) })
  | none => if s.threads = [] ∨ s.killed then .ok (none, s) else .error .sleeps

def thread_join (s : Lib) : Except Stop (Option Nat × Lib) := do
  match ← s.join with
  | (none, s) => .ok (none, s)
  | (some (tid, stack), s) =>
    let drop (slot : Slot) : Slot := if slot.used ∧ slot.stack = stack then { slot with used := false } else slot
    .ok (some tid, { s with slots := s.slots.map drop, joined := s.joined + 1 })

def exit (s : Lib) (k : Nat) : Lib :=
  { s with threads := s.threads.modify k fun t => { t with zombie := true } }

inductive Act where
  | create (raw : Nat) (cloned : Option (Nat × Nat))
  | join
  | exit (k : Nat)
  | kill

def step (s : Lib) : Act → Except Stop Lib
  | .create raw cloned => .ok (s.thread_create raw cloned).2
  | .join => s.thread_join.map (·.2)
  | .exit k => .ok (s.exit k)
  | .kill => .ok { s with killed := true }

/-- The block lies in user memory and apart from the others, and a new thread has its
    place in the table. -/
def Given (s : Lib) : Act → Prop
  | .create raw cloned =>
    (raw = 0 ∨ raw + UTHREAD_STACK * 2 ≤ KERNBASE ∧
      ∀ other ∈ s.heap, raw + UTHREAD_STACK * 2 ≤ other ∨ other + UTHREAD_STACK * 2 ≤ raw) ∧
      ∀ tid place, cloned = some (tid, place) → place ≤ s.threads.length
  | _ => True

def Reachable : Lib → Prop := Runs.Reachable (· = start) step Given

def inUse (s : Lib) : List Slot := s.slots.filter (·.used)

end Lib

section
variable {s : Lib}

theorem filter_set {l : List Slot} {i : Nat} (found : l.findIdx? (fun slot => !slot.used) = some i) :
    ∃ front back, l.filter (·.used) = front ++ back ∧
      ∀ slot : Slot, (l.set i slot).filter (·.used) = front ++ ([slot].filter (·.used) ++ back) := by
  induction l generalizing i with
  | nil => cases found
  | cons first l ih =>
    rw [List.findIdx?_cons] at found
    cases used : first.used with
    | false =>
      simp only [used, Bool.not_false, ↓reduceIte] at found
      cases found
      refine ⟨[], l.filter (·.used), by simp [used], fun slot => ?_⟩
      rw [List.set_cons_zero, List.nil_append, ← List.filter_append, List.singleton_append]
    | true =>
      simp only [used, Bool.not_true, Bool.false_eq_true, ↓reduceIte, Option.map_eq_some_iff] at found
      obtain ⟨j, rest, rfl⟩ := found
      obtain ⟨front, back, whole, set⟩ := ih rest
      refine ⟨first :: front, back, ?_, fun slot => ?_⟩
      · rw [List.filter_cons_of_pos used, whole, List.cons_append]
      · rw [List.set_cons_succ, List.filter_cons_of_pos used, set, List.cons_append]

theorem filter_drop (l : List Slot) (stack : Nat) :
    ((l.map fun slot => if slot.used ∧ slot.stack = stack then { slot with used := false } else slot).filter
      (·.used)).map (·.stack) = ((l.filter (·.used)).map (·.stack)).filter (· ≠ stack) := by
  induction l with
  | nil => rfl
  | cons slot l ih =>
    rw [List.map_cons]
    cases used : slot.used with
    | false =>
      rw [if_neg (by simp), List.filter_cons_of_neg (by simp [used]), List.filter_cons_of_neg (by simp [used]), ih]
    | true =>
      rw [List.filter_cons_of_pos (l := l) used, List.map_cons]
      by_cases same : slot.stack = stack
      · rw [if_pos ⟨rfl, same⟩, List.filter_cons_of_neg (by simp), List.filter_cons_of_neg (by simp [same]), ih]
      · rw [if_neg (by simp [same]), List.filter_cons_of_pos used, List.filter_cons_of_pos (by simp [same]),
          List.map_cons, ih]

/-- Each thread has one slot in use, with its stack, and its own block of the heap. -/
structure Lib.Balanced (s : Lib) : Prop where
  length : s.slots.length = MAXTHREADS
  fresh : s.initialized = false → s.inUse = [] ∧ s.threads = []
  slots : (s.inUse.map (·.stack)).Perm (s.threads.map (·.ustack))
  once : (s.threads.map (·.ustack)).Nodup
  block : ∀ t ∈ s.threads, ∃ raw ∈ s.heap, t.ustack = Lib.aligned raw
  user : ∀ raw ∈ s.heap, raw ≠ 0 ∧ raw + UTHREAD_STACK * 2 ≤ KERNBASE
  kept : s.heap.length = s.blocks
  count : s.threads.length + s.joined = s.created

theorem aligned_bounds {raw : Nat} (some : raw ≠ 0) (user : raw + UTHREAD_STACK * 2 ≤ KERNBASE) :
    Lib.aligned raw ≠ 0 ∧ raw ≤ Lib.aligned raw ∧ Lib.aligned raw < raw + UTHREAD_STACK := by
  simp only [Lib.aligned, UTHREAD_STACK, KERNBASE] at *
  omega

namespace Lib.Balanced

theorem start : Lib.start.Balanced where
  length := List.length_replicate
  fresh _ := ⟨rfl, rfl⟩
  slots := List.Perm.refl _
  once := List.nodup_nil
  block := nofun
  user := nofun
  kept := rfl
  count := rfl

theorem init (balanced : s.Balanced) : ∃ s₀, (if s.initialized then s else s.thread_init) = s₀ ∧
    s₀.initialized = true ∧ s₀.heap = s.heap ∧ s₀.threads = s.threads ∧ s₀.created = s.created ∧
    s₀.joined = s.joined ∧ s₀.Balanced := by
  cases ready : s.initialized with
  | true => exact ⟨s, rfl, ready, rfl, rfl, rfl, rfl, balanced⟩
  | false =>
    obtain ⟨-, none⟩ := balanced.fresh ready
    have free : s.thread_init.inUse = [] := by
      rw [Lib.inUse, List.filter_eq_nil_iff]
      intro slot member
      obtain ⟨_, -, rfl⟩ := List.mem_map.mp member
      exact Bool.false_ne_true
    refine ⟨s.thread_init, rfl, rfl, rfl, rfl, rfl, rfl,
      { balanced with length := (List.length_map _).trans balanced.length, fresh := nofun, slots := ?_ }⟩
    rw [free]
    change ([] : List Nat).Perm (s.threads.map (·.ustack))
    rw [none]
    exact List.Perm.refl _

theorem malloc (balanced : s.Balanced) {raw : Nat} (some : raw ≠ 0) (user : raw + UTHREAD_STACK * 2 ≤ KERNBASE) :
    { s with heap := raw :: s.heap, blocks := s.blocks + 1 : Lib }.Balanced where
  length := balanced.length
  fresh := balanced.fresh
  slots := balanced.slots
  once := balanced.once
  block t member := by
    obtain ⟨other, inside, place⟩ := balanced.block t member
    exact ⟨other, List.mem_cons_of_mem raw inside, place⟩
  user other member := by
    rcases List.mem_cons.mp member with rfl | old
    · exact ⟨some, user⟩
    · exact balanced.user other old
  kept := congrArg (· + 1) balanced.kept
  count := balanced.count

theorem clone (balanced : s.Balanced) (ready : s.initialized = true) {i raw place : Nat}
    (found : s.slots.findIdx? (fun slot => !slot.used) = some i) (member : raw ∈ s.heap)
    (own : ∀ t ∈ s.threads, t.ustack ≠ aligned raw) (inside : place ≤ s.threads.length) (tid : Nat) :
    { s with
      slots := s.slots.set i ⟨aligned raw, true⟩
      threads := s.threads.insertIdx place ⟨tid, aligned raw, false⟩
      created := s.created + 1 : Lib }.Balanced := by
  obtain ⟨front, back, whole, set⟩ := filter_set found
  have list := List.perm_insertIdx (⟨tid, aligned raw, false⟩ : Thread) s.threads inside
  refine ⟨List.length_set.trans balanced.length, fun fresh => ?_, ?_, ?_, ?_, balanced.user, balanced.kept, ?_⟩
  · rw [show s.initialized = false from fresh] at ready
    cases ready
  · have old := balanced.slots
    rw [Lib.inUse, whole] at old
    refine List.Perm.trans ?_ (list.map _).symm
    rw [Lib.inUse, set]
    simp only [List.filter_cons_of_pos, List.filter_nil, List.cons_append, List.nil_append, List.map_append,
      List.map_cons] at old ⊢
    exact List.perm_middle.trans (old.cons _)
  · refine (list.map _).nodup_iff.mpr ?_
    rw [List.map_cons, List.nodup_cons]
    refine ⟨fun there => ?_, balanced.once⟩
    obtain ⟨t, inside', same⟩ := List.mem_map.mp there
    exact own t inside' same
  · intro t there
    rcases List.mem_cons.mp (list.mem_iff.mp there) with rfl | old
    · exact ⟨raw, member, rfl⟩
    · exact balanced.block t old
  · have length := list.length_eq
    have count := balanced.count
    rw [List.length_cons] at length
    simp only
    omega

theorem create (balanced : s.Balanced) {raw : Nat} {cloned : Option (Nat × Nat)}
    (given : s.Given (.create raw cloned)) : (s.thread_create raw cloned).2.Balanced := by
  obtain ⟨block, place⟩ := given
  obtain ⟨s₀, first, ready, heap, threads, -, -, balanced₀⟩ := balanced.init
  rw [thread_create, first]
  rcases block with rfl | ⟨user, apart⟩
  · exact balanced₀
  by_cases zero : raw = 0
  · rw [aligned_stack, if_pos zero]
    exact balanced₀
  obtain ⟨nonzero, low, high⟩ := aligned_bounds zero user
  rw [aligned_stack, if_neg zero]
  simp only
  rw [if_neg nonzero]
  have balanced₁ := balanced₀.malloc zero user
  -- the stacks in use lie in blocks apart from the new one
  have own : ∀ t ∈ s₀.threads, t.ustack ≠ aligned raw := by
    intro t member same
    obtain ⟨other, inside, stack⟩ := balanced₀.block t member
    obtain ⟨some, user'⟩ := balanced₀.user other inside
    obtain ⟨-, low', high'⟩ := aligned_bounds some user'
    have away := apart other (heap ▸ inside)
    rw [← stack, same] at low' high'
    simp only [UTHREAD_STACK] at *
    omega
  cases found : s₀.slots.findIdx? fun slot => !slot.used with
  | none => exact balanced₁
  | some i =>
    cases cloned with
    | none =>
      obtain ⟨front, back, whole, set⟩ := filter_set found
      have same : ((s₀.slots.set i ⟨aligned raw, true⟩).set i ⟨aligned raw, false⟩).filter (·.used) =
          s₀.slots.filter (·.used) := by
        rw [List.set_set, set, whole]
        rfl
      refine { balanced₁ with length := ?_, fresh := fun fresh => ?_, slots := ?_ }
      · exact List.length_set.trans (List.length_set.trans balanced₀.length)
      · rw [show s₀.initialized = false from fresh] at ready
        cases ready
      · change ((((s₀.slots.set i ⟨aligned raw, true⟩).set i ⟨aligned raw, false⟩).filter (·.used)).map
          (·.stack)).Perm (s₀.threads.map (·.ustack))
        rw [same]
        exact balanced₀.slots
    | some pair =>
      obtain ⟨tid, k⟩ := pair
      exact balanced₁.clone ready found List.mem_cons_self own (by rw [threads]; exact place tid k rfl) tid

theorem join (balanced : s.Balanced) {s' : Lib} {r : Option Nat} (done : s.thread_join = .ok (r, s')) : s'.Balanced := by
  rw [thread_join, Lib.join] at done
  cases found : s.threads.find? (·.zombie) with
  | none =>
    rw [found] at done
    simp only at done
    split at done
    · cases done
      exact balanced
    · cases done
  | some t =>
    rw [found] at done
    cases done
    obtain ⟨gone, before, after, list, live⟩ := List.find?_eq_some_iff_append.mp found
    have rest : s.threads.eraseP (·.zombie) = before ++ after := by
      rw [list, List.eraseP_append_right _ (fun u member => by simpa using live u member), List.eraseP_cons_of_pos gone]
    have perm : s.threads.Perm (t :: (before ++ after)) := by
      rw [list]
      exact List.perm_middle
    have once := (perm.map (·.ustack)).nodup_iff.mp balanced.once
    rw [List.map_cons, List.nodup_cons] at once
    refine ⟨(List.length_map _).trans balanced.length, fun fresh => ?_, ?_, ?_, ?_, balanced.user, balanced.kept, ?_⟩
    · obtain ⟨-, none⟩ := balanced.fresh fresh
      rw [none] at found
      cases found
    · simp only [Lib.inUse, rest]
      rw [filter_drop]
      have others : ((before ++ after).map (·.ustack)).filter (· ≠ t.ustack) = (before ++ after).map (·.ustack) := by
        refine List.filter_eq_self.mpr fun stack there => ?_
        exact decide_eq_true fun same => once.1 (same ▸ there)
      have kept := (balanced.slots.trans (perm.map (·.ustack))).filter (· ≠ t.ustack)
      rw [List.map_cons, List.filter_cons_of_neg (by simp), others] at kept
      exact kept
    · simp only [rest]
      exact once.2
    · intro u there
      simp only [rest] at there
      exact balanced.block u (perm.mem_iff.mpr (List.mem_cons_of_mem t there))
    · have length := perm.length_eq
      have count := balanced.count
      rw [List.length_cons] at length
      simp only [rest]
      omega

theorem exit (balanced : s.Balanced) (k : Nat) : (s.exit k).Balanced := by
  have same : (s.exit k).threads.map (·.ustack) = s.threads.map (·.ustack) := by
    refine List.ext_getElem? fun i => ?_
    simp only [Lib.exit, List.getElem?_map, List.getElem?_modify]
    cases s.threads[i]? with
    | none => rfl
    | some t => by_cases here : k = i <;> simp [here]
  refine ⟨balanced.length, fun fresh => ?_, ?_, ?_, ?_, balanced.user, balanced.kept, ?_⟩
  · obtain ⟨free, none⟩ := balanced.fresh fresh
    exact ⟨free, by simp only [Lib.exit, none, List.modify_nil]⟩
  · rw [same]
    exact balanced.slots
  · rw [same]
    exact balanced.once
  · intro u there
    have known : u.ustack ∈ s.threads.map (·.ustack) := same ▸ List.mem_map_of_mem there
    obtain ⟨t, member, same⟩ := List.mem_map.mp known
    obtain ⟨raw, inside, place⟩ := balanced.block t member
    exact ⟨raw, inside, same.symm.trans place⟩
  · have length : (s.exit k).threads.length = s.threads.length := List.length_modify ..
    rw [length]
    exact balanced.count

end Lib.Balanced

theorem Lib.Reachable.balanced (reach : s.Reachable) : s.Balanced := by
  refine Runs.Reachable.invariant ?_ ?_ reach
  · rintro _ rfl
    exact Lib.Balanced.start
  · intro s a s' balanced given done
    cases a with
    | create raw cloned =>
      cases done
      exact balanced.create given
    | join =>
      simp only [Lib.step] at done
      cases join : s.thread_join with
      | error stop =>
        rw [join] at done
        cases done
      | ok pair =>
        rw [join] at done
        cases done
        exact balanced.join join
    | exit k =>
      cases done
      exact balanced.exit k
    | kill =>
      cases done
      exact { balanced with }

/-- The slots in use are the threads created and not yet joined. All blocks stay
    allocated, so with all threads joined none is left only if malloc never returned one. -/
theorem create_join_balance (reach : s.Reachable) : s.inUse.length + s.joined = s.created ∧
    s.heap.length = s.blocks ∧ (s.joined = s.created → (s.heap = [] ↔ s.blocks = 0)) := by
  have balanced := reach.balanced
  have slots := balanced.slots.length_eq
  rw [List.length_map, List.length_map] at slots
  refine ⟨by rw [slots]; exact balanced.count, balanced.kept, fun _ => ?_⟩
  rw [← balanced.kept, List.length_eq_zero_iff]

/-- thread_create fails at malloc. -/
theorem create_join_balance_short : ∃ s : Lib, s.Reachable ∧ s.initialized = true ∧
    s.inUse.length + s.joined = s.created ∧ s.heap = [] := by
  have first : Lib.start.Reachable := Runs.Reachable.start rfl
  have reach : (Lib.start.thread_create 0 none).2.Reachable :=
    Runs.Reachable.next first (.create 0 none) ⟨Or.inl rfl, nofun⟩ rfl
  obtain ⟨slots, -, heap⟩ := create_join_balance reach
  exact ⟨_, reach, rfl, slots, (heap rfl).mpr rfl⟩

theorem create_alone (balanced : s.Balanced) (alone : s.threads = []) {raw : Nat} (nonzero : raw ≠ 0)
    (user : raw + UTHREAD_STACK * 2 ≤ KERNBASE) : ∃ s', (s.thread_create raw (some (1, 0))).2 = s' ∧
      s'.threads = [⟨1, Lib.aligned raw, false⟩] ∧ s'.heap = raw :: s.heap ∧ s'.created = s.created + 1 ∧
      s'.joined = s.joined := by
  obtain ⟨s₀, first, ready, heap, threads, created, joined, balanced₀⟩ := balanced.init
  obtain ⟨stack, -, -⟩ := aligned_bounds nonzero user
  have free : ∃ i, s₀.slots.findIdx? (fun slot => !slot.used) = some i := by
    have none := balanced₀.slots
    rw [threads, alone, List.map_nil, List.perm_nil, List.map_eq_nil_iff, Lib.inUse, List.filter_eq_nil_iff] at none
    have length := balanced₀.length
    cases slots : s₀.slots with
    | nil =>
      rw [slots] at length
      cases length
    | cons slot l =>
      have unused := none slot (by rw [slots]; exact List.mem_cons_self)
      exact ⟨0, by simp [List.findIdx?_cons, unused]⟩
  obtain ⟨i, found⟩ := free
  refine ⟨_, rfl, ?_⟩
  rw [Lib.thread_create, first, Lib.aligned_stack, if_neg nonzero]
  simp only
  rw [if_neg stack, found]
  refine ⟨?_, by rw [← heap], by rw [← created], joined⟩
  change s₀.threads.insertIdx 0 _ = _
  rw [threads, alone]
  rfl

theorem Lib.Reachable.round (reach : s.Reachable) (alone : s.threads = []) {raw : Nat} (nonzero : raw ≠ 0)
    (user : raw + UTHREAD_STACK * 2 ≤ KERNBASE)
    (apart : ∀ other ∈ s.heap, raw + UTHREAD_STACK * 2 ≤ other ∨ other + UTHREAD_STACK * 2 ≤ raw) :
    ∃ s' : Lib, s'.Reachable ∧ s'.threads = [] ∧ s'.created = s.created + 1 ∧ s'.joined = s.joined + 1 ∧
      s'.heap = raw :: s.heap := by
  obtain ⟨s₁, create, threads, heap, created, joined⟩ := create_alone reach.balanced alone nonzero user
  have reach₁ : s₁.Reachable := by
    refine Runs.Reachable.next reach (.create raw (some (1, 0))) ⟨Or.inr ⟨user, apart⟩, ?_⟩ ?_
    · rintro _ _ ⟨⟩
      exact Nat.zero_le _
    · rw [Lib.step, create]
  have reach₂ : (s₁.exit 0).Reachable := Runs.Reachable.next reach₁ (.exit 0) trivial rfl
  have gone : (s₁.exit 0).threads = [⟨1, Lib.aligned raw, true⟩] := by
    rw [Lib.exit, threads]
    rfl
  obtain ⟨s₃, join, empty, heap₃, created₃, joined₃⟩ : ∃ s₃, (s₁.exit 0).thread_join = .ok (some 1, s₃) ∧
      s₃.threads = [] ∧ s₃.heap = s₁.heap ∧ s₃.created = s₁.created ∧ s₃.joined = s₁.joined + 1 := by
    rw [Lib.thread_join, Lib.join, gone]
    exact ⟨_, rfl, rfl, rfl, rfl, rfl⟩
  refine ⟨s₃, Runs.Reachable.next reach₂ .join trivial ?_, empty, created₃.trans created, ?_, heap₃.trans heap⟩
  · rw [Lib.step, join]
    rfl
  · rw [joined₃, joined]

theorem rounds (n : Nat) (small : n < 262144) : ∃ s : Lib, s.Reachable ∧ s.created = n ∧ s.joined = n ∧
    s.threads = [] ∧ s.heap.length = n ∧ ∀ raw ∈ s.heap, raw + UTHREAD_STACK * 2 ≤ UTHREAD_STACK * 2 * n + 8 := by
  induction n with
  | zero => exact ⟨Lib.start, Runs.Reachable.start rfl, rfl, rfl, rfl, rfl, nofun⟩
  | succ n ih =>
    obtain ⟨s, reach, created, joined, alone, length, below⟩ := ih (by omega)
    obtain ⟨s', reach', alone', created', joined', heap⟩ :=
      reach.round alone (show UTHREAD_STACK * 2 * n + 8 ≠ 0 by omega)
        (by simp only [UTHREAD_STACK, KERNBASE]; omega) fun other member => Or.inr (below other member)
    refine ⟨s', reach', by omega, by omega, alone', by rw [heap, List.length_cons, length], fun raw member => ?_⟩
    rw [heap] at member
    rcases List.mem_cons.mp member with rfl | old
    · simp only [UTHREAD_STACK]
      omega
    · have := below raw old
      simp only [UTHREAD_STACK] at *
      omega

/-- After a thousand rounds, each with one thread outstanding, the heap has grown by a
    block for each. -/
theorem rounds_leak : ∃ s : Lib, s.Reachable ∧ s.created = 1000 ∧ s.joined = 1000 ∧ s.inUse = [] ∧
    s.heap.length = 1000 := by
  obtain ⟨s, reach, created, joined, alone, length, -⟩ := rounds 1000 (by decide)
  have none := reach.balanced.slots
  rw [alone, List.map_nil, List.perm_nil, List.map_eq_nil_iff] at none
  exact ⟨s, reach, created, joined, none, length⟩

end
end Xv6.Uthread
