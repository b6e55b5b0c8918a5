import Xv6.Lib.Ring
import Xv6.Lib.Runs
import Mathlib.Data.Multiset.AddSub
import Mathlib.Data.Multiset.Replicate

/-!
Pipes, pipe.c. A call holds the pipe's lock except while it sleeps, so one step is what a
call does between two sleeps. The files at the two ends are counted by the descriptors
that refer to them: f->ref is the number of holders, and the last close of an end calls
pipeclose. The history records what the calls do and return.
-/
namespace Xv6
open Ring (UINT)

def PIPESIZE : Nat := 512

structure Pipe where
  data : Nat → UInt8
  nread : Nat
  nwrite : Nat
  readopen : Bool
  writeopen : Bool

namespace Pipe

inductive Chan where
  | nread
  | nwrite
  deriving DecidableEq, Repr

/-- What a process does on the pipe, if it sleeps in a call. -/
inductive Call where
  | idle
  /-- pipewrite with bytes still to be stored; id counts the calls -/
  | write (id : Nat) (rest : List UInt8)
  | read (n : Nat)
  deriving DecidableEq, Repr

inductive Event where
  | stored (id : Nat) (b : UInt8)
  | wrote (id : Nat)
  | writeFailed (id : Nat)
  | read (n : Nat) (bs : List UInt8)
  | readFailed (n : Nat)
  | closed (writable : Bool)
  | freed
  deriving DecidableEq, Repr

/-- How pipewrite leaves its loop. -/
inductive Pause where
  | done
  | failed
  | asleep (rest : List UInt8)
  deriving DecidableEq, Repr

def put (p : Pipe) (b : UInt8) : Pipe :=
  { p with data := Function.update p.data (p.nwrite % PIPESIZE) b, nwrite := (p.nwrite + 1) % UINT }

def full (p : Pipe) : Bool := p.nwrite = (p.nread + PIPESIZE) % UINT

/-- The loop of pipewrite, with the bytes it stores before it stops. -/
def writeLoop (killed : Bool) : Pipe → List UInt8 → Pause × List UInt8 × Pipe
  | p, [] => (.done, [], p)
  | p, b :: rest =>
    if p.full then
      if !p.readopen || killed then (.failed, [], p) else (.asleep (b :: rest), [], p)
    else
      let (pause, bs, p) := writeLoop killed (p.put b) rest
      (pause, b :: bs, p)

/-- The copying loop of piperead. -/
def readLoop : Nat → Pipe → List UInt8 × Pipe
  | 0, p => ([], p)
  | n + 1, p =>
    if p.nread = p.nwrite then ([], p)
    else
      let (bs, p') := readLoop n { p with nread := (p.nread + 1) % UINT }
      (p.data (p.nread % PIPESIZE) :: bs, p')

structure Users where
  pipe : Pipe
  call : Nat → Call
  asleep : Nat → Option Chan
  killed : Nat → Bool
  /-- the processes with a descriptor for the write end (true) or the read end, once for each -/
  holders : Bool → Multiset Nat
  /-- the bytes given to each call of pipewrite -/
  writes : List (List UInt8)
  history : List Event

namespace Users

inductive Act where
  | write (i : Nat) (bs : List UInt8)
  | read (i n : Nat)
  | resume (i : Nat)
  | dup (i : Nat) (writable : Bool)
  | fork (i j : Nat)
  | close (i : Nat) (writable : Bool)
  | kill (i : Nat)
  deriving Repr

def wakeup (s : Users) (ch : Chan) : Users :=
  { s with asleep := fun i => if s.asleep i = some ch then none else s.asleep i }

def setCall (s : Users) (i : Nat) (c : Call) : Users := { s with call := Function.update s.call i c }

def sleep (s : Users) (i : Nat) (ch : Chan) : Users := { s with asleep := Function.update s.asleep i (some ch) }

def record (s : Users) (es : List Event) : Users := { s with history := s.history ++ es }

/-- pipewrite from the acquire or the end of a sleep on. -/
def pipewrite (s : Users) (i id : Nat) (rest : List UInt8) : Users :=
  match s.pipe.writeLoop (s.killed i) rest with
  | (.done, bs, p) =>
    (({ s with pipe := p }.setCall i .idle).record (bs.map (Event.stored id) ++ [Event.wrote id])).wakeup .nread
  | (.failed, bs, p) => ({ s with pipe := p }.setCall i .idle).record (bs.map (Event.stored id) ++ [Event.writeFailed id])
  | (.asleep rest, bs, p) =>
    ((({ s with pipe := p }.setCall i (.write id rest)).record (bs.map (Event.stored id))).wakeup .nread).sleep i .nwrite

def piperead (s : Users) (i n : Nat) : Users :=
  if s.pipe.nread = s.pipe.nwrite ∧ s.pipe.writeopen then
    if s.killed i then (s.setCall i .idle).record [.readFailed n]
    else (s.setCall i (.read n)).sleep i .nread
  else
    let (bs, p) := s.pipe.readLoop n
    (({ s with pipe := p }.setCall i .idle).record [.read n bs]).wakeup .nwrite

def pipeclose (s : Users) (writable : Bool) : Users :=
  let s := if writable then { s with pipe := { s.pipe with writeopen := false } }.wakeup .nread
    else { s with pipe := { s.pipe with readopen := false } }.wakeup .nwrite
  s.record (.closed writable :: if s.pipe.readopen = false ∧ s.pipe.writeopen = false then [.freed] else [])

def fileclose (s : Users) (i : Nat) (writable : Bool) : Users :=
  let s := { s with holders := Function.update s.holders writable ((s.holders writable).erase i) }
  if s.holders writable = 0 then s.pipeclose writable else s

def act (s : Users) : Act → Users
  | .write i bs =>
    if s.call i = .idle ∧ i ∈ s.holders true then
      { s with writes := s.writes ++ [bs] }.pipewrite i s.writes.length bs
    else s
  | .read i n => if s.call i = .idle ∧ i ∈ s.holders false then s.piperead i n else s
  | .resume i =>
    if s.asleep i = none then
      match s.call i with
      | .idle => s
      | .write id rest => s.pipewrite i id rest
      | .read n => s.piperead i n
    else s
  | .dup i w =>
    if s.call i = .idle ∧ i ∈ s.holders w then
      { s with holders := Function.update s.holders w (i ::ₘ s.holders w) }
    else s
  | .fork i j =>
    if s.call i = .idle ∧ s.call j = .idle ∧ ∀ w, j ∉ s.holders w then
      { s with
        holders := fun w => s.holders w + Multiset.replicate ((s.holders w).count i) j
        killed := Function.update s.killed j false }
    else s
  | .close i w => if s.call i = .idle ∧ i ∈ s.holders w then s.fileclose i w else s
  | .kill i =>
    { s with killed := Function.update s.killed i true, asleep := Function.update s.asleep i none }

/-- What pipealloc leaves to the caller of pipe(). -/
structure Start (s : Users) : Prop where
  counters : s.pipe.nread = 0 ∧ s.pipe.nwrite = 0
  ends : s.pipe.readopen = true ∧ s.pipe.writeopen = true
  idle : ∀ i, s.call i = .idle
  holder : ∃ i, ∀ w, s.holders w = {i}
  new : s.writes = [] ∧ s.history = []

def Reachable (s : Users) : Prop :=
  Runs.Reachable Start (fun s a => (Except.ok (s.act a) : Except Empty Users)) (fun _ _ => True) s

def stored (h : List Event) : List UInt8 :=
  h.filterMap fun
    | .stored _ b => some b
    | _ => none

def storedBy (id : Nat) (h : List Event) : List UInt8 :=
  h.filterMap fun
    | .stored id' b => if id' = id then some b else none
    | _ => none

def returned (h : List Event) : List UInt8 :=
  h.flatMap fun
    | .read _ bs => bs
    | _ => []

@[simp] theorem stored_append (h h' : List Event) : stored (h ++ h') = stored h ++ stored h' :=
  List.filterMap_append

@[simp] theorem storedBy_append (id : Nat) (h h' : List Event) :
    storedBy id (h ++ h') = storedBy id h ++ storedBy id h' := List.filterMap_append

@[simp] theorem returned_append (h h' : List Event) : returned (h ++ h') = returned h ++ returned h' :=
  List.flatMap_append

@[simp] theorem stored_map (id : Nat) (bs : List UInt8) : stored (bs.map (Event.stored id)) = bs := by
  induction bs with
  | nil => rfl
  | cons b bs ih => exact congrArg (b :: ·) ih

theorem storedBy_map (id id' : Nat) (bs : List UInt8) :
    storedBy id (bs.map (Event.stored id')) = if id' = id then bs else [] := by
  induction bs with
  | nil => simp [storedBy]
  | cons b bs ih =>
    rw [List.map_cons, storedBy, List.filterMap_cons]
    by_cases same : id' = id
    · simp only [if_pos same] at ih ⊢
      exact congrArg (b :: ·) ih
    · simp only [if_neg same] at ih ⊢
      exact ih

@[simp] theorem returned_map (id : Nat) (bs : List UInt8) : returned (bs.map (Event.stored id)) = [] := by
  induction bs with
  | nil => rfl
  | cons b bs ih => exact ih

structure Queued (p : Pipe) (q : List UInt8) : Prop where
  holds : Ring.Holds PIPESIZE UINT p.data p.nread q
  room : q.length ≤ PIPESIZE
  low : p.nread < UINT
  count : p.nwrite = (p.nread + q.length) % UINT

namespace Queued
variable {p : Pipe} {q : List UInt8}

theorem full_iff (queued : Queued p q) : p.full = true ↔ q.length = PIPESIZE := by
  simp only [Pipe.full, decide_eq_true_eq, queued.count]
  have room := queued.room
  constructor
  · exact Ring.index_inj queued.low (by simp only [PIPESIZE, UINT] at *; omega) (by decide)
  · intro same
    rw [same]

theorem empty_iff (queued : Queued p q) : p.nread = p.nwrite ↔ q = [] := by
  rw [queued.count]
  have room := queued.room
  have low := queued.low
  constructor
  · intro same
    refine List.eq_nil_of_length_eq_zero (Ring.index_inj low (by simp only [PIPESIZE, UINT] at *; omega) (by decide) ?_)
    rw [← same, Nat.add_zero, Nat.mod_eq_of_lt low]
  · rintro rfl
    rw [List.length_nil, Nat.add_zero, Nat.mod_eq_of_lt low]

theorem put (queued : Queued p q) (room : p.full = false) (b : UInt8) : Queued (p.put b) (q ++ [b]) := by
  have less : q.length < PIPESIZE := by
    refine Nat.lt_of_le_of_ne queued.room fun same => ?_
    cases room.symm.trans (queued.full_iff.mpr same)
  refine ⟨?_, ?_, queued.low, ?_⟩
  · simp only [Pipe.put, queued.count]
    exact queued.holds.push (by decide) less b
  · rw [List.length_append, List.length_singleton]
    exact less
  · simp only [Pipe.put, queued.count, List.length_append, List.length_singleton, Nat.mod_add_mod]
    rw [Nat.add_assoc]

theorem get {b : UInt8} (queued : Queued p (b :: q)) : p.data (p.nread % PIPESIZE) = b ∧
    Queued { p with nread := (p.nread + 1) % UINT } q := by
  have room := queued.room
  rw [List.length_cons] at room
  refine ⟨?_, queued.holds.tail, Nat.le_of_succ_le room, Nat.mod_lt _ (by decide), ?_⟩
  · have head := queued.holds.head
    rwa [Nat.mod_eq_of_lt queued.low] at head
  · simp only [queued.count, List.length_cons, Nat.mod_add_mod]
    congr 1
    omega

end Queued

theorem writeLoop_spec (killed : Bool) (rest : List UInt8) {p : Pipe} {q : List UInt8} (queued : Queued p q) :
    ∃ pause bs p' left, p.writeLoop killed rest = (pause, bs, p') ∧ Queued p' (q ++ bs) ∧ rest = bs ++ left ∧
      (p'.readopen = p.readopen ∧ p'.writeopen = p.writeopen) ∧
      (pause = .done ∧ left = [] ∨ pause = .failed ∨ pause = .asleep left) := by
  induction rest generalizing p q with
  | nil => exact ⟨.done, [], p, [], rfl, by rwa [List.append_nil], rfl, ⟨rfl, rfl⟩, Or.inl ⟨rfl, rfl⟩⟩
  | cons b rest ih =>
    rw [Pipe.writeLoop]
    cases full : p.full with
    | true =>
      rw [if_pos rfl]
      split
      · exact ⟨.failed, [], p, b :: rest, rfl, by rwa [List.append_nil], rfl, ⟨rfl, rfl⟩, Or.inr (Or.inl rfl)⟩
      · exact ⟨_, [], p, b :: rest, rfl, by rwa [List.append_nil], rfl, ⟨rfl, rfl⟩, Or.inr (Or.inr rfl)⟩
    | false =>
      rw [if_neg Bool.false_ne_true]
      obtain ⟨pause, bs, p', left, run, queued', split', ends, how⟩ := ih (queued.put full b)
      rw [run]
      refine ⟨pause, b :: bs, p', left, rfl, ?_, by rw [split']; rfl, ends, how⟩
      rwa [List.append_assoc] at queued'

theorem readLoop_spec (n : Nat) {p : Pipe} {q : List UInt8} (queued : Queued p q) :
    ∃ bs p' left, p.readLoop n = (bs, p') ∧ Queued p' left ∧ q = bs ++ left ∧
      (p'.readopen = p.readopen ∧ p'.writeopen = p.writeopen) ∧ (0 < n → bs = [] → q = []) := by
  induction n generalizing p q with
  | zero => exact ⟨[], p, q, rfl, queued, rfl, ⟨rfl, rfl⟩, fun pos => (Nat.lt_irrefl 0 pos).elim⟩
  | succ n ih =>
    rw [Pipe.readLoop]
    cases q with
    | nil =>
      rw [if_pos (queued.empty_iff.mpr rfl)]
      exact ⟨[], p, [], rfl, queued, rfl, ⟨rfl, rfl⟩, fun _ _ => rfl⟩
    | cons b q =>
      rw [if_neg fun same => List.cons_ne_nil b q (queued.empty_iff.mp same)]
      obtain ⟨value, queued'⟩ := queued.get
      obtain ⟨bs, p', left, run, after, split', ends, -⟩ := ih queued'
      rw [run, value]
      exact ⟨b :: bs, p', left, rfl, after, by rw [split']; rfl, ends, fun _ none => (List.cons_ne_nil b bs none).elim⟩

def isOpen (p : Pipe) (writable : Bool) : Bool := if writable then p.writeopen else p.readopen

structure Inv (s : Users) : Prop where
  queue : ∃ q, Queued s.pipe q ∧ stored s.history = returned s.history ++ q
  writer : ∀ i id rest, s.call i = .write id rest →
    i ∈ s.holders true ∧ s.writes[id]? = some (storedBy id s.history ++ rest)
  reader : ∀ i n, s.call i = .read n → i ∈ s.holders false
  apart : ∀ i j id rest rest', s.call i = .write id rest → s.call j = .write id rest' → i = j
  order : ∀ id bs, s.writes[id]? = some bs → storedBy id s.history <+: bs
  fresh : ∀ id, s.writes.length ≤ id → storedBy id s.history = []
  ends : ∀ w, isOpen s.pipe w = true ↔ s.holders w ≠ 0
  closed : ∀ w, .closed w ∈ s.history ↔ isOpen s.pipe w = false
  freed : s.history.count .freed = if s.pipe.readopen = false ∧ s.pipe.writeopen = false then 1 else 0

def Plain : Event → Prop
  | .wrote _ | .writeFailed _ | .readFailed _ => True
  | _ => False

theorem plain_log {es : List Event} (plain : ∀ e ∈ es, Plain e) : stored es = [] ∧ (∀ id, storedBy id es = []) ∧
    returned es = [] ∧ (∀ w, .closed w ∉ es) ∧ es.count .freed = 0 := by
  refine ⟨?_, fun id => ?_, ?_, fun w member => plain _ member, List.count_eq_zero.mpr fun member => plain _ member⟩
  · refine List.filterMap_eq_nil_iff.mpr fun e member => ?_
    have := plain e member
    cases e <;> first | rfl | cases this
  · refine List.filterMap_eq_nil_iff.mpr fun e member => ?_
    have := plain e member
    cases e <;> first | rfl | cases this
  · refine List.flatMap_eq_nil_iff.mpr fun e member => ?_
    have := plain e member
    cases e <;> first | rfl | cases this

theorem stores_log (id : Nat) (bs : List UInt8) :
    (∀ w, Event.closed w ∉ bs.map (Event.stored id)) ∧ (bs.map (Event.stored id)).count .freed = 0 := by
  refine ⟨fun w member => ?_, List.count_eq_zero.mpr fun member => ?_⟩
  · obtain ⟨b, -, same⟩ := List.mem_map.mp member
    cases same
  · obtain ⟨b, -, same⟩ := List.mem_map.mp member
    cases same

namespace Inv
variable {s s' : Users}

/-- Process i, in a call of pipewrite, stores bs; left is what the call has still to store. -/
theorem wrote (inv : Inv s) {i id : Nat} {bs left : List UInt8} (tail : List Event) {c : Call}
    (holder : i ∈ s.holders true) (argument : s.writes[id]? = some (storedBy id s.history ++ (bs ++ left)))
    (only : ∀ j rest, s.call j = .write id rest → j = i) (queued : ∀ q, Queued s.pipe q → Queued s'.pipe (q ++ bs))
    (openSame : ∀ w, isOpen s'.pipe w = isOpen s.pipe w) (same : s'.holders = s.holders ∧ s'.writes = s.writes)
    (call : s'.call = Function.update s.call i c) (now : c = .idle ∨ c = .write id left)
    (log : s'.history = s.history ++ (bs.map (Event.stored id) ++ tail)) (plain : ∀ e ∈ tail, Plain e) : Inv s' := by
  obtain ⟨stored', storedBy', returned', closed', freed'⟩ := plain_log plain
  obtain ⟨closed'', freed''⟩ := stores_log id bs
  have mine : storedBy id s'.history = storedBy id s.history ++ bs := by
    simp [log, storedBy_map, storedBy']
  have others : ∀ id', id' ≠ id → storedBy id' s'.history = storedBy id' s.history := by
    intro id' ne
    simp [log, storedBy_map, storedBy', ne.symm]
  have readopen : s'.pipe.readopen = s.pipe.readopen := openSame false
  have writeopen : s'.pipe.writeopen = s.pipe.writeopen := openSame true
  refine ⟨?_, fun j id' rest at_ => ?_, fun j n at_ => ?_, fun j k id' rest rest' at1 at2 => ?_,
    fun id' arg given => ?_, fun id' new => ?_, fun w => ?_, fun w => ?_, ?_⟩
  · obtain ⟨q, was, log'⟩ := inv.queue
    refine ⟨q ++ bs, queued q was, ?_⟩
    simp [log, stored', returned', log']
  · rw [call, Function.update_apply] at at_
    rw [same.1, same.2]
    split at at_
    · rename_i here
      subst here
      rcases now with rfl | rfl
      · cases at_
      · cases at_
        refine ⟨holder, ?_⟩
        rw [mine, List.append_assoc]
        exact argument
    · obtain ⟨held, arg⟩ := inv.writer j id' rest at_
      have ne : id' ≠ id := by
        rintro rfl
        rename_i away
        exact away (only j rest at_)
      exact ⟨held, by rw [others id' ne]; exact arg⟩
  · rw [call, Function.update_apply] at at_
    rw [same.1]
    split at at_
    · rcases now with rfl | rfl <;> cases at_
    · exact inv.reader j n at_
  · have away : ∀ {j rest}, j ≠ i → s.call j = .write id rest → False := fun ne at_ => ne (only _ _ at_)
    rw [call, Function.update_apply] at at1 at2
    split at at1 <;> split at at2
    · rename_i first second
      rw [first, second]
    · rename_i first second
      rcases now with rfl | rfl <;> cases at1
      exact (away second at2).elim
    · rename_i first second
      rcases now with rfl | rfl <;> cases at2
      exact (away first at1).elim
    · exact inv.apart j k id' rest rest' at1 at2
  · rw [same.2] at given
    by_cases here : id' = id
    · subst here
      cases given.symm.trans argument
      rw [mine, ← List.append_assoc]
      exact List.prefix_append _ _
    · rw [others id' here]
      exact inv.order id' arg given
  · rw [same.2] at new
    have ne : id' ≠ id := by
      rintro rfl
      rw [List.getElem?_eq_none new] at argument
      cases argument
    rw [others id' ne]
    exact inv.fresh id' new
  · rw [openSame, same.1]
    exact inv.ends w
  · rw [openSame, ← inv.closed w, log]
    simp [closed', closed'']
  · rw [readopen, writeopen, log, List.count_append, List.count_append, freed'', freed', Nat.add_zero, ← inv.freed]

theorem pipewrite (inv : Inv s) {i id : Nat} {rest : List UInt8} (holder : i ∈ s.holders true)
    (argument : s.writes[id]? = some (storedBy id s.history ++ rest))
    (only : ∀ j rest, s.call j = .write id rest → j = i) : Inv (s.pipewrite i id rest) := by
  obtain ⟨q, queued, log⟩ := inv.queue
  obtain ⟨pause, bs, p', left, run, -, split', ends, how⟩ := writeLoop_spec (s.killed i) rest queued
  have queued' : ∀ q, Queued s.pipe q → Queued p' (q ++ bs) := by
    intro q queued
    obtain ⟨pause2, bs2, p2, left2, run2, queued2, -⟩ := writeLoop_spec (s.killed i) rest queued
    cases run.symm.trans run2
    exact queued2
  have openSame : ∀ w, isOpen p' w = isOpen s.pipe w := by
    intro w
    simp only [isOpen, ends.1, ends.2]
  subst split'
  unfold Users.pipewrite
  rw [run]
  rcases how with ⟨rfl, rfl⟩ | rfl | rfl
  · exact inv.wrote [.wrote id] holder argument only queued' openSame ⟨rfl, rfl⟩ rfl (Or.inl rfl) rfl (by
      simp [Plain])
  · exact inv.wrote [.writeFailed id] holder argument only queued' openSame ⟨rfl, rfl⟩ rfl (Or.inl rfl) rfl
      (by simp [Plain])
  · exact inv.wrote [] holder argument only queued' openSame ⟨rfl, rfl⟩ rfl (Or.inr rfl)
      (by simp [Users.record, Users.setCall, Users.wakeup, Users.sleep]) (by simp)

theorem reading (inv : Inv s) (es : List Event) {i : Nat} {c : Call} (holder : i ∈ s.holders false)
    (now : c = .idle ∨ ∃ n, c = .read n) (openSame : ∀ w, isOpen s'.pipe w = isOpen s.pipe w)
    (same : s'.holders = s.holders ∧ s'.writes = s.writes) (call : s'.call = Function.update s.call i c)
    (log : s'.history = s.history ++ es) (stored' : stored es = []) (storedBy' : ∀ id, storedBy id es = [])
    (closed' : ∀ w, .closed w ∉ es) (freed' : es.count .freed = 0)
    (queue : ∃ q, Queued s'.pipe q ∧ stored s.history = returned s.history ++ returned es ++ q) : Inv s' := by
  have mine : ∀ id, storedBy id s'.history = storedBy id s.history := by
    intro id
    simp [log, storedBy']
  have old : ∀ j id rest, s'.call j = .write id rest → s.call j = .write id rest := by
    intro j id rest at_
    rw [call, Function.update_apply] at at_
    split at at_
    · rcases now with rfl | ⟨n, rfl⟩ <;> cases at_
    · exact at_
  have readopen : s'.pipe.readopen = s.pipe.readopen := openSame false
  have writeopen : s'.pipe.writeopen = s.pipe.writeopen := openSame true
  refine ⟨?_, fun j id rest at_ => ?_, fun j n at_ => ?_, fun j k id rest rest' at1 at2 => ?_,
    fun id arg given => ?_, fun id new => ?_, fun w => ?_, fun w => ?_, ?_⟩
  · obtain ⟨q, queued, log'⟩ := queue
    refine ⟨q, queued, ?_⟩
    simp [log, stored', log']
  · rw [mine, same.1, same.2]
    exact inv.writer j id rest (old j id rest at_)
  · rw [call, Function.update_apply] at at_
    rw [same.1]
    split at at_
    · rename_i here
      exact here ▸ holder
    · exact inv.reader j n at_
  · exact inv.apart j k id rest rest' (old j id rest at1) (old k id rest' at2)
  · rw [mine]
    exact inv.order id arg (same.2 ▸ given)
  · rw [mine]
    exact inv.fresh id (same.2 ▸ new)
  · rw [openSame, same.1]
    exact inv.ends w
  · rw [openSame, ← inv.closed w, log]
    simp [closed']
  · rw [readopen, writeopen, log, List.count_append, freed', Nat.add_zero, ← inv.freed]

theorem piperead (inv : Inv s) {i n : Nat} (holder : i ∈ s.holders false) : Inv (s.piperead i n) := by
  obtain ⟨q, queued, log⟩ := inv.queue
  unfold Users.piperead
  split
  · split
    · refine inv.reading [.readFailed n] holder (Or.inl rfl) (fun _ => rfl) ⟨rfl, rfl⟩ rfl rfl rfl (fun _ => rfl) (by simp) (by simp)
        ⟨q, queued, ?_⟩
      simpa [returned] using log
    · refine inv.reading [] holder (Or.inr ⟨n, rfl⟩) (fun _ => rfl) ⟨rfl, rfl⟩ rfl
        (by simp [Users.setCall, Users.sleep]) rfl (fun _ => rfl) (by simp) (by simp) ⟨q, queued, ?_⟩
      simpa [returned] using log
  · obtain ⟨bs, p', left, run, queued', split', ends, -⟩ := readLoop_spec n queued
    simp only [run]
    have openSame : ∀ w, isOpen p' w = isOpen s.pipe w := by
      intro w
      simp only [isOpen, ends.1, ends.2]
    refine inv.reading [.read n bs] holder (Or.inl rfl) openSame ⟨rfl, rfl⟩ rfl rfl rfl (fun _ => rfl)
      (by simp) (by simp) ⟨left, queued', ?_⟩
    rw [log, split']
    simp [returned]

theorem holding (inv : Inv s) (same : s'.pipe = s.pipe ∧ s'.call = s.call ∧ s'.writes = s.writes ∧
      s'.history = s.history)
    (keeps : ∀ i w, s.call i ≠ .idle → i ∈ s.holders w → i ∈ s'.holders w)
    (ends : ∀ w, s'.holders w ≠ 0 ↔ s.holders w ≠ 0) : Inv s' := by
  obtain ⟨pipe, call, writes, history⟩ := same
  refine ⟨?_, fun i id rest at_ => ?_, fun i n at_ => ?_, ?_, ?_, ?_, fun w => ?_, ?_, ?_⟩
  · rw [pipe, history]
    exact inv.queue
  · rw [call] at at_
    obtain ⟨held, arg⟩ := inv.writer i id rest at_
    rw [writes, history]
    exact ⟨keeps i true (by rw [at_]; nofun) held, arg⟩
  · rw [call] at at_
    exact keeps i false (by rw [at_]; nofun) (inv.reader i n at_)
  · rw [call]
    exact inv.apart
  · rw [writes, history]
    exact inv.order
  · rw [writes, history]
    exact inv.fresh
  · rw [pipe, ends]
    exact inv.ends w
  · rw [pipe, history]
    exact inv.closed
  · rw [pipe, history]
    exact inv.freed

theorem closing {i : Nat} {w : Bool} (idle : s.call i = .idle) {j : Nat} {w' : Bool}
    (busy : s.call j ≠ .idle) (holder : j ∈ s.holders w') :
    j ∈ Function.update s.holders w ((s.holders w).erase i) w' := by
  have away : j ≠ i := fun same => busy (same ▸ idle)
  by_cases here : w' = w
  · subst here
    rw [Function.update_self]
    exact (Multiset.mem_erase_of_ne away).mpr holder
  · rw [Function.update_of_ne here]
    exact holder

theorem pipeclose (inv : Inv s) {i : Nat} {w : Bool} (idle : s.call i = .idle) (holder : i ∈ s.holders w)
    (last : (s.holders w).erase i = 0) :
    Inv ({ s with holders := Function.update s.holders w ((s.holders w).erase i) }.pipeclose w) := by
  have was : isOpen s.pipe w = true := (inv.ends w).mpr fun none => by simp [none] at holder
  have unfreed : s.history.count .freed = 0 := by
    rw [inv.freed, if_neg]
    rintro ⟨r, wr⟩
    cases w with
    | true => cases wr.symm.trans was
    | false => cases r.symm.trans was
  obtain ⟨es, log, opens, shape⟩ : ∃ es, ({ s with holders := Function.update s.holders w ((s.holders w).erase i) } :
      Users).pipeclose w = { s with
        pipe := { s.pipe with readopen := s.pipe.readopen && w, writeopen := s.pipe.writeopen && !w }
        asleep := (s.wakeup (if w then .nread else .nwrite)).asleep
        holders := Function.update s.holders w ((s.holders w).erase i)
        history := s.history ++ .closed w :: es } ∧
      (∀ w', isOpen { s.pipe with readopen := s.pipe.readopen && w, writeopen := s.pipe.writeopen && !w } w' =
        (isOpen s.pipe w' && w' != w)) ∧
      es = if (s.pipe.readopen && w) = false ∧ (s.pipe.writeopen && !w) = false then [.freed] else [] := by
    refine ⟨_, ?_, ?_, rfl⟩
    · cases w <;> simp [Users.pipeclose, Users.record, Users.wakeup]
    · intro w'
      cases w <;> cases w' <;> simp [isOpen]
  have quiet : stored (.closed w :: es) = [] ∧ (∀ id, storedBy id (.closed w :: es) = []) ∧
      returned (.closed w :: es) = [] ∧ (∀ w', .closed w' ∈ Event.closed w :: es ↔ w' = w) := by
    rw [shape]
    split <;> simp [stored, storedBy, returned, eq_comm]
  obtain ⟨stored', storedBy', returned', closed'⟩ := quiet
  rw [log]
  refine ⟨?_, fun j id rest at_ => ?_, fun j n at_ => ?_, inv.apart, fun id arg given => ?_, fun id new => ?_,
    fun w' => ?_, fun w' => ?_, ?_⟩
  · obtain ⟨q, queued, log'⟩ := inv.queue
    refine ⟨q, ⟨queued.holds, queued.room, queued.low, queued.count⟩, ?_⟩
    simp [stored', returned', log']
  · obtain ⟨held, arg⟩ := inv.writer j id rest at_
    refine ⟨closing idle (by rw [at_]; nofun) held, ?_⟩
    simpa [storedBy'] using arg
  · exact closing idle (by rw [at_]; nofun) (inv.reader j n at_)
  · simpa [storedBy'] using inv.order id arg given
  · simpa [storedBy'] using inv.fresh id new
  · rw [opens]
    by_cases here : w' = w
    · subst here
      simp [last]
    · simp only [Function.update_of_ne here, bne_iff_ne, ne_eq, here, not_false_eq_true, Bool.and_eq_true, and_true]
      exact inv.ends w'
  · rw [opens, List.mem_append, closed', inv.closed w']
    by_cases here : w' = w
    · simp [here]
    · simp [here]
  · rw [List.count_append, unfreed, shape]
    simp only
    split <;> simp

theorem fileclose (inv : Inv s) {i : Nat} {w : Bool} (idle : s.call i = .idle) (holder : i ∈ s.holders w) :
    Inv (s.fileclose i w) := by
  unfold Users.fileclose
  simp only [Function.update_self]
  split
  · rename_i last
    exact inv.pipeclose idle holder last
  · rename_i more
    refine inv.holding ⟨rfl, rfl, rfl, rfl⟩ (fun j w' busy held => closing idle busy held) fun w' => ?_
    by_cases here : w' = w
    · subst here
      simp only [Function.update_self]
      exact ⟨fun _ none => by simp [none] at holder, fun _ => more⟩
    · simp only [Function.update_of_ne here]

theorem act (inv : Inv s) (a : Act) : Inv (s.act a) := by
  cases a with
  | write i bs =>
    simp only [Users.act]
    split
    · rename_i able
      -- the new call's number has not been used before
      have inv' : Inv { s with writes := s.writes ++ [bs] } := by
        refine ⟨inv.queue, fun j id rest at_ => ?_, inv.reader, inv.apart, fun id arg given => ?_, fun id new => ?_,
          inv.ends, inv.closed, inv.freed⟩
        · obtain ⟨held, arg⟩ := inv.writer j id rest at_
          obtain ⟨less, -⟩ := List.getElem?_eq_some_iff.mp arg
          exact ⟨held, by rw [List.getElem?_append_left less]; exact arg⟩
        · by_cases less : id < s.writes.length
          · rw [List.getElem?_append_left less] at given
            exact inv.order id arg given
          · rw [inv.fresh id (Nat.not_lt.mp less)]
            exact List.nil_prefix
        · rw [List.length_append] at new
          exact inv.fresh id (by omega)
      refine inv'.pipewrite able.2 ?_ fun j rest at_ => ?_
      · rw [inv.fresh _ (Nat.le_refl _), List.getElem?_concat_length]
        rfl
      · obtain ⟨-, arg⟩ := inv.writer j _ rest at_
        rw [List.getElem?_eq_none (Nat.le_refl _)] at arg
        cases arg
    · exact inv
  | read i n =>
    simp only [Users.act]
    split
    · rename_i able
      exact inv.piperead able.2
    · exact inv
  | resume i =>
    simp only [Users.act]
    split
    · cases at_ : s.call i with
      | idle => exact inv
      | write id rest =>
        obtain ⟨held, arg⟩ := inv.writer i id rest at_
        exact inv.pipewrite held arg fun j rest' at' => inv.apart j i id rest' rest at' at_
      | read n => exact inv.piperead (inv.reader i n at_)
    · exact inv
  | dup i w =>
    simp only [Users.act]
    split
    · rename_i able
      refine inv.holding ⟨rfl, rfl, rfl, rfl⟩ (fun j w' _ held => ?_) fun w' => ?_
      · by_cases here : w' = w
        · subst here
          simp only [Function.update_self]
          exact Multiset.mem_cons_of_mem held
        · simp only [Function.update_of_ne here]
          exact held
      · by_cases here : w' = w
        · subst here
          simp only [Function.update_self]
          exact ⟨fun _ none => by simp [none] at able, fun _ => Multiset.cons_ne_zero⟩
        · simp only [Function.update_of_ne here]
    · exact inv
  | fork i j =>
    simp only [Users.act]
    split
    · refine inv.holding ⟨rfl, rfl, rfl, rfl⟩ (fun k w _ held => Multiset.mem_add.mpr (Or.inl held)) fun w => ?_
      constructor
      · intro more none
        simp [none] at more
      · intro some none
        obtain ⟨k, held⟩ := Multiset.exists_mem_of_ne_zero some
        have member : k ∈ s.holders w + Multiset.replicate ((s.holders w).count i) j :=
          Multiset.mem_add.mpr (Or.inl held)
        rw [show s.holders w + Multiset.replicate ((s.holders w).count i) j = 0 from none] at member
        exact Multiset.notMem_zero k member
    · exact inv
  | close i w =>
    simp only [Users.act]
    split
    · rename_i able
      exact inv.fileclose able.1 able.2
    · exact inv
  | kill i => exact inv.holding ⟨rfl, rfl, rfl, rfl⟩ (fun _ _ _ held => held) fun _ => Iff.rfl

end Inv

theorem Start.inv {s : Users} (start : Start s) : Inv s := by
  obtain ⟨⟨nread, nwrite⟩, ⟨readopen, writeopen⟩, idle, ⟨i, holder⟩, writes, history⟩ := start
  refine ⟨⟨[], ⟨Ring.Holds.nil, Nat.zero_le _, ?_, ?_⟩, ?_⟩, fun j id rest at_ => ?_, fun j n at_ => ?_,
    fun j k id rest rest' at_ => ?_, fun id bs given => ?_, fun id new => ?_, fun w => ?_, fun w => ?_, ?_⟩
  · rw [nread]
    decide
  · rw [nread, nwrite]
    rfl
  · rw [history]
    rfl
  · rw [idle] at at_
    cases at_
  · rw [idle] at at_
    cases at_
  · rw [idle] at at_
    cases at_
  · rw [writes] at given
    cases given
  · rw [history]
    rfl
  · rw [holder]
    cases w <;> simp [isOpen, readopen, writeopen]
  · rw [history]
    cases w <;> simp [isOpen, readopen, writeopen]
  · rw [history, readopen]
    rfl

theorem Reachable.inv {s : Users} (reach : Reachable s) : Inv s := by
  refine Runs.Reachable.invariant (fun _ start => start.inv) ?_ reach
  intro s a s' inv _ done
  cases done
  exact inv.act a

theorem pipewrite_log (s : Users) (i id : Nat) (rest : List UInt8) :
    ∃ es, (s.pipewrite i id rest).history = s.history ++ es ∧ ∀ n bs, .read n bs ∉ es := by
  have silent : ∀ (bs : List UInt8) (tail : List Event), (∀ e ∈ tail, Plain e) → ∀ n bs',
      .read n bs' ∉ bs.map (Event.stored id) ++ tail := by
    intro bs tail plain n bs' member
    rcases List.mem_append.mp member with stores | other
    · obtain ⟨b, -, wrong⟩ := List.mem_map.mp stores
      cases wrong
    · exact plain _ other
  unfold Users.pipewrite
  split
  · exact ⟨_, rfl, silent _ _ (by simp [Plain])⟩
  · exact ⟨_, rfl, silent _ _ (by simp [Plain])⟩
  · rename_i bs p _
    refine ⟨bs.map (Event.stored id) ++ [], ?_, silent _ _ (by simp)⟩
    simp [Users.record, Users.setCall, Users.wakeup, Users.sleep]

theorem fileclose_log (s : Users) (i : Nat) (w : Bool) :
    ∃ es, (s.fileclose i w).history = s.history ++ es ∧ ∀ n bs, .read n bs ∉ es := by
  unfold Users.fileclose
  simp only
  split
  · have log : ∃ es, (({ s with holders := Function.update s.holders w ((s.holders w).erase i) } :
        Users).pipeclose w).history = s.history ++ .closed w :: es ∧ (es = [.freed] ∨ es = []) := by
      cases w <;> refine ⟨_, rfl, ?_⟩ <;> split <;> simp
    obtain ⟨es, log, freed | nothing⟩ := log
    · exact ⟨_, log, by simp [freed]⟩
    · exact ⟨_, log, by simp [nothing]⟩
  · exact ⟨[], (List.append_nil _).symm, fun _ _ => List.not_mem_nil⟩

/-- A read that asks for bytes and gets none found the pipe empty and without writers. -/
theorem Inv.read_nothing {s : Users} (inv : Inv s) {a : Act} {n : Nat} (pos : 0 < n)
    (nothing : (s.act a).history = s.history ++ [.read n []]) :
    s.pipe.writeopen = false ∧ returned s.history = stored s.history := by
  obtain ⟨q, queued, log⟩ := inv.queue
  have unchanged : s.history ≠ s.history ++ [.read n []] := by simp
  have other : ∀ {h : List Event}, (∃ es, h = s.history ++ es ∧ ∀ n bs, .read n bs ∉ es) →
      h ≠ s.history ++ [.read n []] := by
    rintro h ⟨es, rfl, silent⟩ same
    refine silent n [] ?_
    rw [List.append_cancel_left same]
    exact List.mem_singleton.mpr rfl
  have reads : ∀ i m, (s.piperead i m).history = s.history ++ [.read n []] →
      s.pipe.writeopen = false ∧ returned s.history = stored s.history := by
    intro i m same
    unfold Users.piperead at same
    split at same
    · split at same
      · cases List.append_cancel_left same
      · exact (unchanged same).elim
    · rename_i go
      obtain ⟨bs, p', left, run, -, -, -, none⟩ := readLoop_spec m queued
      simp only [run] at same
      cases List.append_cancel_left same
      obtain rfl := none pos rfl
      refine ⟨?_, by rw [log, List.append_nil]⟩
      by_contra still
      exact go ⟨queued.empty_iff.mpr rfl, by simpa using still⟩
  cases a with
  | write i bs =>
    simp only [Users.act] at nothing
    split at nothing
    · exact (other (pipewrite_log { s with writes := s.writes ++ [bs] } _ _ _) nothing).elim
    · exact (unchanged nothing).elim
  | read i m =>
    simp only [Users.act] at nothing
    split at nothing
    · exact reads i m nothing
    · exact (unchanged nothing).elim
  | resume i =>
    simp only [Users.act] at nothing
    split at nothing
    · split at nothing
      · exact (unchanged nothing).elim
      · exact (other (pipewrite_log _ _ _ _) nothing).elim
      · exact reads _ _ nothing
    · exact (unchanged nothing).elim
  | dup i w =>
    simp only [Users.act] at nothing
    split at nothing <;> exact (unchanged nothing).elim
  | fork i j =>
    simp only [Users.act] at nothing
    split at nothing <;> exact (unchanged nothing).elim
  | close i w =>
    simp only [Users.act] at nothing
    split at nothing
    · exact (other (fileclose_log _ _ _) nothing).elim
    · exact (unchanged nothing).elim
  | kill i => exact (unchanged nothing).elim

end Users

open Users in
/-- A pipe is an exact FIFO: the buffer never holds more than PIPESIZE bytes, the reads return
    what the writes stored, in that order, and each write's bytes are stored in order; a read
    returns 0 only at the end; the page is freed once, when both ends are closed, and nobody
    is in a call then. -/
theorem exact_fifo (s : Users) (reach : s.Reachable) :
    (s.pipe.nwrite + UINT - s.pipe.nread) % UINT ≤ PIPESIZE ∧
    returned s.history <+: stored s.history ∧
    (∀ id bs, s.writes[id]? = some bs → storedBy id s.history <+: bs) ∧
    (∀ a n, 0 < n → (s.act a).history = s.history ++ [.read n []] →
      s.pipe.writeopen = false ∧ returned s.history = stored s.history) ∧
    s.history.count .freed ≤ 1 ∧
    (.freed ∈ s.history ↔ .closed true ∈ s.history ∧ .closed false ∈ s.history) ∧
    (.freed ∈ s.history → ∀ i, s.call i = .idle) := by
  have inv := reach.inv
  obtain ⟨q, queued, log⟩ := inv.queue
  have room := queued.room
  have freed : .freed ∈ s.history ↔ s.pipe.readopen = false ∧ s.pipe.writeopen = false := by
    rw [← List.count_pos_iff, inv.freed]
    split <;> simp_all
  refine ⟨?_, ?_, inv.order, fun a n pos nothing => inv.read_nothing pos nothing, ?_, ?_, fun gone i => ?_⟩
  · rw [queued.count, Ring.distance queued.low (by simp only [PIPESIZE, UINT] at *; omega)]
    exact room
  · rw [log]
    exact List.prefix_append _ _
  · rw [inv.freed]
    split <;> decide
  · rw [freed, inv.closed true, inv.closed false]
    exact And.comm
  · have ends := freed.mp gone
    have nobody : ∀ w, s.holders w = 0 := by
      intro w
      by_contra some
      have still := (inv.ends w).mpr some
      cases w with
      | true => cases ends.2.symm.trans still
      | false => cases ends.1.symm.trans still
    cases at_ : s.call i with
    | idle => rfl
    | write id rest =>
      have held := (inv.writer i id rest at_).1
      rw [nobody] at held
      exact (Multiset.notMem_zero i held).elim
    | read n =>
      have held := inv.reader i n at_
      rw [nobody] at held
      exact (Multiset.notMem_zero i held).elim

/-- One process writes three bytes, reads two, closes the write end and reads the rest. -/
theorem exact_fifo_small : ∃ s : Users, s.Reachable ∧ Users.stored s.history = [1, 2, 3] ∧
    Users.returned s.history = [1, 2, 3] ∧ Event.freed ∉ s.history := by
  let start : Users := ⟨⟨fun _ => 0, 0, 0, true, true⟩, fun _ => .idle, fun _ => none, fun _ => false,
    fun _ => {0}, [], []⟩
  have first : start.Reachable := Runs.Reachable.start ⟨⟨rfl, rfl⟩, ⟨rfl, rfl⟩, fun _ => rfl, ⟨0, fun _ => rfl⟩, rfl, rfl⟩
  have next : ∀ {s : Users}, s.Reachable → ∀ a, (s.act a).Reachable := fun reach a => reach.next a trivial rfl
  have reach := next (next (next (next first (.write 0 [1, 2, 3])) (.read 0 2)) (.close 0 true)) (.read 0 7)
  refine ⟨_, reach, by decide, by decide, fun gone => ?_⟩
  have both := (exact_fifo _ reach).2.2.2.2.2.1.mp gone
  exact absurd both.2 (by decide)

end Pipe
end Xv6
