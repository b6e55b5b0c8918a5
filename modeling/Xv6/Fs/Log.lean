import Xv6.Lib.RedoLog
import Xv6.Lib.Runs
import Mathlib.Data.Finset.Card

/-!
The file system log, log.c, with any number of operations in progress. One step is a
critical section of log.lock, the unlocked test at the start of log_write, or one block
write of commit or of recovery. A crash may come between any two steps; it keeps the disk
and loses the rest. Blocks of the log itself are kept apart from the home blocks.
-/
namespace Xv6

def MAXOPBLOCKS : Nat := 10

/-- Also the number of log blocks that mkfs reserves, the header included. -/
def LOGSIZE : Nat := MAXOPBLOCKS * 3

namespace Fs

inductive LogPanic where
  | tooBig
  | outside
  | committing
  deriving DecidableEq, Repr

structure Oper (D : Type) where
  id : Nat
  /-- the blocks it has logged -/
  logged : Finset Nat
  /-- the block and contents of a log_write that has passed its test -/
  writing : Option (Nat × D)

/-- A log_write: the operation, the block and its new contents. -/
structure Update (D : Type) where
  op : Nat
  block : Nat
  data : D

inductive Phase where
  | boot
  | recover (tail : Nat)
  | running
  | writeLog (tail : Nat)
  | install (tail : Nat)
  | release
  deriving DecidableEq, Repr

def Phase.up : Phase → Bool
  | .boot | .recover _ => false
  | _ => true

/-- commit is running, or its caller has still to say that it is done. -/
def Phase.commits : Phase → Bool
  | .writeLog _ | .install _ | .release => true
  | _ => false

structure Log (D : Type) where
  disk : RedoLog.Disk Nat D
  /-- the contents bread returns: those of the buffer cache, or else of the disk -/
  view : Nat → D
  size : Nat
  lh : List Nat
  outstanding : Nat
  committing : Bool
  phase : Phase
  oper : Nat → Option (Oper D)
  /-- the number of operations so far -/
  opers : Nat
  /-- log_writes of earlier groups, also of those lost in a crash -/
  past : List (Update D)
  /-- log_writes of the current group, and its operations -/
  group : List (Update D)
  members : List Nat
  /-- operations of groups whose header has been written -/
  saved : List Nat

namespace Log
variable {D : Type}

inductive Act (D : Type) where
  | begin (i : Nat)
  /-- log_write: the test, then the critical section -/
  | check (i b : Nat) (d : D)
  | append (i : Nat)
  | finish (i : Nat)
  /-- the next block write of commit or recovery, or the step that ends it -/
  | tick
  | crash

def setOper (s : Log D) (i : Nat) (o : Option (Oper D)) : Log D :=
  { s with oper := Function.update s.oper i o }

def begin_op (s : Log D) (i : Nat) : Log D :=
  if s.phase.up ∧ (s.oper i).isNone then
    if s.committing then s
    else if s.lh.length + (s.outstanding + 1) * MAXOPBLOCKS > LOGSIZE then s
    else { s with
      outstanding := s.outstanding + 1
      opers := s.opers + 1
      members := s.members ++ [s.opers] }.setOper i (some { id := s.opers, logged := ∅, writing := none })
  else s

def logCheck (s : Log D) (i b : Nat) (d : D) : Except LogPanic (Log D) :=
  match s.oper i with
  | some ⟨id, logged, none⟩ =>
    if s.lh.length ≥ LOGSIZE ∨ s.lh.length ≥ s.size - 1 then .error .tooBig
    else if s.outstanding < 1 then .error .outside
    else .ok (s.setOper i (some ⟨id, logged, some (b, d)⟩))
  | _ => .ok s

/-- The critical section of log_write; a block that is there is absorbed. -/
def logAppend (s : Log D) (i : Nat) : Log D :=
  match s.oper i with
  | some ⟨id, logged, some (b, d)⟩ =>
    { s with
      lh := if b ∈ s.lh then s.lh else s.lh ++ [b]
      view := Function.update s.view b d
      group := s.group ++ [Update.mk id b d] }.setOper i (some ⟨id, insert b logged, none⟩)
  | _ => s

def end_op (s : Log D) (i : Nat) : Except LogPanic (Log D) :=
  match s.oper i with
  | some ⟨_, _, none⟩ =>
    if s.committing then .error .committing
    else
      let s := { s with outstanding := s.outstanding - 1 }.setOper i none
      if s.outstanding = 0 then
        .ok { s with committing := true, phase := if s.lh = [] then .release else .writeLog 0 }
      else .ok s
  | _ => .ok s

/-- The block writes of commit, and those of recover_from_log. -/
def tick (s : Log D) : Log D :=
  match s.phase with
  | .boot => { s with lh := s.disk.head, phase := .recover 0 }
  | .recover tail =>
    match s.lh[tail]? with
    | some b =>
      { s with
        disk := { s.disk with home := Function.update s.disk.home b (s.disk.slot tail) }
        phase := .recover (tail + 1) }
    | none => { s with disk := { s.disk with head := [] }, lh := [], view := s.disk.home, phase := .running }
  | .running => s
  | .writeLog tail =>
    match s.lh[tail]? with
    | some b =>
      { s with
        disk := { s.disk with slot := Function.update s.disk.slot tail (s.view b) }
        phase := .writeLog (tail + 1) }
    | none =>
      { s with
        disk := { s.disk with head := s.lh }
        phase := .install 0
        past := s.past ++ s.group
        group := []
        saved := s.saved ++ s.members
        members := [] }
  | .install tail =>
    match s.lh[tail]? with
    | some b =>
      { s with
        disk := { s.disk with home := Function.update s.disk.home b (s.disk.slot tail) }
        phase := .install (tail + 1) }
    | none => { s with disk := { s.disk with head := [] }, lh := [], phase := .release }
  | .release => { s with committing := false, phase := .running, members := [] }

/-- Memory is lost, and the operations of the current group with it. -/
def crash (s : Log D) : Log D :=
  { s with
    view := s.disk.home
    lh := []
    outstanding := 0
    committing := false
    phase := .boot
    oper := fun _ => none
    past := s.past ++ s.group
    group := []
    members := [] }

def step (s : Log D) : Act D → Except LogPanic (Log D)
  | .begin i => .ok (s.begin_op i)
  | .check i b d => s.logCheck i b d
  | .append i => .ok (s.logAppend i)
  | .finish i => s.end_op i
  | .tick => .ok s.tick
  | .crash => .ok s.crash

/-- A disk as mkfs leaves it, before the first boot. -/
structure Start (size : Nat) (origin : Nat → D) (s : Log D) : Prop where
  disk : s.disk.home = origin ∧ s.disk.head = []
  size : s.size = size
  memory : s.lh = [] ∧ s.outstanding = 0 ∧ s.committing = false ∧ s.phase = .boot ∧ s.oper = fun _ => none
  new : s.opers = 0 ∧ s.past = [] ∧ s.group = [] ∧ s.members = [] ∧ s.saved = []

inductive Moved (s : Log D) : Act D → Log D → Prop where
  | stay (a : Act D) : Moved s a s
  | began (i : Nat) (free : s.oper i = none) (up : s.phase.up = true) (idle : s.committing = false)
      (room : s.lh.length + (s.outstanding + 1) * MAXOPBLOCKS ≤ LOGSIZE) : Moved s (.begin i)
        ({ s with
          outstanding := s.outstanding + 1
          opers := s.opers + 1
          members := s.members ++ [s.opers] }.setOper i (some { id := s.opers, logged := ∅, writing := none }))
  | checked (i b : Nat) (d : D) (id : Nat) (logged : Finset Nat) (at_ : s.oper i = some ⟨id, logged, none⟩) :
      Moved s (.check i b d) (s.setOper i (some ⟨id, logged, some (b, d)⟩))
  | appended (i b : Nat) (d : D) (id : Nat) (logged : Finset Nat)
      (at_ : s.oper i = some ⟨id, logged, some (b, d)⟩) : Moved s (.append i)
        ({ s with
          lh := if b ∈ s.lh then s.lh else s.lh ++ [b]
          view := Function.update s.view b d
          group := s.group ++ [Update.mk id b d] }.setOper i (some ⟨id, insert b logged, none⟩))
  | left (i id : Nat) (logged : Finset Nat) (at_ : s.oper i = some ⟨id, logged, none⟩)
      (others : s.outstanding - 1 ≠ 0) :
      Moved s (.finish i) ({ s with outstanding := s.outstanding - 1 }.setOper i none)
  | last (i id : Nat) (logged : Finset Nat) (at_ : s.oper i = some ⟨id, logged, none⟩)
      (alone : s.outstanding - 1 = 0) : Moved s (.finish i)
        { { s with outstanding := s.outstanding - 1 }.setOper i none with
          committing := true
          phase := if s.lh = [] then .release else .writeLog 0 }
  | booted (phase : s.phase = .boot) : Moved s .tick { s with lh := s.disk.head, phase := .recover 0 }
  | recovering (tail b : Nat) (phase : s.phase = .recover tail) (entry : s.lh[tail]? = some b) : Moved s .tick
      { s with
        disk := { s.disk with home := Function.update s.disk.home b (s.disk.slot tail) }
        phase := .recover (tail + 1) }
  | recovered (tail : Nat) (phase : s.phase = .recover tail) (entry : s.lh[tail]? = none) : Moved s .tick
      { s with disk := { s.disk with head := [] }, lh := [], view := s.disk.home, phase := .running }
  | wrote (tail b : Nat) (phase : s.phase = .writeLog tail) (entry : s.lh[tail]? = some b) : Moved s .tick
      { s with
        disk := { s.disk with slot := Function.update s.disk.slot tail (s.view b) }
        phase := .writeLog (tail + 1) }
  | committed (tail : Nat) (phase : s.phase = .writeLog tail) (entry : s.lh[tail]? = none) : Moved s .tick
      { s with
        disk := { s.disk with head := s.lh }
        phase := .install 0
        past := s.past ++ s.group
        group := []
        saved := s.saved ++ s.members
        members := [] }
  | installed (tail b : Nat) (phase : s.phase = .install tail) (entry : s.lh[tail]? = some b) : Moved s .tick
      { s with
        disk := { s.disk with home := Function.update s.disk.home b (s.disk.slot tail) }
        phase := .install (tail + 1) }
  | erased (tail : Nat) (phase : s.phase = .install tail) (entry : s.lh[tail]? = none) : Moved s .tick
      { s with disk := { s.disk with head := [] }, lh := [], phase := .release }
  | released (phase : s.phase = .release) : Moved s .tick
      { s with committing := false, phase := .running, members := [] }
  | crashed : Moved s .crash s.crash

theorem tick_moved (s : Log D) : Moved s .tick s.tick := by
  unfold tick
  cases phase : s.phase with
  | boot => exact .booted phase
  | recover tail =>
    cases entry : s.lh[tail]? with
    | some b => simpa only [entry] using .recovering tail b phase entry
    | none => simpa only [entry] using .recovered tail phase entry
  | running => exact .stay _
  | writeLog tail =>
    cases entry : s.lh[tail]? with
    | some b => simpa only [entry] using .wrote tail b phase entry
    | none => simpa only [entry] using .committed tail phase entry
  | install tail =>
    cases entry : s.lh[tail]? with
    | some b => simpa only [entry] using .installed tail b phase entry
    | none => simpa only [entry] using .erased tail phase entry
  | release => exact .released phase

theorem step_moved {s s' : Log D} {a : Act D} (done : s.step a = .ok s') : Moved s a s' := by
  cases a with
  | begin i =>
    cases done
    unfold begin_op
    split
    · rename_i able
      split
      · exact .stay _
      split
      · exact .stay _
      rename_i idle room
      exact .began i (Option.isNone_iff_eq_none.mp able.2) able.1 (Bool.eq_false_iff.mpr idle) (Nat.le_of_not_gt room)
    · exact .stay _
  | check i b d =>
    simp only [step, logCheck] at done
    split at done
    · rename_i id logged at_
      split at done
      · cases done
      split at done
      · cases done
      cases done
      exact .checked i b d id logged at_
    · cases done
      exact .stay _
  | append i =>
    cases done
    unfold logAppend
    split
    · rename_i id logged b d at_
      exact .appended i b d id logged at_
    · exact .stay _
  | finish i =>
    simp only [step, end_op] at done
    split at done
    · rename_i id logged at_
      split at done
      · cases done
      split at done
      · rename_i alone
        cases done
        exact .last i id logged at_ alone
      · rename_i others
        cases done
        exact .left i id logged at_ others
    · cases done
      exact .stay _
  | tick =>
    cases done
    exact tick_moved s
  | crash =>
    cases done
    exact .crashed

structure Active (s : Log D) : Prop where
  counted : ∃ A : Finset Nat, (∀ i, i ∈ A ↔ s.oper i ≠ none) ∧ s.outstanding = A.card
  busy : ∀ i o, s.oper i = some o → s.phase = .running
  committing : s.committing = s.phase.commits

namespace Active
variable {s s' : Log D} {a : Act D}

theorem start {size : Nat} {origin : Nat → D} (first : Start size origin s) : s.Active := by
  obtain ⟨-, outstanding, committing, phase, oper⟩ := first.memory
  refine ⟨⟨∅, fun i => ?_, outstanding⟩, fun i o at_ => ?_, ?_⟩
  · simp [oper]
  · rw [oper] at at_
    cases at_
  · rw [committing, phase]
    rfl

theorem counted_update (active : s.Active) {i : Nat} {o : Oper D} (at_ : s.oper i = some o) (o' : Oper D) :
    ∃ A : Finset Nat, (∀ j, j ∈ A ↔ Function.update s.oper i (some o') j ≠ none) ∧ s.outstanding = A.card := by
  obtain ⟨A, members, card⟩ := active.counted
  refine ⟨A, fun j => ?_, card⟩
  rw [members, Function.update_apply]
  split
  · rename_i here
    simp [here, at_]
  · rfl

theorem counted_remove (active : s.Active) {i : Nat} {o : Oper D} (at_ : s.oper i = some o) :
    ∃ A : Finset Nat, (∀ j, j ∈ A ↔ Function.update s.oper i none j ≠ none) ∧ s.outstanding - 1 = A.card := by
  obtain ⟨A, members, card⟩ := active.counted
  have here : i ∈ A := (members i).mpr (by simp [at_])
  refine ⟨A.erase i, fun j => ?_, ?_⟩
  · rw [Finset.mem_erase, members, Function.update_apply]
    split
    · rename_i same
      simp [same]
    · rename_i ne
      simp [ne]
  · rw [Finset.card_erase_of_mem here, card]

theorem none_left (active : s.Active) {i : Nat} {o : Oper D} (at_ : s.oper i = some o)
    (alone : s.outstanding - 1 = 0) : Function.update s.oper i none = fun _ => none := by
  obtain ⟨A, members, card⟩ := active.counted_remove at_
  have empty : A = ∅ := Finset.card_eq_zero.mp (card.symm.trans alone)
  funext j
  by_contra some_
  have := (members j).mpr some_
  rw [empty] at this
  exact Finset.notMem_empty j this

theorem running (active : s.Active) (up : s.phase.up = true) (idle : s.committing = false) : s.phase = .running := by
  have committing := active.committing
  rw [idle] at committing
  cases phase : s.phase with
  | running => rfl
  | boot | recover => simp [phase, Phase.up] at up
  | writeLog | install | release => simp [phase, Phase.commits] at committing

theorem idle (active : s.Active) (away : s.phase ≠ .running) (i : Nat) : s.oper i = none := by
  cases at_ : s.oper i with
  | none => rfl
  | some o => exact (away (active.busy i o at_)).elim

theorem background (active : s.Active) (away : s.phase ≠ .running) (same : s'.oper = s.oper)
    (outstanding : s'.outstanding = s.outstanding) (committing : s'.committing = s'.phase.commits) : s'.Active := by
  refine ⟨?_, fun i o at_ => ?_, committing⟩
  · rw [same, outstanding]
    exact active.counted
  · rw [same, active.idle away i] at at_
    cases at_

theorem next (active : s.Active) (moved : Moved s a s') : s'.Active := by
  have committing := active.committing
  cases moved with
  | stay => exact active
  | began i free up idle room =>
    refine ⟨?_, fun _ _ _ => active.running up idle, committing⟩
    obtain ⟨A, members, card⟩ := active.counted
    have new : i ∉ A := fun member => (members i).mp member free
    refine ⟨insert i A, fun j => ?_, ?_⟩
    · rw [Finset.mem_insert, members]
      change _ ↔ Function.update s.oper i _ j ≠ none
      rw [Function.update_apply]
      split
      · rename_i same
        simp [same]
      · rename_i ne
        simp [ne]
    · rw [Finset.card_insert_of_notMem new]
      exact congrArg (· + 1) card
  | checked i b d id logged at_ =>
    exact ⟨active.counted_update at_ _, fun _ _ _ => active.busy i _ at_, committing⟩
  | appended i b d id logged at_ =>
    exact ⟨active.counted_update at_ _, fun _ _ _ => active.busy i _ at_, committing⟩
  | left i id logged at_ others =>
    exact ⟨active.counted_remove at_, fun _ _ _ => active.busy i _ at_, committing⟩
  | last i id logged at_ alone =>
    have gone := active.none_left at_ alone
    refine ⟨active.counted_remove at_, fun j o at' => ?_, ?_⟩
    · cases (congrFun gone j).symm.trans at'
    · change true = Phase.commits (if s.lh = [] then Phase.release else Phase.writeLog 0)
      split <;> rfl
  | booted phase => exact active.background (by simp [phase]) rfl rfl (committing.trans (by rw [phase]; rfl))
  | recovering tail b phase => exact active.background (by simp [phase]) rfl rfl (committing.trans (by rw [phase]; rfl))
  | recovered tail phase => exact active.background (by simp [phase]) rfl rfl (committing.trans (by rw [phase]; rfl))
  | wrote tail b phase => exact active.background (by simp [phase]) rfl rfl (committing.trans (by rw [phase]; rfl))
  | committed tail phase => exact active.background (by simp [phase]) rfl rfl (committing.trans (by rw [phase]; rfl))
  | installed tail b phase => exact active.background (by simp [phase]) rfl rfl (committing.trans (by rw [phase]; rfl))
  | erased tail phase => exact active.background (by simp [phase]) rfl rfl (committing.trans (by rw [phase]; rfl))
  | released phase => exact active.background (by simp [phase]) rfl rfl rfl
  | crashed =>
    refine ⟨⟨∅, fun i => ?_, rfl⟩, nofun, rfl⟩
    simp [crash]

end Active
end Log
end Fs
end Xv6
