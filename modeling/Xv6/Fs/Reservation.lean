import Xv6.Fs.Log
import Mathlib.Algebra.BigOperators.Group.Finset.Basic
import Mathlib.Algebra.Order.BigOperators.Group.Finset

/-!
Log space. begin_op admits an operation when LOGSIZE blocks would do, but the log that
mkfs makes has LOGSIZE blocks with the header among them, and log_write wants a free one
even for a block that it absorbs. The space kept for an operation is MAXOPBLOCKS less
what it has logged.
-/
namespace Xv6
namespace Fs
namespace Log
variable {D : Type}

/-- Each operation logs at most MAXOPBLOCKS distinct blocks. -/
def Modest (s : Log D) : Act D → Prop
  | .check i b _ => ∀ o, s.oper i = some o → (insert b o.logged).card ≤ MAXOPBLOCKS
  | _ => True

/-- begin_op does not let in an operation that leaves less than two of the log's blocks. -/
def Roomy (s : Log D) : Act D → Prop
  | .begin _ => s.lh.length + (s.outstanding + 1) * MAXOPBLOCKS ≤ LOGSIZE →
      s.lh.length + (s.outstanding + 1) * MAXOPBLOCKS ≤ s.size - 2
  | _ => True

def left (s : Log D) (i : Nat) : Nat := MAXOPBLOCKS - ((s.oper i).elim ∅ Oper.logged).card

/-- The operations in A are those in progress, and there is space for them. -/
structure Fits (s : Log D) (A : Finset Nat) : Prop where
  members : ∀ i, i ∈ A ↔ s.oper i ≠ none
  card : s.outstanding = A.card
  space : s.lh.length + ∑ i ∈ A, s.left i ≤ LOGSIZE - 2

/-- What an operation has logged is in the log, and it logs no more than its share. -/
structure Keeping (lh : List Nat) (o : Oper D) : Prop where
  logged : ∀ b ∈ o.logged, b ∈ lh
  writing : ∀ b d, o.writing = some (b, d) → (insert b o.logged).card ≤ MAXOPBLOCKS

structure Reserved (s : Log D) : Prop where
  active : s.Active
  size : s.size = LOGSIZE
  fits : ∃ A, s.Fits A
  head : s.disk.head.length ≤ LOGSIZE - 2
  keeping : ∀ i o, s.oper i = some o → Keeping s.lh o

section
variable {s s' : Log D} {a : Act D} {A : Finset Nat}

theorem left_le (s : Log D) (i : Nat) : s.left i ≤ MAXOPBLOCKS := Nat.sub_le ..

theorem left_at {i : Nat} {o : Oper D} (at_ : s.oper i = some o) : s.left i = MAXOPBLOCKS - o.logged.card := by
  rw [left, at_]
  rfl

theorem left_other {i j : Nat} {o : Option (Oper D)} (oper : s'.oper = Function.update s.oper i o) (ne : j ≠ i) :
    s'.left j = s.left j := by
  rw [left, left, oper, Function.update_of_ne ne]

theorem left_change {i : Nat} {o : Option (Oper D)} (here : i ∈ A) (oper : s'.oper = Function.update s.oper i o) :
    ∑ j ∈ A, s'.left j + s.left i = ∑ j ∈ A, s.left j + s'.left i := by
  have rest : ∑ j ∈ A.erase i, s'.left j = ∑ j ∈ A.erase i, s.left j :=
    Finset.sum_congr rfl fun j member => left_other oper (Finset.ne_of_mem_erase member)
  rw [← Finset.add_sum_erase A s'.left here, ← Finset.add_sum_erase A s.left here, rest]
  omega

namespace Fits

theorem space_le (fits : s.Fits A) : s.lh.length ≤ LOGSIZE - 2 := Nat.le_trans (Nat.le_add_right ..) fits.space

theorem begin_op (fits : s.Fits A) {i : Nat} {o : Oper D} (free : s.oper i = none)
    (room : s.lh.length + (s.outstanding + 1) * MAXOPBLOCKS ≤ LOGSIZE - 2)
    (oper : s'.oper = Function.update s.oper i (some o)) (count : s'.outstanding = s.outstanding + 1)
    (lh : s'.lh = s.lh) : s'.Fits (insert i A) := by
  have new : i ∉ A := fun member => (fits.members i).mp member free
  refine ⟨fun j => ?_, ?_, ?_⟩
  · rw [Finset.mem_insert, fits.members, oper, Function.update_apply]
    split
    · rename_i same
      simp [same]
    · rename_i ne
      simp [ne]
  · rw [count, Finset.card_insert_of_notMem new, fits.card]
  · have bound : ∑ j ∈ insert i A, s'.left j ≤ (insert i A).card * MAXOPBLOCKS :=
      Finset.sum_le_card_nsmul _ _ _ fun j _ => s'.left_le j
    rw [Finset.card_insert_of_notMem new, ← fits.card] at bound
    rw [lh]
    omega

theorem update (fits : s.Fits A) {i : Nat} {o o' : Oper D} (at_ : s.oper i = some o)
    (oper : s'.oper = Function.update s.oper i (some o')) (count : s'.outstanding = s.outstanding)
    (paid : s'.lh.length + s'.left i ≤ s.lh.length + s.left i) : s'.Fits A := by
  have here : i ∈ A := (fits.members i).mpr (by simp [at_])
  refine ⟨fun j => ?_, count.trans fits.card, ?_⟩
  · rw [fits.members, oper, Function.update_apply]
    split
    · rename_i same
      simp [same, at_]
    · rfl
  · have change := left_change here oper
    have space := fits.space
    omega

theorem end_op (fits : s.Fits A) {i : Nat} {o : Oper D} (at_ : s.oper i = some o)
    (oper : s'.oper = Function.update s.oper i none) (count : s'.outstanding = s.outstanding - 1)
    (lh : s'.lh = s.lh) : s'.Fits (A.erase i) := by
  have here : i ∈ A := (fits.members i).mpr (by simp [at_])
  refine ⟨fun j => ?_, ?_, ?_⟩
  · rw [Finset.mem_erase, fits.members, oper, Function.update_apply]
    split
    · rename_i same
      simp [same]
    · rename_i ne
      simp [ne]
  · rw [count, Finset.card_erase_of_mem here, fits.card]
  · have rest : ∑ j ∈ A.erase i, s'.left j = ∑ j ∈ A.erase i, s.left j :=
      Finset.sum_congr rfl fun j member => left_other oper (Finset.ne_of_mem_erase member)
    have whole := Finset.add_sum_erase A s.left here
    have space := fits.space
    rw [lh, rest]
    omega

theorem none (oper : ∀ i, s.oper i = none) (count : s.outstanding = 0) (lh : s.lh.length ≤ LOGSIZE - 2) : s.Fits ∅ := by
  refine ⟨fun i => ?_, count, ?_⟩
  · simp [oper]
  · simpa using lh

end Fits

theorem Reserved.background (inv : s.Reserved) (active : s'.Active) (away : s.phase ≠ .running)
    (same : s'.oper = s.oper ∧ s'.outstanding = s.outstanding ∧ s'.size = s.size)
    (lh : s'.lh.length ≤ LOGSIZE - 2) (head : s'.disk.head.length ≤ LOGSIZE - 2) : s'.Reserved := by
  obtain ⟨oper, count, size⟩ := same
  have idle : ∀ i, s'.oper i = none := by
    intro i
    rw [oper]
    exact inv.active.idle away i
  refine ⟨active, size.trans inv.size, ⟨∅, Fits.none idle ?_ lh⟩, head, fun i o at_ => ?_⟩
  · obtain ⟨A, fits⟩ := inv.fits
    rw [count, fits.card, Finset.card_eq_zero]
    refine Finset.eq_empty_of_forall_notMem fun i member => (fits.members i).mp member ?_
    exact inv.active.idle away i
  · cases (idle i).symm.trans at_

theorem Reserved.keeping_update (inv : s.Reserved) {i : Nat} {new : Option (Oper D)} {lh : List Nat}
    (more : ∀ b ∈ s.lh, b ∈ lh) (own : ∀ o, new = some o → Keeping lh o) :
    ∀ j o, Function.update s.oper i new j = some o → Keeping lh o := by
  intro j o at_
  rw [Function.update_apply] at at_
  split at at_
  · exact own o at_
  · have keeping := inv.keeping j o at_
    exact ⟨fun b member => more b (keeping.logged b member), keeping.writing⟩

theorem paid {lh : List Nat} {logged : Finset Nat} {b : Nat} (there : ∀ b ∈ logged, b ∈ lh)
    (small : (insert b logged).card ≤ MAXOPBLOCKS) :
    (if b ∈ lh then lh else lh ++ [b]).length + (MAXOPBLOCKS - (insert b logged).card) ≤
      lh.length + (MAXOPBLOCKS - logged.card) := by
  have grows : logged.card ≤ (insert b logged).card := Finset.card_le_card (Finset.subset_insert b logged)
  split
  · omega
  · rename_i new
    have card := Finset.card_insert_of_notMem fun member => new (there b member)
    rw [List.length_append, List.length_singleton]
    omega

theorem Reserved.next (inv : s.Reserved) (modest : s.Modest a) (roomy : s.Roomy a) (moved : Moved s a s') :
    s'.Reserved := by
  have active := inv.active.next moved
  obtain ⟨A, fits⟩ := inv.fits
  have small := fits.space_le
  have head := inv.head
  cases moved with
  | stay => exact inv
  | began i free up idle room =>
    have room' := roomy room
    rw [inv.size] at room'
    refine ⟨active, inv.size, ⟨_, fits.begin_op free room' rfl rfl rfl⟩, head, ?_⟩
    exact inv.keeping_update (fun _ member => member) fun o new => by
      cases new
      exact ⟨nofun, nofun⟩
  | checked i b d id logged at_ =>
    refine ⟨active, inv.size, ⟨A, fits.update at_ rfl rfl ?_⟩, head, ?_⟩
    · rw [left_at at_, left_at (Function.update_self ..)]
      rfl
    · exact inv.keeping_update (fun _ member => member) fun o new => by
        cases new
        refine ⟨(inv.keeping i _ at_).logged, fun b' d' now => ?_⟩
        cases now
        exact modest ⟨id, logged, none⟩ at_
  | appended i b d id logged at_ =>
    have keeping := inv.keeping i _ at_
    have more : ∀ b' ∈ s.lh, b' ∈ if b ∈ s.lh then s.lh else s.lh ++ [b] := by
      intro b' member
      split
      · exact member
      · exact List.mem_append_left _ member
    refine ⟨active, inv.size, ⟨A, fits.update at_ rfl rfl ?_⟩, head, ?_⟩
    · rw [left_at at_, left_at (Function.update_self ..)]
      exact paid keeping.logged (keeping.writing b d rfl)
    · exact inv.keeping_update more fun o new => by
        cases new
        refine ⟨fun b' member => ?_, nofun⟩
        rcases Finset.mem_insert.mp member with rfl | old
        · split
          · assumption
          · exact List.mem_append_right _ List.mem_cons_self
        · exact more b' (keeping.logged b' old)
  | left i id logged at_ others =>
    exact ⟨active, inv.size, ⟨_, fits.end_op at_ rfl rfl rfl⟩, head, inv.keeping_update (fun _ member => member) nofun⟩
  | last i id logged at_ alone =>
    exact ⟨active, inv.size, ⟨_, fits.end_op at_ rfl rfl rfl⟩, head, inv.keeping_update (fun _ member => member) nofun⟩
  | booted phase => exact inv.background active (by simp [phase]) ⟨rfl, rfl, rfl⟩ head head
  | recovering tail b phase => exact inv.background active (by simp [phase]) ⟨rfl, rfl, rfl⟩ small head
  | recovered tail phase => exact inv.background active (by simp [phase]) ⟨rfl, rfl, rfl⟩ (Nat.zero_le _) (Nat.zero_le _)
  | wrote tail b phase => exact inv.background active (by simp [phase]) ⟨rfl, rfl, rfl⟩ small head
  | committed tail phase => exact inv.background active (by simp [phase]) ⟨rfl, rfl, rfl⟩ small small
  | installed tail b phase => exact inv.background active (by simp [phase]) ⟨rfl, rfl, rfl⟩ small head
  | erased tail phase => exact inv.background active (by simp [phase]) ⟨rfl, rfl, rfl⟩ (Nat.zero_le _) (Nat.zero_le _)
  | released phase => exact inv.background active (by simp [phase]) ⟨rfl, rfl, rfl⟩ small head
  | crashed => exact ⟨active, inv.size, ⟨∅, Fits.none (fun _ => rfl) rfl (Nat.zero_le _)⟩, head, nofun⟩

theorem Reserved.start {origin : Nat → D} (first : Start LOGSIZE origin s) : s.Reserved := by
  obtain ⟨lh, count, -, -, oper⟩ := first.memory
  refine ⟨Active.start first, first.size, ⟨∅, Fits.none (fun i => by rw [oper]) count ?_⟩, ?_, fun i o at_ => ?_⟩
  · rw [lh]
    exact Nat.zero_le _
  · rw [first.disk.2]
    exact Nat.zero_le _
  · rw [oper] at at_
    cases at_

end

def Modestly (origin : Nat → D) (cond : Log D → Act D → Prop) (s : Log D) : Prop :=
  Runs.Reachable (Start LOGSIZE origin) step (fun s a => Modest s a ∧ cond s a) s

/-- If begin_op leaves two blocks free, then log_write finds room, the header names no more
    blocks than the log has, and no log_write runs during a commit. -/
theorem log_space {origin : Nat → D} {s : Log D} (reach : Modestly origin Roomy s) :
    (∀ i b d, s.logCheck i b d ≠ .error .tooBig) ∧ s.lh.length ≤ s.size - 1 ∧
      ∀ i o, s.oper i = some o → s.committing = false := by
  have inv : s.Reserved := Runs.Reachable.invariant (fun _ first => Reserved.start first)
    (fun _ _ _ inv admitted done => inv.next admitted.1 admitted.2 (step_moved done)) reach
  obtain ⟨A, fits⟩ := inv.fits
  have small := fits.space_le
  have size := inv.size
  refine ⟨fun i b d panics => ?_, ?_, fun i o at_ => ?_⟩
  · unfold logCheck at panics
    split at panics
    · split at panics
      · rename_i full
        simp only [LOGSIZE, MAXOPBLOCKS] at *
        omega
      split at panics <;> cases panics
    · cases panics
  · rw [size]
    exact Nat.le_trans small (by decide)
  · rw [inv.active.committing, inv.active.busy i o at_]
    rfl
instance (s : Log D) : (a : Act D) → Decidable (Modest s a)
  | .check i b _ => inferInstanceAs (Decidable (∀ o, s.oper i = some o → (insert b o.logged).card ≤ MAXOPBLOCKS))
  | .begin _ | .append _ | .finish _ | .tick | .crash => inferInstanceAs (Decidable True)

instance (s : Log D) : (a : Act D) → Decidable (Roomy s a)
  | .begin _ => inferInstanceAs (Decidable (s.lh.length + (s.outstanding + 1) * MAXOPBLOCKS ≤ LOGSIZE →
      s.lh.length + (s.outstanding + 1) * MAXOPBLOCKS ≤ s.size - 2))
  | .check .. | .append _ | .finish _ | .tick | .crash => inferInstanceAs (Decidable True)

def fresh : Log Unit :=
  { disk := ⟨fun _ => (), fun _ => (), []⟩, view := fun _ => (), size := LOGSIZE, lh := [], outstanding := 0,
    committing := false, phase := .boot, oper := fun _ => none, opers := 0, past := [], group := [], members := [],
    saved := [] }

theorem fresh_start : Start LOGSIZE (fun _ => ()) fresh :=
  ⟨⟨rfl, rfl⟩, rfl, ⟨rfl, rfl, rfl, rfl, rfl⟩, rfl, rfl, rfl, rfl, rfl⟩

def logWrite (i b : Nat) : List (Act Unit) := [.check i b (), .append i]

/-- Three operations are let in at once, and 29 of their 30 blocks fill the log. -/
theorem third_operation_panics : ∃ s, Modestly (fun _ => ()) (fun _ _ => True) s ∧ Modest s (.check 2 29 ()) ∧
    s.logCheck 2 29 () = .error .tooBig := by
  let acts := [Act.tick, .tick, .begin 0, .begin 1, .begin 2] ++ (List.range 29).flatMap fun b => logWrite (b / 10) b
  have ends : (Runs.walk step (fun s a => decide (Modest s a)) fresh acts).map
      (fun s => (decide (Modest s (.check 2 29 ())), (s.logCheck 2 29 ()).map fun _ => ())) =
        some (true, .error .tooBig) := by
    decide +kernel
  obtain ⟨s, done, seen⟩ := Option.map_eq_some_iff.mp ends
  obtain ⟨modest, panics⟩ := Prod.mk.inj seen
  refine ⟨s, ?_, of_decide_eq_true modest, ?_⟩
  · refine (Runs.Reachable.start fresh_start).walk (fun s a passed => ?_) done
    exact ⟨of_decide_eq_true passed, trivial⟩
  · cases check : s.logCheck 2 29 () with
    | ok s' => simp [check, Except.map] at panics
    | error e => simpa [check, Except.map] using panics

/-- Two operations at once are within the condition. -/
theorem log_space_pair : ∃ s, Modestly (fun _ => ()) Roomy s ∧ s.outstanding = 2 ∧ s.lh = [4, 5] ∧
    s.lh.length ≤ s.size - 1 := by
  let acts := [Act.tick, .tick, .begin 0, .begin 1] ++ logWrite 0 4 ++ logWrite 1 5
  have ends : (Runs.walk step (fun s a => decide (Modest s a ∧ Roomy s a)) fresh acts).map
      (fun s => (s.outstanding, s.lh)) = some (2, [4, 5]) := by
    decide +kernel
  obtain ⟨s, done, seen⟩ := Option.map_eq_some_iff.mp ends
  obtain ⟨count, lh⟩ := Prod.mk.inj seen
  have reach : Modestly (fun _ => ()) Roomy s :=
    (Runs.Reachable.start fresh_start).walk (fun _ _ passed => of_decide_eq_true passed) done
  exact ⟨s, reach, count, lh, (log_space reach).2.1⟩

end Log
end Fs
end Xv6
