import Xv6.Process.Calls
import Xv6.Process.QueueSafety

/-!
Exited processes are reported once and never missed: no process sleeps in wait or join
while there is something to report, and the notes at a slot are a sequence of complete
lives, each of which ends in one report to the parent.
-/
namespace Xv6

/-- The process does not sleep on its own address, the channel of wait and join. -/
def Sched.Awake (s : Sched) (q : Nat) : Prop :=
  ¬ ((s.proc q).state = .sleeping ∧ (s.proc q).chan = some (.proc q))

namespace Sched.Awake
variable {s s' : Sched} {q cur : Nat}

theorem chan_ageless : Ageless Proc.chan := ⟨⟨⟨fun _ _ _ => rfl⟩, fun _ _ => rfl⟩, fun _ _ _ => rfl⟩

theorem wakeupIn (awake : s.Awake q) (chan : Option Chan) (i : Nat) : (Sched.wakeupIn chan s i).Awake q := by
  unfold Sched.wakeupIn
  split
  · rintro ⟨asleep, on⟩
    rw [Sched.rouse_state] at asleep
    split at asleep
    · cases asleep
    · exact awake ⟨asleep, (chan_ageless.rouse s i q).symm.trans on⟩
  · exact awake

theorem foldl (awake : s.Awake q) (chan : Option Chan) (is : List Nat) :
    (is.foldl (Sched.wakeupIn chan) s).Awake q := by
  induction is generalizing s with
  | nil => exact awake
  | cons i is ih => exact ih (awake.wakeupIn chan i)

theorem wakeup1 (hq : q < NPROC) : (s.wakeup1 (some (.proc q))).Awake q := by
  have loop : ∀ (is : List Nat) (s : Sched), q ∈ is → (is.foldl (Sched.wakeupIn (some (.proc q))) s).Awake q := by
    intro is
    induction is with
    | nil =>
      intro s member
      cases member
    | cons i is ih =>
      intro s member
      by_cases here : q = i
      · subst here
        refine foldl ?_ _ is
        unfold Sched.wakeupIn
        split
        · rintro ⟨asleep, -⟩
          rw [Sched.rouse_state, if_pos rfl] at asleep
          cases asleep
        · assumption
      · exact ih _ ((List.mem_cons.mp member).resolve_left here)
  exact loop _ s (List.mem_range.mpr hq)

theorem reparentIn (awake : s.Awake q) (i : Nat) : (Sched.reparentIn cur s i).Awake q := by
  unfold Sched.reparentIn
  split
  · have moved : (s.modify i fun p => { p with parent := s.initproc }).Awake q := by
      have state : Same Proc.state s (s.modify i fun p => { p with parent := s.initproc }) := Same.modify s rfl
      have chan : Same Proc.chan s (s.modify i fun p => { p with parent := s.initproc }) := Same.modify s rfl
      rintro ⟨asleep, on⟩
      exact awake ⟨(state q).symm.trans asleep, (chan q).symm.trans on⟩
    simp only
    split
    · exact foldl moved _ _
    · exact moved
  · exact awake

theorem passes (awake : s.Awake q) (is : List Nat) : (is.foldl (Sched.reparentIn cur) s).Awake q := by
  induction is generalizing s with
  | nil => exact awake
  | cons i is ih => exact ih (awake.reparentIn i)

theorem reparent (is : List Nat) (hq : q < NPROC) (queues : RunqInv s []) (first : s.initproc = some q)
    {j : Nat} (member : j ∈ is) (zombie : (s.proc j).state = .zombie)
    (child : (s.proc j).parent = some cur) : (is.foldl (Sched.reparentIn cur) s).Awake q := by
  induction is generalizing s with
  | nil => cases member
  | cons i is ih =>
    by_cases here : j = i
    · subst here
      have woken : (Sched.reparentIn cur s j).Awake q := by
        unfold Sched.reparentIn
        rw [if_pos child]
        simp only
        rw [if_pos (by simpa using zombie), Sched.modify_initproc, first]
        exact wakeup1 hq
      exact woken.passes is
    · have passed : Passed cur [i] s (Sched.reparentIn cur s i) := Sched.reparentIn_passed queues i
      refine ih passed.queues (passed.initproc.trans first) ((List.mem_cons.mp member).resolve_left here) ?_ ?_
      · exact ((passed.state j).fixed Procstate.zombie_dead).mpr zombie
      · rw [passed.parent j, if_neg, child]
        simp [here]

theorem exit (inv : SchedInv s) (hq : q < NPROC) {c : Nat} (ne : q ≠ cur)
    (why : (s.proc cur).parent = some q ∨ s.initproc = some q ∧
      ∃ j < NPROC, (s.proc j).state = .zombie ∧ (s.proc j).parent = some cur) : (s.exit c cur).Awake q := by
  have after : ((List.range NPROC).foldl (Sched.reparentIn cur) (s.wakeup1 ((s.proc cur).parent.map .proc))).Awake q := by
    rcases why with parent | ⟨first, j, hj, zombie, child⟩
    · rw [parent]
      exact passes (wakeup1 hq) _
    · obtain ⟨queues, calm⟩ := inv.queues.wakeup1 ((s.proc cur).parent.map .proc)
      have keeps := Keeps.of_calm calm
      generalize s.wakeup1 ((s.proc cur).parent.map .proc) = s1 at *
      exact reparent _ hq queues (calm.initproc.trans first) (List.mem_range.mpr hj)
        (((keeps.state j).fixed Procstate.zombie_dead).mpr zombie) ((keeps.parent j).trans child)
  unfold Sched.Awake at after ⊢
  simp only [Sched.exit]
  generalize (List.range NPROC).foldl (Sched.reparentIn cur) (s.wakeup1 ((s.proc cur).parent.map .proc)) = s2 at *
  simpa [ne] using after

end Sched.Awake

theorem Sched.zombieChild_none {s : Sched} {cur : Nat} {threads : Bool} (h : s.zombieChild cur threads = none) {j : Nat}
    (hj : j < NPROC) (child : (s.proc j).parent = some cur) (kind : threads = true → (s.proc j).isthread = true) :
    (s.proc j).state ≠ .zombie := by
  intro zombie
  rw [Sched.zombieChild, List.find?_eq_none] at h
  refine h j ?_ (by simp [zombie])
  rw [Sched.children, List.mem_filter]
  refine ⟨List.mem_range.mpr hj, ?_⟩
  cases threads with
  | false => simp [child]
  | true => simp [child, kind rfl]

theorem Turn.zombie {s : Sys} {a : Act} {j : Nat} {p : Proc} (inv : PcInv s) (turn : Turn s a j p)
    (zombie : p.state = .zombie) :
    (s.sched.proc j).state = .zombie ∧ p.parent = (s.sched.proc j).parent ∧ p.isthread = (s.sched.proc j).isthread ∨
    ∃ c cur, a = .exit c ∧ s.sched.cpu c = some cur ∧
      (j = cur ∧ p.parent = (s.sched.proc j).parent ∨
        (s.sched.proc j).state = .zombie ∧ (s.sched.proc j).parent = some cur ∧ p.parent = s.sched.initproc) := by
  have rests : ∀ {st : Procstate}, st.Rests .zombie → st = .zombie := by
    rintro st (same | ⟨-, no⟩)
    · exact same.symm
    · cases no
  have embryo : ∀ {cur : Nat}, (s.pc cur).making = some j → (s.sched.proc j).state ≠ .zombie := by
    intro cur at'
    rw [(inv.making cur j at').2]
    decide
  cases turn with
  | rests state still =>
    rw [zombie] at state
    simp only [Proc.still, Proc.badge, Prod.mk.injEq] at still
    exact Or.inl ⟨rests state, still.2.2.2.2, still.1.2.2.1⟩
  | orphaned c cur call on state child _ _ _ _ parent =>
    rw [zombie] at state
    exact Or.inr ⟨c, cur, call, on, Or.inr ⟨rests state, child, parent⟩⟩
  | marked _ _ state _ still =>
    rw [zombie] at state
    simp only [Proc.still, Proc.badge, Prod.mk.injEq] at still
    exact Or.inl ⟨rests state, still.2.2.2.2, still.1.2.2.1⟩
  | exits c call _ on _ still =>
    simp only [Proc.still, Prod.mk.injEq] at still
    exact Or.inr ⟨c, j, call, on, Or.inl ⟨rfl, still.2.2.2.2⟩⟩
  | reaped _ _ _ _ _ _ _ shape => simp [shape, Sched.reap] at zombie
  | released _ _ _ _ _ _ _ shape => simp [shape] at zombie
  | filled cur _ _ at' _ shape =>
    rw [shape] at zombie
    exact (embryo at' zombie).elim
  | linked cur at' state => exact (embryo at' (state.symm.trans zombie)).elim
  | moves _ state => simp [state] at zombie
  | runs _ state => simp [state] at zombie
  | yields _ state => simp [state] at zombie
  | sleeps _ _ _ _ _ state => simp [state] at zombie
  | alloced _ state => simp [state] at zombie
  | born _ state => simp [state] at zombie

inductive Life where
  | free
  | made (pid : Int) (stack : Option Nat)
  | live (pid : Int) (stack : Option Nat)
  | dead (pid : Int) (stack : Option Nat)
  deriving DecidableEq, Repr

/-- A zombie is returned to its parent with its own pid and, by join, with its stack. -/
def Life.next : Life → Note → Option Life
  | .free, .alloc pid stack => some (.made pid stack)
  | .made _ _, .failed => some .free
  | .made pid stack, .born => some (.live pid stack)
  | .live pid stack, .exited => some (.dead pid stack)
  | .dead pid stack, .reported caller parent pid' stack' =>
    if parent = some caller ∧ pid' = pid ∧ (stack' = none ∨ stack' = stack) then some .free else none
  | _, _ => none

/-- Read the notes of a slot; none if they are not a sequence of lives. -/
def Life.read (notes : List Note) : Option Life := notes.foldlM Life.next .free

def Life.Agrees (p : Proc) : Life → Prop
  | .free => p.state = .unused
  | .made pid _ => p.state = .embryo ∧ p.pid = pid
  | .live pid _ => p.state.Alive ∧ p.pid = pid
  | .dead pid _ => p.state = .zombie ∧ p.pid = pid

/-- The stack that clone was called with, for a slot that clone has linked. -/
def Life.Stacked (p : Proc) : Life → Prop
  | .free => True
  | .made _ stack | .live _ stack | .dead _ stack => p.isthread = true → stack = some p.ustack

/-- The slot and the stack that clone was called with, until the slot is linked. -/
def Pc.ordered : Pc → Option (Nat × Nat)
  | .cloneAlloced np stack | .cloneStacked np stack | .cloneShared np stack => some (np, stack)
  | _ => none

theorem Pc.making_of_ordered {pc : Pc} {np stack : Nat} (h : pc.ordered = some (np, stack)) : pc.making = some np := by
  cases pc <;> simp_all [Pc.ordered, Pc.making]

namespace Life
variable {life : Life} {p p' : Proc}

theorem read_append (xs ys : List Note) : read (xs ++ ys) = (read xs).bind fun life => ys.foldlM next life := by
  unfold read
  rw [List.foldlM_append]
  rfl

theorem Agrees.shifts (agrees : life.Agrees p) (state : p.state.Shifts p'.state) (pid : p'.pid = p.pid) :
    life.Agrees p' := by
  cases life with
  | free => exact (state.fixed Procstate.unused_dead).mpr agrees
  | made => exact ⟨(state.fixed Procstate.embryo_dead).mpr agrees.1, pid.trans agrees.2⟩
  | live => exact ⟨state.alive agrees.1, pid.trans agrees.2⟩
  | dead => exact ⟨(state.fixed Procstate.zombie_dead).mpr agrees.1, pid.trans agrees.2⟩

theorem Stacked.same (stacked : life.Stacked p) (badge : p'.badge = p.badge) : life.Stacked p' := by
  simp only [Proc.badge, Prod.mk.injEq] at badge
  cases life with
  | free => trivial
  | _ =>
    intro thread
    rw [badge.2.2.2]
    exact stacked (badge.2.2.1.symm.trans thread)

theorem Agrees.unused (agrees : life.Agrees p) (state : p.state = .unused) : life = .free := by
  cases life with
  | free => rfl
  | live => exact (Procstate.unused_dead (state ▸ agrees.1)).elim
  | _ =>
    rw [agrees.1] at state
    cases state

theorem Agrees.embryo (agrees : life.Agrees p) (state : p.state = .embryo) : ∃ stack, life = .made p.pid stack := by
  cases life with
  | free =>
    rw [agrees] at state
    cases state
  | made pid stack => exact ⟨stack, by rw [agrees.2]⟩
  | live => exact (Procstate.embryo_dead (state ▸ agrees.1)).elim
  | dead =>
    rw [agrees.1] at state
    cases state

theorem Agrees.running (agrees : life.Agrees p) (state : p.state = .running) : ∃ stack, life = .live p.pid stack := by
  cases life with
  | free =>
    rw [agrees] at state
    cases state
  | live pid stack => exact ⟨stack, by rw [agrees.2]⟩
  | _ =>
    rw [agrees.1] at state
    cases state

theorem Agrees.zombie (agrees : life.Agrees p) (state : p.state = .zombie) : ∃ stack, life = .dead p.pid stack := by
  cases life with
  | free =>
    rw [agrees] at state
    cases state
  | dead pid stack => exact ⟨stack, by rw [agrees.2]⟩
  | live => exact (Procstate.zombie_dead (state ▸ agrees.1)).elim
  | made =>
    rw [agrees.1] at state
    cases state

end Life

theorem Note.change_shifts {p p' : Proc} (state : p.state.Shifts p'.state) (stack : Option Nat) :
    Note.change p p' stack = [] := by
  unfold Note.change
  rcases state with same | ⟨before, after⟩
  · rw [same]
    cases p.state <;> rfl
  · rcases before with h | h | h <;> rcases after with h' | h' | h' <;> rw [h, h']

theorem Procstate.Rests.shifts {st st' : Procstate} (rests : st.Rests st') : st.Shifts st' :=
  rests.imp id fun both => ⟨Or.inl both.1, Or.inr (Or.inl both.2)⟩

theorem Sys.report_reaps {s s' : Sys} {a : Act} (h : s.step a = .ok s') {j : Nat} {note : Note}
    (returns : s.report a = some (j, note)) :
    s'.sched = s.sched.reap j ∧ ∃ cur threads, s.sched.zombieChild cur threads = some j ∧
      note = .reported cur (s.sched.proc j).parent (s.sched.proc j).pid
        (if threads then some (s.sched.proc j).ustack else none) := by
  unfold report at returns
  split at returns
  · cases returns
  · rename_i c threads call
    split at returns
    · cases returns
    · rename_i cur on
      split at returns
      · cases returns
      · rename_i p found
        cases returns
        refine ⟨?_, cur, threads, found, rfl⟩
        have effect := step_effect h
        generalize s'.sched = sched at effect ⊢
        generalize s'.pc = pc at effect
        have plain : a.plain = true → sched = s.sched.reap j := by
          intro plain
          cases a with
          | waitScan => cases plain
          | joinScan => cases plain
          | _ => cases call
        cases effect with
        | scan _ c' cur' threads' call' _ on' none =>
          obtain ⟨rfl, rfl⟩ := Prod.mk.inj (Option.some.inj (call.symm.trans call'))
          obtain rfl := Option.some.inj (on.symm.trans on')
          rw [none] at found
          cases found
        | pause _ c' cur' threads' call' _ on' none =>
          obtain ⟨rfl, rfl⟩ := Prod.mk.inj (Option.some.inj (call.symm.trans call'))
          obtain rfl := Option.some.inj (on.symm.trans on')
          rw [none] at found
          cases found
        | reap _ c' cur' p' threads' call' _ on' found' =>
          obtain ⟨rfl, rfl⟩ := Prod.mk.inj (Option.some.inj (call.symm.trans call'))
          obtain rfl := Option.some.inj (on.symm.trans on')
          obtain rfl := Option.some.inj (found.symm.trans found')
          rfl
        | nothing _ _ ordinary => exact plain ordinary
        | own _ _ _ _ _ _ ordinary => exact plain ordinary
        | alloc _ _ _ _ _ ordinary => exact plain ordinary
        | release _ _ _ _ ordinary => exact plain ordinary
        | fill _ _ _ _ _ _ ordinary => exact plain ordinary
        | link _ _ _ _ _ _ _ ordinary => exact plain ordinary
        | launch _ _ _ ordinary => exact plain ordinary
        | _ => cases call

structure ReportInv (k : Kern) : Prop where
  family : FamilyInv k.sys
  chan : ∀ q, k.call q = some .wait ∨ k.call q = some .join →
    q < NPROC ∧ (k.sys.sched.proc q).state = .sleeping ∧ (k.sys.sched.proc q).chan = some (.proc q)
  wait : ∀ q, k.call q = some .wait → ∀ j < NPROC, (k.sys.sched.proc j).parent = some q →
    (k.sys.sched.proc j).state ≠ .zombie
  join : ∀ q, k.call q = some .join → ∀ j < NPROC, (k.sys.sched.proc j).parent = some q →
    (k.sys.sched.proc j).isthread = true → (k.sys.sched.proc j).state ≠ .zombie
  life : ∀ j, ∃ life, Life.read (k.notes j) = some life ∧ life.Agrees (k.sys.sched.proc j) ∧
    life.Stacked (k.sys.sched.proc j)
  clone : ∀ p np stack, (k.sys.pc p).ordered = some (np, stack) →
    ∃ pid, Life.read (k.notes np) = some (.made pid (some stack))

namespace ReportInv
variable {k k' : Kern} {a : Act} {s : Sys}

theorem step_blocked (inv : ReportInv k) (done : k.sys.step a = .ok s) {q : Nat} {call : Call} {threads : Bool}
    (kind : call = .wait ∧ threads = false ∨ call = .join ∧ threads = true)
    (old : k.call q = some call → ∀ j < NPROC, (k.sys.sched.proc j).parent = some q →
      (threads = true → (k.sys.sched.proc j).isthread = true) → (k.sys.sched.proc j).state ≠ .zombie)
    (calls : (k.record a s).call q = some call) :
    (q < NPROC ∧ (s.sched.proc q).state = .sleeping ∧ (s.sched.proc q).chan = some (.proc q)) ∧
      ∀ j < NPROC, (s.sched.proc j).parent = some q → (threads = true → (s.sched.proc j).isthread = true) →
        (s.sched.proc j).state ≠ .zombie := by
  have pcs := inv.family.pcs
  obtain ⟨asleep, which⟩ := Call.after_some calls
  have turn := fun j => Sys.step_turn inv.family done j
  have blocked : call = .wait ∨ call = .join := kind.imp And.left And.left
  rcases (turn q).asleep pcs asleep with ⟨before, chan, -⟩ | ⟨run, c, chan, hc, on, why, now, -⟩
  · -- q slept in the call before, so its zombie would be new
    obtain ⟨-, same⟩ := which.resolve_right fun woke => woke.1 before
    have held := inv.chan q (by
      rcases blocked with rfl | rfl
      · exact Or.inl same
      · exact Or.inr same)
    refine ⟨⟨held.1, asleep, chan.trans held.2.2⟩, ?_⟩
    intro j hj parent thread zombie
    rcases (turn j).zombie pcs zombie with ⟨dead, kept, same'⟩ | ⟨c, cur, rfl, on, new⟩
    · exact old same j hj (kept.symm.trans parent) (fun t => same'.symm.trans (thread t)) dead
    · have hc : c < k.sys.sched.ncpu ∧ k.sys.sched.initproc ≠ some cur ∧ s.sched = k.sys.sched.exit c cur := by
        obtain ⟨cur', hc, on', -, done'⟩ := Sys.onAt_ok done
        obtain rfl : cur = cur' := Option.some.inj (on.symm.trans on')
        split at done'
        · cases done'
        · rename_i notInit
          obtain rfl : k.sys.withSched (k.sys.sched.exit c cur) = s := Except.ok.inj done'
          exact ⟨hc, notInit, rfl⟩
      have ne : q ≠ cur := by
        rintro rfl
        rw [(pcs.sched.cpus.on c hc.1 q on).2] at before
        cases before
      refine Sched.Awake.exit (c := c) pcs.sched held.1 ne ?_ ⟨?_, ?_⟩
      · rcases new with ⟨rfl, kept⟩ | ⟨dead, child, moved⟩
        · exact Or.inl (kept.symm.trans parent)
        · exact Or.inr ⟨moved.symm.trans parent, j, hj, dead, child⟩
      · rw [← hc.2.2]
        exact asleep
      · rw [← hc.2.2]
        exact chan.trans held.2.2
  · -- q has just scanned the table and found no zombie
    obtain ⟨-, new⟩ := which.resolve_left fun slept => by
      rw [run] at slept
      cases slept.1
    have scans : ∃ threads', a.scans = some (c, threads') ∧ chan = .proc q ∧ threads' = threads ∧
        k.sys.sched.zombieChild q threads' = none := by
      cases why with
      | sleep =>
        subst new
        rcases blocked with no | no
        all_goals cases no
      | futexWait =>
        subst new
        rcases blocked with no | no
        all_goals cases no
      | pause _ threads' call' none _ =>
        refine ⟨threads', call', rfl, ?_, none⟩
        subst new
        cases a with
        | waitScan =>
          cases call'
          rcases kind with ⟨-, eq⟩ | ⟨no, -⟩
          · exact eq.symm
          · cases no
        | joinScan =>
          cases call'
          rcases kind with ⟨no, -⟩ | ⟨-, eq⟩
          · cases no
          · exact eq.symm
        | _ => cases call'
    obtain ⟨threads', call', rfl, rfl, none⟩ := scans
    refine ⟨⟨(pcs.sched.cpus.on c hc q on).1, asleep, now⟩, ?_⟩
    intro j hj parent thread zombie
    rcases (turn j).zombie pcs zombie with ⟨dead, kept, same⟩ | ⟨c', cur, rfl, -, -⟩
    · exact Sched.zombieChild_none none hj (kept.symm.trans parent) (fun t => same.symm.trans (thread t)) dead
    · cases call'

theorem nextNotes_eq {j : Nat} (silent : ∀ note, k.sys.report a ≠ some (j, note)) :
    k.nextNotes a s j = Note.change (k.sys.sched.proc j) (s.sched.proc j) a.stack := by
  unfold Kern.nextNotes
  split
  · rename_i p note returns
    have ne : p ≠ j := by
      rintro rfl
      exact silent note returns
    rw [if_neg ne, List.append_nil]
  · rw [List.append_nil]

theorem step_reported (inv : ReportInv k) (done : k.sys.step a = .ok s) {j : Nat} {note : Note}
    (returns : k.sys.report a = some (j, note)) :
    Life.read ((k.record a s).notes j) = some .free ∧ (s.sched.proc j).state = .unused := by
  obtain ⟨shape, cur, threads, found, rfl⟩ := Sys.report_reaps done returns
  obtain ⟨-, parent, zombie, kind⟩ := Sched.zombieChild_some found
  obtain ⟨life, read, agrees, stacked⟩ := inv.life j
  obtain ⟨stack, rfl⟩ := agrees.zombie zombie
  have unused : (s.sched.proc j).state = .unused := by simp [shape, Sched.reap]
  refine ⟨?_, unused⟩
  have notes : k.nextNotes a s j = [.reported cur (k.sys.sched.proc j).parent (k.sys.sched.proc j).pid
      (if threads then some (k.sys.sched.proc j).ustack else none)] := by
    simp [Kern.nextNotes, returns, Note.change, zombie, unused]
  change Life.read (k.notes j ++ k.nextNotes a s j) = some .free
  rw [Life.read_append, read, notes]
  simp only [Option.bind_some, List.foldlM_cons, List.foldlM_nil, Life.next, parent]
  rw [if_pos]
  · rfl
  · refine ⟨trivial, trivial, ?_⟩
    cases threads with
    | false => exact Or.inl rfl
    | true => exact Or.inr (stacked (kind rfl)).symm

theorem step_life (inv : ReportInv k) (done : k.sys.step a = .ok s) (j : Nat) :
    ∃ life, Life.read ((k.record a s).notes j) = some life ∧ life.Agrees (s.sched.proc j) ∧
      life.Stacked (s.sched.proc j) := by
  by_cases returns : ∃ note, k.sys.report a = some (j, note)
  · obtain ⟨note, returns⟩ := returns
    obtain ⟨read, unused⟩ := inv.step_reported done returns
    exact ⟨.free, read, unused, trivial⟩
  · have silent : ∀ note, k.sys.report a ≠ some (j, note) := fun note h => returns ⟨note, h⟩
    obtain ⟨life, read, agrees, stacked⟩ := inv.life j
    have notes : Life.read ((k.record a s).notes j) =
        (Note.change (k.sys.sched.proc j) (s.sched.proc j) a.stack).foldlM Life.next life := by
      change Life.read (k.notes j ++ k.nextNotes a s j) = _
      rw [Life.read_append, read, nextNotes_eq silent]
      rfl
    rw [notes]
    have embryo : ∀ {cur : Nat}, (k.sys.pc cur).making = some j → (k.sys.sched.proc j).state = .embryo :=
      fun at' => (inv.family.pcs.making _ j at').2
    have turn := Sys.step_turn inv.family done j
    generalize s.sched.proc j = p at turn ⊢
    -- scheduling goes on with the same life
    have same : (k.sys.sched.proc j).state.Shifts p.state → p.badge = (k.sys.sched.proc j).badge →
        ∃ life', (Note.change (k.sys.sched.proc j) p a.stack).foldlM Life.next life = some life' ∧
          life'.Agrees p ∧ life'.Stacked p := by
      intro state badge
      rw [Note.change_shifts state]
      exact ⟨life, rfl, agrees.shifts state (congrArg (fun b => b.2.1) badge), stacked.same badge⟩
    cases turn with
    | rests state still => exact same state.shifts (congrArg Prod.fst still)
    | moves run state badge => exact same (Or.inl (state.trans run.symm)) badge
    | orphaned _ _ _ _ state _ badge => exact same state.shifts badge
    | marked _ _ state _ still => exact same state.shifts (congrArg Prod.fst still)
    | runs ready state still =>
      exact same (Or.inr ⟨Or.inr (Or.inl ready), Or.inr (Or.inr state)⟩) (congrArg Prod.fst still)
    | yields run state still =>
      exact same (Or.inr ⟨Or.inr (Or.inr run), Or.inr (Or.inl state)⟩) (congrArg Prod.fst still)
    | sleeps c _ hc on _ state still =>
      have run := (inv.family.pcs.sched.cpus.on c hc j on).2
      exact same (Or.inr ⟨Or.inr (Or.inr run), Or.inl state⟩) (congrArg Prod.fst still)
    | exits c _ hc on state still =>
      have run := (inv.family.pcs.sched.cpus.on c hc j on).2
      have badge : p.badge = (k.sys.sched.proc j).badge := congrArg Prod.fst still
      obtain ⟨stack, rfl⟩ := agrees.running run
      refine ⟨.dead (k.sys.sched.proc j).pid stack, by simp [Note.change, run, state, Life.next], ⟨state, ?_⟩, stacked.same badge⟩
      exact congrArg (fun b => b.2.1) badge
    | reaped c cur threads call _ on found _ =>
      have told : k.sys.report a = some (j, .reported cur (k.sys.sched.proc j).parent (k.sys.sched.proc j).pid
          (if threads then some (k.sys.sched.proc j).ustack else none)) := by
        simp [Sys.report, call, on, found]
      exact (silent _ told).elim
    | alloced free state _ _ _ _ thread =>
      obtain rfl := agrees.unused free
      refine ⟨.made p.pid a.stack, by simp [Note.change, free, state, Life.next], ⟨state, rfl⟩, ?_⟩
      intro is
      rw [thread] at is
      cases is
    | released c cur d _ _ at' _ shape =>
      have young := embryo (Pc.making_of_unlinked at')
      have unused : p.state = .unused := by rw [shape]
      obtain ⟨stack, rfl⟩ := agrees.embryo young
      exact ⟨.free, by simp [Note.change, young, unused, Life.next], unused, trivial⟩
    | filled cur _ _ at' _ shape =>
      obtain ⟨stack, rfl⟩ := agrees.embryo (embryo at')
      have state : p.state = (k.sys.sched.proc j).state := by rw [shape]
      rw [Note.change_shifts (Or.inl state)]
      refine ⟨_, rfl, agrees.shifts (Or.inl state) (by rw [shape]), ?_⟩
      rw [shape]
      exact stacked
    | linked cur at' state pid _ _ _ thread =>
      obtain ⟨stack, rfl⟩ := agrees.embryo (embryo at')
      rw [Note.change_shifts (Or.inl state)]
      refine ⟨_, rfl, agrees.shifts (Or.inl state) pid, ?_⟩
      intro is
      obtain ⟨pid', made⟩ := inv.clone cur j p.ustack (by rw [thread is]; rfl)
      rw [read] at made
      cases made
      rfl
    | born young state badge =>
      obtain ⟨stack, rfl⟩ := agrees.embryo young
      refine ⟨.live (k.sys.sched.proc j).pid stack, by simp [Note.change, young, state, Life.next], ⟨Or.inr (Or.inl state), ?_⟩,
        stacked.same badge⟩
      exact congrArg (fun b => b.2.1) badge

/-- A slot under construction in clone has been allocated with the stack of the call. -/
theorem step_clone (inv : ReportInv k) (done : k.sys.step a = .ok s) {p np stack : Nat}
    (ordered : (s.pc p).ordered = some (np, stack)) :
    ∃ pid, Life.read ((k.record a s).notes np) = some (.made pid (some stack)) := by
  have making := Pc.making_of_ordered ordered
  have after := ((inv.family.next done).pcs.making p np making).2
  have notes : (k.sys.sched.proc np).state ≠ .zombie → (k.record a s).notes np =
      k.notes np ++ Note.change (k.sys.sched.proc np) (s.sched.proc np) a.stack := by
    intro alive
    change k.notes np ++ k.nextNotes a s np = _
    rw [nextNotes_eq]
    intro note returns
    obtain ⟨-, cur, threads, found, -⟩ := Sys.report_reaps done returns
    exact alive (Sched.zombieChild_some found).2.2.1
  have old : (k.sys.pc p).ordered = some (np, stack) →
      ∃ pid, Life.read ((k.record a s).notes np) = some (.made pid (some stack)) := by
    intro before
    have embryo := (inv.family.pcs.making p np (Pc.making_of_ordered before)).2
    rw [notes (by rw [embryo]; decide), Note.change_shifts (Or.inl (after.trans embryo.symm)), List.append_nil]
    exact inv.clone p np stack before
  have came := Sys.step_came done making
  generalize s.pc p = pc at came ordered
  cases came with
  | same => exact old ordered
  | fork => cases ordered
  | clone stack' free some =>
    obtain ⟨-, rfl⟩ := Prod.mk.inj (Option.some.inj ordered)
    obtain ⟨life, read, agrees, -⟩ := inv.life np
    obtain rfl := agrees.unused free
    refine ⟨(s.sched.proc np).pid, ?_⟩
    rw [notes (by rw [free]; decide), Life.read_append, read]
    simp [Note.change, free, after, Life.next, some]
  | fill _ at' =>
    rcases at' with ⟨-, rfl⟩ | ⟨-, rfl⟩ | ⟨stack', ⟨before, rfl⟩ | ⟨before, rfl⟩⟩
    · cases ordered
    · cases ordered
    · exact old (by rw [before]; exact ordered)
    · exact old (by rw [before]; exact ordered)
  | linked _ at' =>
    rcases at' with rfl | rfl
    all_goals cases ordered

theorem step (inv : ReportInv k) {b : KernAct} (h : k.step b = .ok k') : ReportInv k' := by
  rcases Kern.step_ok h with ⟨a, s, rfl, -, done, rfl⟩ | filed
  · have wait := fun q calls => inv.step_blocked (q := q) done (Or.inl ⟨rfl, rfl⟩)
      (fun old j hj child _ => inv.wait q old j hj child) calls
    have join := fun q calls => inv.step_blocked (q := q) done (Or.inr ⟨rfl, rfl⟩)
      (fun old j hj child thread => inv.join q old j hj child (thread rfl)) calls
    refine ⟨inv.family.next done, ?_, ?_, ?_, inv.step_life done, fun p np stack => inv.step_clone done⟩
    · rintro q (calls | calls)
      · exact (wait q calls).1
      · exact (join q calls).1
    · intro q calls j hj child
      exact (wait q calls).2 j hj child nofun
    · intro q calls j hj child thread
      exact (join q calls).2 j hj child fun _ => thread
  · obtain ⟨sys, call, -, notes, -⟩ := filed
    constructor
    · rw [sys]
      exact inv.family
    · rw [sys, call]
      exact inv.chan
    · rw [sys, call]
      exact inv.wait
    · rw [sys, call]
      exact inv.join
    · rw [sys, notes]
      exact inv.life
    · rw [sys, notes]
      exact inv.clone

theorem init (first : k.Init) : ReportInv k := by
  obtain ⟨sys, call, -, -, notes⟩ := first
  have awake : ∀ q call', k.call q ≠ some call' := by
    intro q call' calls
    rw [call q] at calls
    cases calls
  refine ⟨FamilyInv.init sys, ?_, ?_, ?_, ?_, ?_⟩
  · rintro q (calls | calls)
    all_goals exact (awake q _ calls).elim
  · intro q calls
    exact (awake q _ calls).elim
  · intro q calls
    exact (awake q _ calls).elim
  · intro j
    obtain ⟨-, -, proc, -⟩ := sys
    refine ⟨.free, by rw [notes j]; rfl, ?_, trivial⟩
    change (k.sys.sched.proc j).state = .unused
    rw [proc j]
    rfl
  · intro p np stack ordered
    obtain ⟨-, -, -, -, -, -, pc, -⟩ := sys
    rw [pc p] at ordered
    cases ordered

end ReportInv

/-- In every state no process sleeps in wait or join while it has a zombie to report,
    and the notes of each slot are a sequence of lives that ends as the slot is now: a
    zombie stays until the one report of it, to its parent and with its own data. -/
theorem exits_reported_once (k : Kern) (reach : Runs.Reachable Kern.Init Kern.step (fun _ _ => True) k) :
    (∀ q, k.call q = some .wait → ∀ j < NPROC, (k.sys.sched.proc j).parent = some q →
      (k.sys.sched.proc j).state ≠ .zombie) ∧
    (∀ q, k.call q = some .join → ∀ j < NPROC, (k.sys.sched.proc j).parent = some q →
      (k.sys.sched.proc j).isthread = true → (k.sys.sched.proc j).state ≠ .zombie) ∧
    ∀ j, ∃ life, Life.read (k.notes j) = some life ∧ life.Agrees (k.sys.sched.proc j) := by
  have inv : ReportInv k :=
    Runs.Reachable.invariant (fun _ first => ReportInv.init first) (fun _ _ _ inv _ done => inv.step done) reach
  refine ⟨inv.wait, inv.join, ?_⟩
  intro j
  obtain ⟨life, read, agrees, -⟩ := inv.life j
  exact ⟨life, read, agrees⟩

/-- While init waits, its child clones a thread and joins it. -/
def Kern.childJoins : List KernAct :=
  (Sys.firstFork ++ [Act.waitScan 0, .dispatch 0, .cloneAlloc 0 0, .cloneStack 0 (some 502), .cloneShare 0,
    .cloneLink 0, .cloneRun 0, .joinScan 0, .dispatch 0]).map .sys ++ [.iput 0] ++
    [Act.exit 0, .dispatch 0, .joinScan 0].map .sys

theorem exits_reported_once_thread :
    ∃ k, Runs.run Kern.step (Kern.zeroed (Sys.zeroed 1)) Kern.childJoins = .ok k ∧ k.call 0 = some .wait ∧
      k.notes 2 = [.alloc 3 (some 0), .born, .exited, .reported 1 (some 1) 3 (some 0)] ∧
      (k.sys.sched.proc 1).parent = some 0 ∧ (k.sys.sched.proc 1).state ≠ .zombie := by
  have seen : (Runs.run Kern.step (Kern.zeroed (Sys.zeroed 1)) Kern.childJoins).toOption.map
      (fun k => (k.call 0, k.notes 2, (k.sys.sched.proc 1).parent)) = some (some .wait,
        [.alloc 3 (some 0), .born, .exited, .reported 1 (some 1) 3 (some 0)], some 0) := by
    decide +kernel
  obtain ⟨k, run, facts⟩ := Runs.observed seen
  have start : Runs.Reachable Kern.Init Kern.step (fun _ _ => True) (Kern.zeroed (Sys.zeroed 1)) :=
    .start (Kern.zeroed_init (Sys.zeroed_init (by decide) (by decide)))
  have reach := start.run (fun _ _ _ => trivial) run
  have waits : k.call 0 = some .wait := congrArg Prod.fst facts
  have child : (k.sys.sched.proc 1).parent = some 0 := congrArg (fun x => x.2.2) facts
  exact ⟨k, run, waits, congrArg (fun x => x.2.1) facts, child,
    (exits_reported_once k reach).1 0 waits 1 (by decide) child⟩

end Xv6
