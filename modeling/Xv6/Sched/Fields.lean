import Xv6.Sched.RunQueue

/-!
Fields of a process that moving it between the queues leaves alone. A view reads some
fields of a process; the functions of proc.c are grouped by the fields that they write,
and each keeps every view that does not read them.
-/
namespace Xv6

/-- The view does not read the place of a process in the queues. -/
structure Placeless {β : Type} (view : Proc → β) : Prop where
  queue : ∀ p next cpu, view { p with rqnext := next, rqcpu := cpu } = view p

structure Blind {β : Type} (view : Proc → β) : Prop extends Placeless view where
  state : ∀ p st, view { p with state := st } = view p

structure Ageless {β : Type} (view : Proc → β) : Prop extends Blind view where
  aging : ∀ p prio waited, view { p with prio := prio, waited := waited } = view p

def Same {β : Type} (view : Proc → β) (s s' : Sched) : Prop := ∀ j, view (s'.proc j) = view (s.proc j)

variable {β : Type} {view : Proc → β} {s s' s'' : Sched}

namespace Same

theorem refl (view : Proc → β) (s : Sched) : Same view s s := fun _ => rfl

theorem trans (first : Same view s s') (second : Same view s' s'') : Same view s s'' :=
  fun j => (second j).trans (first j)

theorem modify (s : Sched) {i : Nat} {f : Proc → Proc} (kept : view (f (s.proc i)) = view (s.proc i)) :
    Same view s (s.modify i f) := by
  intro j
  by_cases here : j = i
  · subst here
    simpa using kept
  · simp [here]

theorem foldl {f : Sched → Nat → Sched} (step : ∀ s i, Same view s (f s i)) (is : List Nat) (s : Sched) :
    Same view s (is.foldl f s) := by
  induction is generalizing s with
  | nil => exact refl view s
  | cons i is ih => exact (step s i).trans (ih (f s i))

end Same

namespace Placeless

theorem link (placeless : Placeless view) (p : Proc) (next : Option Nat) : view { p with rqnext := next } = view p :=
  placeless.queue p next p.rqcpu

theorem rqPush (placeless : Placeless view) (s : Sched) (c i : Nat) : Same view s (s.rqPush c i) := by
  have placed : Same view s (s.modify i fun q => { q with rqnext := none, rqcpu := c }) :=
    Same.modify s (placeless.queue _ _ _)
  unfold Sched.rqPush
  simp only
  split
  · rename_i t _
    have linked : Same view (s.modify i fun q => { q with rqnext := none, rqcpu := c })
        ((s.modify i fun q => { q with rqnext := none, rqcpu := c }).modify t
          fun q => { q with rqnext := some i }) := Same.modify _ (placeless.link _ _)
    exact placed.trans linked
  · exact placed

theorem rqPopFrom (placeless : Placeless view) (s : Sched) (c : Nat) (ks : List Nat) :
    Same view s (s.rqPopFrom c ks).2 := by
  induction ks with
  | nil => exact Same.refl view s
  | cons k ks ih =>
    rw [Sched.rqPopFrom]
    simp only
    split
    · rename_i p _
      have unlinked : Same view s (s.modify p fun q => { q with rqnext := none }) :=
        Same.modify s (placeless.link _ _)
      exact unlinked
    · exact ih

theorem rqPop (placeless : Placeless view) (s : Sched) (c : Nat) : Same view s (s.rqPop c).2 :=
  placeless.rqPopFrom s c _

theorem rqSteal (placeless : Placeless view) (s : Sched) (c : Nat) : Same view s (s.rqSteal c).2 := by
  unfold Sched.rqSteal
  split
  · exact Same.refl view s
  · exact placeless.rqPop s _

theorem pickNext (placeless : Placeless view) (s : Sched) (c : Nat) : Same view s (s.pickNext c).2 := by
  have own := placeless.rqPop s c
  unfold Sched.pickNext
  split
  · rename_i popped
    rw [popped] at own
    exact own
  · rename_i s1 popped
    rw [popped] at own
    exact own.trans (placeless.rqSteal s1 c)

theorem rqDrain (placeless : Placeless view) (c n : Nat) (s : Sched) : Same view s (Sched.rqDrain c n s).2 := by
  induction n generalizing s with
  | zero => exact Same.refl view s
  | succ n ih =>
    have popped := placeless.rqPop s c
    rw [Sched.rqDrain]
    split
    · rename_i empty
      rw [empty] at popped
      exact popped
    · rename_i p s1 one
      rw [one] at popped
      exact popped.trans (ih s1)

end Placeless

namespace Blind

theorem setRunnable (blind : Blind view) (s : Sched) (i : Nat) : Same view s (s.setRunnable i) :=
  (Same.modify s (blind.state _ _)).trans (blind.rqPush _ _ i)

theorem rouse (blind : Blind view) (s : Sched) (i : Nat) : Same view s (s.rouse i) :=
  (Same.modify s (blind.state _ _)).trans (blind.rqPush _ _ i)

theorem wakeup1 (blind : Blind view) (s : Sched) (chan : Option Chan) : Same view s (s.wakeup1 chan) := by
  apply Same.foldl
  intro s i
  unfold Sched.wakeupIn
  split
  · exact blind.rouse s i
  · exact Same.refl view s

theorem futexWakeLoop (blind : Blind view) (pa : Nat) (n : Int) (ps : List Nat) (woken : Nat) (s : Sched) :
    Same view s (Sched.futexWakeLoop pa n ps woken s).2 := by
  induction ps generalizing woken s with
  | nil => exact Same.refl view s
  | cons p ps ih =>
    rw [Sched.futexWakeLoop]
    split
    · simp only
      split
      · exact blind.rouse s p
      · exact (blind.rouse s p).trans (ih (woken + 1) (s.rouse p))
    · exact ih woken s

theorem futexWake (blind : Blind view) (s : Sched) (pa : Nat) (n : Int) : Same view s (s.futexWake pa n).2 :=
  blind.futexWakeLoop pa n _ 0 s

theorem yield (blind : Blind view) (s : Sched) (c i : Nat) : Same view s (s.yield c i) :=
  (Same.modify s (blind.state _ _)).trans (blind.rqPush _ c i)

theorem sleep (blind : Blind view) (chan : ∀ p ch, view { p with chan := ch } = view p) (s : Sched) (c i : Nat)
    (ch : Chan) : Same view s (s.sleep c i ch) := by
  have asleep : Same view s (s.modify i fun p => { p with chan := some ch, state := .sleeping }) :=
    Same.modify s ((blind.state _ .sleeping).trans (chan _ (some ch)))
  exact asleep

theorem kill (blind : Blind view) (s : Sched) (pid : Int) :
    s.kill pid = (-1, s) ∧ (∀ i < NPROC, (s.proc i).pid ≠ pid) ∨
    ∃ p < NPROC, (s.proc p).pid = pid ∧ (s.kill pid).1 = 0 ∧
      Same view (s.modify p fun q => { q with killed := true }) (s.kill pid).2 := by
  unfold Sched.kill
  cases found : (List.range NPROC).find? fun i => (s.proc i).pid == pid with
  | none =>
    rw [List.find?_eq_none] at found
    refine Or.inl ⟨rfl, ?_⟩
    intro i hi same
    exact found i (List.mem_range.mpr hi) (by simpa using same)
  | some p =>
    have named : (s.proc p).pid = pid := by
      have := List.find?_some found
      simpa using this
    refine Or.inr ⟨p, List.mem_range.mp (List.mem_of_find?_eq_some found), named, rfl, ?_⟩
    simp only
    split
    · exact blind.rouse _ p
    · exact Same.refl view _

theorem reparent (blind : Blind view) (parent : ∀ p q, view { p with parent := q } = view p) (s : Sched)
    (cur : Nat) : Same view s ((List.range NPROC).foldl (Sched.reparentIn cur) s) := by
  apply Same.foldl
  intro s i
  unfold Sched.reparentIn
  split
  · have moved : Same view s (s.modify i fun q => { q with parent := s.initproc }) :=
      Same.modify s (parent _ _)
    simp only
    split
    · exact moved.trans (blind.wakeup1 _ _)
    · exact moved
  · exact Same.refl view s

theorem exit (blind : Blind view) (parent : ∀ p q, view { p with parent := q } = view p) (s : Sched)
    (c cur : Nat) : Same view s (s.exit c cur) := by
  have woken := blind.wakeup1 s ((s.proc cur).parent.map .proc)
  have moved := blind.reparent parent (s.wakeup1 ((s.proc cur).parent.map .proc)) cur
  simp only [Sched.exit]
  generalize s.wakeup1 ((s.proc cur).parent.map .proc) = s1 at woken moved ⊢
  generalize (List.range NPROC).foldl (Sched.reparentIn cur) s1 = s2 at moved ⊢
  have dead : Same view s2 (s2.modify cur fun p => { p with state := .zombie }) :=
    Same.modify s2 (blind.state _ _)
  exact (woken.trans moved).trans dead

theorem syncsize (sz : ∀ p n, view { p with sz := n } = view p) (s : Sched) (cur : Nat) :
    Same view s (s.syncsize cur) := by
  apply Same.foldl
  intro s i
  unfold Sched.syncsizeIn
  split
  · exact Same.modify s (sz _ _)
  · exact Same.refl view s

end Blind

theorem Placeless.ageOne (aging : ∀ p prio waited, view { p with prio := prio, waited := waited } = view p)
    (elapsed : Nat) (p : Proc) : view (Sched.ageOne elapsed p) = view p := by
  unfold Sched.ageOne
  simp only
  split
  · exact aging p _ _
  · exact aging p p.prio _

theorem Placeless.rqAge (placeless : Placeless view)
    (aging : ∀ p prio waited, view { p with prio := prio, waited := waited } = view p) (s : Sched)
    (elapsed : Nat) : Same view s (s.rqAge elapsed) := by
  apply Same.foldl
  intro s c
  have drained := placeless.rqDrain c NPROC s
  unfold Sched.rqAgeCpu
  apply drained.trans
  apply Same.foldl
  intro s p
  exact (Same.modify s (Placeless.ageOne aging elapsed _)).trans (placeless.rqPush _ c p)

namespace Ageless

theorem rqAge (ageless : Ageless view) (s : Sched) (elapsed : Nat) : Same view s (s.rqAge elapsed) :=
  ageless.toPlaceless.rqAge ageless.aging s elapsed

theorem schedulerTick (ageless : Ageless view) (s : Sched) (now : Nat) : Same view s (s.schedulerTick now) := by
  unfold Sched.schedulerTick
  simp only
  split
  · exact Same.refl view s
  · exact ageless.rqAge { s with lastAged := now } _

end Ageless
end Xv6
