import Xv6.Futex.Machine

/-!
The mutex of uthread.c. At most one thread holds it, and a thread asleep on the word is
never forgotten: while the mutex is free, an unlocker still has to call futex_wake or some
thread still has to try the exchange again.
-/
namespace Xv6

inductive MutexPc where
  /-- neither holds the mutex nor is in one of its functions -/
  | out
  /-- mutex_lock, before the exchange -/
  | lock
  /-- mutex_lock, after an exchange that found it locked -/
  | blocked
  | holds
  /-- mutex_unlock, after the exchange -/
  | unlocked
  deriving DecidableEq, Repr

/-- mutex_lock or, with choice 1, mutex_trylock; the holder calls mutex_unlock. -/
def mutexProg : MutexPc → Nat → Option (Instr MutexPc)
  | .out, 0 => some (.skip .lock)
  | .out, 1 => some (.exchange 1 fun old => if old = 0 then .holds else .out)
  | .out, _ => none
  | .lock, _ => some (.exchange 1 fun old => if old = 0 then .holds else .blocked)
  | .blocked, _ => some (.futexWait 1 .lock)
  | .holds, _ => some (.exchange 0 fun _ => .unlocked)
  | .unlocked, _ => some (.futexWake 1 .out)

namespace Spot

/-- mutex_unlock between its exchange and the end of its futex_wake. -/
def Unlocks : Spot MutexPc → Prop
  | .user .unlocked | .waking _ _ | .wake _ _ _ => True
  | _ => False

def Retries : Spot MutexPc → Prop
  | .user .lock | .user .blocked | .check _ _ | .translate _ _ | .acquire _ _ _ => True
  | _ => False

/-- What the page is for a thread at this spot: its own exchange has made it private. -/
def MutexOk (page : WordPage) : Spot MutexPc → Prop
  | .user .blocked | .user .unlocked => ∃ pa, page = .own pa
  | .check e r | .translate e r => e = 1 ∧ r = .lock ∧ ∃ pa, page = .own pa
  | .acquire e pa r | .locked e pa r | .asleep e pa r => e = 1 ∧ r = .lock ∧ page = .own pa
  | .waking n r => n = 1 ∧ r = .out ∧ ∃ pa, page = .own pa
  | .wake n pa r => n = 1 ∧ r = .out ∧ page = .own pa
  | _ => True

end Spot

/-- mutex_init has run; one thread may have taken the mutex already. -/
structure MutexInit (mine : Nat → Bool) (s : Futex MutexPc) : Prop where
  reach : s.sys.Reachable
  spots : ∀ t, s.spot t = .away ∨ s.spot t = .user .out ∨ s.spot t = .user .holds
  word : s.word = 0 ∧ (∀ t, s.spot t ≠ .user .holds) ∨
    s.word = 1 ∧ ∃ t, s.spot t = .user .holds ∧ ∀ u, s.spot u = .user .holds → u = t
  free : s.lock = none
  clear : ∀ t < NPROC, ∀ pa, s.sys.sched.AsleepOn pa t → mine pa = false
  map : ∀ pa, s.page.uva2pa = some pa → mine pa = true

structure MutexInv (s : Futex MutexPc) : Prop where
  ok : ∀ t, (s.spot t).MutexOk s.page
  bit : s.word = 0 ∨ s.word = 1
  held : s.word = 1 ↔ ∃ t, s.spot t = .user .holds
  one : ∀ t u, s.spot t = .user .holds → s.spot u = .user .holds → t = u
  locked : ∀ t e pa r, s.spot t = .locked e pa r → s.word = 1 ∨ ∃ u, (s.spot u).Unlocks
  hope : (∃ t e pa r, s.spot t = .asleep e pa r) →
    s.word = 1 ∨ (∃ u, (s.spot u).Unlocks) ∨ ∃ u, (s.spot u).Retries

namespace MutexInv
variable {s s' : Futex MutexPc}

theorem ok_page {page page' : WordPage} (keeps : ∀ pa, page = .own pa → page' = .own pa) {spot : Spot MutexPc}
    (ok : spot.MutexOk page) : spot.MutexOk page' := by
  have some : (∃ pa, page = .own pa) → ∃ pa, page' = .own pa := fun ⟨pa, h⟩ => ⟨pa, keeps pa h⟩
  cases spot with
  | user r =>
    cases r with
    | blocked => exact some ok
    | unlocked => exact some ok
    | _ => trivial
  | away => trivial
  | check => exact ⟨ok.1, ok.2.1, some ok.2.2⟩
  | translate => exact ⟨ok.1, ok.2.1, some ok.2.2⟩
  | waking => exact ⟨ok.1, ok.2.1, some ok.2.2⟩
  | acquire => exact ⟨ok.1, ok.2.1, keeps _ ok.2.2⟩
  | locked => exact ⟨ok.1, ok.2.1, keeps _ ok.2.2⟩
  | asleep => exact ⟨ok.1, ok.2.1, keeps _ ok.2.2⟩
  | wake => exact ⟨ok.1, ok.2.1, keeps _ ok.2.2⟩

theorem read_keeps (page : WordPage) (fresh pa : Nat) (own : page = .own pa) : page.read fresh = .own pa := by
  rw [own]
  rfl

theorem store_keeps (page : WordPage) (fresh pa : Nat) (own : page = .own pa) : page.store fresh = .own pa := by
  rw [own]
  rfl

/-- What the step of one thread does to the mutex: nothing, or it takes the free mutex, or
    it lets go of it. -/
def Keeps (word word' : Nat) (old new : Spot MutexPc) : Prop :=
  word' = word ∧ (old = .user .holds ↔ new = .user .holds) ∨
  word = 0 ∧ word' = 1 ∧ new = .user .holds ∨
  word = 1 ∧ word' = 0 ∧ old = .user .holds ∧ new.Unlocks

theorem move (inv : MutexInv s) {cur : Nat} {spot : Spot MutexPc}
    (spots : ∀ t, s'.spot t = if t = cur then spot else s.spot t)
    (page : ∀ pa, s.page = .own pa → s'.page = .own pa) (ok : spot.MutexOk s'.page)
    (keeps : Keeps s.word s'.word (s.spot cur) spot) (up : ∀ e pa r, spot ≠ .asleep e pa r)
    (locks : ∀ e pa r, spot = .locked e pa r → s'.word = 1)
    (unlocks : (s.spot cur).Unlocks → spot.Unlocks ∨ (∀ t e pa r, s.spot t ≠ .locked e pa r) ∧
      ∀ t e pa r, s.spot t = .asleep e pa r → ∃ u, u ≠ cur ∧ (s.spot u).Retries)
    (retries : (s.spot cur).Retries → spot.Retries ∨ s'.word = 1) : MutexInv s' := by
  have self : s'.spot cur = spot := by rw [spots cur, if_pos rfl]
  have other : ∀ t, t ≠ cur → s'.spot t = s.spot t := fun t ne => by rw [spots t, if_neg ne]
  -- the mutex stays held, unless its holder has just let go
  have still : s.word = 1 → s'.word = 1 ∨ ∃ u, (s'.spot u).Unlocks := by
    intro held
    rcases keeps with ⟨same, -⟩ | ⟨free, -⟩ | ⟨-, -, -, gone⟩
    · exact Or.inl (same.trans held)
    · rw [held] at free
      cases free
    · exact Or.inr ⟨cur, by rw [self]; exact gone⟩
  have unlocker : (∃ u, (s.spot u).Unlocks) → (∃ u, (s'.spot u).Unlocks) ∨ (∀ t e pa r, s.spot t ≠ .locked e pa r) ∧
      ∀ t e pa r, s.spot t = .asleep e pa r → ∃ u, u ≠ cur ∧ (s.spot u).Retries := by
    rintro ⟨u, busy⟩
    by_cases here : u = cur
    · subst here
      exact (unlocks busy).imp (fun more => ⟨u, by rw [self]; exact more⟩) id
    · exact Or.inl ⟨u, by rw [other u here]; exact busy⟩
  refine ⟨?_, ?_, ?_, ?_, ?_, ?_⟩
  · intro t
    rw [spots t]
    split
    · exact ok
    · exact ok_page page (inv.ok t)
  · rcases keeps with ⟨same, -⟩ | ⟨-, one, -⟩ | ⟨-, zero, -⟩
    · rw [same]
      exact inv.bit
    · exact Or.inr one
    · exact Or.inl zero
  · rcases keeps with ⟨same, iff⟩ | ⟨free, one, new⟩ | ⟨held, zero, old, gone⟩
    · rw [same, inv.held]
      constructor
      · rintro ⟨t, holds⟩
        by_cases here : t = cur
        · subst here
          exact ⟨t, by rw [self]; exact iff.mp holds⟩
        · exact ⟨t, by rw [other t here]; exact holds⟩
      · rintro ⟨t, holds⟩
        by_cases here : t = cur
        · subst here
          rw [self] at holds
          exact ⟨t, iff.mpr holds⟩
        · exact ⟨t, by rw [← other t here]; exact holds⟩
    · exact ⟨fun _ => ⟨cur, by rw [self]; exact new⟩, fun _ => one⟩
    · constructor
      · intro one
        rw [zero] at one
        cases one
      · rintro ⟨t, holds⟩
        by_cases here : t = cur
        · subst here
          rw [self] at holds
          rw [holds] at gone
          exact gone.elim
        · rw [other t here] at holds
          exact (here (inv.one t cur holds old)).elim
  · intro t u ht hu
    rcases keeps with ⟨same, iff⟩ | ⟨free, one, new⟩ | ⟨held, zero, old, gone⟩
    · have back : ∀ t, s'.spot t = .user .holds → s.spot t = .user .holds := by
        intro t ht
        by_cases here : t = cur
        · subst here
          rw [self] at ht
          exact iff.mpr ht
        · rwa [other t here] at ht
      exact inv.one t u (back t ht) (back u hu)
    · have only : ∀ t, s'.spot t = .user .holds → t = cur := by
        intro t ht
        by_contra ne
        rw [other t ne] at ht
        have := inv.held.mpr ⟨t, ht⟩
        rw [free] at this
        cases this
      rw [only t ht, only u hu]
    · have none : ∀ t, s'.spot t ≠ .user .holds := by
        intro t ht
        by_cases here : t = cur
        · subst here
          rw [self] at ht
          rw [ht] at gone
          exact gone
        · rw [other t here] at ht
          exact here (inv.one t cur ht old)
      exact (none t ht).elim
  · intro t e pa r locked
    by_cases here : t = cur
    · subst here
      rw [self] at locked
      exact Or.inl (locks e pa r locked)
    · rw [other t here] at locked
      rcases inv.locked t e pa r locked with held | busy
      · exact still held
      · rcases unlocker busy with more | ⟨none, -⟩
        · exact Or.inr more
        · exact (none t e pa r locked).elim
  · rintro ⟨t, e, pa, r, asleep⟩
    have ne : t ≠ cur := by
      rintro rfl
      rw [self] at asleep
      exact up e pa r asleep
    rw [other t ne] at asleep
    rcases inv.hope ⟨t, e, pa, r, asleep⟩ with held | busy | ⟨u, again⟩
    · exact (still held).imp id Or.inl
    · rcases unlocker busy with more | ⟨-, woken⟩
      · exact Or.inr (Or.inl more)
      · obtain ⟨u, off, again⟩ := woken t e pa r asleep
        exact Or.inr (Or.inr ⟨u, by rw [other u off]; exact again⟩)
    · by_cases here : u = cur
      · subst here
        rcases retries again with more | held
        · exact Or.inr (Or.inr ⟨u, by rw [self]; exact more⟩)
        · exact Or.inl held
      · exact Or.inr (Or.inr ⟨u, by rw [other u here]; exact again⟩)

theorem store_own (page : WordPage) (pa : Nat) : ∃ pa', page.store pa = .own pa' := by
  cases page with
  | own old => exact ⟨old, rfl⟩
  | _ => exact ⟨pa, rfl⟩

/-- An exchange with 1 takes the mutex if it is free; if not, the caller goes on at lose. -/
theorem take (inv : MutexInv s) {cur pa : Nat} {r lose : MutexPc} (at' : s.spot cur = .user r)
    (idle : r ≠ .holds ∧ r ≠ .unlocked) (lost : lose = .out ∨ lose = .blocked) :
    MutexInv (s.exec cur pa (.exchange 1 fun old => if old = 0 then .holds else lose)) := by
  have busy : ¬ (s.spot cur).Unlocks := by
    rw [at']
    intro busy
    cases r with
    | unlocked => exact idle.2 rfl
    | _ => exact busy
  have spots : ∀ t, (s.exec cur pa (.exchange 1 fun old => if old = 0 then .holds else lose)).spot t =
      if t = cur then .user (if s.word = 0 then .holds else lose) else s.spot t := fun t => Futex.put_spot _ cur _ t
  rcases inv.bit with free | held
  · rw [free] at spots
    exact inv.move spots (store_keeps _ _) trivial (Or.inr (Or.inl ⟨free, rfl, rfl⟩)) nofun nofun
      (fun h => (busy h).elim) fun _ => Or.inr rfl
  · rw [held] at spots
    refine inv.move spots (store_keeps _ _) ?_ (Or.inl ⟨held.symm, ?_⟩) nofun nofun (fun h => (busy h).elim)
      fun _ => Or.inr rfl
    · rcases lost with rfl | rfl
      · trivial
      · exact store_own s.page pa
    · rw [at']
      constructor
      · intro holds
        cases holds
        exact (idle.1 rfl).elim
      · intro holds
        rcases lost with rfl | rfl
        all_goals cases holds

theorem exec (inv : MutexInv s) {cur choice pa : Nat} {r : MutexPc} {i : Instr MutexPc} (at' : s.spot cur = .user r)
    (next : mutexProg r choice = some i) :
    MutexInv (s.exec cur pa i) := by
  have ok := inv.ok cur
  rw [at'] at ok
  cases r with
  | out =>
    match choice, next with
    | 0, next =>
      obtain rfl := Option.some.inj next
      refine inv.move (Futex.put_spot s cur _) (fun _ h => h) trivial (Or.inl ⟨rfl, ?_⟩) nofun nofun ?_ ?_
      · rw [at']
        exact ⟨nofun, nofun⟩
      · rw [at']
        exact False.elim
      · rw [at']
        exact False.elim
    | 1, next =>
      obtain rfl := Option.some.inj next
      exact inv.take at' ⟨by decide, by decide⟩ (Or.inl rfl)
  | lock =>
    obtain rfl := Option.some.inj next
    exact inv.take at' ⟨by decide, by decide⟩ (Or.inr rfl)
  | blocked =>
    obtain rfl := Option.some.inj next
    refine inv.move (Futex.put_spot s cur _) (fun _ h => h) ⟨rfl, rfl, ok⟩ (Or.inl ⟨rfl, ?_⟩) nofun nofun ?_ ?_
    · rw [at']
      exact ⟨nofun, nofun⟩
    · rw [at']
      exact False.elim
    · exact fun _ => Or.inl trivial
  | holds =>
    obtain rfl := Option.some.inj next
    have held := inv.held.mpr ⟨cur, at'⟩
    refine inv.move (fun t => Futex.put_spot _ cur _ t) (store_keeps _ _) (store_own s.page pa)
      (Or.inr (Or.inr ⟨held, rfl, at', trivial⟩)) nofun nofun ?_ ?_
    · exact fun _ => Or.inl trivial
    · rw [at']
      exact False.elim
  | unlocked =>
    obtain rfl := Option.some.inj next
    refine inv.move (Futex.put_spot s cur _) (fun _ h => h) ⟨rfl, rfl, ok⟩ (Or.inl ⟨rfl, ?_⟩) nofun nofun ?_ ?_
    · rw [at']
      exact ⟨nofun, nofun⟩
    · exact fun _ => Or.inl trivial
    · rw [at']
      exact False.elim

theorem rouse_cases (sched : Sched) (t : Nat) {spot : Spot MutexPc} {page : WordPage} (ok : spot.MutexOk page) :
    Spot.rouse sched t spot = spot ∨
      (∃ e pa r, spot = .asleep e pa r) ∧ Spot.rouse sched t spot = .user .lock := by
  cases spot with
  | asleep e pa r =>
    by_cases still : (sched.proc t).state = .sleeping
    · exact Or.inl (if_pos still)
    · refine Or.inr ⟨⟨e, pa, r, rfl⟩, ?_⟩
      rw [← ok.2.1]
      exact if_neg still
  | _ => exact Or.inl rfl

theorem follow (inv : MutexInv s) (sys : Sys) : MutexInv (s.follow sys) := by
  have spots : ∀ t, (s.follow sys).spot t = s.spot t ∨
      (∃ e pa r, s.spot t = .asleep e pa r) ∧ (s.follow sys).spot t = .user .lock :=
    fun t => rouse_cases sys.sched t (inv.ok t)
  have same : ∀ t, (∀ e pa r, s.spot t ≠ .asleep e pa r) → (s.follow sys).spot t = s.spot t := by
    intro t up
    rcases spots t with eq | ⟨⟨e, pa, r, asleep⟩, -⟩
    · exact eq
    · exact (up e pa r asleep).elim
  have holds : ∀ t, (s.follow sys).spot t = .user .holds ↔ s.spot t = .user .holds := by
    intro t
    rcases spots t with eq | ⟨⟨e, pa, r, asleep⟩, eq⟩
    · rw [eq]
    · rw [eq, asleep]
      exact ⟨nofun, nofun⟩
  have unlocker : (∃ u, (s.spot u).Unlocks) → ∃ u, ((s.follow sys).spot u).Unlocks := by
    rintro ⟨u, busy⟩
    refine ⟨u, ?_⟩
    rw [same u]
    · exact busy
    · intro e pa r asleep
      rw [asleep] at busy
      exact busy
  refine ⟨?_, inv.bit, ?_, ?_, ?_, ?_⟩
  · intro t
    rcases spots t with eq | ⟨-, eq⟩
    · rw [eq]
      exact inv.ok t
    · rw [eq]
      trivial
  · change s.word = 1 ↔ _
    rw [inv.held]
    exact exists_congr fun t => (holds t).symm
  · intro t u ht hu
    exact inv.one t u ((holds t).mp ht) ((holds u).mp hu)
  · intro t e pa r locked
    have before : s.spot t = .locked e pa r := by
      rcases spots t with eq | ⟨-, eq⟩
      · exact eq ▸ locked
      · rw [eq] at locked
        cases locked
    exact (inv.locked t e pa r before).imp id unlocker
  · rintro ⟨t, e, pa, r, asleep⟩
    obtain ⟨before, -⟩ := FutexInv.asleep_of_rouse asleep
    rcases inv.hope ⟨t, e, pa, r, before⟩ with held | busy | ⟨u, again⟩
    · exact Or.inl held
    · exact Or.inr (Or.inl (unlocker busy))
    · refine Or.inr (Or.inr ⟨u, ?_⟩)
      rw [same u]
      · exact again
      · intro e' pa' r' asleep'
        rw [asleep'] at again
        exact again

theorem doze (inv : MutexInv s) {cur e pa : Nat} {r : MutexPc} (at' : s.spot cur = .locked e pa r) :
    MutexInv ({ s with lock := none }.put cur (.asleep e pa r)) := by
  have spots : ∀ t, ({ s with lock := none }.put cur (.asleep e pa r)).spot t =
      if t = cur then .asleep e pa r else s.spot t := fun t => Futex.put_spot _ cur _ t
  generalize shape : ({ s with lock := none }.put cur (.asleep e pa r)) = s' at spots
  have word : s'.word = s.word := by
    rw [← shape]
    rfl
  have page : s'.page = s.page := by
    rw [← shape]
    rfl
  have other : ∀ t, t ≠ cur → s'.spot t = s.spot t := fun t ne => by rw [spots t, if_neg ne]
  have holds : ∀ t, s'.spot t = .user .holds ↔ s.spot t = .user .holds := by
    intro t
    by_cases here : t = cur
    · subst here
      rw [spots t, if_pos rfl, at']
      exact ⟨nofun, nofun⟩
    · rw [other t here]
  have unlocker : (∃ u, (s.spot u).Unlocks) → ∃ u, (s'.spot u).Unlocks := by
    rintro ⟨u, busy⟩
    refine ⟨u, ?_⟩
    rw [other u]
    · exact busy
    · rintro rfl
      rw [at'] at busy
      exact busy
  refine ⟨?_, by rw [word]; exact inv.bit, ?_, ?_, ?_, ?_⟩
  · intro t
    rw [page, spots t]
    split
    · have ok := inv.ok cur
      rw [at'] at ok
      exact ok
    · exact inv.ok t
  · rw [word, inv.held]
    exact exists_congr fun t => (holds t).symm
  · intro t u ht hu
    exact inv.one t u ((holds t).mp ht) ((holds u).mp hu)
  · intro t e' pa' r' locked
    rw [word]
    rw [spots t] at locked
    split at locked
    · cases locked
    · exact (inv.locked t e' pa' r' locked).imp id unlocker
  · -- the sleeper has seen the word locked, and an unlocker waits for ptable.lock
    intro _
    rw [word]
    exact (inv.locked cur e pa r at').imp id fun busy => Or.inl (unlocker busy)

theorem wake (inv : MutexInv s) {mine : Nat → Bool} (futex : FutexInv mine s) {cur key : Nat} {n : Int} {r : MutexPc}
    {sys : Sys} (at' : s.spot cur = .wake n key r) (free : s.lock = none) (done : s.sys.step (.futexWake key n) = .ok sys) :
    MutexInv ((s.follow sys).put cur (.user r)) := by
  have followed := inv.follow sys
  have here : (s.follow sys).spot cur = .wake n key r := by
    change Spot.rouse sys.sched cur (s.spot cur) = _
    rw [at']
    rfl
  obtain ⟨rfl, rfl, own⟩ : n = 1 ∧ r = .out ∧ s.page = .own key := by
    have ok := inv.ok cur
    rwa [at'] at ok
  obtain rfl : s.sys.withSched (s.sys.sched.futexWake key 1).2 = sys := Except.ok.inj done
  -- whoever is asleep after the wake was asleep before, so one has been woken
  have woken : ∀ t e pa r, (s.follow (s.sys.withSched (s.sys.sched.futexWake key 1).2)).spot t = .asleep e pa r →
      ∃ u, (s.follow (s.sys.withSched (s.sys.sched.futexWake key 1).2)).spot u = .user .lock := by
    intro t e pa r asleep
    obtain ⟨before, -⟩ := FutexInv.asleep_of_rouse asleep
    obtain ⟨slot, state, chan⟩ := futex.asleep t e pa r before
    have pa_key : pa = key := by
      have ok := inv.ok t
      rw [before] at ok
      exact WordPage.own.inj (ok.2.2.symm.trans own)
    subst pa_key
    have mine' := futex.key cur pa (by rw [at']; rfl)
    rcases Sched.futexWake_one s.sys.sched pa with none | ⟨u, hu, slept, up⟩
    · exact (none t slot ⟨state, chan⟩).elim
    · refine ⟨u, ?_⟩
      obtain ⟨e', r', sleeper⟩ := futex.tracked u hu pa slept.1 slept.2 mine'
      have same : ((s.sys.sched.futexWake pa 1).2.proc u).chan = (s.sys.sched.proc u).chan :=
        Sched.futexWake_chan s.sys.sched pa 1 u
      change Spot.rouse (s.sys.sched.futexWake pa 1).2 u (s.spot u) = _
      have awake : ((s.sys.sched.futexWake pa 1).2.proc u).state ≠ .sleeping := by
        intro still
        exact up ⟨still, same.trans slept.2⟩
      rcases rouse_cases (s.sys.sched.futexWake pa 1).2 u (inv.ok u) with eq | ⟨-, eq⟩
      · rw [sleeper] at eq
        exact (awake (FutexInv.asleep_of_rouse eq).2).elim
      · exact eq
  have unlocked : ∀ t e pa r, (s.follow (s.sys.withSched (s.sys.sched.futexWake key 1).2)).spot t ≠ .locked e pa r := by
    intro t e pa r locked
    have lock := ((futex.follow done rfl).lock t).mp ⟨e, pa, r, locked⟩
    change s.lock = some t at lock
    rw [free] at lock
    cases lock
  generalize s.follow (s.sys.withSched (s.sys.sched.futexWake key 1).2) = s1 at *
  refine followed.move (Futex.put_spot s1 cur _) (fun _ h => h) trivial (Or.inl ⟨rfl, ?_⟩) nofun nofun ?_ ?_
  · rw [here]
    exact ⟨nofun, nofun⟩
  · intro _
    refine Or.inr ⟨unlocked, ?_⟩
    intro t e pa r asleep
    obtain ⟨u, up⟩ := woken t e pa r asleep
    refine ⟨u, ?_, by rw [up]; trivial⟩
    rintro rfl
    rw [here] at up
    cases up
  · rw [here]
    exact False.elim

theorem step (inv : MutexInv s) {mine : Nat → Bool} (futex : FutexInv mine s) {a : FutexAct}
    (m : Futex.Move mine mutexProg s a s') :
    MutexInv s' := by
  cases m with
  | sys a sys free clear done => exact inv.follow sys
  | exec c cur choice pa r i own on at' next => exact inv.exec at' next
  | check cur pa e r own at' same =>
    have ok := inv.ok cur
    rw [at'] at ok
    obtain ⟨key, owned⟩ := ok.2.2
    refine inv.move (fun t => Futex.put_spot _ cur _ t) (read_keeps _ _)
      ⟨ok.1, ok.2.1, key, read_keeps _ _ key owned⟩ (Or.inl ⟨rfl, ?_⟩) nofun nofun ?_ ?_
    · rw [at']
      exact ⟨nofun, nofun⟩
    · rw [at']
      exact False.elim
    · exact fun _ => Or.inl trivial
  | translate cur pa e r at' found =>
    have ok := inv.ok cur
    rw [at'] at ok
    obtain ⟨key, owned⟩ := ok.2.2
    rw [owned] at found
    obtain rfl : key = pa := Option.some.inj found
    refine inv.move (Futex.put_spot s cur _) (fun _ h => h) ⟨ok.1, ok.2.1, owned⟩ (Or.inl ⟨rfl, ?_⟩) nofun nofun
      ?_ ?_
    · rw [at']
      exact ⟨nofun, nofun⟩
    · rw [at']
      exact False.elim
    · exact fun _ => Or.inl trivial
  | acquire cur pa e key r own at' free same =>
    have ok := inv.ok cur
    rw [at'] at ok
    refine inv.move (fun t => Futex.put_spot _ cur _ t) (read_keeps _ _)
      ⟨ok.1, ok.2.1, read_keeps _ _ key ok.2.2⟩ (Or.inl ⟨rfl, ?_⟩) nofun ?_ ?_ ?_
    · rw [at']
      exact ⟨nofun, nofun⟩
    · exact fun _ _ _ _ => same.trans ok.1
    · rw [at']
      exact False.elim
    · exact fun _ => Or.inr (same.trans ok.1)
  | sleep c cur e key r sys hc on at' done =>
    refine (inv.follow sys).doze ?_
    change Spot.rouse sys.sched cur (s.spot cur) = _
    rw [at']
    rfl
  | giveUp cur e page r at' read =>
    have ok := inv.ok cur
    have keeps : ∀ pa, s.page = .own pa → page = .own pa := by
      intro pa own
      rcases read with rfl | ⟨fresh, -, rfl⟩
      · exact own
      · exact read_keeps _ _ pa own
    have lock : r = .lock := by
      rcases at' with ⟨here, -⟩ | ⟨here, -⟩ | ⟨key, here, -⟩
      all_goals
        rw [here] at ok
        exact ok.2.1
    subst lock
    refine inv.move (fun t => Futex.put_spot _ cur _ t) keeps trivial (Or.inl ⟨rfl, ?_⟩) nofun nofun ?_ ?_
    · rcases at' with ⟨here, -⟩ | ⟨here, -⟩ | ⟨key, here, -⟩
      all_goals
        rw [here]
        exact ⟨nofun, nofun⟩
    · rcases at' with ⟨here, -⟩ | ⟨here, -⟩ | ⟨key, here, -⟩
      all_goals
        rw [here]
        exact False.elim
    · exact fun _ => Or.inl trivial
  | waking cur pa n r at' found =>
    have ok := inv.ok cur
    rw [at'] at ok
    obtain ⟨key, owned⟩ := ok.2.2
    rw [owned] at found
    obtain rfl : key = pa := Option.some.inj found
    refine inv.move (Futex.put_spot s cur _) (fun _ h => h) ⟨ok.1, ok.2.1, owned⟩ (Or.inl ⟨rfl, ?_⟩) nofun nofun
      ?_ ?_
    · rw [at']
      exact ⟨nofun, nofun⟩
    · exact fun _ => Or.inl trivial
    · rw [at']
      exact False.elim
  | noWord cur n r at' none =>
    -- the exchange of the unlocker has made the page present
    have ok := inv.ok cur
    rw [at'] at ok
    obtain ⟨key, owned⟩ := ok.2.2
    rw [owned] at none
    cases none
  | wake cur key n r sys at' free done => exact inv.wake futex at' free done

theorem init {mine : Nat → Bool} (first : MutexInit mine s) : MutexInv s := by
  have plain : ∀ t, (s.spot t).MutexOk s.page ∧ (∀ e pa r, s.spot t ≠ .locked e pa r ∧ s.spot t ≠ .asleep e pa r) := by
    intro t
    rcases first.spots t with h | h | h
    all_goals
      rw [h]
      exact ⟨trivial, fun _ _ _ => ⟨nofun, nofun⟩⟩
  refine ⟨fun t => (plain t).1, ?_, ?_, ?_, ?_, ?_⟩
  · rcases first.word with ⟨zero, -⟩ | ⟨one, -⟩
    · exact Or.inl zero
    · exact Or.inr one
  · rcases first.word with ⟨zero, none⟩ | ⟨one, t, holds, -⟩
    · rw [zero]
      constructor
      · nofun
      · rintro ⟨t, holds⟩
        exact (none t holds).elim
    · exact ⟨fun _ => ⟨t, holds⟩, fun _ => one⟩
  · intro t u ht hu
    rcases first.word with ⟨-, none⟩ | ⟨-, v, -, only⟩
    · exact (none t ht).elim
    · rw [only t ht, only u hu]
  · intro t e pa r locked
    exact (((plain t).2 e pa r).1 locked).elim
  · rintro ⟨t, e, pa, r, asleep⟩
    exact (((plain t).2 e pa r).2 asleep).elim

end MutexInv

theorem mutex_start {sys : Sys} (run : Runs.run Sys.step (Sys.zeroed 1) Sys.firstClone = .ok sys) :
    MutexInit (· == 4096) (Futex.start 2 .out .absent sys) := by
  obtain ⟨reach, awake⟩ := Sys.firstClone_awake run
  have spots := Futex.start_spot 2 MutexPc.out .absent sys
  refine ⟨reach, fun t => (spots t).imp id Or.inl, Or.inl ⟨rfl, ?_⟩, rfl, ?_, nofun⟩
  · intro t holds
    rcases spots t with h | h
    all_goals
      rw [h] at holds
      cases holds
  · intro t slot pa asleep
    exact (awake t slot asleep.1).elim

end Xv6
