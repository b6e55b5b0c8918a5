import Xv6.Process.Calls
import Xv6.Process.QueueSafety

/-!
User programs over one shared word, with futex_wait and futex_wake as the kernel runs
them. The threads that take part run a program of loads, atomic exchanges and futex
calls; everything else in the process system may happen in between. futex_wait checks
the word, looks up its physical address, and checks again with ptable.lock held before
it sleeps on that address. A store can move the word to another frame if its page is
shared copy-on-write.
-/
namespace Xv6

/-- The page of the word in the page table of the threads, with the physical address
    that the word has there. -/
inductive WordPage where
  | absent
  | cow (pa : Nat)
  | own (pa : Nat)
  deriving DecidableEq, Repr

/-- uva2pa of the word; it returns 0 where this is none. -/
def WordPage.uva2pa : WordPage → Option Nat
  | .absent => none
  | .cow pa | .own pa => some pa

/-- A read brings in an absent page, in a frame where the word gets the address pa. -/
def WordPage.read (pa : Nat) : WordPage → WordPage
  | .absent => .own pa
  | page => page

/-- A store leaves the page private; if it was shared, pa is its address in the copy, or
    the old one when no one else had a reference. -/
def WordPage.store (pa : Nat) : WordPage → WordPage
  | .own old => .own old
  | _ => .own pa

/-- One instruction of a program whose local states are ρ. -/
inductive Instr (ρ : Type) where
  | skip (next : ρ)
  | load (next : Nat → ρ)
  | exchange (v : Nat) (next : Nat → ρ)
  | futexWait (expected : Nat) (next : ρ)
  | futexWake (n : Int) (next : ρ)

/-- Where a thread is: in its program, or in one of the futex calls. -/
inductive Spot (ρ : Type) where
  /-- takes no part -/
  | away
  | user (r : ρ)
  /-- futex_wait, before its first look at the word -/
  | check (e : Nat) (r : ρ)
  /-- before uva2pa -/
  | translate (e : Nat) (r : ρ)
  /-- before it acquires ptable.lock -/
  | acquire (e pa : Nat) (r : ρ)
  /-- with the lock, after it has found the expected value again -/
  | locked (e pa : Nat) (r : ρ)
  | asleep (e pa : Nat) (r : ρ)
  /-- futex_wake, before uva2pa -/
  | waking (n : Int) (r : ρ)
  /-- before it acquires ptable.lock -/
  | wake (n : Int) (pa : Nat) (r : ρ)
  deriving DecidableEq

def Spot.key {ρ : Type} : Spot ρ → Option Nat
  | .acquire _ pa _ | .locked _ pa _ | .asleep _ pa _ | .wake _ pa _ => some pa
  | _ => none

def Spot.Quiet {ρ : Type} : Spot ρ → Prop
  | .locked _ _ _ | .asleep _ _ _ => False
  | _ => True

/-- A thread that is not asleep any more returns from futex_wait. -/
def Spot.rouse {ρ : Type} (sched : Sched) (j : Nat) : Spot ρ → Spot ρ
  | .asleep e pa r => if (sched.proc j).state = .sleeping then .asleep e pa r else .user r
  | spot => spot

structure Futex (ρ : Type) where
  sys : Sys
  word : Nat
  page : WordPage
  /-- the thread that holds ptable.lock between two steps -/
  lock : Option Nat
  spot : Nat → Spot ρ
  /-- how often the word has been exchanged -/
  stores : Nat
  /-- that number at the last load of each thread -/
  loaded : Nat → Nat

inductive FutexAct where
  /-- a step of the process system -/
  | sys (a : Act)
  /-- the thread on CPU c takes its next step; a page that is brought in or copied puts
      the word at pa -/
  | go (c choice pa : Nat)
  deriving Repr

def Act.clear (mine : Nat → Bool) : Act → Bool
  | .sleep _ (.futex pa) => !mine pa
  | .futexWait _ pa => !mine pa
  | _ => true

/-- The CPU of a process that leaves its address space or shares it with a child. -/
def Act.departs : Act → Option Nat
  | .exit c | .execCommit c _ | .forkCow c _ => some c
  | _ => none

namespace Futex
variable {ρ : Type}

def put (s : Futex ρ) (t : Nat) (spot : Spot ρ) : Futex ρ := { s with spot := Function.update s.spot t spot }

theorem put_spot (s : Futex ρ) (cur : Nat) (spot : Spot ρ) (t : Nat) :
    (s.put cur spot).spot t = if t = cur then spot else s.spot t := by
  change Function.update s.spot cur spot t = _
  rw [Function.update_apply]

def follow (s : Futex ρ) (sys : Sys) : Futex ρ :=
  { s with sys := sys, spot := fun j => Spot.rouse sys.sched j (s.spot j) }

def exec (s : Futex ρ) (cur pa : Nat) : Instr ρ → Futex ρ
  | .skip next => s.put cur (.user next)
  | .load next =>
    { s with page := s.page.read pa, loaded := Function.update s.loaded cur s.stores }.put cur (.user (next s.word))
  | .exchange v next =>
    { s with word := v, page := s.page.store pa, stores := s.stores + 1 }.put cur (.user (next s.word))
  | .futexWait e next => s.put cur (.check e next)
  | .futexWake n next => s.put cur (.waking n next)

def go (prog : ρ → Nat → Option (Instr ρ)) (s : Futex ρ) (c cur choice pa : Nat) : Except Stop (Futex ρ) :=
  match s.spot cur with
  | .away | .asleep _ _ _ => .error .disabled
  | .user r =>
    match prog r choice with
    | none => .error .disabled
    | some i => .ok (s.exec cur pa i)
  | .check e r =>
    .ok ({ s with page := s.page.read pa }.put cur (if s.word ≠ e then .user r else .translate e r))
  | .translate e r =>
    match s.page.uva2pa with
    | none => .ok (s.put cur (.user r))
    | some pa => .ok (s.put cur (.acquire e pa r))
  | .acquire e key r =>
    if s.lock = none then
      if s.word ≠ e then .ok ({ s with page := s.page.read pa }.put cur (.user r))
      else .ok ({ s with page := s.page.read pa, lock := some cur }.put cur (.locked e key r))
    else .error .disabled
  | .locked e key r =>
    match s.sys.step (.futexWait c key) with
    | .error e => .error e
    | .ok sys => .ok ({ s.follow sys with lock := none }.put cur (.asleep e key r))
  | .waking n r =>
    match s.page.uva2pa with
    | none => .ok (s.put cur (.user r))
    | some pa => .ok (s.put cur (.wake n pa r))
  | .wake n key r =>
    if s.lock = none then
      match s.sys.step (.futexWake key n) with
      | .error e => .error e
      | .ok sys => .ok ((s.follow sys).put cur (.user r))
    else .error .disabled

def departing (s : Futex ρ) (a : Act) : Bool :=
  match a.departs with
  | none => false
  | some c =>
    match s.sys.sched.cpu c with
    | none => false
    | some cur =>
      match s.spot cur with
      | .away => false
      | _ => true

def step (mine : Nat → Bool) (prog : ρ → Nat → Option (Instr ρ)) (s : Futex ρ) : FutexAct → Except Stop (Futex ρ)
  | .sys a =>
    if s.lock = none ∧ a.clear mine = true ∧ s.departing a = false then
      match s.sys.step a with
      | .error e => .error e
      | .ok sys => .ok (s.follow sys)
    else .error .disabled
  | .go c choice pa =>
    if c < s.sys.sched.ncpu ∧ mine pa = true then
      match s.sys.sched.cpu c with
      | none => .error .disabled
      | some cur => go prog s c cur choice pa
    else .error .disabled

inductive Move (mine : Nat → Bool) (prog : ρ → Nat → Option (Instr ρ)) (s : Futex ρ) :
    FutexAct → Futex ρ → Prop where
  | sys (a : Act) (sys : Sys) (free : s.lock = none) (clear : a.clear mine = true) (done : s.sys.step a = .ok sys) :
      Move mine prog s (.sys a) (s.follow sys)
  | exec (c cur choice pa : Nat) (r : ρ) (i : Instr ρ) (own : mine pa = true) (on : s.sys.sched.cpu c = some cur)
      (at' : s.spot cur = .user r) (next : prog r choice = some i) :
      Move mine prog s (.go c choice pa) (s.exec cur pa i)
  | check {a : FutexAct} (cur pa e : Nat) (r : ρ) (own : mine pa = true) (at' : s.spot cur = .check e r) (same : s.word = e) :
      Move mine prog s a ({ s with page := s.page.read pa }.put cur (.translate e r))
  | translate {a : FutexAct} (cur pa e : Nat) (r : ρ) (at' : s.spot cur = .translate e r) (found : s.page.uva2pa = some pa) :
      Move mine prog s a (s.put cur (.acquire e pa r))
  | acquire {a : FutexAct} (cur pa e key : Nat) (r : ρ) (own : mine pa = true) (at' : s.spot cur = .acquire e key r)
      (free : s.lock = none) (same : s.word = e) :
      Move mine prog s a ({ s with page := s.page.read pa, lock := some cur }.put cur (.locked e key r))
  | sleep {a : FutexAct} (c cur e key : Nat) (r : ρ) (sys : Sys) (hc : c < s.sys.sched.ncpu) (on : s.sys.sched.cpu c = some cur)
      (at' : s.spot cur = .locked e key r) (done : s.sys.step (.futexWait c key) = .ok sys) :
      Move mine prog s a ({ s.follow sys with lock := none }.put cur (.asleep e key r))
  /-- futex_wait returns without sleeping -/
  | giveUp {a : FutexAct} (cur e : Nat) (page : WordPage) (r : ρ)
      (at' : s.spot cur = .check e r ∧ s.word ≠ e ∨ s.spot cur = .translate e r ∧ s.page.uva2pa = none ∨
        ∃ key, s.spot cur = .acquire e key r ∧ s.word ≠ e)
      (read : page = s.page ∨ ∃ pa, mine pa = true ∧ page = s.page.read pa) :
      Move mine prog s a ({ s with page := page }.put cur (.user r))
  | waking {a : FutexAct} (cur pa : Nat) (n : Int) (r : ρ) (at' : s.spot cur = .waking n r) (found : s.page.uva2pa = some pa) :
      Move mine prog s a (s.put cur (.wake n pa r))
  /-- futex_wake returns without a look at the table -/
  | noWord {a : FutexAct} (cur : Nat) (n : Int) (r : ρ) (at' : s.spot cur = .waking n r) (none : s.page.uva2pa = none) :
      Move mine prog s a (s.put cur (.user r))
  | wake {a : FutexAct} (cur key : Nat) (n : Int) (r : ρ) (sys : Sys) (at' : s.spot cur = .wake n key r) (free : s.lock = none)
      (done : s.sys.step (.futexWake key n) = .ok sys) : Move mine prog s a ((s.follow sys).put cur (.user r))

variable {mine : Nat → Bool} {prog : ρ → Nat → Option (Instr ρ)} {s s' : Futex ρ}

theorem go_move {c cur choice pa : Nat} (hc : c < s.sys.sched.ncpu) (own : mine pa = true)
    (on : s.sys.sched.cpu c = some cur) (h : go prog s c cur choice pa = .ok s') :
    Move mine prog s (.go c choice pa) s' := by
  unfold go at h
  split at h
  · cases h
  · cases h
  · rename_i r at'
    split at h
    · cases h
    · rename_i i next
      cases h
      exact .exec c cur choice pa r i own on at' next
  · rename_i e r at'
    cases h
    split
    · rename_i differs
      exact .giveUp cur e _ r (Or.inl ⟨at', differs⟩) (Or.inr ⟨pa, own, rfl⟩)
    · rename_i same
      exact .check cur pa e r own at' (not_not.mp same)
  · rename_i e r at'
    split at h
    · rename_i none
      cases h
      exact .giveUp cur e s.page r (Or.inr (Or.inl ⟨at', none⟩)) (Or.inl rfl)
    · rename_i key found
      cases h
      exact .translate cur key e r at' found
  · rename_i e key r at'
    split at h
    · rename_i free
      split at h
      · rename_i differs
        cases h
        exact .giveUp cur e _ r (Or.inr (Or.inr ⟨key, at', differs⟩)) (Or.inr ⟨pa, own, rfl⟩)
      · rename_i same
        cases h
        exact .acquire cur pa e key r own at' free (not_not.mp same)
    · cases h
  · rename_i e key r at'
    split at h
    · cases h
    · rename_i sys done
      cases h
      exact .sleep c cur e key r sys hc on at' done
  · rename_i n r at'
    split at h
    · rename_i none
      cases h
      exact .noWord cur n r at' none
    · rename_i key found
      cases h
      exact .waking cur key n r at' found
  · rename_i n key r at'
    split at h
    · rename_i free
      split at h
      · cases h
      · rename_i sys done
        cases h
        exact .wake cur key n r sys at' free done
    · cases h

theorem step_move {a : FutexAct} (h : step mine prog s a = .ok s') : Move mine prog s a s' := by
  cases a with
  | sys a =>
    simp only [step] at h
    split at h
    · rename_i may
      split at h
      · cases h
      · rename_i sys done
        cases h
        exact .sys a sys may.1 may.2.1 done
    · cases h
  | go c choice pa =>
    simp only [step] at h
    split at h
    · rename_i may
      split at h
      · cases h
      · rename_i cur on
        exact go_move may.1 may.2 on h
    · cases h

end Futex

def Sched.AsleepOn (s : Sched) (pa j : Nat) : Prop :=
  (s.proc j).state = .sleeping ∧ (s.proc j).chan = some (.futex pa)

/-- The table of processes and the spots agree on who is asleep and who has the lock. -/
structure FutexInv {ρ : Type} (mine : Nat → Bool) (s : Futex ρ) : Prop where
  family : FamilyInv s.sys
  asleep : ∀ t e pa r, s.spot t = .asleep e pa r → t < NPROC ∧ (s.sys.sched.proc t).state = .sleeping ∧
    (s.sys.sched.proc t).chan = some (.futex pa)
  tracked : ∀ t < NPROC, ∀ pa, (s.sys.sched.proc t).state = .sleeping →
    (s.sys.sched.proc t).chan = some (.futex pa) → mine pa = true → ∃ e r, s.spot t = .asleep e pa r
  lock : ∀ t, (∃ e pa r, s.spot t = .locked e pa r) ↔ s.lock = some t
  key : ∀ t pa, (s.spot t).key = some pa → mine pa = true
  page : ∀ pa, s.page.uva2pa = some pa → mine pa = true

namespace FutexInv
variable {ρ : Type} {mine : Nat → Bool} {prog : ρ → Nat → Option (Instr ρ)} {s s' : Futex ρ}

theorem asleep_of_rouse {sched : Sched} {j : Nat} {spot : Spot ρ} {e pa : Nat} {r : ρ}
    (h : Spot.rouse sched j spot = .asleep e pa r) :
    spot = .asleep e pa r ∧ (sched.proc j).state = .sleeping := by
  cases spot with
  | asleep e' pa' r' =>
    simp only [Spot.rouse] at h
    split at h
    · rename_i still
      exact ⟨h, still⟩
    · cases h
  | _ => cases h

theorem rouse_eq {sched : Sched} {j : Nat} {spot : Spot ρ} (up : ∀ e pa r, spot ≠ .asleep e pa r) :
    Spot.rouse sched j spot = spot := by
  cases spot with
  | asleep e pa r => exact (up e pa r rfl).elim
  | _ => rfl

theorem read_page {page : WordPage} {pa : Nat} (own : mine pa = true)
    (inv : ∀ pa, page.uva2pa = some pa → mine pa = true) (pa' : Nat) (at' : (page.read pa).uva2pa = some pa') :
    mine pa' = true := by
  cases page with
  | absent =>
    obtain rfl := Option.some.inj at'
    exact own
  | _ => exact inv pa' at'

theorem store_page {page : WordPage} {pa : Nat} (own : mine pa = true)
    (inv : ∀ pa, page.uva2pa = some pa → mine pa = true) (pa' : Nat) (at' : (page.store pa).uva2pa = some pa') :
    mine pa' = true := by
  cases page with
  | own => exact inv pa' at'
  | _ =>
    obtain rfl := Option.some.inj at'
    exact own

theorem put (inv : FutexInv mine s) {cur : Nat} {spot : Spot ρ} {word : Nat} {page : WordPage} {stores : Nat}
    {loaded : Nat → Nat} (old : (s.spot cur).Quiet) (new : spot.Quiet)
    (key : ∀ pa, spot.key = some pa → mine pa = true) (map : ∀ pa, page.uva2pa = some pa → mine pa = true) :
    FutexInv mine ({ s with word := word, page := page, stores := stores, loaded := loaded }.put cur spot) := by
  have at' : ∀ t, ({ s with word := word, page := page, stores := stores, loaded := loaded }.put cur spot).spot t =
      if t = cur then spot else s.spot t := fun t => Futex.put_spot _ cur spot t
  generalize shape : ({ s with word := word, page := page, stores := stores, loaded := loaded }.put cur spot) = s' at at'
  have sys : s'.sys = s.sys := by
    rw [← shape]
    rfl
  have lock : s'.lock = s.lock := by
    rw [← shape]
    rfl
  refine ⟨by rw [sys]; exact inv.family, ?_, ?_, ?_, ?_, ?_⟩
  · intro t e pa r asleep
    rw [at' t] at asleep
    rw [sys]
    split at asleep
    · rw [asleep] at new
      exact new.elim
    · exact inv.asleep t e pa r asleep
  · intro t slot pa state chan own
    rw [sys] at state chan
    obtain ⟨e, r, asleep⟩ := inv.tracked t slot pa state chan own
    refine ⟨e, r, ?_⟩
    rw [at' t, if_neg, asleep]
    rintro rfl
    rw [asleep] at old
    exact old
  · intro t
    rw [lock, at' t]
    by_cases here : t = cur
    · subst here
      rw [if_pos rfl, ← inv.lock t]
      constructor
      · rintro ⟨e, pa, r, locked⟩
        rw [locked] at new
        exact new.elim
      · rintro ⟨e, pa, r, locked⟩
        rw [locked] at old
        exact old.elim
    · rw [if_neg here]
      exact inv.lock t
  · intro t pa at''
    rw [at' t] at at''
    split at at''
    · exact key pa at''
    · exact inv.key t pa at''
  · rw [← shape]
    exact map

theorem follow (inv : FutexInv mine s) {a : Act} {sys : Sys} (done : s.sys.step a = .ok sys)
    (clear : a.clear mine = true) : FutexInv mine (s.follow sys) := by
  have turn := fun t => Sys.step_turn inv.family done t
  refine ⟨inv.family.next done, ?_, ?_, ?_, ?_, inv.page⟩
  · intro t e pa r asleep
    obtain ⟨before, still⟩ := asleep_of_rouse asleep
    obtain ⟨slot, state, chan⟩ := inv.asleep t e pa r before
    refine ⟨slot, still, ?_⟩
    rcases (turn t).asleep inv.family.pcs still with ⟨-, same, -⟩ | ⟨run, -⟩
    · exact same.trans chan
    · rw [state] at run
      cases run
  · intro t slot pa state chan own
    rcases (turn t).asleep inv.family.pcs state with ⟨before, same, -⟩ | ⟨-, c, chan', -, on, why, now, -⟩
    · obtain ⟨e, r, asleep⟩ := inv.tracked t slot pa before (same.symm.trans chan) own
      refine ⟨e, r, ?_⟩
      change Spot.rouse sys.sched t (s.spot t) = _
      rw [asleep]
      exact if_pos state
    · obtain rfl := Option.some.inj (now.symm.trans chan)
      cases why with
      | sleep =>
        rw [Act.clear, own] at clear
        cases clear
      | futexWait =>
        rw [Act.clear, own] at clear
        cases clear
  · intro t
    change _ ↔ s.lock = some t
    rw [← inv.lock t]
    constructor
    · rintro ⟨e, pa, r, locked⟩
      refine ⟨e, pa, r, ?_⟩
      change Spot.rouse sys.sched t (s.spot t) = _ at locked
      cases at' : s.spot t with
      | asleep e' pa' r' =>
        rw [at'] at locked
        simp only [Spot.rouse] at locked
        split at locked
        all_goals cases locked
      | _ =>
        rw [at'] at locked
        exact locked
    · rintro ⟨e, pa, r, locked⟩
      refine ⟨e, pa, r, ?_⟩
      change Spot.rouse sys.sched t (s.spot t) = _
      rw [locked]
      rfl
  · intro t pa key
    apply inv.key t pa
    change (Spot.rouse sys.sched t (s.spot t)).key = _ at key
    cases at' : s.spot t with
    | asleep e' pa' r' =>
      rw [at'] at key
      simp only [Spot.rouse] at key
      split at key
      · exact key
      · cases key
    | _ =>
      rw [at'] at key
      exact key

theorem sleep (inv : FutexInv mine s) {c cur e key : Nat} {r : ρ} {sys : Sys} (hc : c < s.sys.sched.ncpu)
    (on : s.sys.sched.cpu c = some cur) (at' : s.spot cur = .locked e key r)
    (done : s.sys.step (.futexWait c key) = .ok sys) :
    FutexInv mine ({ s.follow sys with lock := none }.put cur (.asleep e key r)) := by
  have table : sys.sched = s.sys.sched.sleep c cur (.futex key) := by
    obtain ⟨cur', -, on', -, done⟩ := Sys.onAt_ok done
    obtain rfl : cur = cur' := Option.some.inj (on.symm.trans on')
    cases done
    rfl
  have other : ∀ j, j ≠ cur → sys.sched.proc j = s.sys.sched.proc j := by
    intro j ne
    simp [table, Sched.sleep, ne]
  have self : (sys.sched.proc cur).state = .sleeping ∧ (sys.sched.proc cur).chan = some (.futex key) := by
    simp [table, Sched.sleep]
  -- nobody but cur changes its spot
  have spots : ∀ t, ({ s.follow sys with lock := none }.put cur (.asleep e key r)).spot t =
      if t = cur then .asleep e key r else s.spot t := by
    intro t
    change Function.update (fun j => Spot.rouse sys.sched j (s.spot j)) cur (.asleep e key r) t = _
    rw [Function.update_apply]
    split
    · rfl
    · rename_i ne
      cases here : s.spot t with
      | asleep e' pa' r' =>
        have state := (inv.asleep t e' pa' r' here).2.1
        rw [← other t ne] at state
        exact if_pos state
      | _ => rfl
  refine ⟨inv.family.next done, ?_, ?_, ?_, ?_, inv.page⟩
  · intro t e' pa' r' asleep
    rw [spots t] at asleep
    change t < NPROC ∧ (sys.sched.proc t).state = _ ∧ (sys.sched.proc t).chan = _
    split at asleep
    · rename_i here
      subst here
      cases asleep
      exact ⟨(inv.family.pcs.sched.cpus.on c hc t on).1, self⟩
    · rename_i ne
      rw [other t ne]
      exact inv.asleep t e' pa' r' asleep
  · intro t slot pa state chan own
    change (sys.sched.proc t).state = _ at state
    change (sys.sched.proc t).chan = _ at chan
    rw [spots t]
    by_cases here : t = cur
    · subst here
      rw [if_pos rfl]
      rw [self.2] at chan
      cases chan
      exact ⟨e, r, rfl⟩
    · rw [if_neg here]
      rw [other t here] at state chan
      exact inv.tracked t slot pa state chan own
  · intro t
    rw [spots t]
    change _ ↔ none = some t
    constructor
    · rintro ⟨e', pa', r', locked⟩
      split at locked
      · cases locked
      · rename_i ne
        have mine := (inv.lock t).mp ⟨e', pa', r', locked⟩
        rw [(inv.lock cur).mp ⟨e, key, r, at'⟩] at mine
        exact (ne (Option.some.inj mine).symm).elim
    · nofun
  · intro t pa at''
    rw [spots t] at at''
    split at at''
    · exact inv.key cur pa (by rw [at']; exact at'')
    · exact inv.key t pa at''

theorem step (inv : FutexInv mine s) {a : FutexAct} (m : Futex.Move mine prog s a s') : FutexInv mine s' := by
  cases m with
  | sys a sys free clear done => exact inv.follow done clear
  | exec c cur choice pa r i own on at' next =>
    have quiet : (s.spot cur).Quiet := by
      rw [at']
      trivial
    cases i with
    | skip => exact inv.put quiet trivial nofun inv.page
    | load => exact inv.put quiet trivial nofun (read_page own inv.page)
    | exchange => exact inv.put quiet trivial nofun (store_page own inv.page)
    | futexWait => exact inv.put quiet trivial nofun inv.page
    | futexWake => exact inv.put quiet trivial nofun inv.page
  | check cur pa e r own at' same => exact inv.put (by rw [at']; trivial) trivial nofun (read_page own inv.page)
  | translate cur pa e r at' found =>
    refine inv.put (by rw [at']; trivial) trivial ?_ inv.page
    intro key eq
    cases eq
    exact inv.page pa found
  | acquire cur pa e key r own at' free same =>
    have unlocked : ∀ t e pa r, s.spot t ≠ .locked e pa r := by
      intro t e pa r locked
      have := (inv.lock t).mp ⟨e, pa, r, locked⟩
      rw [free] at this
      cases this
    have spots : ∀ t, ({ s with page := s.page.read pa, lock := some cur }.put cur (.locked e key r)).spot t =
        if t = cur then .locked e key r else s.spot t := fun t => Futex.put_spot _ cur _ t
    refine ⟨inv.family, ?_, ?_, ?_, ?_, read_page own inv.page⟩
    · intro t e' pa' r' asleep
      rw [spots t] at asleep
      split at asleep
      · cases asleep
      · exact inv.asleep t e' pa' r' asleep
    · intro t slot pa' state chan own'
      obtain ⟨e', r', asleep⟩ := inv.tracked t slot pa' state chan own'
      refine ⟨e', r', ?_⟩
      rw [spots t, if_neg, asleep]
      rintro rfl
      rw [at'] at asleep
      cases asleep
    · intro t
      rw [spots t]
      change _ ↔ some cur = some t
      by_cases here : t = cur
      · subst here
        simp
      · rw [if_neg here]
        constructor
        · rintro ⟨e', pa', r', locked⟩
          exact (unlocked t e' pa' r' locked).elim
        · intro eq
          exact (here (Option.some.inj eq).symm).elim
    · intro t pa' at''
      rw [spots t] at at''
      split at at''
      · exact inv.key cur pa' (by rw [at']; exact at'')
      · exact inv.key t pa' at''
  | sleep c cur e key r sys hc on at' done => exact inv.sleep hc on at' done
  | giveUp cur e page r at' read =>
    refine inv.put ?_ trivial nofun ?_
    · rcases at' with ⟨here, -⟩ | ⟨here, -⟩ | ⟨key, here, -⟩
      all_goals
        rw [here]
        trivial
    · rcases read with rfl | ⟨pa, own, rfl⟩
      · exact inv.page
      · exact read_page own inv.page
  | waking cur pa n r at' found =>
    refine inv.put (by rw [at']; trivial) trivial ?_ inv.page
    intro key eq
    cases eq
    exact inv.page pa found
  | noWord cur n r at' none => exact inv.put (by rw [at']; trivial) trivial nofun inv.page
  | wake cur key n r sys at' free done =>
    have followed := inv.follow done rfl
    refine followed.put ?_ trivial nofun inv.page
    change (Spot.rouse sys.sched cur (s.spot cur)).Quiet
    rw [at']
    trivial

theorem init (reach : s.sys.Reachable) (spots : ∀ t, s.spot t = .away ∨ ∃ r, s.spot t = .user r) (free : s.lock = none)
    (clear : ∀ t < NPROC, ∀ pa, s.sys.sched.AsleepOn pa t → mine pa = false) (map : ∀ pa, s.page.uva2pa = some pa → mine pa = true) : FutexInv mine s := by
  have family : FamilyInv s.sys :=
    Runs.Reachable.invariant (fun _ first => FamilyInv.init first) (fun _ _ _ inv _ done => inv.next done) reach
  refine ⟨family, ?_, ?_, ?_, ?_, map⟩
  · intro t e pa r asleep
    rcases spots t with h | ⟨r', h⟩
    all_goals
      rw [h] at asleep
      cases asleep
  · intro t slot pa state chan own
    rw [clear t slot pa ⟨state, chan⟩] at own
    cases own
  · intro t
    rw [free]
    constructor
    · rintro ⟨e, pa, r, locked⟩
      rcases spots t with h | ⟨r', h⟩
      all_goals
        rw [h] at locked
        cases locked
    · nofun
  · intro t pa key
    rcases spots t with h | ⟨r', h⟩
    all_goals
      rw [h] at key
      cases key

end FutexInv

namespace Sched

theorem blind_chan : Blind Proc.chan := ⟨⟨fun _ _ _ => rfl⟩, fun _ _ => rfl⟩

theorem rouse_chan (s : Sched) (i j : Nat) : ((s.rouse i).proc j).chan = (s.proc j).chan := blind_chan.rouse s i j

theorem futexWake_chan (s : Sched) (pa : Nat) (n : Int) (j : Nat) :
    ((s.futexWake pa n).2.proc j).chan = (s.proc j).chan := blind_chan.futexWake s pa n j

theorem AsleepOn.of_rouse {s : Sched} {pa i j : Nat} (h : (s.rouse i).AsleepOn pa j) : s.AsleepOn pa j := by
  obtain ⟨state, chan⟩ := h
  rw [rouse_state] at state
  rw [rouse_chan] at chan
  split at state
  · cases state
  · exact ⟨state, chan⟩

theorem AsleepOn.of_loop {pa key : Nat} {n : Int} {j : Nat} (ps : List Nat) (woken : Nat) {s : Sched}
    (h : (futexWakeLoop key n ps woken s).2.AsleepOn pa j) : s.AsleepOn pa j := by
  induction ps generalizing woken s with
  | nil => exact h
  | cons p ps ih =>
    rw [futexWakeLoop] at h
    split at h
    · simp only at h
      split at h
      · exact h.of_rouse
      · exact (ih _ h).of_rouse
    · exact ih _ h

theorem futexWake_one (s : Sched) (pa : Nat) :
    (∀ j < NPROC, ¬ s.AsleepOn pa j) ∨
      ∃ j < NPROC, s.AsleepOn pa j ∧ ¬ (s.futexWake pa 1).2.AsleepOn pa j := by
  have loop : ∀ (ps : List Nat) (woken : Nat), (∀ j ∈ ps, ¬ s.AsleepOn pa j) ∨
      ∃ j ∈ ps, s.AsleepOn pa j ∧ ¬ (futexWakeLoop pa 1 ps woken s).2.AsleepOn pa j := by
    intro ps
    induction ps with
    | nil => exact fun _ => Or.inl nofun
    | cons p ps ih =>
      intro woken
      rw [futexWakeLoop]
      split
      · rename_i asleep
        simp only
        rw [if_pos (by omega)]
        refine Or.inr ⟨p, List.mem_cons_self, asleep, ?_⟩
        rintro ⟨state, -⟩
        rw [rouse_state, if_pos rfl] at state
        cases state
      · rename_i awake
        rcases ih woken with none | ⟨j, member, slept⟩
        · left
          intro j member
          rcases List.mem_cons.mp member with rfl | member
          · exact awake
          · exact none j member
        · exact Or.inr ⟨j, List.mem_cons_of_mem p member, slept⟩
  rcases loop (List.range NPROC) 0 with none | ⟨j, member, slept⟩
  · exact Or.inl fun j hj => none j (List.mem_range.mpr hj)
  · exact Or.inr ⟨j, List.mem_range.mp member, slept⟩

theorem futexWake_all (s : Sched) (pa : Nat) {n : Int} (all : n ≤ 0) {j : Nat} (hj : j < NPROC) :
    ¬ (s.futexWake pa n).2.AsleepOn pa j := by
  have loop : ∀ (ps : List Nat) (woken : Nat) (s : Sched), j ∈ ps →
      ¬ (futexWakeLoop pa n ps woken s).2.AsleepOn pa j := by
    intro ps
    induction ps with
    | nil => exact fun _ _ member => (List.not_mem_nil member).elim
    | cons p ps ih =>
      intro woken s member
      rw [futexWakeLoop]
      split
      · simp only
        rw [if_neg (by omega)]
        by_cases here : j = p
        · subst here
          intro asleep
          obtain ⟨state, -⟩ := AsleepOn.of_loop ps _ asleep
          rw [rouse_state, if_pos rfl] at state
          cases state
        · exact ih _ _ ((List.mem_cons.mp member).resolve_left here)
      · rename_i awake
        by_cases here : j = p
        · subst here
          intro asleep
          exact awake (AsleepOn.of_loop ps _ asleep)
        · exact ih _ _ ((List.mem_cons.mp member).resolve_left here)
  exact loop _ 0 s (List.mem_range.mpr hj)

end Sched

def Sys.firstClone : List Act :=
  [.userinitAlloc 500, .userinitRun 600, .dispatch 0, .cloneAlloc 0 0, .cloneStack 0 (some 501), .cloneShare 0,
    .cloneLink 0, .cloneRun 0]

/-- The threads below n start at r; the page of the word is as given. -/
def Futex.start {ρ : Type} (n : Nat) (r : ρ) (page : WordPage) (sys : Sys) : Futex ρ :=
  ⟨sys, 0, page, none, fun t => if t < n then .user r else .away, 0, fun _ => 0⟩

theorem Futex.start_spot {ρ : Type} (n : Nat) (r : ρ) (page : WordPage) (sys : Sys) (t : Nat) :
    (Futex.start n r page sys).spot t = .away ∨ (Futex.start n r page sys).spot t = .user r := by
  change (if t < n then _ else _) = _ ∨ (if t < n then _ else _) = _
  by_cases low : t < n
  · rw [if_pos low]
    exact Or.inr rfl
  · rw [if_neg low]
    exact Or.inl rfl

theorem Sys.awake_after {as : List Act} {sys : Sys} (seen : (Runs.run Sys.step (Sys.zeroed 1) as).toOption.map
      (fun sys => decide (∀ t < NPROC, (sys.sched.proc t).state ≠ .sleeping)) = some true)
    (run : Runs.run Sys.step (Sys.zeroed 1) as = .ok sys) :
    sys.Reachable ∧ ∀ t < NPROC, (sys.sched.proc t).state ≠ .sleeping := by
  have start : (Sys.zeroed 1).Reachable := Runs.Reachable.start (Sys.zeroed_init (by decide) (by decide))
  refine ⟨start.run (fun _ _ _ => trivial) run, ?_⟩
  rw [run] at seen
  exact of_decide_eq_true (Option.some.inj seen)

theorem Sys.firstClone_awake {sys : Sys} (run : Runs.run Sys.step (Sys.zeroed 1) Sys.firstClone = .ok sys) :
    sys.Reachable ∧ ∀ t < NPROC, (sys.sched.proc t).state ≠ .sleeping :=
  Sys.awake_after (by decide +kernel) run

/-- A run of the machine after the thread has been created, and what is seen at its end. -/
theorem Futex.run_observed {ρ β : Type} {start : Sys → Futex ρ} {step : Futex ρ → FutexAct → Except Stop (Futex ρ)}
    {as : List FutexAct} {observe : Futex ρ → β} {b : β}
    (seen : ((Runs.run Sys.step (Sys.zeroed 1) Sys.firstClone).toOption.bind fun sys =>
      (Runs.run step (start sys) as).toOption.map observe) = some b) :
    ∃ sys s, Runs.run Sys.step (Sys.zeroed 1) Sys.firstClone = .ok sys ∧ Runs.run step (start sys) as = .ok s ∧
      observe s = b := by
  cases run : Runs.run Sys.step (Sys.zeroed 1) Sys.firstClone with
  | error e =>
    rw [run] at seen
    cases seen
  | ok sys =>
    rw [run] at seen
    obtain ⟨s, done, observed⟩ := Runs.observed seen
    exact ⟨sys, s, rfl, done, observed⟩

/-- A run in four parts: up to s₁, from there to s₂, the step a to s₃, and on to s₄. -/
theorem Futex.staged {ρ : Type} (boot : List Act) (start : Sys → Futex ρ)
    (step : Futex ρ → FutexAct → Except Stop (Futex ρ)) (test : Futex ρ → FutexAct → Bool) (as bs cs : List FutexAct)
    (a : FutexAct) (observe : Futex ρ → Futex ρ → Futex ρ → Futex ρ → Bool)
    (seen : ((Runs.run Sys.step (Sys.zeroed 1) boot).toOption.bind fun sys =>
      (Runs.walk step test (start sys) as).bind fun s₁ => (Runs.walk step test s₁ bs).bind fun s₂ =>
      (Runs.walk step test s₂ [a]).bind fun s₃ => (Runs.walk step test s₃ cs).map (observe s₁ s₂ s₃)) = some true) :
    ∃ sys s₁ s₂ s₃ s₄, Runs.run Sys.step (Sys.zeroed 1) boot = .ok sys ∧
      Runs.walk step test (start sys) as = some s₁ ∧ Runs.walk step test s₁ bs = some s₂ ∧
      test s₂ a = true ∧ step s₂ a = .ok s₃ ∧ Runs.walk step test s₃ cs = some s₄ ∧ observe s₁ s₂ s₃ s₄ = true := by
  obtain ⟨sys, booted, seen⟩ := Option.bind_eq_some_iff.mp seen
  obtain ⟨s₁, first, seen⟩ := Option.bind_eq_some_iff.mp seen
  obtain ⟨s₂, second, seen⟩ := Option.bind_eq_some_iff.mp seen
  obtain ⟨s₃, last, seen⟩ := Option.bind_eq_some_iff.mp seen
  obtain ⟨s₄, after, seen⟩ := Option.map_eq_some_iff.mp seen
  obtain ⟨passed, done⟩ : test s₂ a = true ∧ step s₂ a = .ok s₃ := by
    rw [Runs.walk] at last
    split at last
    · rename_i passed done
      cases last
      exact ⟨passed, done⟩
    · cases last
  refine ⟨sys, s₁, s₂, s₃, s₄, ?_, first, second, passed, done, after, seen⟩
  cases run : Runs.run Sys.step (Sys.zeroed 1) boot with
  | error e =>
    rw [run] at booted
    cases booted
  | ok s =>
    rw [run] at booted
    cases booted
    rfl

end Xv6
