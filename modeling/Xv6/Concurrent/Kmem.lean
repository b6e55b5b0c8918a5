import Mathlib.Data.List.Perm.Basic
import Xv6.Lib.LinkedQueue
import Xv6.Memory.Frames

/-!
kalloc.c step by step. A step is one critical section of kmem.lock, or the junk
fill that kfree does between its two critical sections. The free list is linked
through the frames themselves. `held` is not part of the program: it lists every
reference together with its holder. `H` are the holders, `T` the threads.
-/
namespace Xv6

/-- What a frame contains: bytes of its owner, or the struct run that kfree stores. -/
inductive Block where
  | bytes (b : Nat → UInt8)
  | run (next : Option Nat)

def Block.next : Block → Option Nat
  | .run next => next
  | .bytes _ => none

/-- Where a thread stands inside a kfree that drops the last reference. -/
inductive Freeing where
  | fill (f : Nat)
  | push (f : Nat)
  deriving DecidableEq, Repr

def Freeing.frame : Freeing → Nat
  | .fill f | .push f => f

structure Kmem (H T : Type) where
  freelist : Option Nat
  mem : Nat → Block
  ref : Nat → Nat
  held : List (H × Nat)
  mid : T → Option Freeing

namespace Kmem
variable {H T : Type} [DecidableEq H] [DecidableEq T]

def refs (s : Kmem H T) (f : Nat) : Nat := (s.held.map Prod.snd).count f

def Mid (s : Kmem H T) (f : Nat) : Prop := ∃ t, (s.mid t).map Freeing.frame = some f

def store (s : Kmem H T) (f : Nat) (b : Block) : Kmem H T := { s with mem := Function.update s.mem f b }

def kalloc (s : Kmem H T) (h : H) : Option Nat × Kmem H T :=
  match s.freelist with
  | none => (none, s)
  | some r =>
    (some r, { s with freelist := (s.mem r).next, ref := Function.update s.ref r 1, held := (h, r) :: s.held })

/-- The counter is a ushort; the new reference is held by h. -/
def incref (s : Kmem H T) (h : H) (f : Nat) : Except Panic (Kmem H T) :=
  if NFRAMES ≤ f then .error .increfOutOfRange
  else if s.ref f = 0 then .error .increfPageIsFree
  else .ok { s with ref := Function.update s.ref f ((s.ref f + 1) % 65536), held := (h, f) :: s.held }

/-- The first critical section of kfree. -/
def kfree [Layout] (s : Kmem H T) (t : T) (h : H) (f : Nat) : Except Panic (Kmem H T) :=
  if ¬ Phys.Managed f then .error .kfree
  else if s.ref f = 0 then .error .kfreeNoReferences
  else
    let s := { s with ref := Function.update s.ref f (s.ref f - 1), held := s.held.erase (h, f) }
    if s.ref f = 0 then .ok { s with mid := Function.update s.mid t (some (.fill f)) } else .ok s

/-- The rest of a kfree in thread t: first the junk fill, then the second critical section. -/
def resume (s : Kmem H T) (t : T) : Option (Kmem H T) :=
  match s.mid t with
  | none => none
  | some (.fill f) =>
    some { s.store f (.bytes fun _ => 1) with mid := Function.update s.mid t (some (.push f)) }
  | some (.push f) =>
    some { s.store f (.run s.freelist) with freelist := some f, mid := Function.update s.mid t none }

/-- freemem: the length of the free list; fuel bounds the walk. -/
def countFree (s : Kmem H T) : Nat → Option Nat → Option Nat
  | _, none => some 0
  | 0, some _ => none
  | fuel + 1, some r => (s.countFree fuel (s.mem r).next).map (· + 1)

def freemem (s : Kmem H T) : Option Nat := s.countFree NFRAMES s.freelist

section
variable {s s' : Kmem H T} {h : H} {f : Nat}

omit [DecidableEq H] [DecidableEq T] in
theorem kalloc_some (done : s.kalloc h = (some f, s')) :
    s.freelist = some f ∧ s'.freelist = (s.mem f).next ∧ s'.mem = s.mem ∧
      s'.ref = Function.update s.ref f 1 ∧ s'.held = (h, f) :: s.held ∧ s'.mid = s.mid := by
  unfold kalloc at done
  split at done
  · cases done
  · rename_i r head
    cases done
    exact ⟨head, rfl, rfl, rfl, rfl, rfl⟩

omit [DecidableEq H] [DecidableEq T] in
theorem kalloc_none (done : s.kalloc h = (none, s')) : s.freelist = none ∧ s' = s := by
  unfold kalloc at done
  split at done
  · rename_i empty
    cases done
    exact ⟨empty, rfl⟩
  · cases done

omit [DecidableEq H] [DecidableEq T] in
theorem incref_ok (done : s.incref h f = .ok s') :
    s.ref f ≠ 0 ∧ s'.freelist = s.freelist ∧ s'.mem = s.mem ∧
      s'.ref = Function.update s.ref f ((s.ref f + 1) % 65536) ∧ s'.held = (h, f) :: s.held ∧
      s'.mid = s.mid := by
  unfold incref at done
  split at done
  · cases done
  · split at done
    · cases done
    · rename_i held
      cases done
      exact ⟨held, rfl, rfl, rfl, rfl, rfl⟩

theorem kfree_ok [Layout] {t : T} (done : s.kfree t h f = .ok s') :
    s.ref f ≠ 0 ∧ s'.freelist = s.freelist ∧ s'.mem = s.mem ∧
      s'.ref = Function.update s.ref f (s.ref f - 1) ∧ s'.held = s.held.erase (h, f) ∧
      s'.mid = if s.ref f = 1 then Function.update s.mid t (some (.fill f)) else s.mid := by
  unfold kfree at done
  split at done
  · cases done
  · split at done
    · cases done
    · rename_i held
      simp only [Function.update_self] at done
      split at done
      · rename_i last
        cases done
        refine ⟨held, rfl, rfl, rfl, rfl, ?_⟩
        rw [if_pos (by omega)]
      · rename_i more
        cases done
        refine ⟨held, rfl, rfl, rfl, rfl, ?_⟩
        rw [if_neg (by omega)]

end
end Kmem

/-- The allocator at any point: l is the free list, given the frames of freerange. -/
structure KmemInv {H T : Type} (given : Nat → Prop) (l : List Nat) (s : Kmem H T) : Prop where
  linked : LinkedQueue.Linked (fun f => (s.mem f).next) s.freelist l
  nodup : l.Nodup
  count : ∀ f, s.ref f = s.refs f
  free : ∀ f ∈ l, given f ∧ s.ref f = 0 ∧ ¬ s.Mid f
  used : ∀ f, s.ref f ≠ 0 → given f
  mid : ∀ f, s.Mid f → given f ∧ s.ref f = 0
  once : ∀ t t' f, (s.mid t).map Freeing.frame = some f → (s.mid t').map Freeing.frame = some f → t = t'
  cover : ∀ f, given f → f ∈ l ∨ s.ref f ≠ 0 ∨ s.Mid f

theorem KmemInv.recount {H T : Type} {given : Nat → Prop} {l : List Nat} {s s' : Kmem H T}
    (inv : KmemInv given l s) {f n : Nat} (ref : s'.ref = Function.update s.ref f n)
    (here : s'.refs f = n) (off : ∀ g, g ≠ f → s'.refs g = s.refs g) (g : Nat) : s'.ref g = s'.refs g := by
  by_cases eq : g = f
  · rw [eq, ref, Function.update_self, here]
  · rw [ref, Function.update_of_ne eq, off g eq]
    exact inv.count g

namespace KmemInv
variable {H T : Type} {given : Nat → Prop} {l : List Nat} {s s' : Kmem H T}

theorem held_pos (inv : KmemInv given l s) {h : H} {f : Nat} (member : (h, f) ∈ s.held) : 0 < s.ref f := by
  rw [inv.count f]
  exact List.count_pos_iff.mpr (List.mem_map_of_mem member)

theorem unheld (inv : KmemInv given l s) {f : Nat} (zero : s.ref f = 0) (h : H) : (h, f) ∉ s.held := by
  intro member
  have := inv.held_pos member
  omega

theorem congr (inv : KmemInv given l s) (freelist : s'.freelist = s.freelist) (ref : s'.ref = s.ref)
    (refs : ∀ f, s'.refs f = s.refs f) (mid : s'.mid = s.mid)
    (mem : ∀ f ∈ l, s'.mem f = s.mem f) : KmemInv given l s' := by
  have same : ∀ f, s'.Mid f ↔ s.Mid f := by
    intro f
    unfold Kmem.Mid
    rw [mid]
  constructor
  · rw [freelist]
    refine inv.linked.congr ?_
    intro f member
    rw [mem f member]
  · exact inv.nodup
  · intro f
    rw [ref, refs f]
    exact inv.count f
  · intro f member
    rw [ref, same f]
    exact inv.free f member
  · rw [ref]
    exact inv.used
  · intro f
    rw [ref, same f]
    exact inv.mid f
  · rw [mid]
    exact inv.once
  · intro f
    rw [ref, same f]
    exact inv.cover f

theorem store (inv : KmemInv given l s) {f : Nat} (held : s.ref f ≠ 0) (b : Block) :
    KmemInv given l (s.store f b) := by
  refine inv.congr rfl rfl (fun _ => rfl) rfl ?_
  intro g member
  have ne : g ≠ f := by
    rintro rfl
    exact held (inv.free g member).2.1
  simp [Kmem.store, ne]

theorem kalloc (inv : KmemInv given l s) {h : H} {f : Nat} (done : s.kalloc h = (some f, s')) :
    ∃ rest, l = f :: rest ∧ KmemInv given rest s' ∧ s.ref f = 0 ∧ ¬ s.Mid f := by
  obtain ⟨head, freelist, mem, ref, held, mid⟩ := Kmem.kalloc_some done
  have linked := inv.linked
  cases l with
  | nil =>
    rw [linked] at head
    cases head
  | cons g rest =>
    obtain ⟨first, linked⟩ := linked
    rw [head] at first
    cases first
    obtain ⟨mine, zero, idle⟩ := inv.free f List.mem_cons_self
    have nodup := List.nodup_cons.mp inv.nodup
    have off : ∀ g, g ≠ f → s'.ref g = s.ref g := fun g ne => by rw [ref, Function.update_of_ne ne]
    have same : ∀ g, s'.Mid g ↔ s.Mid g := fun g => by unfold Kmem.Mid; rw [mid]
    refine ⟨rest, rfl, ⟨?_, nodup.2, ?_, ?_, ?_, ?_, ?_, ?_⟩, zero, idle⟩
    · rw [freelist, mem]
      exact linked
    · refine inv.recount ref ?_ ?_
      · rw [Kmem.refs, held, List.map_cons, List.count_cons_self]
        have none := (inv.count f).symm.trans zero
        exact congrArg (· + 1) none
      · intro g ne
        rw [Kmem.refs, held, List.map_cons, List.count_cons_of_ne (Ne.symm ne)]
        rfl
    · intro g member
      have ne : g ≠ f := by
        rintro rfl
        exact nodup.1 member
      rw [off g ne, same g]
      exact inv.free g (List.mem_cons_of_mem f member)
    · intro g used
      by_cases here : g = f
      · rw [here]
        exact mine
      · rw [off g here] at used
        exact inv.used g used
    · intro g middle
      rw [same g] at middle
      have ne : g ≠ f := by
        rintro rfl
        exact idle middle
      rw [off g ne]
      exact inv.mid g middle
    · rw [mid]
      exact inv.once
    · intro g mine'
      rw [same g]
      by_cases here : g = f
      · rw [here, ref, Function.update_self]
        exact Or.inr (Or.inl (by decide))
      · rw [off g here]
        rcases inv.cover g mine' with member | rest'
        · rcases List.mem_cons.mp member with eq | member
          · exact (here eq).elim
          · exact Or.inl member
        · exact Or.inr rest'

theorem incref (inv : KmemInv given l s) {h : H} {f : Nat} (few : s.ref f < 65535)
    (done : s.incref h f = .ok s') : KmemInv given l s' := by
  obtain ⟨pos, freelist, mem, ref, held, mid⟩ := Kmem.incref_ok done
  rw [Nat.mod_eq_of_lt (by omega)] at ref
  have zero : ∀ g, s'.ref g = 0 ↔ s.ref g = 0 := by
    intro g
    by_cases here : g = f
    · rw [here, ref, Function.update_self]
      omega
    · rw [ref, Function.update_of_ne here]
  have same : ∀ g, s'.Mid g ↔ s.Mid g := fun g => by unfold Kmem.Mid; rw [mid]
  refine ⟨?_, inv.nodup, ?_, ?_, ?_, ?_, ?_, ?_⟩
  · rw [freelist, mem]
    exact inv.linked
  · refine inv.recount ref ?_ ?_
    · rw [Kmem.refs, held, List.map_cons, List.count_cons_self]
      exact congrArg (· + 1) (inv.count f).symm
    · intro g ne
      rw [Kmem.refs, held, List.map_cons, List.count_cons_of_ne (Ne.symm ne)]
      rfl
  · intro g member
    rw [zero g, same g]
    exact inv.free g member
  · intro g used
    exact inv.used g fun none => used ((zero g).mpr none)
  · intro g
    rw [same g, zero g]
    exact inv.mid g
  · rw [mid]
    exact inv.once
  · intro g
    rw [ne_eq, zero g, same g]
    exact inv.cover g

variable [DecidableEq T]

theorem mid_update {t : T} {f : Nat} {stage : Freeing} (frame : stage.frame = f)
    (mid : s'.mid = Function.update s.mid t (some stage)) (idle : (s.mid t).map Freeing.frame = none ∨
      (s.mid t).map Freeing.frame = some f) (g : Nat) : s'.Mid g ↔ s.Mid g ∨ g = f := by
  constructor
  · rintro ⟨u, here⟩
    by_cases eq : u = t
    · rw [eq, mid, Function.update_self, Option.map_some, frame] at here
      exact Or.inr (Option.some.inj here).symm
    · rw [mid, Function.update_of_ne eq] at here
      exact Or.inl ⟨u, here⟩
  · rintro (⟨u, here⟩ | rfl)
    · by_cases eq : u = t
      · refine ⟨t, ?_⟩
        rw [mid, Function.update_self, Option.map_some, frame]
        rcases idle with none | same
        · rw [eq, none] at here
          cases here
        · rw [eq, same] at here
          exact here
      · exact ⟨u, by rw [mid, Function.update_of_ne eq]; exact here⟩
    · exact ⟨t, by rw [mid, Function.update_self, Option.map_some, frame]⟩

theorem fill (inv : KmemInv given l s) {t : T} {f : Nat} (at' : s.mid t = some (.fill f))
    (done : s.resume t = some s') : KmemInv given l s' := by
  unfold Kmem.resume at done
  rw [at'] at done
  obtain rfl := Option.some.inj done
  have middle : s.Mid f := ⟨t, by rw [at']; rfl⟩
  have mids := mid_update (s := s) (show (Freeing.push f).frame = f from rfl)
    (show ({ s.store f (.bytes fun _ => 1) with mid := Function.update s.mid t (some (.push f)) } : Kmem H T).mid =
      Function.update s.mid t (some (.push f)) from rfl) (Or.inr (by rw [at']; rfl))
  have same : ∀ g, ({ s.store f (.bytes fun _ => 1) with
      mid := Function.update s.mid t (some (.push f)) } : Kmem H T).Mid g ↔ s.Mid g := by
    intro g
    rw [mids g]
    constructor
    · rintro (old | rfl)
      · exact old
      · exact middle
    · exact Or.inl
  refine ⟨?_, inv.nodup, inv.count, ?_, inv.used, ?_, ?_, ?_⟩
  · refine inv.linked.congr ?_
    intro g free
    have ne : g ≠ f := by
      rintro rfl
      exact (inv.free g free).2.2 middle
    simp [Kmem.store, ne]
  · intro g free
    rw [same g]
    exact inv.free g free
  · intro g
    rw [same g]
    exact inv.mid g
  · intro u v g one two
    have back : ∀ w, ((Function.update s.mid t (some (.push f)) w).map Freeing.frame) =
        (s.mid w).map Freeing.frame := by
      intro w
      by_cases eq : w = t
      · rw [eq, Function.update_self, at']
        rfl
      · rw [Function.update_of_ne eq]
    exact inv.once u v g ((back u).symm.trans one) ((back v).symm.trans two)
  · intro g
    rw [same g]
    exact inv.cover g

theorem push (inv : KmemInv given l s) {t : T} {f : Nat} (at' : s.mid t = some (.push f))
    (done : s.resume t = some s') : KmemInv given (f :: l) s' := by
  unfold Kmem.resume at done
  rw [at'] at done
  obtain rfl := Option.some.inj done
  have middle : s.Mid f := ⟨t, by rw [at']; rfl⟩
  obtain ⟨mine, zero⟩ := inv.mid f middle
  have absent : f ∉ l := fun free => (inv.free f free).2.2 middle
  have mids : ∀ g, (∃ u, ((Function.update s.mid t none u).map Freeing.frame) = some g) ↔ s.Mid g ∧ g ≠ f := by
    intro g
    constructor
    · rintro ⟨u, here⟩
      have ne : u ≠ t := by
        rintro rfl
        rw [Function.update_self] at here
        cases here
      rw [Function.update_of_ne ne] at here
      refine ⟨⟨u, here⟩, ?_⟩
      rintro rfl
      exact ne (inv.once u t g here (by rw [at']; rfl))
    · rintro ⟨⟨u, here⟩, ne⟩
      refine ⟨u, ?_⟩
      rw [Function.update_of_ne]
      · exact here
      · rintro rfl
        rw [at'] at here
        exact ne (Option.some.inj here).symm
  refine ⟨⟨rfl, ?_⟩, List.nodup_cons.mpr ⟨absent, inv.nodup⟩, inv.count, ?_, inv.used, ?_, ?_, ?_⟩
  · have next : ((s.store f (.run s.freelist)).mem f).next = s.freelist := by simp [Kmem.store, Block.next]
    change LinkedQueue.Linked _ ((s.store f (.run s.freelist)).mem f).next l
    rw [next]
    refine inv.linked.congr ?_
    intro g free
    have ne : g ≠ f := by
      rintro rfl
      exact absent free
    simp [Kmem.store, ne]
  · intro g free
    unfold Kmem.Mid
    rw [mids g]
    rcases List.mem_cons.mp free with rfl | old
    · exact ⟨mine, zero, fun h => h.2 rfl⟩
    · obtain ⟨mine', zero', still⟩ := inv.free g old
      exact ⟨mine', zero', fun h => still h.1⟩
  · intro g middle'
    exact inv.mid g ((mids g).mp middle').1
  · intro u v g one two
    have back : ∀ w, ((Function.update s.mid t none w).map Freeing.frame) = some g →
        (s.mid w).map Freeing.frame = some g := by
      intro w here
      by_cases eq : w = t
      · rw [eq, Function.update_self] at here
        cases here
      · rw [Function.update_of_ne eq] at here
        exact here
    exact inv.once u v g (back u one) (back v two)
  · intro g mine'
    unfold Kmem.Mid
    rw [mids g]
    by_cases eq : g = f
    · rw [eq]
      exact Or.inl List.mem_cons_self
    · rcases inv.cover g mine' with free | used | old
      · exact Or.inl (List.mem_cons_of_mem f free)
      · exact Or.inr (Or.inl used)
      · exact Or.inr (Or.inr ⟨old, eq⟩)

variable [DecidableEq H]

theorem kfree [Layout] (inv : KmemInv given l s) {t : T} {h : H} {f : Nat} (member : (h, f) ∈ s.held)
    (idle : s.mid t = none) (done : s.kfree t h f = .ok s') : KmemInv given l s' := by
  obtain ⟨pos, freelist, mem, ref, held, mid⟩ := Kmem.kfree_ok done
  have off : ∀ g, g ≠ f → s'.ref g = s.ref g := fun g ne => by rw [ref, Function.update_of_ne ne]
  have here : s'.ref f = s.ref f - 1 := by rw [ref, Function.update_self]
  have perm := (List.perm_cons_erase member).map Prod.snd
  have gone : ∀ g ∈ l, g ≠ f := by
    rintro g free rfl
    exact pos (inv.free g free).2.1
  have mids : ∀ g, s'.Mid g ↔ s.Mid g ∨ g = f ∧ s.ref f = 1 := by
    intro g
    by_cases last : s.ref f = 1
    · rw [if_pos last] at mid
      rw [mid_update (show (Freeing.fill f).frame = f from rfl) mid (Or.inl (by rw [idle]; rfl)) g]
      simp [last]
    · rw [if_neg last] at mid
      unfold Kmem.Mid
      rw [mid]
      simp [last]
  refine ⟨?_, inv.nodup, ?_, ?_, ?_, ?_, ?_, ?_⟩
  · rw [freelist, mem]
    exact inv.linked
  · refine inv.recount ref ?_ ?_
    · have count := perm.count_eq f
      rw [List.map_cons, List.count_cons_self] at count
      rw [inv.count f, Kmem.refs, Kmem.refs, held, count]
      omega
    · intro g ne
      have count := perm.count_eq g
      rw [List.map_cons, List.count_cons_of_ne (Ne.symm ne)] at count
      rw [Kmem.refs, Kmem.refs, held, count]
  · intro g free
    have ne := gone g free
    rw [off g ne, mids g]
    obtain ⟨mine, zero, still⟩ := inv.free g free
    refine ⟨mine, zero, ?_⟩
    rintro (old | ⟨eq, -⟩)
    · exact still old
    · exact ne eq
  · intro g used
    by_cases eq : g = f
    · rw [eq]
      exact inv.used f pos
    · rw [off g eq] at used
      exact inv.used g used
  · intro g middle
    rcases (mids g).mp middle with old | ⟨rfl, last⟩
    · have ne : g ≠ f := by
        rintro rfl
        exact pos (inv.mid g old).2
      rw [off g ne]
      exact inv.mid g old
    · rw [here, last]
      exact ⟨inv.used g pos, rfl⟩
  · by_cases last : s.ref f = 1
    · rw [if_pos last] at mid
      have fresh : ∀ u, (s.mid u).map Freeing.frame ≠ some f := fun u old => pos (inv.mid f ⟨u, old⟩).2
      intro u v g one two
      by_cases eq : u = t
      · by_cases eq' : v = t
        · rw [eq, eq']
        · rw [eq, mid, Function.update_self] at one
          rw [mid, Function.update_of_ne eq'] at two
          cases one
          exact (fresh v two).elim
      · rw [mid, Function.update_of_ne eq] at one
        by_cases eq' : v = t
        · rw [eq', mid, Function.update_self] at two
          cases two
          exact (fresh u one).elim
        · rw [mid, Function.update_of_ne eq'] at two
          exact inv.once u v g one two
    · rw [if_neg last] at mid
      rw [mid]
      exact inv.once
  · intro g mine
    rw [mids g]
    by_cases eq : g = f
    · subst eq
      by_cases last : s.ref g = 1
      · exact Or.inr (Or.inr (Or.inr ⟨rfl, last⟩))
      · refine Or.inr (Or.inl ?_)
        rw [here]
        omega
    · rw [off g eq]
      rcases inv.cover g mine with free | used | middle
      · exact Or.inl free
      · exact Or.inr (Or.inl used)
      · exact Or.inr (Or.inr (Or.inl middle))

end KmemInv
end Xv6
