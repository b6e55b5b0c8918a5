import Mathlib.Data.List.Pairwise
import Mathlib.Logic.Relation
import Xv6.User.Allocate

/-!
Programs that call malloc and free in any order and write into the blocks they hold. sbrk
fails or gives memory above all that it has given before.
-/
namespace Xv6.Umalloc

open Cyclic Spans

/-- A function with a bound on its rounds returns x once the bound is high enough. -/
def Ends {α : Type} (f : Nat → Option α) (x : α) : Prop := ∃ rounds, ∀ k, f (rounds + k) = some x

theorem Ends.unique {α : Type} {f : Nat → Option α} {x y : α} (left : Ends f x) (right : Ends f y) : x = y := by
  obtain ⟨m, first⟩ := left
  obtain ⟨n, second⟩ := right
  have both := first n
  rw [Nat.add_comm, second m] at both
  exact (Option.some.inj both).symm

/-- live are the blocks that malloc has returned and that have not been freed, from their
    headers to their ends; top is where the memory ends. -/
structure Program where
  heap : Heap
  top : Nat
  live : List Span

/-- The unit count and the byte count of a request do not wrap. -/
structure Small (nbytes : Nat) : Prop where
  units : nbytes + 7 < WORD
  bytes : 8 * coreUnits (unitsFor nbytes) < WORD

/-- The block of a pointer that malloc has returned, by its header. -/
def Outcome.block (o : Outcome) : Span := ⟨o.p - 8, o.p - 8 + 8 * o.heap.size (o.p - 8)⟩

inductive Step (base : Nat) : Program → Program → Prop
  | malloc {s : Program} {nbytes : Nat} {got : Option Nat} {o : Outcome} (small : Small nbytes)
      (fresh : ∀ a, got = some a → Fresh s.top (unitsFor nbytes) a)
      (done : Ends (fun rounds => malloc base rounds s.heap [got] nbytes) o) :
      Step base s ⟨o.heap, extent s.top got (unitsFor nbytes) o.asked, if o.p = 0 then s.live else o.block :: s.live⟩
  | free {s : Program} {b : Span} {h : Heap} (live : b ∈ s.live)
      (done : Ends (fun rounds => free rounds s.heap (plus b.lo 1)) h) : Step base s ⟨h, s.top, s.live.erase b⟩
  /-- a write into a block behind its header, or into memory that sbrk has not given -/
  | write {s : Program} {a x y : Nat}
      (owned : (∃ b ∈ s.live, b.lo + 8 ≤ a ∧ a < b.hi) ∨ s.top ≤ a) :
      Step base s ⟨(s.heap.setPtr a x).setSize a y, s.top, s.live⟩

/-- Before the first call there is no list; from then on it is in order. -/
def Good (base : Nat) (s : Program) : Prop :=
  (s.heap.freep = 0 ∧ s.live = [] ∧ 0 < base ∧ base + 8 ≤ s.top ∧ s.top < WORD) ∨ ∃ bs, Inv s.heap base s.top bs s.live

variable {base : Nat} {s : Program}

theorem unitsFor_pos (nbytes : Nat) : 0 < unitsFor nbytes := Nat.succ_pos _

theorem unitsFor_large {nbytes : Nat} (units : nbytes + 7 < WORD) : nbytes + 8 ≤ 8 * unitsFor nbytes := by
  rw [unitsFor, Nat.mod_eq_of_lt units]
  omega

theorem Good.ready (good : Good base s) : ∃ bs, Inv (ready base s.heap) base s.top bs s.live := by
  rcases good with ⟨unused, none, low, room, high⟩ | ⟨bs, inv⟩
  · rw [Umalloc.ready, if_pos unused, none]
    exact ⟨[], Inv.start s.heap low room high⟩
  · rw [Umalloc.ready, if_neg inv.freep_ne]
    exact ⟨bs, inv⟩

theorem Good.malloc (good : Good base s) {nbytes : Nat} {got : Option Nat}
    (fresh : ∀ a, got = some a → Fresh s.top (unitsFor nbytes) a) :
    ∃ o, Ends (fun rounds => malloc base rounds s.heap [got] nbytes) o ∧
      Served base (extent s.top got (unitsFor nbytes) o.asked) (unitsFor nbytes) s.live o := by
  obtain ⟨bs, inv⟩ := good.ready
  obtain ⟨rounds, o, run, served⟩ := inv.mallocLoop (unitsFor_pos nbytes) [got] fresh
  exact ⟨o, ⟨rounds, run⟩, served⟩

theorem Good.free (good : Good base s) {b : Span} (live : b ∈ s.live) :
    ∃ h, Ends (fun rounds => Umalloc.free rounds s.heap (plus b.lo 1)) h ∧
      ∃ bs, Inv h base s.top bs (s.live.erase b) := by
  rcases good with ⟨_, none, _⟩ | ⟨bs, inv⟩
  · rw [none] at live
    cases live
  · have first := inv.perm (List.perm_cons_erase live)
    obtain ⟨h, bs', run, inv', _⟩ := first.free
    exact ⟨h, ⟨bs.length + 1, fun k => run _ (by omega)⟩, bs', inv'⟩

theorem Inv.block {top n : Nat} {bs live : List Span} {o : Outcome} {b : Span}
    (inv : Inv o.heap base top bs (b :: live)) (result : o.p = plus b.lo 1) (size : b.hi = b.lo + 8 * n) :
    o.p ≠ 0 ∧ o.p % 8 = 0 ∧ o.block = b ∧ o.heap.size (o.p - 8) = n := by
  have placed := inv.lives b List.mem_cons_self
  have proper := placed.proper
  have inside := placed.inside
  have aligned := placed.aligned
  have high := inv.high
  have units := inv.sizes b List.mem_cons_self
  have pointer : o.p = b.lo + 8 := by
    rw [result, plus, Nat.mod_eq_of_lt (by omega)]
  have header : o.p - 8 = b.lo := by omega
  refine ⟨by omega, by omega, ?_, ?_⟩
  · rw [Outcome.block, header, ← units]
  · rw [header]
    omega

theorem Inv.write {h : Heap} {top a : Nat} {bs live : List Span} (inv : Inv h base top bs live) (x y : Nat)
    (owned : (∃ b ∈ live, b.lo + 8 ≤ a ∧ a < b.hi) ∨ top ≤ a) :
    Inv ((h.setPtr a x).setSize a y) base top bs live := by
  have node : ∀ c ∈ origin base :: bs, c.lo ≠ a := by
    intro c mem
    rcases List.mem_cons.mp mem with rfl | mem
    · have room := inv.room
      show base ≠ a
      rcases owned with ⟨b, mem, lo, _⟩ | high
      · have above := (inv.lives b mem).above
        omega
      · omega
    · have placed := inv.frees c mem
      have proper := placed.proper
      have inside := placed.inside
      rcases owned with ⟨b, live, lo, hi⟩ | high
      · have apart := inv.clear b live c mem
        simp only [Spans.Apart] at apart
        omega
      · omega
  have other : ∀ m ∈ live, m.lo ≠ a := by
    intro m mem
    have placed := inv.lives m mem
    have proper := placed.proper
    have inside := placed.inside
    rcases owned with ⟨b, there, lo, hi⟩ | high
    · by_cases same : m = b
      · rw [same]
        omega
      · have apart := inv.apart.forall mem there same
        simp only [Spans.Apart] at apart
        omega
    · omega
  exact
    { inv with
      shows := inv.shows.congr (fun c mem => Function.update_of_ne (node c mem) ..)
        fun c mem => Function.update_of_ne (node c mem) ..
      sizes := by
        intro m mem
        show m.hi = m.lo + 8 * Function.update h.size a y m.lo
        rw [Function.update_of_ne (other m mem)]
        exact inv.sizes m mem }

theorem Good.step {s' : Program} (good : Good base s) (step : Step base s s') : Good base s' := by
  cases step with
  | malloc small fresh done =>
    obtain ⟨o, ends, served⟩ := good.malloc fresh
    cases done.unique ends
    rcases served with ⟨failed, bs, inv⟩ | ⟨b, bs, result, size, inv⟩
    · refine Or.inr ⟨bs, ?_⟩
      rw [if_pos failed]
      exact inv
    · obtain ⟨nonzero, _, block, _⟩ := inv.block result size
      refine Or.inr ⟨bs, ?_⟩
      rw [if_neg nonzero, block]
      exact inv
  | free live done =>
    obtain ⟨h, ends, bs, inv⟩ := good.free live
    cases done.unique ends
    exact Or.inr ⟨bs, inv⟩
  | write owned =>
    rcases good with ⟨unused, none, low, room, high⟩ | ⟨bs, inv⟩
    · exact Or.inl ⟨unused, none, low, room, high⟩
    · exact Or.inr ⟨bs, inv.write _ _ owned⟩

/-- In every state that malloc, free and writes into blocks can reach, the list is in order;
    malloc returns, with a new block that is large enough or with 0, and free returns. -/
theorem heap_integrity {start : Nat} {h : Heap} (low : 0 < base) (room : base + 8 ≤ start) (high : start < WORD)
    (unused : h.freep = 0) (reach : Relation.ReflTransGen (Step base) ⟨h, start, []⟩ s) :
    (s.heap.freep = 0 ∧ s.live = [] ∨ ∃ bs, Inv s.heap base s.top bs s.live) ∧
    (∀ nbytes got, Small nbytes → (∀ a, got = some a → Fresh s.top (unitsFor nbytes) a) →
      ∃ o, Ends (fun rounds => malloc base rounds s.heap [got] nbytes) o ∧
        (o.p = 0 ∨ o.p % 8 = 0 ∧ nbytes + 8 ≤ 8 * o.heap.size (o.p - 8) ∧ ∀ b ∈ s.live, Spans.Apart o.block b)) ∧
    ∀ b ∈ s.live, ∃ h', Ends (fun rounds => free rounds s.heap (plus b.lo 1)) h' := by
  have good : Good base s := by
    induction reach with
    | refl => exact Or.inl ⟨unused, rfl, low, room, high⟩
    | tail _ step ih => exact ih.step step
  refine ⟨?_, ?_, ?_⟩
  · rcases good with ⟨first, none, _⟩ | ordered
    · exact Or.inl ⟨first, none⟩
    · exact Or.inr ordered
  · intro nbytes got small fresh
    obtain ⟨o, ends, served⟩ := good.malloc fresh
    refine ⟨o, ends, ?_⟩
    rcases served with ⟨failed, _⟩ | ⟨b, bs, result, size, inv⟩
    · exact Or.inl failed
    · obtain ⟨_, aligned, block, units⟩ := inv.block result size
      refine Or.inr ⟨aligned, ?_, ?_⟩
      · rw [units]
        exact unitsFor_large small.units
      · rw [block]
        exact (List.pairwise_cons.mp inv.apart).1
  · intro b live
    obtain ⟨h', ends, _⟩ := good.free live
    exact ⟨h', ends⟩

def blank : Heap := ⟨fun _ => 0, fun _ => 0, 0⟩

/-- The first block of a program, from the end of what sbrk gives at 8192. -/
def firstBlock : Outcome := (malloc 4096 6 blank [some 8192] 100).getD ⟨0, blank, []⟩

theorem firstBlock_ends : Ends (fun rounds => malloc 4096 rounds blank [some 8192] 100) firstBlock := by
  refine ⟨6, ?_⟩
  intro k
  show malloc 4096 (6 + k) blank [some 8192] 100 = some firstBlock
  rw [Nat.add_comm]
  rfl

theorem heap_integrity_block : ∃ s, s.live = [⟨40848, 40960⟩] ∧
    Relation.ReflTransGen (Step 4096) ⟨blank, 8192, []⟩ s ∧ (∃ bs, Inv s.heap 4096 s.top bs s.live) ∧
    ∃ h', Ends (fun rounds => free rounds s.heap (plus 40848 1)) h' := by
  have fresh : ∀ a, some 8192 = some a → Fresh 8192 (unitsFor 100) a := by
    intro a given
    cases given
    exact ⟨by decide, by decide, by decide⟩
  have reach : Relation.ReflTransGen (Step 4096) ⟨blank, 8192, []⟩ _ :=
    Relation.ReflTransGen.single (Step.malloc ⟨by decide, by decide⟩ fresh firstBlock_ends)
  obtain ⟨order, _, frees⟩ := heap_integrity (by decide) (by decide) (by decide) rfl reach
  refine ⟨_, by decide, reach, ?_, frees ⟨40848, 40960⟩ (by decide)⟩
  rcases order with ⟨unused, _⟩ | ordered
  · exact absurd unused (by decide)
  · exact ordered

theorem coreBytes_eq {nbytes : Nat} (limit : nbytes ≤ 2147483632) :
    coreBytes (unitsFor nbytes) = (8 * coreUnits (unitsFor nbytes) : Nat) := by
  have units : unitsFor nbytes ≤ 268435455 := by
    rw [unitsFor]
    simp only [WORD]
    omega
  have bytes : coreUnits (unitsFor nbytes) * 8 < WORD / 2 := by
    simp only [coreUnits, WORD]
    split <;> omega
  have word : coreUnits (unitsFor nbytes) * 8 % WORD = coreUnits (unitsFor nbytes) * 8 :=
    Nat.mod_eq_of_lt (Nat.lt_of_lt_of_le bytes (by decide))
  rw [coreBytes, word, int, if_pos bytes, Nat.mul_comm]

end Xv6.Umalloc
