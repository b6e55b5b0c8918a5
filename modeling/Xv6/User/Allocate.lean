import Xv6.User.Heap

/-!
malloc on a heap that is in order: the search goes round the circle once, and once more over
what morecore has added; the block it returns is new.
-/
namespace Xv6.Umalloc

open Cyclic Spans

variable {h : Heap} {base top : Nat}

theorem takeUnits_asked (h : Heap) (n q p : Nat) (asked : List Int) : (takeUnits h n q p asked).asked = asked := by
  rw [takeUnits]
  split <;> rfl

theorem mallocLoop_found {n p : Nat} (large : n ≤ h.size p) (rounds : Nat) (answers : List (Option Nat))
    (asked : List Int) (prevp : Nat) :
    mallocLoop n (rounds + 1) h answers asked prevp p = some (takeUnits h n prevp p asked) := by
  rw [mallocLoop, if_pos large]

theorem mallocLoop_next {n p : Nat} (small : h.size p < n) (other : p ≠ h.freep) (rounds : Nat)
    (answers : List (Option Nat)) (asked : List Int) (prevp : Nat) :
    mallocLoop n (rounds + 1) h answers asked prevp p = mallocLoop n rounds h answers asked p (h.ptr p) := by
  rw [mallocLoop, if_neg (Nat.not_le_of_lt small), if_neg other]

/-- The search along the circle finds a node that is large enough, or is back at freep. -/
theorem mallocLoop_search {n prevp : Nat} {l : List Nat} (leads : Leads h.ptr (prevp :: l) h.freep) (away : h.freep ∉ l)
    (answers : List (Option Nat)) (asked : List Int) :
    (∃ q p, q ∈ prevp :: l ∧ p ∈ l ++ [h.freep] ∧ h.ptr q = p ∧ n ≤ h.size p ∧ ∀ k,
      mallocLoop n (l.length + 1 + k) h answers asked prevp (h.ptr prevp) = some (takeUnits h n q p asked)) ∨
    (∀ p ∈ l ++ [h.freep], h.size p < n) ∧ ∃ q, ∀ k,
      mallocLoop n (l.length + k) h answers asked prevp (h.ptr prevp) = mallocLoop n k h answers asked q h.freep := by
  induction l generalizing prevp with
  | nil =>
    have back : h.ptr prevp = h.freep := leads.1
    rw [back]
    by_cases large : n ≤ h.size h.freep
    · refine Or.inl ⟨prevp, h.freep, List.mem_cons_self, List.mem_cons_self, back, large, ?_⟩
      intro k
      rw [List.length_nil, Nat.zero_add, Nat.add_comm]
      exact mallocLoop_found large k answers asked prevp
    · refine Or.inr ⟨?_, prevp, ?_⟩
      · intro p mem
        rw [List.mem_singleton.mp mem]
        exact Nat.lt_of_not_le large
      · intro k
        rw [List.length_nil, Nat.zero_add]
  | cons x l ih =>
    have link : h.ptr prevp = x := leads.1
    rw [List.mem_cons, not_or] at away
    rw [link]
    by_cases large : n ≤ h.size x
    · refine Or.inl ⟨prevp, x, List.mem_cons_self, List.mem_cons_self, link, large, ?_⟩
      intro k
      have rounds : (x :: l).length + 1 + k = (l.length + 1 + k) + 1 := by
        rw [List.length_cons]
        omega
      rw [rounds]
      exact mallocLoop_found large _ answers asked prevp
    · have small := Nat.lt_of_not_le large
      have step := fun k => mallocLoop_next small (Ne.symm away.1) k answers asked prevp
      rcases ih leads.2 away.2 with ⟨q, p, before, here, next, enough, found⟩ | ⟨none, q, back⟩
      · refine Or.inl ⟨q, p, List.mem_cons_of_mem _ before, List.mem_cons_of_mem _ here, next, enough, ?_⟩
        intro k
        have rounds : (x :: l).length + 1 + k = (l.length + 1 + k) + 1 := by
          rw [List.length_cons]
          omega
        rw [rounds, step]
        exact found k
      · refine Or.inr ⟨?_, q, ?_⟩
        · intro p mem
          rcases List.mem_cons.mp mem with rfl | mem
          · exact small
          · exact none p mem
        · intro k
          have rounds : (x :: l).length + k = (l.length + k) + 1 := by
            rw [List.length_cons]
            omega
          rw [rounds, step]
          exact back k

structure Fresh (top n a : Nat) : Prop where
  aligned : a % 8 = 0
  above : top ≤ a
  inside : a + 8 * coreUnits n < WORD

theorem le_coreUnits (n : Nat) : n ≤ coreUnits n := by
  rw [coreUnits]
  split <;> omega

theorem coreUnits_pos (n : Nat) : 0 < coreUnits n := by
  rw [coreUnits]
  split <;> omega

namespace Inv
variable {bs live : List Span}

theorem grant {n a : Nat} (inv : Inv h base top bs live) (fresh : Fresh top n a) :
    Inv (h.setSize a (coreUnits n)) base (a + 8 * coreUnits n) bs (⟨a, a + 8 * coreUnits n⟩ :: live) := by
  have above := fresh.above
  have room := inv.room
  have some_ := coreUnits_pos n
  have free_low : ∀ c ∈ bs, c.lo < a := by
    intro c mem
    have placed := inv.frees c mem
    exact Nat.lt_of_lt_of_le placed.proper (Nat.le_trans placed.inside above)
  have node_low : ∀ c ∈ origin base :: bs, c.lo ≠ a := by
    intro c mem
    rcases List.mem_cons.mp mem with rfl | mem
    · show base ≠ a
      omega
    · exact Nat.ne_of_lt (free_low c mem)
  have live_low : ∀ m ∈ live, m.lo ≠ a := by
    intro m mem
    have placed := inv.lives m mem
    exact Nat.ne_of_lt (Nat.lt_of_lt_of_le placed.proper (Nat.le_trans placed.inside above))
  have higher : ∀ {b : Span}, Placed base top b → Placed base (a + 8 * coreUnits n) b := by
    intro b placed
    exact ⟨placed.aligned, placed.above, placed.proper, Nat.le_trans placed.inside (Nat.le_trans above (Nat.le_add_right _ _))⟩
  exact
    { shows := inv.shows.congr (fun _ _ => rfl) fun c mem => Function.update_of_ne (node_low c mem) ..
      rover := inv.rover
      spaced := inv.spaced
      sizes := by
        intro m mem
        show m.hi = m.lo + 8 * Function.update h.size a (coreUnits n) m.lo
        rcases List.mem_cons.mp mem with rfl | mem
        · rw [Function.update_self]
        · rw [Function.update_of_ne (live_low m mem)]
          exact inv.sizes m mem
      frees := fun c mem => higher (inv.frees c mem)
      lives := by
        intro m mem
        rcases List.mem_cons.mp mem with rfl | mem
        · exact ⟨fresh.aligned, Nat.le_trans room above, by show a < a + _; omega, Nat.le_refl _⟩
        · exact higher (inv.lives m mem)
      apart := by
        refine List.pairwise_cons.mpr ⟨?_, inv.apart⟩
        intro m mem
        exact Or.inr (Nat.le_trans (inv.lives m mem).inside above)
      clear := by
        intro m mem c listed
        rcases List.mem_cons.mp mem with rfl | mem
        · exact Or.inr (Nat.le_trans (inv.frees c listed).inside above)
        · exact inv.clear m mem c listed
      low := inv.low
      room := Nat.le_trans room (Nat.le_trans above (Nat.le_add_right _ _))
      high := fresh.inside }

theorem search (inv : Inv h base top bs live) (n : Nat) (answers : List (Option Nat)) (asked : List Int) :
    ∃ rounds, (∃ q p, q ∈ (origin base :: bs).map Span.lo ∧ p ∈ (origin base :: bs).map Span.lo ∧ h.ptr q = p ∧
        n ≤ h.size p ∧ ∀ k, mallocLoop n (rounds + 1 + k) h answers asked h.freep (h.ptr h.freep) =
          some (Umalloc.takeUnits h n q p asked)) ∨
      (∀ p ∈ (origin base :: bs).map Span.lo, h.size p < n) ∧ ∃ q, ∀ k,
        mallocLoop n (rounds + k) h answers asked h.freep (h.ptr h.freep) = mallocLoop n k h answers asked q h.freep := by
  obtain ⟨r, circle, perm⟩ := inv.shows.links.around inv.rover
  have away : h.freep ∉ r := (List.nodup_cons.mp (perm.nodup_iff.mpr inv.nodup)).1
  have turned : ∀ p, p ∈ r ++ [h.freep] ↔ p ∈ (origin base :: bs).map Span.lo := by
    intro p
    have same : p ∈ h.freep :: r ↔ p ∈ (origin base :: bs).map Span.lo := perm.mem_iff
    rw [← same, List.mem_append, List.mem_singleton, List.mem_cons, or_comm]
  refine ⟨r.length, ?_⟩
  rcases mallocLoop_search circle away answers asked with ⟨q, p, before, here, link, large, found⟩ | ⟨none, back⟩
  · exact Or.inl ⟨q, p, perm.mem_iff.mp before, (turned p).mp here, link, large, found⟩
  · exact Or.inr ⟨fun p mem => none p ((turned p).mpr mem), back⟩

end Inv

/-- The end of the memory after a call of malloc for n units: sbrk may have been called. -/
def extent (top : Nat) (got : Option Nat) (n : Nat) (asked : List Int) : Nat :=
  if asked = [] then top
  else match got with
    | none => top
    | some a => a + 8 * coreUnits n

theorem extent_nil (top : Nat) (got : Option Nat) (n : Nat) : extent top got n [] = top := if_pos rfl

/-- What malloc leaves: the heap as it was, or with one more block of n units. -/
def Served (base top n : Nat) (live : List Span) (o : Outcome) : Prop :=
  (o.p = 0 ∧ ∃ bs, Inv o.heap base top bs live) ∨
    ∃ b bs, o.p = plus b.lo 1 ∧ b.hi = b.lo + 8 * n ∧ Inv o.heap base top bs (b :: live)

namespace Inv
variable {bs live : List Span}

theorem search_finds {n : Nat} (inv : Inv h base top bs live) (some_ : 0 < n) {c : Span} (listed : c ∈ bs)
    (large : n ≤ h.size c.lo) (answers : List (Option Nat)) (asked : List Int) :
    ∃ rounds o, (∀ k, mallocLoop n (rounds + k) h answers asked h.freep (h.ptr h.freep) = some o) ∧ o.asked = asked ∧
      Served base top n live o := by
  obtain ⟨rounds, found | none⟩ := inv.search n answers asked
  · obtain ⟨q, p, before, here, link, enough, run⟩ := found
    obtain ⟨b, bs', result, size, inv'⟩ := inv.takeUnits asked before here link some_ enough
    exact ⟨rounds + 1, _, run, takeUnits_asked h n q p asked, Or.inr ⟨b, bs', result, size, inv'⟩⟩
  · have small := none.1 c.lo (List.mem_map_of_mem (List.mem_cons_of_mem _ listed))
    omega

theorem freep_ne (inv : Inv h base top bs live) : h.freep ≠ 0 := by
  obtain ⟨c, mem, same⟩ := List.mem_map.mp inv.rover
  have low := inv.node_low c mem
  have some_ := inv.low
  omega

theorem mallocLoop {n : Nat} (inv : Inv h base top bs live) (some_ : 0 < n) (answers : List (Option Nat))
    (fresh : ∀ a, answers.head?.join = some a → Fresh top n a) :
    ∃ rounds o, (∀ k, mallocLoop n (rounds + k) h answers [] h.freep (h.ptr h.freep) = some o) ∧
      Served base (extent top answers.head?.join n o.asked) n live o := by
  obtain ⟨rounds, found | none⟩ := inv.search n answers []
  · obtain ⟨q, p, before, here, link, enough, run⟩ := found
    obtain ⟨b, bs', result, size, inv'⟩ := inv.takeUnits [] before here link some_ enough
    refine ⟨rounds + 1, _, run, Or.inr ⟨b, bs', result, size, ?_⟩⟩
    rw [takeUnits_asked, extent_nil]
    exact inv'
  obtain ⟨small, q, back⟩ := none
  have full := Nat.not_le_of_lt (small h.freep inv.rover)
  cases got : answers.head?.join with
  | none =>
    refine ⟨rounds + 1, ⟨0, h, [coreBytes n]⟩, ?_, Or.inl ⟨rfl, bs, inv⟩⟩
    intro k
    rw [Nat.add_assoc, back, Nat.add_comm 1 k, Umalloc.mallocLoop, if_neg full, if_pos rfl, got]
    rfl
  | some a =>
    obtain ⟨h', bs', freed, inv', c, listed, lo, hi⟩ := (inv.grant (fresh a got)).free
    have large : n ≤ h'.size c.lo := by
      have size := inv'.shows.sizes c (List.mem_cons_of_mem _ listed)
      have units := le_coreUnits n
      have stop : a + 8 * coreUnits n ≤ c.hi := hi
      have start : c.lo ≤ a := lo
      omega
    obtain ⟨more, o, run, asked, served⟩ :=
      inv'.search_finds some_ listed large answers.tail ([] ++ [coreBytes n])
    refine ⟨rounds + 1 + (bs.length + 1) + more, o, ?_, ?_⟩
    · intro k
      have turns : rounds + 1 + (bs.length + 1) + more + k = rounds + ((more + (bs.length + 1 + k)) + 1) := by omega
      have core : morecore (more + (bs.length + 1 + k)) h n (some a) = some (h'.freep, h') := by
        rw [morecore, freed _ (by omega), Option.map_some]
      rw [turns, back, Umalloc.mallocLoop, if_neg full, if_pos rfl, got, core]
      simp only [if_neg inv'.freep_ne]
      exact run (bs.length + 1 + k)
    · rw [asked]
      exact served

theorem start (h : Heap) (low : 0 < base) (room : base + 8 ≤ top) (high : top < WORD) :
    Inv { (h.setPtr base base).setSize base 0 with freep := base } base top [] [] where
  shows := by
    refine ⟨⟨Function.update_self .., trivial⟩, ?_⟩
    intro b mem
    rw [List.mem_singleton.mp mem]
    show base = base + 8 * Function.update h.size base 0 base
    rw [Function.update_self, Nat.mul_zero, Nat.add_zero]
  rover := List.mem_cons_self
  spaced := List.pairwise_singleton ..
  sizes _ mem := nomatch mem
  frees _ mem := nomatch mem
  lives _ mem := nomatch mem
  apart := List.Pairwise.nil
  clear _ mem := nomatch mem
  low := low
  room := room
  high := high

end Inv

end Xv6.Umalloc
