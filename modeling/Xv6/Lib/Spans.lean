import Mathlib.Data.List.Basic

/-!
Lists of spans of addresses. `join` puts a span in front of a list and fuses it with the
first one where the two touch, so that a spaced list stays spaced.
-/
namespace Spans

/-- The addresses from lo up to hi, hi excluded. -/
structure Span where
  lo : Nat
  hi : Nat
  deriving DecidableEq

/-- a ends before b begins, with a gap in between. -/
def Before (a b : Span) : Prop := a.hi < b.lo

def Apart (a b : Span) : Prop := a.hi ≤ b.lo ∨ b.hi ≤ a.lo

theorem Apart.symm {a b : Span} (apart : Apart a b) : Apart b a := Or.symm apart

instance : Std.Symm Apart := ⟨fun _ _ apart => apart.symm⟩

theorem Apart.part {a b c : Span} (apart : Apart a b) (lo : b.lo ≤ c.lo) (hi : c.hi ≤ b.hi) : Apart a c := by
  simp only [Apart] at apart ⊢
  omega

def join (x : Span) : List Span → List Span
  | [] => [x]
  | y :: l => if x.hi = y.lo then ⟨x.lo, y.hi⟩ :: l else x :: y :: l

variable {x y m : Span} {l : List Span}


/-- What is true of x and of the list and survives fusing is true of the joined list. -/
theorem join_all {P : Span → Prop} (fuse : ∀ y z, P y → P z → y.hi = z.lo → P ⟨y.lo, z.hi⟩)
    (first : P x) (all : ∀ y ∈ l, P y) : ∀ b ∈ join x l, P b := by
  cases l with
  | nil =>
    intro b mem
    rw [List.mem_singleton.mp mem]
    exact first
  | cons y l =>
    have here := all y List.mem_cons_self
    intro b mem
    rw [join] at mem
    split at mem
    · rename_i touch
      rcases List.mem_cons.mp mem with rfl | mem
      · exact fuse x y first here touch
      · exact all b (List.mem_cons_of_mem y mem)
    · rcases List.mem_cons.mp mem with rfl | mem
      · exact first
      · exact all b mem

theorem join_spaced (spaced : l.Pairwise Before) (valid : ∀ y ∈ l, y.lo ≤ y.hi) (below : ∀ y ∈ l, x.hi ≤ y.lo) :
    (join x l).Pairwise Before := by
  cases l with
  | nil => exact List.pairwise_singleton Before x
  | cons y l =>
    obtain ⟨first, rest⟩ := List.pairwise_cons.mp spaced
    rw [join]
    split
    · exact List.pairwise_cons.mpr ⟨first, rest⟩
    · rename_i gap
      have here := below y List.mem_cons_self
      have order := valid y List.mem_cons_self
      refine List.pairwise_cons.mpr ⟨?_, spaced⟩
      intro z mem
      rcases List.mem_cons.mp mem with rfl | mem
      · exact Nat.lt_of_le_of_ne here gap
      · have behind : y.hi < z.lo := first z mem
        show x.hi < z.lo
        omega

theorem join_cons (x : Span) (l : List Span) : ∃ hi r, join x l = ⟨x.lo, hi⟩ :: r := by
  cases l with
  | nil => exact ⟨x.hi, [], rfl⟩
  | cons y l =>
    rw [join]
    split
    · exact ⟨y.hi, l, rfl⟩
    · exact ⟨x.hi, y :: l, rfl⟩

theorem join_apart (some_ : m.lo < m.hi) (first : Apart m x) (all : ∀ y ∈ l, Apart m y) : ∀ b ∈ join x l, Apart m b := by
  refine join_all ?_ first all
  intro y z left right touch
  simp only [Apart] at left right ⊢
  omega

/-- Nothing that was in a span is lost. -/
theorem join_covers (valid : ∀ y ∈ l, y.lo ≤ y.hi) (proper : x.lo ≤ x.hi) (old : y ∈ x :: l) :
    ∃ b ∈ join x l, b.lo ≤ y.lo ∧ y.hi ≤ b.hi := by
  cases l with
  | nil =>
    rw [List.mem_singleton.mp old]
    exact ⟨x, List.mem_cons_self, Nat.le_refl _, Nat.le_refl _⟩
  | cons z l =>
    have order := valid z List.mem_cons_self
    rw [join]
    split
    · rename_i touch
      simp only [List.mem_cons] at old
      rcases old with rfl | rfl | old
      · refine ⟨_, List.mem_cons_self, Nat.le_refl _, ?_⟩
        show y.hi ≤ z.hi
        omega
      · refine ⟨_, List.mem_cons_self, ?_, Nat.le_refl _⟩
        show x.lo ≤ y.lo
        omega
      · exact ⟨y, List.mem_cons_of_mem _ old, Nat.le_refl _, Nat.le_refl _⟩
    · exact ⟨y, old, Nat.le_refl _, Nat.le_refl _⟩

/-- Where a span belongs in a spaced list that it is apart from. -/
theorem place {b : Span} (spaced : (x :: l).Pairwise Before) (below : x.hi ≤ b.lo) (proper : ∀ y ∈ l, y.lo ≤ y.hi)
    (apart : ∀ y ∈ l, Apart b y) :
    ∃ front p rest, x :: l = front ++ p :: rest ∧ p.hi ≤ b.lo ∧ ∀ y ∈ rest, b.hi ≤ y.lo := by
  induction l generalizing x with
  | nil =>
    refine ⟨[], x, [], rfl, below, ?_⟩
    intro y mem
    cases mem
  | cons y l ih =>
    have tail := (List.pairwise_cons.mp spaced).2
    rcases apart y List.mem_cons_self with before | behind
    · refine ⟨[], x, y :: l, rfl, below, ?_⟩
      intro z mem
      rcases List.mem_cons.mp mem with rfl | mem
      · exact before
      · have gap : y.hi < z.lo := (List.pairwise_cons.mp tail).1 z mem
        have order := proper y List.mem_cons_self
        omega
    · obtain ⟨front, p, rest, same, low, high⟩ := ih tail behind (fun z mem => proper z (List.mem_cons_of_mem y mem))
        fun z mem => apart z (List.mem_cons_of_mem y mem)
      exact ⟨x :: front, p, rest, by rw [same, List.cons_append], low, high⟩

end Spans
