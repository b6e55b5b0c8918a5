import Mathlib.Algebra.BigOperators.Group.Finset.Basic
import Mathlib.Algebra.Order.BigOperators.Group.Finset
import Mathlib.Data.Finset.Card

/-!
Counting references held in a family of tables. A table is named by an index in
`S`, its slots by `R`, and `target a b` is what slot `b` of table `a` refers to.
Only finitely many tables and slots are counted; everything else is arbitrary.
-/
namespace RefCount
variable {ι κ φ : Type} [DecidableEq φ]

def refsTo (S : Finset ι) (R : Finset κ) (target : ι → κ → Option φ) (f : φ) : Nat :=
  ∑ a ∈ S, (R.filter fun b => target a b = some f).card

theorem refs_eq_zero {S : Finset ι} {R : Finset κ} {target : ι → κ → Option φ} {f : φ} :
    refsTo S R target f = 0 ↔ ∀ a ∈ S, ∀ b ∈ R, target a b ≠ some f := by
  simp [refsTo, Finset.sum_eq_zero_iff, Finset.filter_eq_empty_iff]

theorem refs_pos {S : Finset ι} {R : Finset κ} {target : ι → κ → Option φ} {f : φ}
    {a : ι} {b : κ} (ha : a ∈ S) (hb : b ∈ R) (h : target a b = some f) :
    0 < refsTo S R target f := by
  rcases Nat.eq_zero_or_pos (refsTo S R target f) with zero | pos
  · exact absurd h (refs_eq_zero.mp zero a ha b hb)
  · exact pos

theorem exists_of_refs_pos {S : Finset ι} {R : Finset κ} {target : ι → κ → Option φ} {f : φ}
    (h : 0 < refsTo S R target f) : ∃ a ∈ S, ∃ b ∈ R, target a b = some f := by
  by_contra none
  push Not at none
  exact absurd (refs_eq_zero.mpr none) (Nat.ne_of_gt h)

theorem refs_congr {S : Finset ι} {R : Finset κ} {target target' : ι → κ → Option φ}
    (same : ∀ a ∈ S, ∀ b ∈ R, target' a b = target a b) (f : φ) :
    refsTo S R target' f = refsTo S R target f := by
  refine Finset.sum_congr rfl fun a ha => ?_
  congr 1
  refine Finset.filter_congr fun b hb => ?_
  rw [same a ha b hb]

/-- One table changes: the count of every target moves by the slots of that table. -/
theorem refs_row [DecidableEq ι] {S : Finset ι} {R : Finset κ} {target target' : ι → κ → Option φ} {a₀ : ι}
    (ha : a₀ ∈ S) (same : ∀ a ∈ S, a ≠ a₀ → ∀ b ∈ R, target' a b = target a b) (f : φ) :
    refsTo S R target' f + (R.filter fun b => target a₀ b = some f).card =
      refsTo S R target f + (R.filter fun b => target' a₀ b = some f).card := by
  have others : ∑ a ∈ S.erase a₀, (R.filter fun b => target' a b = some f).card =
      ∑ a ∈ S.erase a₀, (R.filter fun b => target a b = some f).card :=
    refs_congr (fun a ha' b hb => same a (Finset.mem_of_mem_erase ha') (Finset.ne_of_mem_erase ha') b hb) f
  simp only [refsTo]
  rw [← Finset.add_sum_erase S _ ha, ← Finset.add_sum_erase S _ ha, others]
  omega

/-- One slot changes: the count of every target moves by exactly that slot. -/
theorem refs_update [DecidableEq ι] [DecidableEq κ] {S : Finset ι} {R : Finset κ} {target target' : ι → κ → Option φ}
    {a₀ : ι} {b₀ : κ} (ha : a₀ ∈ S) (hb : b₀ ∈ R)
    (same : ∀ a ∈ S, ∀ b ∈ R, (a ≠ a₀ ∨ b ≠ b₀) → target' a b = target a b) (f : φ) :
    refsTo S R target' f + (if target a₀ b₀ = some f then 1 else 0) =
      refsTo S R target f + (if target' a₀ b₀ = some f then 1 else 0) := by
  have slot : ∀ t : ι → κ → Option φ, (R.filter fun b => t a₀ b = some f).card =
      ((R.erase b₀).filter fun b => t a₀ b = some f).card +
        (if t a₀ b₀ = some f then 1 else 0) := by
    intro t
    rw [← Finset.insert_erase hb, Finset.filter_insert]
    split
    · rw [Finset.card_insert_of_notMem (by simp)]
      simp
    · simp
  have rest : ((R.erase b₀).filter fun b => target' a₀ b = some f) =
      (R.erase b₀).filter fun b => target a₀ b = some f := by
    refine Finset.filter_congr fun b hb' => ?_
    rw [same a₀ ha b (Finset.mem_of_mem_erase hb') (Or.inr (Finset.ne_of_mem_erase hb'))]
  have row := refs_row ha (fun a ha' other b hb' => same a ha' b hb' (Or.inl other)) f
  rw [slot target, slot target', rest] at row
  omega

theorem refs_insert [DecidableEq ι] {S : Finset ι} {R : Finset κ} {target : ι → κ → Option φ} {a : ι}
    (new : a ∉ S) (f : φ) :
    refsTo (insert a S) R target f =
      (R.filter fun b => target a b = some f).card + refsTo S R target f := by
  simp [refsTo, Finset.sum_insert new]

/-- Adding or removing a table without references changes no count. -/
theorem refs_insert_empty [DecidableEq ι] {S : Finset ι} {R : Finset κ} {target : ι → κ → Option φ} {a : ι}
    (empty : ∀ b ∈ R, target a b = none) (f : φ) :
    refsTo (insert a S) R target f = refsTo S R target f := by
  by_cases member : a ∈ S
  · rw [Finset.insert_eq_of_mem member]
  · rw [refs_insert member, Finset.filter_eq_empty_iff.mpr]
    · simp
    · intro b hb
      simp [empty b hb]

theorem refs_erase_empty [DecidableEq ι] {S : Finset ι} {R : Finset κ} {target : ι → κ → Option φ} {a : ι}
    (empty : ∀ b ∈ R, target a b = none) (f : φ) :
    refsTo (S.erase a) R target f = refsTo S R target f := by
  by_cases member : a ∈ S
  · rw [← refs_insert_empty (S := S.erase a) empty f, Finset.insert_erase member]
  · rw [Finset.erase_eq_of_notMem member]

/-- At most one reference in all: two slots with the same target are one slot. -/
theorem refs_unique [DecidableEq ι] {S : Finset ι} {R : Finset κ} {target : ι → κ → Option φ} {f : φ}
    (once : refsTo S R target f ≤ 1) {a a' : ι} {b b' : κ} (ha : a ∈ S) (ha' : a' ∈ S)
    (hb : b ∈ R) (hb' : b' ∈ R) (h : target a b = some f) (h' : target a' b' = some f) :
    a = a' ∧ b = b' := by
  have here : 0 < (R.filter fun b => target a b = some f).card :=
    Finset.card_pos.mpr ⟨b, by simp [hb, h]⟩
  have split := Finset.add_sum_erase S (fun a => (R.filter fun b => target a b = some f).card) ha
  simp only [refsTo] at once
  have same : a = a' := by
    by_contra ne
    have there : 0 < refsTo (S.erase a) R target f :=
      refs_pos (Finset.mem_erase.mpr ⟨Ne.symm ne, ha'⟩) hb' h'
    simp only [refsTo] at there
    omega
  subst same
  have le : (R.filter fun b => target a b = some f).card ≤ 1 := by omega
  exact ⟨rfl, Finset.card_le_one.mp le b (by simp [hb, h]) b' (by simp [hb', h'])⟩

/-- If each table refers to `f` at most once, the count is at most the number of tables. -/
theorem refs_le_card {S : Finset ι} {R : Finset κ} {target : ι → κ → Option φ} {f : φ}
    (once : ∀ a ∈ S, ∀ b ∈ R, ∀ b' ∈ R, target a b = some f → target a b' = some f → b = b') :
    refsTo S R target f ≤ S.card := by
  have rows : ∀ a ∈ S, (R.filter fun b => target a b = some f).card ≤ 1 := by
    intro a ha
    refine Finset.card_le_one.mpr fun b hb b' hb' => ?_
    simp only [Finset.mem_filter] at hb hb'
    exact once a ha b hb.1 b' hb'.1 hb.2 hb'.2
  simpa [refsTo] using Finset.sum_le_card_nsmul S _ 1 rows

end RefCount
