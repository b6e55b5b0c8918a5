import Mathlib.Logic.Function.Basic

/-!
Slots that store the numbers of resources, zero for none, and marks for the resources in
use. Marks and slots are exact when every number stored is one of the resources lo..hi-1,
is marked and is stored once, and every marked resource is stored somewhere.
-/
namespace Slots

variable {ι : Type} [DecidableEq ι]

structure Exact (lo hi : Nat) (used : Nat → Bool) (slot : ι → Nat) : Prop where
  positive : 0 < lo
  stored : ∀ x, slot x ≠ 0 → lo ≤ slot x ∧ slot x < hi ∧ used (slot x) = true
  once : ∀ x y, slot x ≠ 0 → slot x = slot y → x = y
  found : ∀ b, lo ≤ b → b < hi → used b = true → ∃ x, slot x = b

variable {lo hi b : Nat} {used : Nat → Bool} {slot : ι → Nat} {x : ι}

/-- A free resource is marked and stored in an empty slot. -/
theorem Exact.alloc (exact_ : Exact lo hi used slot) (below : lo ≤ b) (above : b < hi) (free : used b = false)
    (empty : slot x = 0) : Exact lo hi (Function.update used b true) (Function.update slot x b) where
  positive := exact_.positive
  stored y nonzero := by
    by_cases here : y = x
    · subst here
      simp [below, above]
    · rw [Function.update_of_ne here] at nonzero ⊢
      obtain ⟨low, high, marked⟩ := exact_.stored y nonzero
      refine ⟨low, high, ?_⟩
      rw [Function.update_of_ne]
      · exact marked
      · intro same
        rw [same, free] at marked
        cases marked
  once y z nonzero same := by
    -- no slot but x holds b, since b was not marked
    have other : ∀ y, slot y = b → b = 0 := by
      intro y same
      by_contra nonzero
      have marked := (exact_.stored y (by rw [same]; exact nonzero)).2.2
      rw [same, free] at marked
      cases marked
    by_cases here : y = x <;> by_cases there : z = x
    · rw [here, there]
    · subst here
      rw [Function.update_self, Function.update_of_ne there] at same
      rw [Function.update_self] at nonzero
      exact absurd (other z same.symm) nonzero
    · subst there
      rw [Function.update_of_ne here, Function.update_self] at same
      rw [Function.update_of_ne here, same] at nonzero
      exact absurd (other y same) nonzero
    · rw [Function.update_of_ne here, Function.update_of_ne there] at same
      rw [Function.update_of_ne here] at nonzero
      exact exact_.once y z nonzero same
  found c low high marked := by
    by_cases here : c = b
    · exact ⟨x, by rw [Function.update_self, here]⟩
    · rw [Function.update_of_ne here] at marked
      obtain ⟨y, same⟩ := exact_.found c low high marked
      refine ⟨y, ?_⟩
      rw [Function.update_of_ne, same]
      rintro rfl
      have positive := exact_.positive
      omega

/-- The mark of a stored resource is cleared together with its slot. -/
theorem Exact.free (exact_ : Exact lo hi used slot) (stored : slot x = b) (nonzero : b ≠ 0) :
    Exact lo hi (Function.update used b false) (Function.update slot x 0) where
  positive := exact_.positive
  stored y full := by
    have other : y ≠ x := by
      rintro rfl
      simp at full
    rw [Function.update_of_ne other] at full ⊢
    obtain ⟨low, high, marked⟩ := exact_.stored y full
    refine ⟨low, high, ?_⟩
    rw [Function.update_of_ne]
    · exact marked
    · intro same
      exact other (exact_.once y x full (same.trans stored.symm))
  once y z full same := by
    have other : ∀ y, Function.update slot x 0 y ≠ 0 → y ≠ x := by
      rintro y full rfl
      simp at full
    have here := other y full
    have there := other z (same ▸ full)
    rw [Function.update_of_ne here] at full
    rw [Function.update_of_ne here, Function.update_of_ne there] at same
    exact exact_.once y z full same
  found c low high marked := by
    have other : c ≠ b := by
      rintro rfl
      simp at marked
    rw [Function.update_of_ne other] at marked
    obtain ⟨y, same⟩ := exact_.found c low high marked
    refine ⟨y, ?_⟩
    rw [Function.update_of_ne, same]
    rintro rfl
    exact other (same.symm.trans stored)

end Slots
