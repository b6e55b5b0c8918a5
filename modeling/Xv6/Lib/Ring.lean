import Mathlib.Data.List.Basic
import Mathlib.Data.Nat.ModEq
import Mathlib.Logic.Function.Basic

/-!
Ring buffers with free-running indices. Indices count modulo M, a multiple of the
capacity, and index i uses the cell i % cap. `Holds` relates the cells from the read
index on to the list of items in the buffer.
-/
namespace Ring

variable {α : Type} {cap M : Nat} {data : Nat → α} {r : Nat} {xs : List α}

/-- Indices of 32 bits. -/
def UINT : Nat := 4294967296

/-- The cells from index r on hold xs. -/
def Holds (cap M : Nat) (data : Nat → α) (r : Nat) (xs : List α) : Prop :=
  ∀ k x, xs[k]? = some x → data ((r + k) % M % cap) = x

/-- Indices less than cap apart use different cells. -/
theorem cell_ne (dvd : cap ∣ M) {i j : Nat} (less : i < j) (near : j < i + cap) : i % M % cap ≠ j % M % cap := by
  rw [Nat.mod_mod_of_dvd i dvd, Nat.mod_mod_of_dvd j dvd]
  intro same
  have far : cap ∣ j - i := (Nat.modEq_iff_dvd' (Nat.le_of_lt less)).mp same
  have := Nat.le_of_dvd (by omega) far
  omega

theorem Holds.nil : Holds cap M data r [] := by
  intro k x item
  cases item

theorem Holds.push (holds : Holds cap M data r xs) (dvd : cap ∣ M) (room : xs.length < cap) (x : α) :
    Holds cap M (Function.update data ((r + xs.length) % M % cap) x) r (xs ++ [x]) := by
  intro k y item
  by_cases last : k = xs.length
  · subst last
    rw [List.getElem?_concat_length] at item
    cases item
    rw [Function.update_self]
  · obtain ⟨bound, -⟩ := List.getElem?_eq_some_iff.mp item
    rw [List.length_append, List.length_singleton] at bound
    have less : k < xs.length := by omega
    rw [List.getElem?_append_left less] at item
    rw [Function.update_of_ne (cell_ne dvd (by omega) (by omega))]
    exact holds k y item

theorem Holds.head {x : α} (holds : Holds cap M data r (x :: xs)) : data (r % M % cap) = x :=
  holds 0 x rfl

theorem Holds.tail {x : α} (holds : Holds cap M data r (x :: xs)) : Holds cap M data ((r + 1) % M) xs := by
  intro k y item
  rw [Nat.mod_add_mod, show r + 1 + k = r + (k + 1) by omega]
  exact holds (k + 1) y item

theorem Holds.take (holds : Holds cap M data r xs) (n : Nat) : Holds cap M data r (xs.take n) := by
  intro k x item
  refine holds k x ?_
  obtain ⟨bound, -⟩ := List.getElem?_eq_some_iff.mp item
  rw [List.length_take] at bound
  rwa [List.getElem?_take_of_lt (by omega)] at item

/-- The distance between two indices, as the machine computes it. -/
theorem distance {n : Nat} (low : r < M) (less : n < M) : ((r + n) % M + M - r) % M = n := by
  rcases Nat.lt_or_ge (r + n) M with small | large
  · rw [Nat.mod_eq_of_lt small, show r + n + M - r = n + M by omega, Nat.add_mod_right, Nat.mod_eq_of_lt less]
  · have wrapped : (r + n) % M = r + n - M := by
      rw [Nat.mod_eq_sub_mod large, Nat.mod_eq_of_lt (by omega)]
    rw [wrapped, show r + n - M + M - r = n by omega, Nat.mod_eq_of_lt less]

/-- Indices at different distances from r differ. -/
theorem index_inj {m n : Nat} (low : r < M) (lessm : m < M) (lessn : n < M) (same : (r + m) % M = (r + n) % M) :
    m = n := by
  rw [← distance low lessm, same, distance low lessn]

end Ring
