import Mathlib.Logic.Basic

/-!
Pre- and postconditions of computations that may fail. `Returns` says that a computation
returns, with a result that meets the postcondition; `Ensures` says it of its result only;
`Meets` has a second postcondition for the errors.
-/
namespace Runs

variable {ε α β : Type}

def Returns (r : Except ε α) (post : α → Prop) : Prop := ∃ a, r = .ok a ∧ post a

def Ensures (r : Except ε α) (post : α → Prop) : Prop := ∀ a, r = .ok a → post a

/-- Why a computation fails. -/
def failure : Except ε α → Option ε
  | .ok _ => none
  | .error e => some e

theorem eq_error {r : Except ε α} {e : ε} (fails : failure r = some e) : r = .error e := by
  cases r with
  | ok a => cases fails
  | error e' =>
    cases fails
    rfl

theorem Returns.ok {a : α} {post : α → Prop} (holds : post a) : Returns (.ok a : Except ε α) post := ⟨a, rfl, holds⟩

theorem Returns.bind {r : Except ε α} {f : α → Except ε β} {mid : α → Prop} {post : β → Prop}
    (first : Returns r mid) (then_ : ∀ a, mid a → Returns (f a) post) : Returns (r >>= f) post := by
  obtain ⟨a, rfl, holds⟩ := first
  exact then_ a holds

theorem Returns.bind_error {r : Except ε α} {f : α → Except ε β} {mid : α → Prop} {e : ε}
    (first : Returns r mid) (fails : ∀ a, mid a → f a = .error e) : (r >>= f) = .error e := by
  obtain ⟨a, rfl, holds⟩ := first
  exact fails a holds

theorem Returns.mono {r : Except ε α} {post post' : α → Prop} (returns : Returns r post)
    (weaker : ∀ a, post a → post' a) : Returns r post' := by
  obtain ⟨a, result, holds⟩ := returns
  exact ⟨a, result, weaker a holds⟩

theorem Ensures.ok {a : α} {post : α → Prop} (holds : post a) : Ensures (.ok a : Except ε α) post := by
  intro b same
  cases same
  exact holds

theorem Ensures.error {e : ε} {post : α → Prop} : Ensures (.error e) post := by
  intro b same
  cases same

theorem Ensures.bind {r : Except ε α} {f : α → Except ε β} {mid : α → Prop} {post : β → Prop}
    (first : Ensures r mid) (then_ : ∀ a, mid a → Ensures (f a) post) : Ensures (r >>= f) post := by
  intro b done
  cases result : r with
  | error e =>
    rw [result] at done
    cases done
  | ok a =>
    rw [result] at done
    exact then_ a (first a result) b done

theorem Ensures.mono {r : Except ε α} {post post' : α → Prop} (ensures : Ensures r post)
    (weaker : ∀ a, post a → post' a) : Ensures r post' :=
  fun a result => weaker a (ensures a result)

def Meets (r : Except ε α) (post : α → Prop) (fail : ε → Prop) : Prop :=
  match r with
  | .ok a => post a
  | .error e => fail e

theorem Meets.bind {r : Except ε α} {f : α → Except ε β} {mid : α → Prop} {post : β → Prop} {fail : ε → Prop}
    (first : Meets r mid fail) (then_ : ∀ a, mid a → Meets (f a) post fail) : Meets (r >>= f) post fail := by
  cases r with
  | error e => exact first
  | ok a => exact then_ a first

theorem Meets.mono {r : Except ε α} {post post' : α → Prop} {fail fail' : ε → Prop} (meets : Meets r post fail)
    (weaker : ∀ a, post a → post' a) (weaker' : ∀ e, fail e → fail' e) : Meets r post' fail' := by
  cases r with
  | error e => exact weaker' e meets
  | ok a => exact weaker a meets

/-- The errors of a part are errors of the whole. -/
theorem Meets.mapError {ε' : Type} {r : Except ε α} {post : α → Prop} {fail : ε → Prop} {fail' : ε' → Prop}
    {f : ε → ε'} (meets : Meets r post fail) (within : ∀ e, fail e → fail' (f e)) :
    Meets (r.mapError f) post fail' := by
  cases r with
  | error e => exact within e meets
  | ok a => exact meets

theorem Meets.of_ensures {r : Except ε α} {post : α → Prop} (ensures : Ensures r post) :
    Meets r post fun _ => True := by
  cases r with
  | error e => exact trivial
  | ok a => exact ensures a rfl

theorem Returns.meets {r : Except ε α} {post : α → Prop} (returns : Returns r post) :
    Meets r post fun _ => False := by
  obtain ⟨a, rfl, holds⟩ := returns
  exact holds

theorem Meets.ensures {r : Except ε α} {post : α → Prop} {fail : ε → Prop} (meets : Meets r post fail) :
    Ensures r post := by
  rintro a rfl
  exact meets

theorem Meets.returns {r : Except ε α} {post : α → Prop} {fail : ε → Prop} (meets : Meets r post fail)
    (never : ∀ e, ¬ fail e) : Returns r post := by
  cases r with
  | error e => exact absurd meets (never e)
  | ok a => exact ⟨a, rfl, meets⟩

end Runs
