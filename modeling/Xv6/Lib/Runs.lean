import Mathlib.Logic.Relation

/-!
Runs of a transition function with actions. A step is taken when the function
returns a state and the action meets a guard; safety is proved one step at a time.
-/
namespace Runs

variable {σ α ε : Type}

theorem bind_eq_ok {β : Type} {r : Except ε α} {f : α → Except ε β} {b : β} (h : (r >>= f) = .ok b) :
    ∃ a, r = .ok a ∧ f a = .ok b := by
  cases r with
  | error e => cases h
  | ok a => exact ⟨a, rfl, h⟩

/-- s' follows s by some action that the guard admits. -/
def Step (step : σ → α → Except ε σ) (guard : σ → α → Prop) (s s' : σ) : Prop :=
  ∃ a, guard s a ∧ step s a = .ok s'

/-- Reachable from an initial state by admitted steps. -/
def Reachable (init : σ → Prop) (step : σ → α → Except ε σ) (guard : σ → α → Prop) (s : σ) : Prop :=
  ∃ s₀, init s₀ ∧ Relation.ReflTransGen (Step step guard) s₀ s

theorem Reachable.invariant {init : σ → Prop} {step : σ → α → Except ε σ} {guard : σ → α → Prop}
    {P : σ → Prop} (start : ∀ s, init s → P s)
    (next : ∀ s a s', P s → guard s a → step s a = .ok s' → P s') {s : σ}
    (reach : Reachable init step guard s) : P s := by
  obtain ⟨s₀, first, path⟩ := reach
  induction path with
  | refl => exact start s₀ first
  | tail _ last ih =>
    obtain ⟨a, admitted, done⟩ := last
    exact next _ a _ ih admitted done

theorem Reachable.start {init : σ → Prop} {step : σ → α → Except ε σ} {guard : σ → α → Prop} {s : σ}
    (first : init s) : Reachable init step guard s := ⟨s, first, Relation.ReflTransGen.refl⟩

theorem Reachable.next {init : σ → Prop} {step : σ → α → Except ε σ} {guard : σ → α → Prop} {s s' : σ}
    (reach : Reachable init step guard s) (a : α) (admitted : guard s a) (done : step s a = .ok s') :
    Reachable init step guard s' := by
  obtain ⟨s₀, first, path⟩ := reach
  exact ⟨s₀, first, path.tail ⟨a, admitted, done⟩⟩

/-- Take the actions one after the other. -/
def run (step : σ → α → Except ε σ) : σ → List α → Except ε σ
  | s, [] => .ok s
  | s, a :: as =>
    match step s a with
    | .ok s => run step s as
    | .error e => .error e

theorem Reachable.run {init : σ → Prop} {step : σ → α → Except ε σ} {guard : σ → α → Prop} {s s' : σ}
    {as : List α} (reach : Reachable init step guard s) (admitted : ∀ s, ∀ a ∈ as, guard s a)
    (done : Runs.run step s as = .ok s') : Reachable init step guard s' := by
  induction as generalizing s with
  | nil =>
    cases done
    exact reach
  | cons a as ih =>
    rw [Runs.run] at done
    cases first : step s a with
    | error e =>
      rw [first] at done
      cases done
    | ok s₁ =>
      rw [first] at done
      exact ih (reach.next a (admitted s a (by simp)) first)
        (fun s b member => admitted s b (List.mem_cons_of_mem a member)) done

/-- What is seen of the state at the end of a run. -/
theorem observed {β : Type} {r : Except ε σ} {observe : σ → β} {b : β} (seen : r.toOption.map observe = some b) :
    ∃ s, r = .ok s ∧ observe s = b := by
  cases r with
  | error e => cases seen
  | ok s => exact ⟨s, rfl, Option.some.inj seen⟩

/-- A stretch of a run: the actions in the list lead from s to s', and cond holds
    of every one of them in the state where it is taken. -/
inductive Path (step : σ → α → Except ε σ) (cond : σ → α → Prop) (s : σ) : List α → σ → Prop where
  | nil : Path step cond s [] s
  | snoc {as : List α} {s' s'' : σ} (a : α) (path : Path step cond s as s') (admitted : cond s' a)
      (done : step s' a = .ok s'') : Path step cond s (as ++ [a]) s''

/-- What holds at the start of a stretch and is carried on by each step holds at its
    end, together with the actions taken so far. -/
theorem Path.carry {step : σ → α → Except ε σ} {cond : σ → α → Prop} {P : List α → σ → Prop} {s s' : σ}
    {as : List α} (path : Path step cond s as s') (start : P [] s)
    (next : ∀ as s a s', P as s → cond s a → step s a = .ok s' → P (as ++ [a]) s') : P as s' := by
  induction path with
  | nil => exact start
  | snoc a _ admitted done ih => exact next _ _ a _ ih admitted done

theorem Path.cons {step : σ → α → Except ε σ} {cond : σ → α → Prop} {s s' s'' : σ} {as : List α} (a : α)
    (admitted : cond s a) (done : step s a = .ok s') (path : Path step cond s' as s'') :
    Path step cond s (a :: as) s'' := by
  induction path with
  | nil => exact Path.snoc a Path.nil admitted done
  | snoc b _ admitted' done' ih => exact Path.snoc b ih admitted' done'

/-- Take the actions one after the other and test each of them first. -/
def walk (step : σ → α → Except ε σ) (test : σ → α → Bool) : σ → List α → Option σ
  | s, [] => some s
  | s, a :: as =>
    match test s a, step s a with
    | true, .ok s => walk step test s as
    | _, _ => none

/-- A walk whose test implies the guard ends in a reachable state. -/
theorem Reachable.walk {init : σ → Prop} {step : σ → α → Except ε σ} {guard : σ → α → Prop} {test : σ → α → Bool}
    (sound : ∀ s a, test s a = true → guard s a) {as : List α} {s s' : σ} (reach : Reachable init step guard s)
    (done : Runs.walk step test s as = some s') : Reachable init step guard s' := by
  induction as generalizing s with
  | nil =>
    cases done
    exact reach
  | cons a as ih =>
    rw [Runs.walk] at done
    split at done
    · rename_i passed first
      exact ih (reach.next a (sound _ _ passed) first) done
    · cases done

theorem Path.of_walk {step : σ → α → Except ε σ} {cond : σ → α → Prop} {test : σ → α → Bool}
    (sound : ∀ s a, test s a = true → cond s a) {as : List α} {s s' : σ}
    (done : walk step test s as = some s') : Path step cond s as s' := by
  induction as generalizing s with
  | nil =>
    cases done
    exact Path.nil
  | cons a as ih =>
    rw [walk] at done
    split at done
    · rename_i passed first
      exact Path.cons a (sound _ _ passed) first (ih done)
    · cases done

end Runs
