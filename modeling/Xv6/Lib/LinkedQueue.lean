import Mathlib.Data.List.Nodup

/-!
Intrusive singly linked queues over an arbitrary type of nodes: a head, a tail and
a next pointer in every node. `IsQueue` relates them to the list of nodes.
-/
namespace LinkedQueue

variable {α : Type} {next next' : α → Option α}

/-- Following next from the head visits exactly the nodes of the list. -/
def Linked (next : α → Option α) : Option α → List α → Prop
  | head, [] => head = none
  | head, a :: l => head = some a ∧ Linked next (next a) l

structure IsQueue (next : α → Option α) (head tail : Option α) (l : List α) : Prop where
  linked : Linked next head l
  last : tail = l.getLast?
  nodup : l.Nodup

theorem Linked.congr {head : Option α} {l : List α} (h : Linked next head l)
    (same : ∀ a ∈ l, next' a = next a) : Linked next' head l := by
  induction l generalizing head with
  | nil => exact h
  | cons a l ih =>
    refine ⟨h.1, ?_⟩
    rw [same a List.mem_cons_self]
    exact ih h.2 fun b hb => same b (List.mem_cons_of_mem a hb)

/-- There is only one such list. -/
theorem Linked.unique {head : Option α} {l l' : List α} (h : Linked next head l) (h' : Linked next head l') :
    l = l' := by
  induction l generalizing head l' with
  | nil =>
    cases l' with
    | nil => rfl
    | cons b l' =>
      have some' := h'.1
      rw [show head = none from h] at some'
      cases some'
  | cons a l ih =>
    have first := h.1
    cases l' with
    | nil =>
      rw [show head = none from h'] at first
      cases first
    | cons b l' =>
      rw [h'.1] at first
      cases first
      rw [ih h.2 h'.2]

/-- Linking one more node behind the last one. -/
theorem Linked.append {head : Option α} {l : List α} {a : α} (h : Linked next head l)
    (nodup : l.Nodup) (new : next' a = none) (tail : ∀ t, l.getLast? = some t → next' t = some a)
    (same : ∀ b ∈ l, l.getLast? ≠ some b → next' b = next b) :
    Linked next' (if l.getLast? = none then some a else head) (l ++ [a]) := by
  induction l generalizing head with
  | nil => exact ⟨rfl, new⟩
  | cons b l ih =>
    rw [List.nodup_cons] at nodup
    have nonempty : (b :: l).getLast? ≠ none := by simp
    rw [if_neg nonempty]
    refine ⟨h.1, ?_⟩
    cases l with
    | nil =>
      rw [tail b rfl]
      exact ⟨rfl, new⟩
    | cons c l =>
      have last : (b :: c :: l).getLast? = (c :: l).getLast? := List.getLast?_cons_cons
      have kept : next' b = next b := by
        refine same b List.mem_cons_self ?_
        rw [last]
        intro eq
        exact nodup.1 (List.mem_of_getLast? eq)
      have rest := ih h.2 nodup.2 (fun t ht => tail t (last.trans ht))
        (fun d hd ne => same d (List.mem_cons_of_mem b hd) (fun eq => ne (last ▸ eq)))
      rw [if_neg (by simp)] at rest
      rw [kept]
      exact rest

namespace IsQueue
variable {head tail : Option α} {l : List α}

theorem empty (next : α → Option α) : IsQueue next none none [] := ⟨rfl, rfl, List.nodup_nil⟩

theorem congr (q : IsQueue next head tail l) (same : ∀ a ∈ l, next' a = next a) :
    IsQueue next' head tail l :=
  ⟨q.linked.congr same, q.last, q.nodup⟩

theorem head_eq (q : IsQueue next head tail l) : head = l.head? := by
  cases l with
  | nil => exact q.linked
  | cons a l => exact q.linked.1

/-- Head and tail are null together. -/
theorem null_iff (q : IsQueue next head tail l) : head = none ↔ tail = none := by
  rw [q.head_eq, q.last]
  cases l with
  | nil => simp
  | cons a l => simp

theorem push (q : IsQueue next head tail l) {a : α} (absent : a ∉ l) (new : next' a = none)
    (link : ∀ t, tail = some t → next' t = some a)
    (same : ∀ b ∈ l, tail ≠ some b → next' b = next b) :
    IsQueue next' (if tail = none then some a else head) (some a) (l ++ [a]) := by
  constructor
  · rw [q.last]
    exact q.linked.append q.nodup new (fun t ht => link t (q.last.trans ht))
      (fun b hb ne => same b hb (fun eq => ne (q.last ▸ eq)))
  · simp
  · refine List.nodup_append.mpr ⟨q.nodup, List.nodup_singleton a, ?_⟩
    intro b hb c hc same
    rw [List.mem_singleton] at hc
    exact absent (hc ▸ same ▸ hb)

theorem pop {a : α} (q : IsQueue next (some a) tail l) :
    ∃ rest, l = a :: rest ∧ a ∉ rest ∧
      ∀ next' : α → Option α, (∀ b ∈ rest, next' b = next b) →
        IsQueue next' (next a) (if next a = none then none else tail) rest := by
  cases l with
  | nil => cases q.linked
  | cons b rest =>
    obtain ⟨head, linked⟩ := q.linked
    cases head
    have nodup := List.nodup_cons.mp q.nodup
    refine ⟨rest, rfl, nodup.1, fun next' same => ?_⟩
    have queue : IsQueue next (next a) rest.getLast? rest := ⟨linked, rfl, nodup.2⟩
    have tail' : (if next a = none then none else tail) = rest.getLast? := by
      rw [q.last]
      cases rest with
      | nil =>
        have null : next a = none := linked
        rw [if_pos null]
        rfl
      | cons c rest =>
        rw [if_neg (by rw [linked.1]; exact Option.some_ne_none c), List.getLast?_cons_cons]
    rw [tail']
    exact queue.congr same

end IsQueue
end LinkedQueue
