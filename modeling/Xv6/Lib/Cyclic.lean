import Mathlib.Data.List.Nodup

/-!
Circular lists with one pointer per node. `Leads next l e` says that next takes each node of
l to the one behind it and the last one to e; a list that leads to its own first node is a
circle, and a circle can be read from any of its nodes.
-/
namespace Cyclic

variable {α : Type} {next next' : α → α} {l l₁ l₂ : List α} {a b e x y : α}

def Leads (next : α → α) : List α → α → Prop
  | [], _ => True
  | x :: l, e => next x = l.headD e ∧ Leads next l e

theorem headD_append (l₁ l₂ : List α) (e : α) : (l₁ ++ l₂).headD e = l₁.headD (l₂.headD e) := by
  cases l₁ with
  | nil => rfl
  | cons x l₁ => rfl

theorem leads_append : Leads next (l₁ ++ l₂) e ↔ Leads next l₁ (l₂.headD e) ∧ Leads next l₂ e := by
  induction l₁ with
  | nil => simp [Leads]
  | cons x l₁ ih => rw [List.cons_append, Leads, Leads, ih, headD_append, and_assoc]

namespace Leads

theorem congr (leads : Leads next l e) (same : ∀ x ∈ l, next' x = next x) : Leads next' l e := by
  induction l with
  | nil => trivial
  | cons x l ih =>
    have here := same x List.mem_cons_self
    have there := ih leads.2 fun y mem => same y (List.mem_cons_of_mem x mem)
    exact ⟨here.trans leads.1, there⟩

theorem rotate (circle : Leads next (a :: (l₁ ++ x :: l₂)) a) : Leads next (x :: (l₂ ++ a :: l₁)) x := by
  have whole : Leads next ((a :: l₁) ++ (x :: l₂)) a := circle
  obtain ⟨before, behind⟩ := leads_append.mp whole
  have turned : Leads next ((x :: l₂) ++ (a :: l₁)) x := leads_append.mpr ⟨behind, before⟩
  exact turned

/-- Read a circle from any of its nodes. -/
theorem around (circle : Leads next (a :: l) a) (mem : x ∈ a :: l) :
    ∃ r, Leads next (x :: r) x ∧ (x :: r).Perm (a :: l) := by
  rcases List.mem_cons.mp mem with rfl | mem
  · exact ⟨l, circle, List.Perm.refl _⟩
  · obtain ⟨l₁, l₂, rfl⟩ := List.append_of_mem mem
    have perm : ((x :: l₂) ++ (a :: l₁)).Perm ((a :: l₁) ++ (x :: l₂)) := List.perm_append_comm
    exact ⟨l₂ ++ a :: l₁, circle.rotate, perm⟩

/-- From any node of a circle to any other, past nodes that are not the goal. -/
theorem reach (circle : Leads next (a :: l) a) (nodup : (a :: l).Nodup) (left : x ∈ a :: l) (right : y ∈ a :: l) :
    ∃ r, Leads next r y ∧ r.headD y = x ∧ (∀ z ∈ r, z ∈ a :: l ∧ z ≠ y) ∧ r.length ≤ l.length := by
  obtain ⟨r, ring, perm⟩ := circle.around left
  have distinct : (x :: r).Nodup := perm.nodup_iff.mpr nodup
  have long : r.length = l.length := by
    have same := perm.length_eq
    rw [List.length_cons, List.length_cons] at same
    omega
  rcases List.mem_cons.mp (perm.mem_iff.mpr right) with rfl | mem
  · refine ⟨[], trivial, rfl, ?_, Nat.zero_le _⟩
    intro z mem
    cases mem
  · obtain ⟨r₁, r₂, rfl⟩ := List.append_of_mem mem
    have whole : Leads next ((x :: r₁) ++ (y :: r₂)) x := ring
    refine ⟨x :: r₁, (leads_append.mp whole).1, rfl, ?_, ?_⟩
    · intro z mem
      have here : z ∈ x :: (r₁ ++ y :: r₂) := List.mem_append_left (y :: r₂) mem
      have apart : ∀ u ∈ x :: r₁, ∀ v ∈ y :: r₂, u ≠ v := (List.nodup_append.mp distinct).2.2
      exact ⟨perm.mem_iff.mp here, apart z mem y List.mem_cons_self⟩
    · rw [List.length_append, List.length_cons] at long
      rw [List.length_cons]
      omega

theorem map_next (leads : Leads next (x :: l) e) : (x :: l).map next = l ++ [e] := by
  induction l generalizing x with
  | nil => rw [List.map_singleton, leads.1, List.headD_nil, List.nil_append]
  | cons y l ih => rw [List.map_cons, ih leads.2, leads.1, List.headD_cons, List.cons_append]

/-- In a circle a node has one node before it. -/
theorem before_unique (circle : Leads next (a :: l) a) (nodup : (a :: l).Nodup) (left : x ∈ a :: l)
    (right : y ∈ a :: l) (same : next x = next y) : x = y := by
  have images : ((a :: l).map next).Nodup := by
    rw [circle.map_next]
    exact (List.perm_append_singleton a l).nodup_iff.mpr nodup
  exact List.inj_on_of_nodup_map images left right same

end Leads

end Cyclic
