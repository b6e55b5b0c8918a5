import Mathlib.Data.List.Basic
import Mathlib.Logic.Function.Basic

/-!
Redo logs. A disk has home blocks, log slots and a header that names the home blocks of
the first slots. The header decides what the disk stands for: `Means` says which contents
the home blocks have once the slots named in the header are installed.
-/
namespace RedoLog

variable {β D : Type} [DecidableEq β]

/-- Write the updates in order. -/
def apply : List (β × D) → (β → D) → β → D
  | [], d => d
  | (b, v) :: us, d => apply us (Function.update d b v)

theorem apply_append (us vs : List (β × D)) (d : β → D) : apply (us ++ vs) d = apply vs (apply us d) := by
  induction us generalizing d with
  | nil => rfl
  | cons u us ih => exact ih _

/-- Blocks that are not updated keep their contents. -/
theorem apply_other {us : List (β × D)} {b : β} (d : β → D) (none : ∀ u ∈ us, u.1 ≠ b) : apply us d b = d b := by
  induction us generalizing d with
  | nil => rfl
  | cons u us ih =>
    rw [apply, ih _ fun v member => none v (List.mem_cons_of_mem u member),
      Function.update_of_ne (none u List.mem_cons_self).symm]

structure Disk (β D : Type) where
  home : β → D
  slot : Nat → D
  head : List β

structure Means (disk : Disk β D) (d : β → D) : Prop where
  apart : ∀ b, b ∉ disk.head → disk.home b = d b
  logged : ∀ k b, disk.head[k]? = some b → disk.slot k = d b

namespace Means
variable {disk : Disk β D} {d : β → D}

omit [DecidableEq β] in
/-- Without a header the home blocks are what counts. -/
theorem clean (means : Means disk d) (empty : disk.head = []) : disk.home = d := by
  funext b
  exact means.apart b (by rw [empty]; exact List.not_mem_nil)

/-- A slot named in the header is installed, perhaps not for the first time. -/
theorem install (means : Means disk d) {k : Nat} {b : β} (entry : disk.head[k]? = some b) :
    Means { disk with home := Function.update disk.home b (disk.slot k) } d := by
  refine ⟨fun b' away => ?_, means.logged⟩
  have ne : b' ≠ b := by
    rintro rfl
    exact away (List.mem_of_getElem? entry)
  exact (Function.update_of_ne ne ..).trans (means.apart b' away)

omit [DecidableEq β] in
/-- The header may be cleared when all its slots are installed. -/
theorem settle (means : Means disk d) (done : ∀ (k : Nat) b, disk.head[k]? = some b → disk.home b = d b) :
    Means { disk with head := [] } d := by
  refine ⟨fun b _ => ?_, fun k b entry => by cases entry⟩
  by_cases logged : b ∈ disk.head
  · obtain ⟨k, entry⟩ := List.mem_iff_getElem?.mp logged
    exact done k b entry
  · exact means.apart b logged

omit [DecidableEq β] in
/-- Slots may be written while there is no header. -/
theorem stage (means : Means disk d) (empty : disk.head = []) (k : Nat) (v : D) :
    Means { disk with slot := Function.update disk.slot k v } d := by
  refine ⟨means.apart, fun j b entry => ?_⟩
  rw [show ({ disk with slot := Function.update disk.slot k v } : Disk β D).head = [] from empty] at entry
  cases entry

omit [DecidableEq β] in
/-- The write of the header makes the slots count. -/
theorem commit (means : Means disk d) (empty : disk.head = []) {bs : List β} {d' : β → D}
    (slots : ∀ (k : Nat) b, bs[k]? = some b → disk.slot k = d' b) (rest : ∀ b, b ∉ bs → d' b = d b) :
    Means { disk with head := bs } d' := by
  refine ⟨fun b away => ?_, slots⟩
  rw [rest b away, ← means.clean empty]

end Means
end RedoLog
