import Xv6.Fs.Inodes
import Mathlib.Data.List.TakeWhile

/-!
Names and paths. Names are compared, copied and cut to the same DIRSIZ bytes, and the
elements that skipelem takes from a path are its components. A directory is a finite map
from names to inodes, as long as no two live entries have one name.
-/
namespace Xv6
namespace Fs

def cut (name : Name) : Name := (name.take DIRSIZ).takeWhile (· ≠ 0)

theorem strncmp_eq_zero (n : Nat) (p q : List UInt8) :
    strncmp p q n = 0 ↔ (p.take n).takeWhile (· ≠ 0) = (q.take n).takeWhile (· ≠ 0) := by
  induction n generalizing p q with
  | zero => simp [strncmp]
  | succ n ih =>
    cases p with
    | nil =>
      cases q with
      | nil => simp [strncmp]
      | cons b q =>
        by_cases zero : b = 0
        · simp [strncmp, zero]
        · have positive : b.toNat ≠ 0 := fun h => zero (UInt8.toNat_inj.mp h)
          simp [strncmp, zero, positive]
    | cons a p =>
      cases q with
      | nil =>
        by_cases zero : a = 0
        · simp [strncmp, zero]
        · have positive : a.toNat ≠ 0 := fun h => zero (UInt8.toNat_inj.mp h)
          simp [strncmp, zero, positive]
      | cons b q =>
        by_cases zero : a = 0
        · subst zero
          by_cases zero' : b = 0
          · simp [strncmp, zero']
          · have positive : b.toNat ≠ 0 := fun h => zero' (UInt8.toNat_inj.mp h)
            simp [strncmp, zero', positive]
        · by_cases same : a = b
          · subst same
            simpa [strncmp, zero] using ih p q
          · have differ : (a.toNat : Int) - b.toNat ≠ 0 := by
              intro h
              exact same (UInt8.toNat_inj.mp (by omega))
            by_cases zero' : b = 0
            · simp [strncmp, zero', zero]
              intro h
              exact zero (UInt8.toNat_inj.mp h)
            · simp [strncmp, zero, zero', same, differ]

theorem namecmp_eq_zero (s t : Name) : namecmp s t = 0 ↔ cut s = cut t := strncmp_eq_zero DIRSIZ s t

theorem strncpy_takeWhile (t : List UInt8) (n : Nat) :
    (strncpy t n).takeWhile (· ≠ 0) = (t.take n).takeWhile (· ≠ 0) := by
  induction n generalizing t with
  | zero => simp [strncpy]
  | succ n ih =>
    cases t with
    | nil => simp [strncpy, List.replicate_succ]
    | cons a t =>
      by_cases zero : a = 0
      · simp [strncpy, zero, List.replicate_succ]
      · simpa [strncpy, zero] using ih t

theorem strncpy_length (t : List UInt8) (n : Nat) : (strncpy t n).length = n := by
  induction n generalizing t with
  | zero => rfl
  | succ n ih =>
    rw [strncpy]
    split
    · simp
    · simp [ih]

theorem cut_strncpy (name : Name) : cut (strncpy name DIRSIZ) = cut name := by
  rw [cut, List.take_of_length_le (strncpy_length name DIRSIZ).le, strncpy_takeWhile, cut]

theorem head_of_dropWhile {p : UInt8 → Bool} {path s : List UInt8} {c : UInt8}
    (front : path.dropWhile p = c :: s) : p c = false := by
  have head := List.head?_dropWhile_not p path
  rw [front] at head
  simpa using head

/-- The non-empty components of a path, each cut to DIRSIZ bytes. -/
def components (path : List UInt8) : List Name :=
  ((path.splitOnP (· = slash)).filter (· ≠ [])).map (List.take DIRSIZ)

theorem components_slash (path : List UInt8) : components (slash :: path) = components path := by
  simp [components, List.splitOnP_cons_eq_if_modifyHead]

theorem components_dropWhile (path : List UInt8) : components (path.dropWhile (· = slash)) = components path := by
  induction path with
  | nil => rfl
  | cons c path ih =>
    by_cases separator : c = slash
    · subst separator
      rw [components_slash, ← ih]
      simp
    · simp [separator]

theorem components_cons (c : UInt8) (path : List UInt8) (start : c ≠ slash) :
    components (c :: path) = ((c :: path).takeWhile (· ≠ slash)).take DIRSIZ ::
      components ((c :: path).dropWhile (· ≠ slash)) := by
  have whole := List.takeWhile_append_dropWhile (p := fun b => decide (b ≠ slash)) (l := c :: path)
  have inside : ∀ x ∈ (c :: path).takeWhile (· ≠ slash), decide (x = slash) = false := by
    intro x member
    simpa using List.mem_takeWhile_imp member
  have nonempty : (c :: path).takeWhile (· ≠ slash) ≠ [] := by simp [start]
  cases tail : (c :: path).dropWhile (· ≠ slash) with
  | nil =>
    rw [tail, List.append_nil] at whole
    have all := inside
    rw [whole] at all
    rw [whole, components, List.splitOnP_eq_singleton all]
    simp [components]
  | cons b rest =>
    have separator : b = slash := by simpa using head_of_dropWhile tail
    subst separator
    rw [components_slash]
    have parts := List.splitOnP_append_cons_of_forall_mem inside slash (by simp) rest
    rw [← tail, whole] at parts
    rw [components, parts, List.filter_cons_of_pos (by simpa using nonempty)]
    rfl

theorem skipelem_components (path : List UInt8) :
    components path = match skipelem path with
      | none => []
      | some (name, rest) => name :: components rest := by
  rw [← components_dropWhile path, skipelem]
  cases front : path.dropWhile (· = slash) with
  | nil => rfl
  | cons c s =>
    have start : c ≠ slash := by simpa using head_of_dropWhile front
    simp only [components_cons c s start, components_dropWhile]

theorem skipelem_shorter {path rest : List UInt8} {name : Name} (found : skipelem path = some (name, rest)) :
    rest.length < path.length := by
  rw [skipelem] at found
  cases front : path.dropWhile (· = slash) with
  | nil =>
    rw [front] at found
    cases found
  | cons c s =>
    have start : c ≠ slash := by simpa using head_of_dropWhile front
    rw [front] at found
    cases found
    have whole := (List.dropWhile_sublist (fun b => decide (b = slash)) (l := path)).length_le
    rw [front] at whole
    have rest := (List.dropWhile_sublist (fun b => decide (b = slash))
      (l := (c :: s).dropWhile (· ≠ slash))).length_le
    have middle := (List.dropWhile_sublist (fun b => decide (b ≠ slash)) (l := s)).length_le
    have taken : (c :: s).dropWhile (· ≠ slash) = s.dropWhile (· ≠ slash) := by simp [start]
    rw [taken] at rest ⊢
    simp only [List.length_cons] at whole
    omega

theorem elemsUpto_eq (n : Nat) (path : List UInt8) (enough : path.length ≤ n) :
    elemsUpto n path = components path := by
  induction n generalizing path with
  | zero =>
    have empty : path = [] := List.length_eq_zero_iff.mp (by omega)
    subst empty
    rfl
  | succ n ih =>
    rw [elemsUpto, skipelem_components]
    cases found : skipelem path with
    | none => rfl
    | some element =>
      have shorter : element.2.length < path.length := skipelem_shorter found
      simp only [ih element.2 (by omega)]

theorem elems_eq_components (path : List UInt8) : elems path = components path :=
  elemsUpto_eq path.length path (Nat.le_refl _)

example : components [47, 97, 47, 47, 98, 47] = [[97], [98]] := by decide

def Dirent.Named (de : Dirent) (name : Name) : Prop := de.inum ≠ 0 ∧ cut de.name = cut name

instance (de : Dirent) (name : Name) : Decidable (de.Named name) :=
  inferInstanceAs (Decidable (de.inum ≠ 0 ∧ cut de.name = cut name))

def lookup (l : List Dirent) (name : Name) : Option Nat := (l.find? fun de => de.Named name).map Dirent.inum

def Distinct (l : List Dirent) : Prop :=
  ∀ (j k : Nat) (a b : Dirent), l[j]? = some a → l[k]? = some b → a.inum ≠ 0 → b.inum ≠ 0 →
    cut a.name = cut b.name → j = k

namespace Inodes

theorem slot_named (name : Name) (de : Dirent) :
    (de.inum ≠ 0 && namecmp name de.name = 0 : Bool) = decide (de.Named name) := by
  have same : cut de.name = cut name ↔ namecmp name de.name = 0 := by rw [namecmp_eq_zero, eq_comm]
  simp [Dirent.Named, same]

theorem slotOf_eq (l : List Dirent) (name : Name) : slotOf l name = l.findIdx? fun de => de.Named name := by
  simp only [slotOf, slot_named]

theorem slotOf_none {l : List Dirent} {name : Name} : slotOf l name = none ↔ ∀ de ∈ l, ¬ de.Named name := by
  simp [slotOf_eq, List.findIdx?_eq_none_iff]

theorem slotOf_some {l : List Dirent} {name : Name} {k : Nat} (found : slotOf l name = some k) :
    ∃ de, l[k]? = some de ∧ de.Named name ∧ lookup l name = some de.inum := by
  rw [slotOf_eq] at found
  induction l generalizing k with
  | nil => cases found
  | cons de l ih =>
    rw [List.findIdx?_cons] at found
    by_cases named : de.Named name
    · simp only [named, decide_true, if_true, Option.some.injEq] at found
      subst found
      exact ⟨de, rfl, named, by simp [lookup, named]⟩
    · simp only [named, decide_false, Bool.false_eq_true, if_false, Option.map_eq_some_iff] at found
      obtain ⟨j, later, rfl⟩ := found
      obtain ⟨other, at_j, named', value⟩ := ih later
      refine ⟨other, by simpa using at_j, named', ?_⟩
      simpa [lookup, named] using value

theorem lookup_none {l : List Dirent} {name : Name} (absent : slotOf l name = none) : lookup l name = none := by
  rw [slotOf_none] at absent
  simpa [lookup] using absent

theorem getElem?_setSlot {l : List Dirent} {k : Nat} (de : Dirent) (inside : k ≤ l.length) (j : Nat) :
    (setSlot l k de)[j]? = if j = k then some de else l[j]? := by
  rw [setSlot]
  by_cases short : k < l.length
  · rw [if_pos short, List.getElem?_set]
    by_cases same : k = j
    · subst same
      simp [short]
    · simp [same, Ne.symm same]
  · have last : k = l.length := by omega
    subst last
    rw [if_neg short]
    rcases Nat.lt_trichotomy j l.length with below | same | above
    · rw [List.getElem?_append_left below, if_neg (by omega)]
    · simp [same]
    · rw [if_neg (by omega), List.getElem?_eq_none (by simp; omega), List.getElem?_eq_none (by omega)]

theorem freeSlot_le (l : List Dirent) : freeSlot l ≤ l.length := List.findIdx_le_length

end Inodes

theorem Distinct.slotOf {l : List Dirent} {name : Name} {k : Nat} {de : Dirent} (distinct : Distinct l)
    (entry : l[k]? = some de) (named : de.Named name) : Inodes.slotOf l name = some k := by
  cases found : Inodes.slotOf l name with
  | none => exact absurd named (Inodes.slotOf_none.mp found de (List.mem_of_getElem? entry))
  | some j =>
    obtain ⟨other, at_j, named', -⟩ := Inodes.slotOf_some found
    rw [distinct j k other de at_j entry named'.1 named.1 (named'.2.trans named.2.symm)]

theorem Distinct.setSlot {l : List Dirent} {name : Name} {k inum : Nat} (distinct : Distinct l)
    (inside : k ≤ l.length) (absent : Inodes.slotOf l name = none) :
    Distinct (Inodes.setSlot l k ⟨inum, strncpy name DIRSIZ⟩) := by
  have other : ∀ (j : Nat) (a : Dirent), l[j]? = some a → a.inum ≠ 0 → cut a.name ≠ cut name :=
    fun j a at_j live same => Inodes.slotOf_none.mp absent a (List.mem_of_getElem? at_j) ⟨live, same⟩
  intro i j a b at_i at_j live live' same
  rw [Inodes.getElem?_setSlot _ inside] at at_i at_j
  split at at_i <;> split at at_j
  · omega
  · cases at_i
    exact absurd (same.symm.trans (cut_strncpy name)) (other j b at_j live')
  · cases at_j
    exact absurd (same.trans (cut_strncpy name)) (other i a at_i live)
  · exact distinct i j a b at_i at_j live live' same

theorem Distinct.remove {l : List Dirent} (distinct : Distinct l) (k : Nat) (field : Name) :
    Distinct (l.set k ⟨0, field⟩) := by
  intro i j a b at_i at_j live live' same
  rw [List.getElem?_set] at at_i at_j
  split at at_i
  · split at at_i
    · cases at_i
      exact absurd rfl live
    · cases at_i
  · split at at_j
    · split at at_j
      · cases at_j
        exact absurd rfl live'
      · cases at_j
    · exact distinct i j a b at_i at_j live live' same

end Fs
end Xv6
