import Mathlib.Logic.Function.Basic

/-!
The memory allocator of the user library, umalloc.c. A heap is the two fields of a header at
every address and the roving pointer; sizes and addresses are uints, and sizes count units of
one header. The searches take a number of rounds, so that a circle that never ends is none.
-/
namespace Xv6.Umalloc

def WORD : Nat := 4294967296

/-- A uint that is passed as an int. -/
def int (n : Nat) : Int := if n < WORD / 2 then n else n - WORD

structure Heap where
  ptr : Nat → Nat
  size : Nat → Nat
  freep : Nat

namespace Heap

def setPtr (h : Heap) (p q : Nat) : Heap := { h with ptr := Function.update h.ptr p q }

def setSize (h : Heap) (p n : Nat) : Heap := { h with size := Function.update h.size p n }

end Heap

/-- p + n for a pointer to a header, which takes 8 bytes. -/
def plus (p n : Nat) : Nat := (p + 8 * n) % WORD

/-- The loop of free: the node behind which bp belongs. -/
def freeLoop (h : Heap) (bp : Nat) : Nat → Nat → Option Nat
  | 0, _ => none
  | rounds + 1, p =>
    if bp > p ∧ bp < h.ptr p then some p
    else if p ≥ h.ptr p ∧ (bp > p ∨ bp < h.ptr p) then some p
    else freeLoop h bp rounds (h.ptr p)

/-- Make q the successor of p, or a part of it where p ends at q. free does this for bp and
    its successor and then for its predecessor and bp. -/
def attach (h : Heap) (p q : Nat) : Heap :=
  if plus p (h.size p) = q then (h.setSize p ((h.size p + h.size q) % WORD)).setPtr p (h.ptr q)
  else h.setPtr p q

/-- The header of a pointer that malloc has returned. -/
def header (ap : Nat) : Nat := (ap + WORD - 8) % WORD

def free (rounds : Nat) (h : Heap) (ap : Nat) : Option Heap :=
  (freeLoop h (header ap) rounds h.freep).map fun p =>
    { attach (attach h (header ap) (h.ptr p)) p (header ap) with freep := p }

/-- What morecore asks sbrk for: at least 4096 units. -/
def coreUnits (nu : Nat) : Nat := if nu < 4096 then 4096 else nu

def coreBytes (nu : Nat) : Int := int (coreUnits nu * 8 % WORD)

def morecore (rounds : Nat) (h : Heap) (nu : Nat) (got : Option Nat) : Option (Nat × Heap) :=
  match got with
  | none => some (0, h)
  | some hp =>
    (free rounds (h.setSize hp (coreUnits nu)) (plus hp 1)).map fun h => (h.freep, h)

/-- What malloc returns, 0 on failure, the heap it leaves, and the arguments of its calls of
    sbrk. -/
structure Outcome where
  p : Nat
  heap : Heap
  asked : List Int

/-- Take nunits from the block at p, whose predecessor is prevp: the whole block, or its end. -/
def takeUnits (h : Heap) (nunits prevp p : Nat) (asked : List Int) : Outcome :=
  if h.size p = nunits then ⟨plus p 1, { h.setPtr prevp (h.ptr p) with freep := prevp }, asked⟩
  else
    let rest := h.setSize p (h.size p - nunits)
    let p := plus p (rest.size p)
    ⟨plus p 1, { rest.setSize p nunits with freep := prevp }, asked⟩

/-- The loop of malloc; answers are the results of its calls of sbrk, which fails when there
    is none left. -/
def mallocLoop (nunits : Nat) : Nat → Heap → List (Option Nat) → List Int → Nat → Nat → Option Outcome
  | 0, _, _, _, _, _ => none
  | rounds + 1, h, answers, asked, prevp, p =>
    if h.size p ≥ nunits then some (takeUnits h nunits prevp p asked)
    else if p = h.freep then
      match morecore rounds h nunits answers.head?.join with
      | none => none
      | some (p, h) =>
        if p = 0 then some ⟨0, h, asked ++ [coreBytes nunits]⟩
        else mallocLoop nunits rounds h answers.tail (asked ++ [coreBytes nunits]) p (h.ptr p)
    else mallocLoop nunits rounds h answers asked p (h.ptr p)

/-- (nbytes + sizeof(Header) - 1)/sizeof(Header) + 1. -/
def unitsFor (nbytes : Nat) : Nat := (nbytes + 7) % WORD / 8 + 1

/-- The first call makes base, of size 0, the only node. -/
def ready (base : Nat) (h : Heap) : Heap :=
  if h.freep = 0 then { (h.setPtr base base).setSize base 0 with freep := base } else h

def malloc (base rounds : Nat) (h : Heap) (answers : List (Option Nat)) (nbytes : Nat) : Option Outcome :=
  let h := ready base h
  mallocLoop (unitsFor nbytes) rounds h answers [] h.freep (h.ptr h.freep)

/-- Pointers are uints. -/
structure Heap.Words (h : Heap) : Prop where
  ptr : ∀ a, h.ptr a < WORD
  freep : h.freep < WORD

theorem plus_lt (p n : Nat) : plus p n < WORD := Nat.mod_lt _ (by decide)

theorem header_plus {p : Nat} (word : p < WORD) : header (plus p 1) = p := by
  simp only [header, plus, WORD] at word ⊢
  omega

theorem Heap.Words.setPtr {h : Heap} (words : h.Words) {p q : Nat} (word : q < WORD) : (h.setPtr p q).Words := by
  refine ⟨?_, words.freep⟩
  intro a
  show Function.update h.ptr p q a < WORD
  rw [Function.update_apply]
  split
  · exact word
  · exact words.ptr a

theorem Heap.Words.rove {h : Heap} (words : h.Words) {p : Nat} (word : p < WORD) :
    ({ h with freep := p } : Heap).Words := ⟨words.ptr, word⟩

theorem Heap.Words.attach {h : Heap} (words : h.Words) (p : Nat) {q : Nat} (word : q < WORD) : (attach h p q).Words := by
  rw [Umalloc.attach]
  split
  · exact ⟨fun a => (words.setPtr (p := p) (words.ptr q)).ptr a, words.freep⟩
  · exact words.setPtr word

theorem freeLoop_lt {h : Heap} (words : h.Words) {bp rounds p q : Nat} (word : p < WORD)
    (found : freeLoop h bp rounds p = some q) : q < WORD := by
  induction rounds generalizing p with
  | zero => cases found
  | succ rounds ih =>
    rw [freeLoop] at found
    split at found
    · cases found
      exact word
    split at found
    · cases found
      exact word
    · exact ih (words.ptr p) found

theorem header_lt (ap : Nat) : header ap < WORD := by
  rw [header]
  exact Nat.mod_lt _ (by decide)

theorem Heap.Words.free {h h' : Heap} (words : h.Words) {rounds ap : Nat} (done : free rounds h ap = some h') :
    h'.Words := by
  obtain ⟨p, found, same⟩ := Option.map_eq_some_iff.mp done
  have both := (words.attach (header ap) (words.ptr p)).attach p (header_lt ap)
  rw [← same]
  exact both.rove (freeLoop_lt words words.freep found)

theorem Heap.Words.morecore {h h' : Heap} (words : h.Words) {rounds nu p : Nat} {got : Option Nat}
    (done : morecore rounds h nu got = some (p, h')) : h'.Words ∧ p < WORD := by
  cases got with
  | none =>
    obtain ⟨rfl, rfl⟩ := Prod.mk.inj (Option.some.inj done)
    exact ⟨words, by decide⟩
  | some hp =>
    obtain ⟨h₁, freed, same⟩ := Option.map_eq_some_iff.mp done
    obtain ⟨rfl, rfl⟩ := Prod.mk.inj same
    have sized : (h.setSize hp (coreUnits nu)).Words := ⟨words.ptr, words.freep⟩
    have both := sized.free freed
    exact ⟨both, both.freep⟩

/-- Whatever the state of the heap, a block that is returned has the units that the search
    was for, and sbrk is asked for the units of morecore. -/
theorem mallocLoop_outcome {nunits rounds prevp p : Nat} {h : Heap} {answers : List (Option Nat)} {asked : List Int}
    {o : Outcome} (words : h.Words) (word : p < WORD)
    (done : mallocLoop nunits rounds h answers asked prevp p = some o) :
    (o.p = 0 ∨ o.heap.size (header o.p) = nunits) ∧ ∀ a ∈ o.asked, a ∈ asked ∨ a = coreBytes nunits := by
  induction rounds generalizing h answers asked prevp p with
  | zero => cases done
  | succ rounds ih =>
    rw [mallocLoop] at done
    split at done
    · cases done
      rw [takeUnits]
      split
      · rename_i whole
        refine ⟨Or.inr ?_, fun a mem => Or.inl mem⟩
        rw [header_plus word]
        exact whole
      · refine ⟨Or.inr ?_, fun a mem => Or.inl mem⟩
        rw [header_plus (plus_lt _ _)]
        exact Function.update_self ..
    split at done
    · cases core : morecore rounds h nunits answers.head?.join with
      | none =>
        rw [core] at done
        cases done
      | some result =>
        obtain ⟨q, h'⟩ := result
        rw [core] at done
        obtain ⟨words', word'⟩ := words.morecore core
        simp only at done
        split at done
        · cases done
          refine ⟨Or.inl rfl, ?_⟩
          intro a mem
          rwa [List.mem_append, List.mem_singleton] at mem
        · obtain ⟨block, calls⟩ := ih words' (words'.ptr q) done
          refine ⟨block, ?_⟩
          intro a mem
          rcases calls a mem with old | new
          · rwa [List.mem_append, List.mem_singleton] at old
          · exact Or.inr new
    · exact ih words (words.ptr p) done

end Xv6.Umalloc
