import Mathlib.Logic.Function.Basic

/-!
Physical frames and the reference counted allocator of kalloc.c. Frames are named
by their number, pa >> PTXSHIFT. The contents of a frame are its 4096 bytes or,
for a page directory or page table, its 1024 entries; storing one kind over the
other replaces the contents.
-/
namespace Xv6

def PGSIZE : Nat := 4096
def NPDENTRIES : Nat := 1024
def KERNBASE : Nat := 0x80000000
def PHYSTOP : Nat := 0xE000000
def NFRAMES : Nat := PHYSTOP / PGSIZE
def NPROC : Nat := 64
def NOFILE : Nat := 16
def ROOTINO : Nat := 1
def NUPAGES : Nat := 524288

/-- The symbols the linker script defines, as frame numbers. -/
class Layout where
  /-- the first frame that lies wholly above `end` -/
  kend : Nat
  /-- the frame of `data` -/
  data : Nat
  text_before_data : 256 < data
  data_before_end : data < kend
  kend_le : kend ≤ NFRAMES

/-- A kernel that ends at frame 300. -/
@[reducible] def Layout.small : Layout := ⟨300, 260, by decide, by decide, by decide⟩

inductive Panic where
  | remap
  | kfree
  | kfreeNoReferences
  | increfOutOfRange
  | increfPageIsFree
  | getrefOutOfRange
  | freevmNoPgdir
  | clearpteu
  | loaduvmNotAligned
  | loaduvmAddress
  | inituvm
  | userinit
  | schedulerNotRunnable
  | initExiting
  | kernelPageFault
  deriving DecidableEq, Repr

theorem ok_bind {α β : Type} (a : α) (f : α → Except Panic β) : (Except.ok a >>= f) = f a := by
  rfl

theorem bind_eq_ok {α β : Type} {r : Except Panic α} {f : α → Except Panic β} {b : β}
    (h : (r >>= f) = .ok b) : ∃ a, r = .ok a ∧ f a = .ok b := by
  cases r with
  | error e => cases h
  | ok a => exact ⟨a, rfl, h⟩

/-- Permission bits of an entry: PTE_W, PTE_U and the software bit PTE_COW. -/
structure Perm where
  w : Bool
  u : Bool
  cow : Bool
  deriving DecidableEq, Repr

structure Pte extends Perm where
  frame : Nat
  p : Bool
  deriving DecidableEq, Repr

def Pte.zero : Pte := ⟨⟨false, false, false⟩, 0, false⟩

/-- The frame an entry refers to, if PTE_P is set. -/
def Pte.target (e : Pte) : Option Nat := if e.p then some e.frame else none

inductive Page where
  | bytes : (Nat → UInt8) → Page
  | table : (Nat → Pte) → Page

def Page.entry : Page → Nat → Pte
  | .table t, i => t i
  | .bytes _, _ => Pte.zero

def Page.byte : Page → Nat → UInt8
  | .bytes b, i => b i
  | .table _, _ => 0

/-- Physical memory and kmem. The flag oom is not part of the program: it records
    that some kalloc has found the free list empty. -/
structure Phys where
  page : Nat → Page
  ref : Nat → Nat
  freelist : List Nat
  oom : Bool

namespace Phys

def entry (s : Phys) (f i : Nat) : Pte := (s.page f).entry i

def setPage (s : Phys) (f : Nat) (pg : Page) : Phys :=
  { s with page := Function.update s.page f pg }

def setEntry (s : Phys) (f i : Nat) (e : Pte) : Phys :=
  s.setPage f (.table (Function.update (s.page f).entry i e))

def setByte (s : Phys) (f i : Nat) (b : UInt8) : Phys :=
  s.setPage f (.bytes (Function.update (s.page f).byte i b))

def setRef (s : Phys) (f n : Nat) : Phys := { s with ref := Function.update s.ref f n }

@[simp] theorem setPage_page (s : Phys) (f : Nat) (pg : Page) :
    (s.setPage f pg).page = Function.update s.page f pg := rfl
@[simp] theorem setPage_ref (s : Phys) (f : Nat) (pg : Page) : (s.setPage f pg).ref = s.ref := rfl
@[simp] theorem setPage_freelist (s : Phys) (f : Nat) (pg : Page) :
    (s.setPage f pg).freelist = s.freelist := rfl
@[simp] theorem setPage_oom (s : Phys) (f : Nat) (pg : Page) : (s.setPage f pg).oom = s.oom := rfl
@[simp] theorem setEntry_ref (s : Phys) (f i : Nat) (e : Pte) : (s.setEntry f i e).ref = s.ref := rfl
@[simp] theorem setEntry_freelist (s : Phys) (f i : Nat) (e : Pte) :
    (s.setEntry f i e).freelist = s.freelist := rfl
@[simp] theorem setEntry_oom (s : Phys) (f i : Nat) (e : Pte) : (s.setEntry f i e).oom = s.oom := rfl
@[simp] theorem setRef_page (s : Phys) (f n : Nat) : (s.setRef f n).page = s.page := rfl
@[simp] theorem setRef_ref (s : Phys) (f n : Nat) :
    (s.setRef f n).ref = Function.update s.ref f n := rfl
@[simp] theorem setRef_freelist (s : Phys) (f n : Nat) : (s.setRef f n).freelist = s.freelist := rfl
@[simp] theorem setRef_oom (s : Phys) (f n : Nat) : (s.setRef f n).oom = s.oom := rfl

theorem setEntry_page_ne (s : Phys) {f g : Nat} (i : Nat) (e : Pte) (ne : g ≠ f) :
    (s.setEntry f i e).page g = s.page g := by
  simp [setEntry, ne]

theorem entry_setEntry (s : Phys) (f i : Nat) (e : Pte) (g j : Nat) :
    (s.setEntry f i e).entry g j = if g = f ∧ j = i then e else s.entry g j := by
  by_cases hg : g = f
  · subst hg
    by_cases hj : j = i
    · subst hj
      simp [entry, setEntry, Page.entry]
    · simp [entry, setEntry, Page.entry, hj]
  · simp [entry, setEntry, hg]

def kalloc (s : Phys) : Option Nat × Phys :=
  match s.freelist with
  | [] => (none, { s with oom := true })
  | r :: next => (some r, { s with freelist := next, ref := Function.update s.ref r 1 })

section
variable [layout : Layout]

/-- Frames handed to freerange: above `end` and below PHYSTOP. -/
def Managed (f : Nat) : Prop := layout.kend ≤ f ∧ f < NFRAMES

instance (f : Nat) : Decidable (Managed f) := inferInstanceAs (Decidable (_ ∧ _))

/-- The contents kfree leaves behind, memset(v, 1, PGSIZE). -/
def junk : Page := .bytes fun _ => 1

def kfree (s : Phys) (f : Nat) : Except Panic Phys :=
  if ¬ Managed f then .error .kfree
  else if s.ref f = 0 then .error .kfreeNoReferences
  else
    let s := s.setRef f (s.ref f - 1)
    if s.ref f = 0 then
      .ok { s.setPage f junk with freelist := f :: s.freelist }
    else .ok s

end

/-- The counter is a ushort. -/
def incref (s : Phys) (f : Nat) : Except Panic Phys :=
  if NFRAMES ≤ f then .error .increfOutOfRange
  else if s.ref f = 0 then .error .increfPageIsFree
  else .ok (s.setRef f ((s.ref f + 1) % 65536))

def getref (s : Phys) (f : Nat) : Except Panic Nat :=
  if NFRAMES ≤ f then .error .getrefOutOfRange else .ok (s.ref f)

end Phys
end Xv6
