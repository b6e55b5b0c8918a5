import Xv6.Memory.Frames

/-!
Two level page tables, vm.c. Addresses are 32 bit unsigned values; a page table
slot is named by the frame of the table and the index of the entry. Functions
that return 0 or -1 in the source return those values here, and a call to panic
ends the computation.
-/
namespace Xv6

def EXTMEM : Nat := 0x100000
def DEVSPACE : Nat := 0xFE000000
def KERNLINK : Nat := KERNBASE + EXTMEM

def pdx (va : Nat) : Nat := va / 4194304 % 1024
def ptx (va : Nat) : Nat := va / 4096 % 1024
def pgaddr (d t o : Nat) : Nat := d * 4194304 + t * 4096 + o
def pgroundup (sz : Nat) : Nat := (sz + PGSIZE - 1) % 4294967296 / PGSIZE * PGSIZE
def pgrounddown (a : Nat) : Nat := a / PGSIZE * PGSIZE

namespace Phys

/-- The slot of the entry for va. With alloc, a missing page table is created. -/
def walkpgdir (s : Phys) (pgdir va : Nat) (alloc : Bool) : Option (Nat × Nat) × Phys :=
  let pde := s.entry pgdir (pdx va)
  if pde.p then (some (pde.frame, ptx va), s)
  else if !alloc then (none, s)
  else match s.kalloc with
    | (none, s) => (none, s)
    | (some pgtab, s) =>
      -- make sure all those PTE_P bits are zero
      let s := s.setPage pgtab (.table fun _ => Pte.zero)
      (some (pgtab, ptx va), s.setEntry pgdir (pdx va) ⟨⟨true, true, false⟩, pgtab, true⟩)

/-- The loop of mappages; n pages remain after the one at a. -/
def mappagesLoop (pgdir : Nat) (perm : Perm) : Nat → Nat → Nat → Phys → Except Panic (Int × Phys)
  | n, a, pa, s =>
    match s.walkpgdir pgdir a true with
    | (none, s) => .ok (-1, s)
    | (some (t, i), s) =>
      if (s.entry t i).p then .error .remap
      else
        let s := s.setEntry t i ⟨perm, pa, true⟩
        match n with
        | 0 => .ok (0, s)
        | n + 1 => mappagesLoop pgdir perm n (a + PGSIZE) ((pa + 1) % 1048576) s

/-- Map size bytes at va to the frames from pa on. -/
def mappages (s : Phys) (pgdir va size pa : Nat) (perm : Perm) : Except Panic (Int × Phys) :=
  let a := pgrounddown va
  let last := pgrounddown ((va + size + 4294967295) % 4294967296)
  mappagesLoop pgdir perm ((last + 4294967296 - a) % 4294967296 / PGSIZE) a pa s

section
variable [layout : Layout]

def deallocuvmLoop (pgdir oldsz : Nat) : Nat → Nat → Phys → Except Panic Phys
  | 0, _, s => .ok s
  | fuel + 1, a, s =>
    if a < oldsz then
      match (s.walkpgdir pgdir a false).1 with
      | none => deallocuvmLoop pgdir oldsz fuel (pgaddr (pdx a + 1) 0 0 - PGSIZE + PGSIZE) s
      | some (t, i) =>
        let pte := s.entry t i
        if pte.p then
          if pte.frame = 0 then .error .kfree
          else do
            let s ← s.kfree pte.frame
            deallocuvmLoop pgdir oldsz fuel (a + PGSIZE) (s.setEntry t i Pte.zero)
        else deallocuvmLoop pgdir oldsz fuel (a + PGSIZE) s
    else .ok s

/-- Deallocate user pages to bring the process size from oldsz to newsz. -/
def deallocuvm (s : Phys) (pgdir oldsz newsz : Nat) : Except Panic (Nat × Phys) :=
  if newsz ≥ oldsz then .ok (oldsz, s)
  else do
    let s ← deallocuvmLoop pgdir oldsz (oldsz / PGSIZE + 1) (pgroundup newsz) s
    .ok (newsz, s)

def freeTables (pgdir : Nat) : List Nat → Phys → Except Panic Phys
  | [], s => .ok s
  | i :: is, s =>
    if (s.entry pgdir i).p then do
      let s ← s.kfree (s.entry pgdir i).frame
      freeTables pgdir is s
    else freeTables pgdir is s

/-- Free a page table and all the physical memory pages in the user part. -/
def freevm (s : Phys) (pgdir : Nat) : Except Panic Phys :=
  if pgdir = 0 then .error .freevmNoPgdir
  else do
    let (_, s) ← s.deallocuvm pgdir KERNBASE 0
    let s ← freeTables pgdir (List.range NPDENTRIES) s
    s.kfree pgdir

structure Kmap where
  virt : Nat
  physStart : Nat
  physEnd : Nat
  perm : Perm

/-- The kernel's mappings, which are present in every process's page table. -/
def kmap : List Kmap :=
  [⟨KERNBASE, 0, EXTMEM, ⟨true, false, false⟩⟩,
   ⟨KERNLINK, EXTMEM, layout.data * PGSIZE, ⟨false, false, false⟩⟩,
   ⟨KERNBASE + layout.data * PGSIZE, layout.data * PGSIZE, PHYSTOP, ⟨true, false, false⟩⟩,
   ⟨DEVSPACE, DEVSPACE, 0, ⟨true, false, false⟩⟩]

def setupkvmLoop (pgdir : Nat) : List Kmap → Phys → Except Panic (Option Nat × Phys)
  | [], s => .ok (some pgdir, s)
  | k :: ks, s => do
    let (r, s) ← s.mappages pgdir k.virt
      ((k.physEnd + 4294967296 - k.physStart) % 4294967296) (k.physStart / PGSIZE) k.perm
    if r < 0 then
      let s ← s.freevm pgdir
      .ok (none, s)
    else setupkvmLoop pgdir ks s

def setupkvm (s : Phys) : Except Panic (Option Nat × Phys) :=
  match s.kalloc with
  | (none, s) => .ok (none, s)
  | (some pgdir, s) =>
    setupkvmLoop pgdir kmap (s.setPage pgdir (.table fun _ => Pte.zero))

def allocuvmLoop (pgdir oldsz newsz : Nat) : Nat → Nat → Phys → Except Panic (Nat × Phys)
  | 0, _, s => .ok (newsz, s)
  | fuel + 1, a, s =>
    if a < newsz then
      match s.kalloc with
      | (none, s) => do
        let (_, s) ← s.deallocuvm pgdir newsz oldsz
        .ok (0, s)
      | (some mem, s) => do
        let s := s.setPage mem (.bytes fun _ => 0)
        let (r, s) ← s.mappages pgdir a PGSIZE mem ⟨true, true, false⟩
        if r < 0 then
          let (_, s) ← s.deallocuvm pgdir newsz oldsz
          let s ← s.kfree mem
          .ok (0, s)
        else allocuvmLoop pgdir oldsz newsz fuel (a + PGSIZE) s
    else .ok (newsz, s)

/-- Allocate page tables and memory to grow from oldsz to newsz; 0 on error. -/
def allocuvm (s : Phys) (pgdir oldsz newsz : Nat) : Except Panic (Nat × Phys) :=
  if newsz ≥ KERNBASE then .ok (0, s)
  else if newsz < oldsz then .ok (oldsz, s)
  else allocuvmLoop pgdir oldsz newsz (newsz / PGSIZE + 1) (pgroundup oldsz) s

end

/-- Clear PTE_U on a page, to create an inaccessible page beneath the user stack. -/
def clearpteu (s : Phys) (pgdir uva : Nat) : Except Panic Phys :=
  match (s.walkpgdir pgdir uva false).1 with
  | none => .error .clearpteu
  | some (t, i) => .ok (s.setEntry t i { s.entry t i with u := false })

/-- The frame behind a user page, if user code may touch it. -/
def uva2ka (s : Phys) (pgdir uva : Nat) : Option Nat :=
  match (s.walkpgdir pgdir uva false).1 with
  | none => none
  | some (t, i) =>
    if ¬ (s.entry t i).p then none
    else if ¬ (s.entry t i).u then none
    else some (s.entry t i).frame

end Phys
end Xv6
