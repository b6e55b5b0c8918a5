import Xv6.Memory.Fault

/-!
Building a user image: inituvm, loaduvm and copyout of vm.c and the memory part of
exec.c. An inode is the list of its bytes; files that are devices are left out.
-/
namespace Xv6

def MAXARG : Nat := 32
def ELF_MAGIC : Nat := 0x464C457F
def ELF_PROG_LOAD : Nat := 1

def Page.write (pg : Page) (off : Nat) (bs : List UInt8) : Page :=
  .bytes fun i => if off ≤ i ∧ i < off + bs.length then bs.getD (i - off) 0 else pg.byte i

/-- readi: the number of bytes read, or -1, and the bytes. -/
def readi (ip : List UInt8) (off n : Nat) : Int × List UInt8 :=
  if ip.length < off ∨ (off + n) % 4294967296 < off then (-1, [])
  else
    let n := if ip.length < (off + n) % 4294967296 then ip.length - off else n
    (n, (ip.drop off).take n)

def field (bs : List UInt8) (off : Nat) : Nat → Nat
  | 0 => 0
  | n + 1 => (bs.getD off 0).toNat + 256 * field bs (off + 1) n

structure Elfhdr where
  magic : Nat
  entry : Nat
  phoff : Nat
  phnum : Nat
  deriving DecidableEq, Repr

/-- sizeof(struct elfhdr) -/
def ELFHDR : Nat := 52

def Elfhdr.decode (bs : List UInt8) : Elfhdr :=
  ⟨field bs 0 4, field bs 24 4, field bs 28 4, field bs 44 2⟩

structure Proghdr where
  type : Nat
  off : Nat
  vaddr : Nat
  filesz : Nat
  memsz : Nat
  deriving DecidableEq, Repr

/-- sizeof(struct proghdr) -/
def PROGHDR : Nat := 32

def Proghdr.decode (bs : List UInt8) : Proghdr :=
  ⟨field bs 0 4, field bs 4 4, field bs 8 4, field bs 16 4, field bs 20 4⟩

/-- The four bytes of a uint in memory. -/
def word (n : Nat) : List UInt8 :=
  [UInt8.ofNat n, UInt8.ofNat (n / 256), UInt8.ofNat (n / 65536), UInt8.ofNat (n / 16777216)]

namespace Phys

/-- Load the initcode into address 0 of pgdir; an absent page would be a null pointer. -/
def inituvm (s : Phys) (pgdir : Nat) (init : List UInt8) : Except Panic Phys :=
  if init.length ≥ PGSIZE then .error .inituvm
  else match s.kalloc with
    | (none, _) => .error .kernelPageFault
    | (some mem, s) => do
      let s := s.setPage mem (.bytes fun _ => 0)
      let (_, s) ← s.mappages pgdir 0 PGSIZE mem ⟨true, true, false⟩
      .ok (s.setPage mem ((s.page mem).write 0 init))

/-- The loop of loaduvm; fuel bounds the number of pages. -/
def loaduvmLoop (pgdir addr : Nat) (ip : List UInt8) (offset sz : Nat) :
    Nat → Nat → Phys → Except Panic (Int × Phys)
  | 0, _, s => .ok (0, s)
  | fuel + 1, i, s =>
    if i < sz then
      match (s.walkpgdir pgdir (addr + i) false).1 with
      | none => .error .loaduvmAddress
      | some (t, j) =>
        let pa := (s.entry t j).frame
        let n := if sz - i < PGSIZE then sz - i else PGSIZE
        let (r, bs) := readi ip ((offset + i) % 4294967296) n
        let s := s.setPage pa ((s.page pa).write 0 bs)
        if r ≠ n then .ok (-1, s)
        else loaduvmLoop pgdir addr ip offset sz fuel (i + PGSIZE) s
    else .ok (0, s)

def loaduvm (s : Phys) (pgdir addr : Nat) (ip : List UInt8) (offset sz : Nat) :
    Except Panic (Int × Phys) :=
  if addr % PGSIZE ≠ 0 then .error .loaduvmNotAligned
  else loaduvmLoop pgdir addr ip offset sz (sz / PGSIZE + 1) 0 s

/-- The loop of copyout; each round writes at least one byte. -/
def copyoutLoop (pgdir : Nat) : Nat → Nat → List UInt8 → Phys → Int × Phys
  | 0, _, _, s => (0, s)
  | fuel + 1, va, buf, s =>
    if 0 < buf.length then
      let va0 := pgrounddown va
      match s.uva2ka pgdir va0 with
      | none => (-1, s)
      | some pa0 =>
        let n := if PGSIZE - (va - va0) > buf.length then buf.length else PGSIZE - (va - va0)
        let s := s.setPage pa0 ((s.page pa0).write (va - va0) (buf.take n))
        copyoutLoop pgdir fuel ((va0 + PGSIZE) % 4294967296) (buf.drop n) s
    else (0, s)

def copyout (s : Phys) (pgdir va : Nat) (p : List UInt8) : Int × Phys :=
  copyoutLoop pgdir (p.length + 1) va p s

variable [layout : Layout]

/-- The loop over the program headers; none is the jump to bad. -/
def loadSegments (pgdir : Nat) (ip : List UInt8) :
    Nat → Nat → Nat → Phys → Except Panic (Option Nat × Phys)
  | 0, _, sz, s => .ok (some sz, s)
  | n + 1, off, sz, s =>
    let (r, bs) := readi ip off PROGHDR
    if r ≠ PROGHDR then .ok (none, s)
    else
      let ph := Proghdr.decode bs
      let next := (off + PROGHDR) % 4294967296
      if ph.type ≠ ELF_PROG_LOAD then loadSegments pgdir ip n next sz s
      else if ph.memsz < ph.filesz then .ok (none, s)
      else if (ph.vaddr + ph.memsz) % 4294967296 < ph.vaddr then .ok (none, s)
      else do
        let (sz, s) ← s.allocuvm pgdir sz ((ph.vaddr + ph.memsz) % 4294967296)
        if sz = 0 then .ok (none, s)
        else if ph.vaddr % PGSIZE ≠ 0 then .ok (none, s)
        else
          let (r, s) ← s.loaduvm pgdir ph.vaddr ip ph.off ph.filesz
          if r < 0 then .ok (none, s)
          else loadSegments pgdir ip n next sz s

/-- Push the argument strings; the stack pointer and the addresses pushed so far. -/
def pushArgs (pgdir : Nat) : List (List UInt8) → Nat → List Nat → Phys → Option (Nat × List Nat) × Phys
  | [], sp, ustack, s => (some (sp, ustack), s)
  | arg :: args, sp, ustack, s =>
    if ustack.length ≥ MAXARG then (none, s)
    else
      let sp := (sp + 4294967296 - (arg.length + 1) % 4294967296) % 4294967296 / 4 * 4
      match s.copyout pgdir sp (arg ++ [0]) with
      | (r, s) => if r < 0 then (none, s) else pushArgs pgdir args sp (ustack ++ [sp]) s

structure Image where
  pgdir : Nat
  sz : Nat
  entry : Nat
  esp : Nat
  deriving DecidableEq, Repr

/-- exec from the program headers up to the commit, in the new directory. -/
def buildImage (s : Phys) (pgdir : Nat) (elf : Elfhdr) (ip : List UInt8) (argv : List (List UInt8)) :
    Except Panic (Option Image × Phys) := do
  match ← loadSegments pgdir ip elf.phnum elf.phoff 0 s with
  | (none, s) => .ok (none, s)
  | (some sz, s) =>
    -- two pages at the next page boundary: a guard page and the user stack
    let sz := pgroundup sz
    let (sz, s) ← s.allocuvm pgdir sz ((sz + 2 * PGSIZE) % 4294967296)
    if sz = 0 then .ok (none, s)
    else
      let s ← s.clearpteu pgdir (sz - 2 * PGSIZE)
      match pushArgs pgdir argv sz [] s with
      | (none, s) => .ok (none, s)
      | (some (sp, args), s) =>
        let argc := args.length
        let ustack := [0xffffffff, argc, (sp + 4294967296 - (argc + 1) * 4) % 4294967296] ++ args ++ [0]
        let sp := (sp + 4294967296 - (3 + argc + 1) * 4) % 4294967296
        match s.copyout pgdir sp (ustack.flatMap word) with
        | (r, s) => if r < 0 then .ok (none, s) else .ok (some ⟨pgdir, sz, elf.entry, sp⟩, s)

/-- exec before the commit. On failure the new directory is freed. -/
def execImage (s : Phys) (ip : List UInt8) (argv : List (List UInt8)) :
    Except Panic (Option Image × Phys) :=
  let (r, bs) := readi ip 0 ELFHDR
  if r ≠ ELFHDR then .ok (none, s)
  else
    let elf := Elfhdr.decode bs
    if elf.magic ≠ ELF_MAGIC then .ok (none, s)
    else do
      match ← s.setupkvm with
      | (none, s) => .ok (none, s)
      | (some pgdir, s) =>
        match ← s.buildImage pgdir elf ip argv with
        | (some image, s) => .ok (some image, s)
        | (none, s) => do
          let s ← s.freevm pgdir
          .ok (none, s)

end Phys
end Xv6
