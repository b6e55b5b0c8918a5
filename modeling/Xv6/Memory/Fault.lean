import Xv6.Memory.PageTable

/-!
Copy-on-write fork and page faults, vm.c. The hardware part is `permits`: with
CR0_WP set a supervisor write needs PTE_W just as a user write does.
-/
namespace Xv6

/-- The error code pushed by the CPU: FEC_PR, FEC_WR and FEC_U. -/
structure FaultCode where
  pr : Bool
  wr : Bool
  u : Bool
  deriving DecidableEq, Repr

structure Space where
  pgdir : Nat
  sz : Nat
  deriving DecidableEq, Repr

/-- Whether the CPU completes an access through this entry. -/
def Pte.permits (e : Pte) (wr u : Bool) : Bool := e.p && (!wr || e.w) && (!u || e.u)

/-- The error code the CPU raises for an access through this entry. -/
def Pte.faultCode (e : Pte) (wr u : Bool) : FaultCode := ⟨e.p, wr, u⟩

namespace Phys

/-- The entry walkpgdir finds for va; a null pointer counts as an absent entry. -/
def found (s : Phys) (pgdir va : Nat) : Pte :=
  match (s.walkpgdir pgdir va false).1 with
  | none => Pte.zero
  | some (t, i) => s.entry t i

variable [layout : Layout]

def lazyalloc (s : Phys) (pgdir va : Nat) : Except Panic (Int × Phys) :=
  let a := pgrounddown va
  match s.kalloc with
  | (none, s) => .ok (-1, s)
  | (some mem, s) => do
    let s := s.setPage mem (.bytes fun _ => 0)
    let (r, s) ← s.mappages pgdir a PGSIZE mem ⟨true, true, false⟩
    if r < 0 then
      let s ← s.kfree mem
      .ok (-1, s)
    else .ok (0, s)

def cowfault (s : Phys) (pgdir va : Nat) : Except Panic (Int × Phys) :=
  match (s.walkpgdir pgdir va false).1 with
  | none => .ok (-1, s)
  | some (t, i) =>
    let pte := s.entry t i
    if ¬ pte.p then .ok (-1, s)
    else if ¬ pte.cow then .ok (if pte.w then 0 else -1, s)
    else do
      let flags : Perm := { pte.toPerm with w := true, cow := false }
      if (← s.getref pte.frame) = 1 then
        .ok (0, s.setEntry t i ⟨flags, pte.frame, true⟩)
      else match s.kalloc with
        | (none, s) => .ok (-1, s)
        | (some mem, s) =>
          let s := s.setPage mem (s.page pte.frame)
          let s := s.setEntry t i ⟨flags, mem, true⟩
          let s ← s.kfree pte.frame
          .ok (0, s)

/-- The body of the page fault trap, run under vmlock; p is the current process. -/
def pagefault (s : Phys) (p : Option Space) (va : Nat) (err : FaultCode) :
    Except Panic (Int × Phys) :=
  match p with
  | none => .ok (-1, s)
  | some p =>
    if va ≥ KERNBASE then .ok (-1, s)
    else
      let pte := s.found p.pgdir va
      if ¬ pte.p then
        if va ≥ p.sz then .ok (-1, s) else s.lazyalloc p.pgdir va
      else if err.wr && pte.cow then s.cowfault p.pgdir va
      else if err.wr && pte.w then .ok (0, s)
      else .ok (-1, s)

def cowuvmLoop (pgdir sz d : Nat) : Nat → Nat → Phys → Except Panic (Option Nat × Phys)
  | 0, _, s => .ok (some d, s)
  | fuel + 1, i, s =>
    if i < sz then
      match (s.walkpgdir pgdir i false).1 with
      | none => cowuvmLoop pgdir sz d fuel (i + PGSIZE) s
      | some (t, j) =>
        if ¬ (s.entry t j).p then cowuvmLoop pgdir sz d fuel (i + PGSIZE) s
        else do
          let s := if (s.entry t j).w then
              s.setEntry t j { s.entry t j with w := false, cow := true }
            else s
          let pa := (s.entry t j).frame
          let flags := (s.entry t j).toPerm
          let s ← s.incref pa
          let (r, s) ← s.mappages d i PGSIZE pa flags
          if r < 0 then
            let s ← s.kfree pa
            let s ← s.freevm d
            .ok (none, s)
          else cowuvmLoop pgdir sz d fuel (i + PGSIZE) s
    else .ok (some d, s)

/-- Build a child page table that shares the parent's pages copy-on-write. -/
def cowuvm (s : Phys) (pgdir sz : Nat) : Except Panic (Option Nat × Phys) := do
  match ← s.setupkvm with
  | (none, s) => .ok (none, s)
  | (some d, s) => cowuvmLoop pgdir sz d (sz / PGSIZE + 1) 0 s

end Phys
end Xv6
