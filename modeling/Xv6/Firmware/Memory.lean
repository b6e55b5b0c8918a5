import Xv6.Sched.Proc
import Mathlib

/-!
What the readers of the firmware's tables share: memory as the kernel sees it, byte by byte
at 32-bit addresses, and the table of CPUs that they fill.
-/
namespace Xv6.Firmware

/-- Pointers are uints. -/
def WORD : Nat := 4294967296

/-- The byte at every kernel address. -/
abbrev Bytes := Nat → UInt8

def p2v (pa : Nat) : Nat := (pa + KERNBASE) % WORD

def byte (m : Bytes) (a off : Nat) : UInt8 := m ((a + off) % WORD)

/-- A ushort. -/
def half (m : Bytes) (a off : Nat) : Nat := (byte m a off).toNat + 256 * (byte m a (off + 1)).toNat

/-- A uint. -/
def word (m : Bytes) (a off : Nat) : Nat := half m a off + 65536 * half m a (off + 2)

def memcmp (m : Bytes) (a : Nat) (s : List Char) : Bool :=
  ((List.range s.length).map fun i => (byte m a i).toNat) == s.map Char.toNat

/-- sum of mp.c and acpi_checksum of acpi.c. -/
def sum (m : Bytes) (a len : Nat) : UInt8 := ((List.range len).map fun i => byte m a i).sum

theorem half_lt (m : Bytes) (a off : Nat) : half m a off < 65536 := by
  have low := (byte m a off).toNat_lt
  have high := (byte m a (off + 1)).toNat_lt
  unfold half
  omega

/-- Memory that is zero but for the bytes from physical address pa on. -/
def image (pa : Nat) (bytes : List UInt8) : Bytes := fun a => if p2v pa ≤ a then bytes.getD (a - p2v pa) 0 else 0

def scan (found : Nat → Bool) (e : Nat) : Nat → Nat → Option Nat
  | 0, _ => none
  | n + 1, p =>
    if p < e then
      if found p then some p else scan found e n ((p + 16) % WORD)
    else none

/-- The globals of mp.c and lapic.c. -/
structure Cpus where
  ncpu : Nat
  /-- cpus[].apicid -/
  apicid : Nat → UInt8
  lapic : Nat
  ioapicid : UInt8

namespace Cpus

/-- if(ncpu < NCPU){ cpus[ncpu].apicid = id; ncpu++; } -/
def record (c : Cpus) (id : UInt8) : Cpus :=
  if c.ncpu < NCPU then { c with apicid := Function.update c.apicid c.ncpu id, ncpu := c.ncpu + 1 } else c

def ids (c : Cpus) : List UInt8 := (List.range c.ncpu).map c.apicid

theorem ids_length (c : Cpus) : c.ids.length = c.ncpu := by
  simp [ids]

theorem record_ncpu {c : Cpus} (few : c.ncpu ≤ NCPU) (id : UInt8) : (c.record id).ncpu ≤ NCPU := by
  unfold record
  split
  · assumption
  · exact few

theorem record_ids {c : Cpus} (few : c.ncpu ≤ NCPU) (id : UInt8) : (c.record id).ids = (c.ids ++ [id]).take NCPU := by
  unfold record
  split
  · rename_i room
    have old : (List.range c.ncpu).map (Function.update c.apicid c.ncpu id) = c.ids := by
      apply List.map_congr_left
      intro i hi
      have := List.mem_range.mp hi
      rw [Function.update_of_ne (by omega)]
    have short : (c.ids ++ [id]).length ≤ NCPU := by
      rw [List.length_append, ids_length]
      exact room
    rw [List.take_of_length_le short]
    simp [ids, List.range_succ, old]
  · have full : c.ids.length = NCPU := by
      rw [ids_length]
      omega
    rw [← full, List.take_left]

theorem take_append_take (l r : List UInt8) (n : Nat) : (l.take n ++ r).take n = (l ++ r).take n := by
  have left : n - min n l.length = n - l.length := by omega
  rw [List.take_append, List.take_append, List.take_take, Nat.min_self, List.length_take, left]

theorem ids_take {c : Cpus} (few : c.ncpu ≤ NCPU) : c.ids.take NCPU = c.ids := by
  apply List.take_of_length_le
  rw [ids_length]
  exact few

def zero : Cpus := ⟨0, fun _ => 0, 0, 0⟩

end Cpus
end Xv6.Firmware
