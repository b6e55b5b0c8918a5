import Xv6.Firmware.Memory

/-!
mpinit of mp.c, which looks for the CPUs in the MP configuration table. The break in the
default case of its loop leaves the switch and not the loop, and the cursor stays where it
is: at an entry of unknown type the loop never ends. Nothing else keeps it from ending, if
the table is not at the very top of the address space.
-/
namespace Xv6.Firmware

def mpsearch1 (m : Bytes) (a len : Nat) : Option Nat :=
  let addr := p2v a
  scan (fun p => memcmp m p ['_', 'M', 'P', '_'] && sum m p 16 == 0) ((addr + len) % WORD) (len / 16) addr

def mpsearch (m : Bytes) : Option Nat :=
  let bda := p2v 0x400
  let p := half m bda 0x0E * 16
  let first := if p ≠ 0 then mpsearch1 m p 1024
    else mpsearch1 m ((half m bda 0x13 * 1024 + WORD - 1024) % WORD) 1024
  match first with
  | some mp => some mp
  | none => mpsearch1 m 0xF0000 0x10000

def mpconfig (m : Bytes) : Option (Nat × Nat) :=
  match mpsearch m with
  | none => none
  | some mp =>
    if word m mp 4 = 0 then none
    else
      let conf := p2v (word m mp 4)
      if memcmp m conf ['P', 'C', 'M', 'P'] = false then none
      else if byte m conf 6 ≠ 1 ∧ byte m conf 6 ≠ 4 then none
      else if sum m conf (half m conf 4) ≠ 0 then none
      else some (mp, conf)

def MPPROC : UInt8 := 0
def MPBUS : UInt8 := 1
def MPIOAPIC : UInt8 := 2
def MPIOINTR : UInt8 := 3
def MPLINTR : UInt8 := 4

/-- The loop over the entries; `none` if it takes more than the given number of rounds. -/
def mpLoop (m : Bytes) (e : Nat) : Nat → Nat → Bool → Cpus → Option (Bool × Cpus)
  | 0, _, _, _ => none
  | fuel + 1, p, ismp, c =>
    if p < e then
      if m p = MPPROC then mpLoop m e fuel ((p + 20) % WORD) ismp (c.record (byte m p 1))
      else if m p = MPIOAPIC then mpLoop m e fuel ((p + 8) % WORD) ismp { c with ioapicid := byte m p 1 }
      else if m p = MPBUS ∨ m p = MPIOINTR ∨ m p = MPLINTR then mpLoop m e fuel ((p + 8) % WORD) ismp c
      else mpLoop m e fuel p false c
    else some (ismp, c)

/-- An error is a panic. Writing to the IMCR is left out. -/
def mpinit (m : Bytes) (c : Cpus) (fuel : Nat) : Option (Except String Cpus) :=
  match mpconfig m with
  | none => some (.error "Expect to run on an SMP")
  | some (_, conf) =>
    match mpLoop m ((conf + half m conf 4) % WORD) fuel ((conf + 44) % WORD) true { c with lapic := word m conf 36 } with
    | none => none
    | some (false, _) => some (.error "Didn't find a suitable machine")
    | some (true, c) => some (.ok c)

def entrySize (type : UInt8) : Option Nat :=
  if type = MPPROC then some 20
  else if type = MPIOAPIC ∨ type = MPBUS ∨ type = MPIOINTR ∨ type = MPLINTR then some 8
  else none

inductive Reached (m : Bytes) (start e : Nat) : Nat → Prop where
  | start : Reached m start e start
  | next {p n : Nat} : Reached m start e p → p < e → entrySize (m p) = some n → Reached m start e ((p + n) % WORD)

def procs (m : Bytes) (e : Nat) : Nat → Nat → List UInt8
  | 0, _ => []
  | n + 1, p =>
    if p < e then
      match entrySize (m p) with
      | none => []
      | some size => (if m p = MPPROC then [byte m p 1] else []) ++ procs m e n ((p + size) % WORD)
    else []

theorem mpLoop_stuck {m : Bytes} {e p : Nat} (inside : p < e) (unknown : entrySize (m p) = none) (fuel : Nat)
    (ismp : Bool) (c : Cpus) : mpLoop m e fuel p ismp c = none := by
  have other : m p ≠ MPPROC ∧ m p ≠ MPIOAPIC ∧ ¬ (m p = MPBUS ∨ m p = MPIOINTR ∨ m p = MPLINTR) := by
    unfold entrySize at unknown
    split at unknown
    · cases unknown
    · rename_i proc
      split at unknown
      · cases unknown
      · rename_i rest
        exact ⟨proc, fun is => rest (Or.inl is), fun is => rest (Or.inr is)⟩
  induction fuel generalizing ismp with
  | zero => rfl
  | succ fuel ih =>
    rw [mpLoop, if_pos inside, if_neg other.1, if_neg other.2.1, if_neg other.2.2]
    exact ih false

def visit (m : Bytes) (p : Nat) (c : Cpus) : Cpus :=
  if m p = MPPROC then c.record (byte m p 1)
  else if m p = MPIOAPIC then { c with ioapicid := byte m p 1 } else c

theorem mpLoop_known {m : Bytes} {e p n : Nat} (inside : p < e) (known : entrySize (m p) = some n) (fuel : Nat)
    (ismp : Bool) (c : Cpus) :
    mpLoop m e (fuel + 1) p ismp c = mpLoop m e fuel ((p + n) % WORD) ismp (visit m p c) := by
  unfold entrySize at known
  rw [mpLoop, if_pos inside, visit]
  split at known
  · rename_i proc
    cases known
    rw [if_pos proc, if_pos proc]
  · rename_i other
    rw [if_neg other, if_neg other]
    split at known
    · rename_i rest
      cases known
      by_cases io : m p = MPIOAPIC
      · rw [if_pos io, if_pos io]
      · rw [if_neg io, if_neg io, if_pos (rest.resolve_left io)]
    · cases known

theorem visit_ids (m : Bytes) (p : Nat) {c : Cpus} (few : c.ncpu ≤ NCPU) :
    (visit m p c).ncpu ≤ NCPU ∧
      (visit m p c).ids = (c.ids ++ if m p = MPPROC then [byte m p 1] else []).take NCPU := by
  unfold visit
  split
  · exact ⟨Cpus.record_ncpu few _, Cpus.record_ids few _⟩
  · have same : (if m p = MPIOAPIC then { c with ioapicid := byte m p 1 } else c).ids = c.ids := by
      split <;> rfl
    have count : (if m p = MPIOAPIC then { c with ioapicid := byte m p 1 } else c).ncpu = c.ncpu := by
      split <;> rfl
    rw [same, count, List.append_nil, Cpus.ids_take few]
    exact ⟨few, rfl⟩

theorem entrySize_pos {type : UInt8} {n : Nat} (known : entrySize type = some n) : 8 ≤ n ∧ n ≤ 20 := by
  unfold entrySize at known
  split at known
  · cases known
    decide
  · split at known
    · cases known
      decide
    · cases known

/-- Every round moves the cursor towards the end, so there are fewer rounds than bytes. -/
theorem mpLoop_ends {m : Bytes} {start e : Nat} (top : e + 20 ≤ WORD)
    (known : ∀ p, Reached m start e p → p < e → entrySize (m p) ≠ none) {p : Nat} (reached : Reached m start e p)
    (fuel : Nat) (enough : e - p < fuel) (ismp : Bool) {c : Cpus} (few : c.ncpu ≤ NCPU) :
    ∃ c', mpLoop m e fuel p ismp c = some (ismp, c') ∧ c'.ncpu ≤ NCPU ∧
      c'.ids = (c.ids ++ procs m e fuel p).take NCPU := by
  induction fuel generalizing p c with
  | zero => omega
  | succ fuel ih =>
    by_cases inside : p < e
    · obtain ⟨n, size⟩ := Option.ne_none_iff_exists'.mp (known p reached inside)
      obtain ⟨low, high⟩ := entrySize_pos size
      have forward : (p + n) % WORD = p + n := Nat.mod_eq_of_lt (by omega)
      obtain ⟨few', ids⟩ := visit_ids m p few
      have next := ih (reached.next inside size) (by rw [forward]; omega) few'
      obtain ⟨c', run, bound, final⟩ := next
      refine ⟨c', ?_, bound, ?_⟩
      · rw [mpLoop_known inside size, run]
      · rw [final, ids, Cpus.take_append_take, procs, if_pos inside, size, List.append_assoc]
    · refine ⟨c, ?_, few, ?_⟩
      · rw [mpLoop, if_neg inside]
      · rw [procs, if_neg inside, List.append_nil, Cpus.ids_take few]

/-- A floating pointer at 0xF0000 and the table behind it, with two processors and an I/O interrupt. -/
def twoProcs : Bytes := image 0xF0000 <|
  [0x5F, 0x4D, 0x50, 0x5F, 0x10, 0x00, 0x0F, 0x00, 1, 4, 0x81, 0, 0, 0, 0, 0] ++
  [0x50, 0x43, 0x4D, 0x50, 92, 0, 4, 93] ++ List.replicate 36 0 ++
  [0, 7] ++ List.replicate 18 0 ++ [0, 9] ++ List.replicate 18 0 ++ [3, 0, 0, 0, 0, 0, 0, 0]

def unknownEntry : Bytes := image 0xF0000 <|
  [0x5F, 0x4D, 0x50, 0x5F, 0x10, 0x00, 0x0F, 0x00, 1, 4, 0x81, 0, 0, 0, 0, 0] ++
  [0x50, 0x43, 0x4D, 0x50, 45, 0, 4, 154] ++ List.replicate 36 0 ++ [5]

end Xv6.Firmware
