import Xv6.Firmware.Memory
import Xv6.Memory.KernelMap

/-!
acpiinit of acpi.c with a record of what it reads. map_table checks that a table is at least
as long as its header and that its bytes add up to zero. The fixed part of the MADT is longer
than the header, and an entry of it is cast to a struct after a look at its first two bytes,
so a short table or a short entry is read past its end. For the rest the walk over the
entries stays inside the table, if the table is not at the very top of the address space.
-/
namespace Xv6.Firmware

/-- Some bytes of an accepted table, and of an entry of it: the length that it states, where the
bytes start in it, and their number. -/
structure Read where
  length : Nat
  off : Nat
  size : Nat
  /-- the length of the entry and where the bytes start in it -/
  entry : Option (Nat × Nat)
  deriving DecidableEq

/-- The bytes belong to the table, and to the entry if they are read as a part of one. -/
def Read.inside (r : Read) : Bool :=
  decide (r.off + r.size ≤ r.length) && r.entry.all fun (length, off) => decide (off + r.size ≤ length)

def findRsdp (m : Bytes) : Option Nat :=
  let ebda := half m (p2v 0x40E) 0 * 16
  let rsdp p := memcmp m p ['R', 'S', 'D', ' ', 'P', 'T', 'R', ' '] && sum m p 20 == 0
  match if ebda ≠ 0 then scan rsdp ((p2v ebda + 1024) % WORD) 64 (p2v ebda) else none with
  | some p => some p
  | none => scan rsdp (p2v 0x100000) 8192 (p2v 0xE0000)

def mapTable (m : Bytes) (kpgdir pa : Nat) (s : Phys) : Option Nat × Phys :=
  let (mapped, s) := s.kmap_extend kpgdir pa 36
  if mapped < 0 then (none, s)
  else
    let hdr := p2v pa
    if word m hdr 4 < 36 ∨ word m hdr 4 > 0x10000 then (none, s)
    else
      let (mapped, s) := s.kmap_extend kpgdir pa (word m hdr 4)
      if mapped < 0 then (none, s)
      else if sum m hdr (word m hdr 4) ≠ 0 then (none, s)
      else (some hdr, s)

/-- What map_table and the test of the signature read of an accepted table. -/
def headerReads (m : Bytes) (hdr : Nat) : List Read :=
  [⟨word m hdr 4, 4, 4, none⟩, ⟨word m hdr 4, 0, word m hdr 4, none⟩, ⟨word m hdr 4, 0, 4, none⟩]

/-- The loop over the entries of the RSDT. -/
def findMadt (m : Bytes) (kpgdir rsdt : Nat) : List Nat → Phys → Option Nat × List Read × Phys
  | [], s => (none, [], s)
  | i :: is, s =>
    let read : Read := ⟨word m rsdt 4, 36 + 4 * i, 4, none⟩
    match mapTable m kpgdir (word m rsdt (36 + 4 * i)) s with
    | (none, s) =>
      let (madt, reads, s) := findMadt m kpgdir rsdt is s
      (madt, read :: reads, s)
    | (some hdr, s) =>
      if memcmp m hdr ['A', 'P', 'I', 'C'] then (some hdr, read :: headerReads m hdr, s)
      else
        let (madt, reads, s) := findMadt m kpgdir rsdt is s
        (madt, read :: headerReads m hdr ++ reads, s)

def locate (m : Bytes) (kpgdir : Nat) (s : Phys) : Option Nat × List Read × Phys :=
  match findRsdp m with
  | none => (none, [], s)
  | some rsdp =>
    match mapTable m kpgdir (word m rsdp 16) s with
    | (none, s) => (none, [], s)
    | (some rsdt, s) =>
      if memcmp m rsdt ['R', 'S', 'D', 'T'] = false then (none, headerReads m rsdt, s)
      else
        let (madt, reads, s) := findMadt m kpgdir rsdt (List.range ((word m rsdt 4 - 36) / 4)) s
        (madt, headerReads m rsdt ++ reads, s)

def ACPI_MADT_LAPIC : UInt8 := 0
def ACPI_MADT_IOAPIC : UInt8 := 1

/-- What the loop over the MADT works on. -/
structure Walk where
  cpus : Cpus
  found : Nat
  reads : List Read

def entryRead (m : Bytes) (madt p off size : Nat) : Read :=
  ⟨word m madt 4, (p + WORD - madt) % WORD + off, size, some ((byte m p 1).toNat, off)⟩

/-- The switch on the type of an entry. -/
def visitEntry (m : Bytes) (madt p : Nat) (w : Walk) : Walk :=
  if byte m p 0 = ACPI_MADT_LAPIC then
    let w := { w with reads := w.reads ++ [entryRead m madt p 0 1, entryRead m madt p 4 4] }
    if word m p 4 % 2 = 1 ∧ w.cpus.ncpu < NCPU then
      ⟨w.cpus.record (byte m p 3), w.found + 1, w.reads ++ [entryRead m madt p 3 1]⟩
    else w
  else if byte m p 0 = ACPI_MADT_IOAPIC then
    { w with cpus := { w.cpus with ioapicid := byte m p 2 },
             reads := w.reads ++ [entryRead m madt p 0 1, entryRead m madt p 2 1] }
  else { w with reads := w.reads ++ [entryRead m madt p 0 1] }

/-- The loop over the entries of the MADT; `none` if it takes more than the given number of rounds. -/
def madtLoop (m : Bytes) (madt e : Nat) : Nat → Nat → Walk → Option Walk
  | 0, _, _ => none
  | fuel + 1, p, w =>
    if (p + 2) % WORD ≤ e then
      let w := { w with reads := w.reads ++ [⟨word m madt 4, (p + WORD - madt) % WORD + 1, 1, none⟩] }
      if byte m p 1 < 2 ∨ (p + (byte m p 1).toNat) % WORD > e then some w
      else madtLoop m madt e fuel ((p + (byte m p 1).toNat) % WORD) (visitEntry m madt p w)
    else some w

structure Booted where
  ret : Int
  cpus : Cpus
  reads : List Read
  phys : Phys

def acpiinit (m : Bytes) (kpgdir : Nat) (c : Cpus) (s : Phys) (fuel : Nat) : Option Booted :=
  match locate m kpgdir s with
  | (none, reads, s) => some ⟨-1, c, reads, s⟩
  | (some madt, reads, s) =>
    let c := { c with lapic := word m madt 36 }
    match madtLoop m madt ((madt + word m madt 4) % WORD) fuel ((madt + 44) % WORD)
        ⟨c, 0, reads ++ [⟨word m madt 4, 36, 4, none⟩]⟩ with
    | none => none
    | some w => some ⟨if w.found = 0 then -1 else 0, w.cpus, w.reads, s⟩

/-- There is an entry at p: it ends inside the table. -/
def Accepted (m : Bytes) (e p : Nat) : Prop := p + 2 ≤ e ∧ 2 ≤ (byte m p 1).toNat ∧ p + (byte m p 1).toNat ≤ e

instance (m : Bytes) (e p : Nat) : Decidable (Accepted m e p) := inferInstanceAs (Decidable (_ ∧ _ ∧ _))

/-- An entry starts at p, or the last one ends there. -/
inductive Cursor (m : Bytes) (start e : Nat) : Nat → Prop where
  | start : Cursor m start e start
  | next {p : Nat} : Cursor m start e p → Accepted m e p → Cursor m start e (p + (byte m p 1).toNat)

def enabled (m : Bytes) (e : Nat) : Nat → Nat → List UInt8
  | 0, _ => []
  | n + 1, p =>
    if Accepted m e p then
      (if byte m p 0 = ACPI_MADT_LAPIC ∧ word m p 4 % 2 = 1 then [byte m p 3] else []) ++
        enabled m e n (p + (byte m p 1).toNat)
    else []

structure Roomy (m : Bytes) (madt : Nat) : Prop where
  top : madt + max 44 (word m madt 4) + 255 < WORD
  fixed : 40 ≤ word m madt 4
  lapic : ∀ p, Cursor m (madt + 44) (madt + word m madt 4) p → Accepted m (madt + word m madt 4) p →
    byte m p 0 = ACPI_MADT_LAPIC → 8 ≤ (byte m p 1).toNat
  ioapic : ∀ p, Cursor m (madt + 44) (madt + word m madt 4) p → Accepted m (madt + word m madt 4) p →
    byte m p 0 = ACPI_MADT_IOAPIC → 3 ≤ (byte m p 1).toNat

theorem mapTable_length {m : Bytes} {kpgdir pa hdr : Nat} {s s' : Phys}
    (mapped : mapTable m kpgdir pa s = (some hdr, s')) : 36 ≤ word m hdr 4 ∧ word m hdr 4 ≤ 65536 := by
  unfold mapTable at mapped
  simp only at mapped
  split at mapped
  · cases mapped
  split at mapped
  · cases mapped
  rename_i length
  split at mapped
  · cases mapped
  split at mapped
  · cases mapped
  obtain ⟨table, -⟩ := Prod.mk.inj mapped
  rw [← Option.some.inj table]
  rw [not_or, Nat.not_lt, Nat.not_lt] at length
  exact length

theorem headerReads_inside {m : Bytes} {hdr : Nat} (length : 36 ≤ word m hdr 4) :
    ∀ r ∈ headerReads m hdr, r.inside = true := by
  intro r member
  simp only [headerReads, List.mem_cons, List.not_mem_nil, or_false] at member
  rcases member with rfl | rfl | rfl
  · simp [Read.inside]
    omega
  · simp [Read.inside]
  · simp [Read.inside]
    omega

theorem findMadt_inside (m : Bytes) (kpgdir rsdt : Nat) (is : List Nat) (s : Phys)
    (fits : ∀ i ∈ is, 36 + 4 * i + 4 ≤ word m rsdt 4) :
    (∀ r ∈ (findMadt m kpgdir rsdt is s).2.1, r.inside = true) ∧
      ∀ madt, (findMadt m kpgdir rsdt is s).1 = some madt → word m madt 4 ≤ 65536 := by
  induction is generalizing s with
  | nil => exact ⟨fun r hr => (List.not_mem_nil hr).elim, nofun⟩
  | cons i is ih =>
    have first : (⟨word m rsdt 4, 36 + 4 * i, 4, none⟩ : Read).inside = true := by
      simpa [Read.inside] using fits i List.mem_cons_self
    have later := fun s => ih s fun j hj => fits j (List.mem_cons_of_mem i hj)
    rw [findMadt]
    simp only
    split
    · rename_i s1 _
      refine ⟨?_, (later s1).2⟩
      intro r member
      rcases List.mem_cons.mp member with rfl | rest
      · exact first
      · exact (later s1).1 r rest
    · rename_i hdr s1 mapped
      obtain ⟨low, high⟩ := mapTable_length mapped
      split
      · refine ⟨?_, ?_⟩
        · intro r member
          rcases List.mem_cons.mp member with rfl | rest
          · exact first
          · exact headerReads_inside low r rest
        · intro madt is
          cases is
          exact high
      · refine ⟨?_, (later s1).2⟩
        intro r member
        rw [List.cons_append, List.mem_cons, List.mem_append] at member
        rcases member with rfl | header | rest
        · exact first
        · exact headerReads_inside low r header
        · exact (later s1).1 r rest

theorem locate_inside (m : Bytes) (kpgdir : Nat) (s : Phys) :
    (∀ r ∈ (locate m kpgdir s).2.1, r.inside = true) ∧
      ∀ madt, (locate m kpgdir s).1 = some madt → word m madt 4 ≤ 65536 := by
  have nothing : ∀ r ∈ ([] : List Read), r.inside = true := fun r hr => (List.not_mem_nil hr).elim
  unfold locate
  split
  · exact ⟨nothing, nofun⟩
  · split
    · exact ⟨nothing, nofun⟩
    · rename_i rsdt s1 mapped
      obtain ⟨low, -⟩ := mapTable_length mapped
      split
      · exact ⟨headerReads_inside low, nofun⟩
      · have entries := findMadt_inside m kpgdir rsdt
          (List.range ((word m rsdt 4 - 36) / 4)) s1 fun i hi => by
            have := List.mem_range.mp hi
            omega
        refine ⟨?_, entries.2⟩
        intro r member
        rcases List.mem_append.mp member with header | rest
        · exact headerReads_inside low r header
        · exact entries.1 r rest

/-- The entry at p is inside the table, and so are the parts that its own length leaves room for. -/
theorem entryRead_inside {m : Bytes} {madt p off size : Nat} (top : madt + word m madt 4 ≤ WORD) (low : madt ≤ p)
    (entry : Accepted m (madt + word m madt 4) p) (room : off + size ≤ (byte m p 1).toNat) :
    (entryRead m madt p off size).inside = true := by
  obtain ⟨two, -, last⟩ := entry
  have place : (p + WORD - madt) % WORD = p - madt := by
    have : p + WORD - madt = p - madt + WORD := by omega
    rw [this, Nat.add_mod_right, Nat.mod_eq_of_lt (by omega)]
  simp only [Read.inside, entryRead, place, Option.all_some, Bool.and_eq_true, decide_eq_true_eq]
  exact ⟨by omega, room⟩

/-- The walk started from c, has met the enabled APICs in l, and has read nothing outside the table. -/
structure Walked (c : Cpus) (l : List UInt8) (w : Walk) : Prop where
  few : w.cpus.ncpu ≤ NCPU
  ids : w.cpus.ids = (c.ids ++ l).take NCPU
  count : w.cpus.ncpu = c.ncpu + w.found
  inside : ∀ r ∈ w.reads, r.inside = true

namespace Walked
variable {c : Cpus} {l : List UInt8} {w : Walk} {m : Bytes} {madt p : Nat}

theorem read (walked : Walked c l w) (rs : List Read) (inside : ∀ r ∈ rs, r.inside = true) :
    Walked c l { w with reads := w.reads ++ rs } := by
  refine ⟨walked.few, walked.ids, walked.count, ?_⟩
  intro r member
  rcases List.mem_append.mp member with old | new
  · exact walked.inside r old
  · exact inside r new

theorem record (walked : Walked c l w) (id : UInt8) :
    (w.cpus.record id).ids = (c.ids ++ (l ++ [id])).take NCPU := by
  rw [Cpus.record_ids walked.few, walked.ids, Cpus.take_append_take, List.append_assoc]

theorem visit (walked : Walked c l w) (top : madt + word m madt 4 ≤ WORD) (low : madt ≤ p)
    (entry : Accepted m (madt + word m madt 4) p)
    (lapic : byte m p 0 = ACPI_MADT_LAPIC → 8 ≤ (byte m p 1).toNat)
    (ioapic : byte m p 0 = ACPI_MADT_IOAPIC → 3 ≤ (byte m p 1).toNat) :
    Walked c (l ++ if byte m p 0 = ACPI_MADT_LAPIC ∧ word m p 4 % 2 = 1 then [byte m p 3] else [])
      (visitEntry m madt p w) := by
  have read : ∀ off size, off + size ≤ (byte m p 1).toNat → (entryRead m madt p off size).inside = true :=
    fun off size room => entryRead_inside top low entry room
  have type := read 0 1 (Nat.le_trans (by decide) entry.2.1)
  unfold visitEntry
  by_cases apic : byte m p 0 = ACPI_MADT_LAPIC
  · have long := lapic apic
    have flags := walked.read [entryRead m madt p 0 1, entryRead m madt p 4 4] (by
      simp [type, read 4 4 (by omega)])
    rw [if_pos apic]
    simp only [apic, true_and]
    by_cases on : word m p 4 % 2 = 1
    · rw [if_pos on]
      by_cases room : w.cpus.ncpu < NCPU
      · rw [if_pos ⟨on, room⟩]
        have one : (w.cpus.record (byte m p 3)).ncpu = w.cpus.ncpu + 1 := by rw [Cpus.record, if_pos room]
        refine ⟨Cpus.record_ncpu walked.few _, walked.record _, ?_, ?_⟩
        · simp only [one, walked.count, Nat.add_assoc]
        · exact (flags.read [entryRead m madt p 3 1] (by simp [read 3 1 (by omega)])).inside
      · rw [if_neg fun both => room both.2]
        have full : w.cpus.record (byte m p 3) = w.cpus := by rw [Cpus.record, if_neg room]
        refine ⟨walked.few, ?_, walked.count, flags.inside⟩
        rw [← walked.record (byte m p 3), full]
    · rw [if_neg on, if_neg fun both => on both.1, List.append_nil]
      exact flags
  · rw [if_neg apic, if_neg fun both => apic both.1, List.append_nil]
    by_cases io : byte m p 0 = ACPI_MADT_IOAPIC
    · have long := ioapic io
      have id := walked.read [entryRead m madt p 0 1, entryRead m madt p 2 1] (by
        simp [type, read 2 1 (by omega)])
      rw [if_pos io]
      exact ⟨walked.few, walked.ids, walked.count, id.inside⟩
    · rw [if_neg io]
      exact walked.read _ (by simp [type])

/-- Every round moves the cursor towards the end of the table, so there are fewer rounds than bytes. -/
theorem loop (roomy : Roomy m madt) (fuel : Nat) (cursor : Cursor m (madt + 44) (madt + word m madt 4) p)
    (low : madt ≤ p) (high : p ≤ madt + max 44 (word m madt 4)) (enough : madt + word m madt 4 - p < fuel)
    (walked : Walked c l w) :
    ∃ w', madtLoop m madt (madt + word m madt 4) fuel p w = some w' ∧
      Walked c (l ++ enabled m (madt + word m madt 4) fuel p) w' := by
  have top := roomy.top
  induction fuel generalizing p l w with
  | zero => omega
  | succ fuel ih =>
    have two : (p + 2) % WORD = p + 2 := Nat.mod_eq_of_lt (by omega)
    have length := (byte m p 1).toNat_lt
    have next : (p + (byte m p 1).toNat) % WORD = p + (byte m p 1).toNat := Nat.mod_eq_of_lt (by omega)
    have short : byte m p 1 < 2 ↔ (byte m p 1).toNat < 2 := UInt8.lt_iff_toNat_lt
    rw [madtLoop, two, next, enabled]
    by_cases more : p + 2 ≤ madt + word m madt 4
    · have place : (p + WORD - madt) % WORD = p - madt := by
        have : p + WORD - madt = p - madt + WORD := by omega
        rw [this, Nat.add_mod_right, Nat.mod_eq_of_lt (by omega)]
      have probed := walked.read [⟨word m madt 4, (p + WORD - madt) % WORD + 1, 1, none⟩] (by
        simp only [List.mem_singleton, forall_eq, Read.inside, place, Option.all_none, Bool.and_true, decide_eq_true_eq]
        omega)
      rw [if_pos more]
      simp only
      by_cases entry : Accepted m (madt + word m madt 4) p
      · obtain ⟨-, least, last⟩ := entry
        have entry : Accepted m (madt + word m madt 4) p := ⟨more, least, last⟩
        rw [if_pos entry, if_neg (by rw [short]; omega), ← List.append_assoc]
        apply ih (cursor.next entry) (by omega) (by omega) (by omega)
        exact probed.visit (by omega) low entry (roomy.lapic p cursor entry) (roomy.ioapic p cursor entry)
      · have stop : byte m p 1 < 2 ∨ p + (byte m p 1).toNat > madt + word m madt 4 := by
          rw [short]
          by_contra go
          exact entry ⟨more, by omega, by omega⟩
        rw [if_neg entry, if_pos stop, List.append_nil]
        exact ⟨_, rfl, probed⟩
    · rw [if_neg more, if_neg fun entry => more entry.1, List.append_nil]
      exact ⟨w, rfl, walked⟩

end Walked

def allMapped : Phys := ⟨fun _ => .table fun _ => ⟨⟨true, false, false⟩, 0, true⟩, fun _ => 0, [], false⟩

/-- The RSDP at 0xE0000, the RSDT at 0xE0020 and one table at 0xE0060. -/
def withMadt (madt : List UInt8) : Bytes := image 0xE0000 <|
  [82, 83, 68, 32, 80, 84, 82, 32, 179, 0, 0, 0, 0, 0, 0, 0, 32, 0, 14, 0] ++ List.replicate 12 0 ++
  [82, 83, 68, 84, 40, 0, 0, 0, 1, 44] ++ List.replicate 26 0 ++ [96, 0, 14, 0] ++ List.replicate 24 0 ++ madt

/-- An enabled and a disabled local APIC, and an I/O APIC. -/
def oneEnabled : Bytes := withMadt <| [65, 80, 73, 67, 72, 0, 0, 0, 1, 105] ++ List.replicate 34 0 ++
  [0, 8, 0, 7, 1, 0, 0, 0, 0, 8, 1, 9, 0, 0, 0, 0, 1, 12, 2, 0, 0, 0, 0, 0, 0, 0, 0, 0]

/-- The last entry of an accepted table says that it is a local APIC of two bytes. -/
def shortEntry : Bytes := withMadt <| [65, 80, 73, 67, 46, 0, 0, 0, 1, 178] ++ List.replicate 34 0 ++
  [0, 2] ++ [0, 5, 1, 0, 0, 0]

end Xv6.Firmware
