import Xv6.Memory.FlatView

/-!
The two level page table is a flat map from page numbers to entries. Nothing is assumed about
the memory but that the directory's entries point to distinct pages that are in use: the
accounting of frames rests on this and not the other way round.
-/
namespace Xv6
open Phys

structure Distinct (s : Phys) (d : Nat) : Prop where
  once : ∀ i < NPDENTRIES, ∀ j < NPDENTRIES, ∀ t, s.tableTarget d i = some t → s.tableTarget d j = some t → i = j
  dir : ∀ i < NPDENTRIES, s.tableTarget d i ≠ some d

structure Tables (s : Phys) (d : Nat) : Prop extends Distinct s d where
  used : d ∉ s.freelist
  tables : ∀ i < NPDENTRIES, ∀ t, s.tableTarget d i = some t → t ∉ s.freelist
  free : s.freelist.Nodup

structure Slot (s : Phys) (d vp t i : Nat) : Prop where
  read : s.entry t i = s.pte d vp
  write : ∀ e, ∀ vp' < 1048576, (s.setEntry t i e).pte d vp' = if vp' = vp then e else s.pte d vp'

theorem Slot.ne {s : Phys} {d vp vp' t i t' i' : Nat} (slot : Slot s d vp t i) (slot' : Slot s d vp' t' i')
    (hv : vp < 1048576) (other : vp ≠ vp') : (t, i) ≠ (t', i') := by
  intro same
  obtain ⟨rfl, rfl⟩ := Prod.mk.inj same
  -- one store cannot change the entry of vp and leave it alone
  have changed := slot.write { s.pte d vp with p := !(s.pte d vp).p } vp hv
  rw [slot'.write _ vp hv, if_neg other, if_pos rfl] at changed
  have flipped := congrArg Pte.p changed
  cases h : (s.pte d vp).p <;> simp [h] at flipped

namespace Distinct
variable {s : Phys} {d : Nat}

theorem index_lt (vp : Nat) : vp / 1024 % 1024 < NPDENTRIES := Nat.mod_lt _ (by decide)

theorem table_ne (tables : Distinct s d) {i t : Nat} (hi : i < NPDENTRIES) (table : s.tableTarget d i = some t) :
    t ≠ d := by
  rintro rfl
  exact tables.dir i hi table

theorem slot (tables : Distinct s d) {vp t : Nat} (hv : vp < 1048576)
    (table : s.tableTarget d (vp / 1024 % 1024) = some t) : Slot s d vp t (vp % 1024) := by
  refine ⟨(pte_of_table table).symm, ?_⟩
  intro e vp' hv'
  rw [pte_setEntry e table (tables.table_ne (Distinct.index_lt vp) table) fun table' =>
    ⟨rfl, tables.once _ (index_lt vp') _ (index_lt vp) t table' table⟩]
  have place : (vp' / 1024 % 1024 = vp / 1024 % 1024 ∧ vp' % 1024 = vp % 1024) ↔ vp' = vp := by
    omega
  simp only [true_and, place]

theorem set_target (tables : Distinct s d) {i t : Nat} (hi : i < NPDENTRIES) (table : s.tableTarget d i = some t)
    (k : Nat) (e : Pte) (j : Nat) : (s.setEntry t k e).tableTarget d j = s.tableTarget d j :=
  tableTarget_congr (setEntry_page_ne s k e (tables.table_ne hi table).symm) j

theorem congr {s' : Phys} (tables : Distinct s d) (same : ∀ i, s'.tableTarget d i = s.tableTarget d i) :
    Distinct s' d := by
  constructor
  · intro i hi j hj u
    rw [same, same]
    exact tables.once i hi j hj u
  · intro i hi
    rw [same]
    exact tables.dir i hi

end Distinct

namespace Tables
variable {s : Phys} {d : Nat}

theorem set (tables : Tables s d) {i t : Nat} (hi : i < NPDENTRIES) (table : s.tableTarget d i = some t) (k : Nat)
    (e : Pte) : Tables (s.setEntry t k e) d := by
  have same := tables.set_target hi table k e
  refine ⟨tables.congr same, tables.used, ?_, tables.free⟩
  intro i hi u
  rw [same]
  exact tables.tables i hi u

def fresh (s : Phys) (t : Nat) (next : List Nat) : Phys :=
  { s with freelist := next, ref := Function.update s.ref t 1 }.setPage t (.table fun _ => Pte.zero)

theorem grow (tables : Tables s d) {i t : Nat} {next : List Nat} (list : s.freelist = t :: next)
    (absent : s.tableTarget d i = none) (perm : Perm) :
    Tables ((fresh s t next).setEntry d i ⟨perm, t, true⟩) d ∧
    (∀ j, ((fresh s t next).setEntry d i ⟨perm, t, true⟩).tableTarget d j =
      if j = i then some t else s.tableTarget d j) ∧
    ∀ vp, ((fresh s t next).setEntry d i ⟨perm, t, true⟩).pte d vp = s.pte d vp := by
  have used := tables.used
  have free := tables.free
  rw [list] at used free
  rw [List.mem_cons, not_or] at used
  rw [List.nodup_cons] at free
  have apart : ∀ j < NPDENTRIES, ∀ u, s.tableTarget d j = some u → u ≠ t ∧ u ∉ next := by
    intro j hj u table
    have held := tables.tables j hj u table
    rw [list, List.mem_cons, not_or] at held
    exact held
  have entry : ∀ g j, g ≠ t → (fresh s t next).entry g j = s.entry g j := by
    intro g j ne
    simp [fresh, Phys.entry, Phys.setPage, ne]
  have zero : ∀ j, (fresh s t next).entry t j = Pte.zero := by
    intro j
    simp [fresh, Phys.entry, Phys.setPage, Page.entry]
  have target : ∀ j, ((fresh s t next).setEntry d i ⟨perm, t, true⟩).tableTarget d j =
      if j = i then some t else s.tableTarget d j := by
    intro j
    rw [tableTarget, entry_setEntry]
    by_cases here : j = i
    · simp [here, Pte.target]
    · simp [here, entry d j used.1, tableTarget]
  refine ⟨⟨⟨?_, ?_⟩, used.2, ?_, free.2⟩, target, ?_⟩
  · intro j hj k hk u
    rw [target, target]
    by_cases first : j = i
    · by_cases second : k = i
      · intro _ _
        rw [first, second]
      · rw [if_pos first, if_neg second]
        intro is table
        exact ((apart k hk u table).1 (Option.some.inj is).symm).elim
    · by_cases second : k = i
      · rw [if_neg first, if_pos second]
        intro table is
        exact ((apart j hj u table).1 (Option.some.inj is).symm).elim
      · rw [if_neg first, if_neg second]
        exact tables.once j hj k hk u
  · intro j hj
    rw [target]
    split
    · intro is
      exact used.1 (Option.some.inj is).symm
    · exact tables.dir j hj
  · intro j hj u
    rw [target]
    split
    · intro is
      rw [← Option.some.inj is]
      exact free.1
    · intro table
      exact (apart j hj u table).2
  · intro vp
    by_cases here : vp / 1024 % 1024 = i
    · have now := target (vp / 1024 % 1024)
      rw [if_pos here] at now
      rw [pte_of_table now, pte_of_no_table (here ▸ absent), entry_setEntry, if_neg fun both => used.1 both.1.symm]
      exact zero _
    · have now := target (vp / 1024 % 1024)
      rw [if_neg here] at now
      cases table : s.tableTarget d (vp / 1024 % 1024) with
      | none => rw [pte_of_no_table (now.trans table), pte_of_no_table table]
      | some u =>
        rw [pte_of_table (now.trans table), pte_of_table table, entry_setEntry,
          if_neg fun both => tables.table_ne (Distinct.index_lt vp) table both.1, entry u _ (apart _ (Distinct.index_lt vp) u table).1]

/-- What a walk can do: without a table, fail and change nothing that is mapped, or find the entry's slot. -/
theorem walk (tables : Tables s d) (va : Nat) (alloc : Bool) :
    (∃ s', s.walkpgdir d va alloc = (none, s') ∧ s.tableTarget d (pdx va) = none ∧
      (alloc = true → s.freelist = []) ∧ ∀ vp, s'.pte d vp = s.pte d vp) ∨
    ∃ t s', s.walkpgdir d va alloc = (some (t, ptx va), s') ∧ s'.tableTarget d (pdx va) = some t ∧
      Tables s' d ∧ (∀ i u, s.tableTarget d i = some u → s'.tableTarget d i = some u) ∧
      ∀ vp, s'.pte d vp = s.pte d vp := by
  cases table : s.tableTarget d (pdx va) with
  | some t =>
    obtain ⟨present, frame⟩ := target_some.mp table
    refine Or.inr ⟨t, s, ?_, table, tables, fun _ _ same => same, fun _ => rfl⟩
    simp [walkpgdir, present, frame]
  | none =>
    have absent := target_none.mp table
    cases alloc with
    | false => exact Or.inl ⟨s, walk_false_of_no_table table, rfl,
        fun write => absurd write Bool.false_ne_true, fun _ => rfl⟩
    | true =>
      cases list : s.freelist with
      | nil =>
        refine Or.inl ⟨{ s with oom := true }, ?_, rfl, fun _ => rfl, fun _ => rfl⟩
        simp [walkpgdir, absent, kalloc, list]
      | cons t next =>
        obtain ⟨grown, target, same⟩ := tables.grow list table ⟨true, true, false⟩
        refine Or.inr ⟨t, (fresh s t next).setEntry d (pdx va) ⟨⟨true, true, false⟩, t, true⟩, ?_, ?_, grown, ?_, same⟩
        · simp [walkpgdir, absent, kalloc, list, fresh]
        · rw [target, if_pos rfl]
        · intro i u there
          rw [target, if_neg]
          · exact there
          · rintro rfl
            rw [table] at there
            cases there

end Tables

/-- The loop of mappages with its own test for the end and its 32 bit sums; `none` if it takes more
than the given number of rounds. -/
def Phys.mapLoop (pgdir last : Nat) (perm : Perm) : Nat → Nat → Nat → Phys → Option (Except Panic (Int × Phys))
  | 0, _, _, _ => none
  | fuel + 1, a, pa, s =>
    match s.walkpgdir pgdir a true with
    | (none, s) => some (.ok (-1, s))
    | (some (t, i), s) =>
      if (s.entry t i).p then some (.error .remap)
      else
        let s := s.setEntry t i ⟨perm, pa / PGSIZE, true⟩
        if a = last then some (.ok (0, s))
        else mapLoop pgdir last perm fuel ((a + PGSIZE) % 4294967296) ((pa + PGSIZE) % 4294967296) s

/-- mappages with its loop as it stands. -/
def Phys.mapFuel (s : Phys) (pgdir va size pa : Nat) (perm : Perm) (fuel : Nat) :
    Option (Except Panic (Int × Phys)) :=
  mapLoop pgdir (pgrounddown ((va + size + 4294967295) % 4294967296)) perm fuel (pgrounddown va) pa s

theorem mapLoop_ends (d : Nat) (perm : Perm) (n vp : Nat) {fuel f : Nat} (s : Phys) (top : vp + n < 1048576)
    (frame : f < 1048576) (enough : n < fuel) :
    Phys.mapLoop d ((vp + n) * PGSIZE) perm fuel (vp * PGSIZE) (f * PGSIZE) s =
      some (Phys.mappagesLoop d perm n (vp * PGSIZE) f s) := by
  have whole : ∀ k, k * PGSIZE / PGSIZE = k := fun k => Nat.mul_div_cancel k (by decide)
  induction n generalizing fuel vp f s with
  | zero =>
    obtain ⟨fuel, rfl⟩ := Nat.exists_eq_succ_of_ne_zero (Nat.ne_of_gt enough)
    rw [Phys.mapLoop, Phys.mappagesLoop]
    cases s.walkpgdir d (vp * PGSIZE) true with
    | mk slot s1 =>
      cases slot with
      | none => rfl
      | some slot =>
        simp only [whole, Nat.add_zero, if_true]
        split <;> rfl
  | succ n ih =>
    obtain ⟨fuel, rfl⟩ := Nat.exists_eq_succ_of_ne_zero (Nat.ne_of_gt (Nat.zero_lt_of_lt enough))
    have more : vp * PGSIZE ≠ (vp + (n + 1)) * PGSIZE := by
      simp only [PGSIZE]
      omega
    have next : vp * PGSIZE + PGSIZE = (vp + 1) * PGSIZE := by rw [Nat.add_mul, Nat.one_mul]
    have below : (vp + 1) * PGSIZE % 4294967296 = (vp + 1) * PGSIZE := by
      simp only [PGSIZE]
      omega
    have frame' : (f * PGSIZE + PGSIZE) % 4294967296 = (f + 1) % 1048576 * PGSIZE := by
      simp only [PGSIZE]
      omega
    have last : vp + (n + 1) = vp + 1 + n := by omega
    rw [Phys.mapLoop, Phys.mappagesLoop]
    cases s.walkpgdir d (vp * PGSIZE) true with
    | mk slot s1 =>
      cases slot with
      | none => rfl
      | some slot =>
        simp only [whole, if_neg more, next, below, frame']
        split
        · rfl
        · rw [last, ih (vp + 1) _ (by omega) (Nat.mod_lt _ (by decide)) (by omega)]

theorem mapFuel_eq (s : Phys) (d : Nat) {va size pa fuel : Nat} (perm : Perm) (pos : 0 < size)
    (top : va + size ≤ 4294967296) (hpa : pa < 4294967296) (aligned : pa % PGSIZE = 0) (enough : 1048576 ≤ fuel) :
    s.mapFuel d va size pa perm fuel = some (s.mappages d va size (pa / PGSIZE) perm) ∧
      s.mappages d va size (pa / PGSIZE) perm =
        Phys.mappagesLoop d perm ((va + size - 1) / PGSIZE - va / PGSIZE) (va / PGSIZE * PGSIZE) (pa / PGSIZE) s := by
  have last : pgrounddown ((va + size + 4294967295) % 4294967296) = (va + size - 1) / PGSIZE * PGSIZE := by
    simp only [pgrounddown, PGSIZE]
    omega
  have count : ((va + size - 1) / PGSIZE * PGSIZE + 4294967296 - va / PGSIZE * PGSIZE) % 4294967296 / PGSIZE =
      (va + size - 1) / PGSIZE - va / PGSIZE := by
    simp only [PGSIZE]
    omega
  have pages : (va + size - 1) / PGSIZE = va / PGSIZE + ((va + size - 1) / PGSIZE - va / PGSIZE) := by
    simp only [PGSIZE]
    omega
  have loop : s.mappages d va size (pa / PGSIZE) perm =
      Phys.mappagesLoop d perm ((va + size - 1) / PGSIZE - va / PGSIZE) (va / PGSIZE * PGSIZE) (pa / PGSIZE) s := by
    have first : pgrounddown va = va / PGSIZE * PGSIZE := rfl
    simp only [Phys.mappages, last, first, count]
  have bytes : pa = pa / PGSIZE * PGSIZE := by
    simp only [PGSIZE] at *
    omega
  have inside : (va + size - 1) / PGSIZE < 1048576 := by
    simp only [PGSIZE]
    omega
  have frame : pa / PGSIZE < 1048576 := by
    simp only [PGSIZE]
    omega
  have run := mapLoop_ends d perm ((va + size - 1) / PGSIZE - va / PGSIZE) (va / PGSIZE) s (by omega) frame
    (Nat.lt_of_le_of_lt (Nat.sub_le _ _) (Nat.lt_of_lt_of_le inside enough))
  rw [← pages, ← bytes] at run
  refine ⟨?_, loop⟩
  rw [loop, Phys.mapFuel, last]
  exact run

/-- The pages of d from lo up to hi are mapped to the frames from f on, and no others have changed. -/
def MapsTo (d lo hi f : Nat) (perm : Perm) (s s' : Phys) : Prop :=
  ∀ vp < 1048576, s'.pte d vp =
    if lo ≤ vp ∧ vp < hi then ⟨perm, (f + (vp - lo)) % 1048576, true⟩ else s.pte d vp

theorem MapsTo.none {d lo f : Nat} {perm : Perm} {s s' : Phys} (same : ∀ vp, s'.pte d vp = s.pte d vp) :
    MapsTo d lo lo f perm s s' := by
  intro vp _
  rw [if_neg (by omega), same]

theorem MapsTo.cons {d lo hi f : Nat} {perm : Perm} {s s1 s' : Phys} (frame : f < 1048576) (low : lo < hi)
    (first : ∀ vp < 1048576, s1.pte d vp = if vp = lo then ⟨perm, f, true⟩ else s.pte d vp)
    (rest : MapsTo d (lo + 1) hi ((f + 1) % 1048576) perm s1 s') : MapsTo d lo hi f perm s s' := by
  intro vp hv
  rw [rest vp hv, first vp hv]
  by_cases here : vp = lo
  · have whole : (f + (vp - lo)) % 1048576 = f := by omega
    rw [if_neg (by omega), if_pos here, if_pos (by omega), whole]
  by_cases inside : lo + 1 ≤ vp ∧ vp < hi
  · have place : ((f + 1) % 1048576 + (vp - (lo + 1))) % 1048576 = (f + (vp - lo)) % 1048576 := by omega
    rw [if_pos inside, if_pos (by omega), place]
  · rw [if_neg inside, if_neg here, if_neg (by omega)]

theorem mappagesLoop_round {d vp f : Nat} {s : Phys} (perm : Perm) (tables : Tables s d) (hv : vp < 1048576)
    (absent : (s.pte d vp).p = false) :
    (∃ s', (∀ n, Phys.mappagesLoop d perm n (vp * PGSIZE) f s = .ok (-1, s')) ∧ ∀ vp', s'.pte d vp' = s.pte d vp') ∨
    ∃ s1, Phys.mappagesLoop d perm 0 (vp * PGSIZE) f s = .ok (0, s1) ∧
      (∀ n, Phys.mappagesLoop d perm (n + 1) (vp * PGSIZE) f s =
        Phys.mappagesLoop d perm n ((vp + 1) * PGSIZE) ((f + 1) % 1048576) s1) ∧ Tables s1 d ∧
      ∀ vp' < 1048576, s1.pte d vp' = if vp' = vp then ⟨perm, f, true⟩ else s.pte d vp' := by
  have next : vp * PGSIZE + PGSIZE = (vp + 1) * PGSIZE := by rw [Nat.add_mul, Nat.one_mul]
  rcases tables.walk (vp * PGSIZE) true with ⟨s', walk, -, -, same⟩ | ⟨t, s1, walk, table, tables1, -, same⟩
  · refine Or.inl ⟨s', fun n => ?_, same⟩
    rw [Phys.mappagesLoop, walk]
  · rw [pdx_page] at table
    rw [ptx_page] at walk
    have slot := tables1.slot hv table
    have here : (s1.entry t (vp % 1024)).p = false := by
      rw [slot.read, same]
      exact absent
    refine Or.inr ⟨s1.setEntry t (vp % 1024) ⟨perm, f, true⟩, ?_, fun n => ?_,
      tables1.set (Distinct.index_lt vp) table _ _, fun vp' hv' => ?_⟩
    · rw [Phys.mappagesLoop, walk]
      simp only [here, Bool.false_eq_true, if_false]
    · rw [Phys.mappagesLoop, walk]
      simp only [here, Bool.false_eq_true, if_false, next]
    · rw [slot.write _ vp' hv', same]

/-- mappages either maps the whole range or stops in front of a page that needs a table. -/
theorem mappagesLoop_flat {d : Nat} (perm : Perm) (n vp f : Nat) (s : Phys) (tables : Tables s d)
    (top : vp + n < 1048576) (frame : f < 1048576)
    (absent : ∀ vp', vp ≤ vp' → vp' ≤ vp + n → (s.pte d vp').p = false) :
    ∃ r s', Phys.mappagesLoop d perm n (vp * PGSIZE) f s = .ok (r, s') ∧
      (r = 0 ∧ MapsTo d vp (vp + n + 1) f perm s s' ∨
        r = -1 ∧ ∃ mid, vp ≤ mid ∧ mid ≤ vp + n ∧ MapsTo d vp mid f perm s s') := by
  induction n generalizing vp f s with
  | zero =>
    rcases mappagesLoop_round (f := f) perm tables top (absent vp (Nat.le_refl _) (Nat.le_refl _)) with
      ⟨s', run, same⟩ | ⟨s1, run, -, -, set⟩
    · exact ⟨-1, s', run 0, Or.inr ⟨rfl, vp, Nat.le_refl _, Nat.le_refl _, MapsTo.none same⟩⟩
    · refine ⟨0, s1, run, Or.inl ⟨rfl, ?_⟩⟩
      exact MapsTo.cons frame (by omega) set (MapsTo.none fun _ => rfl)
  | succ n ih =>
    rcases mappagesLoop_round (f := f) perm tables (by omega) (absent vp (Nat.le_refl _) (by omega)) with
      ⟨s', run, same⟩ | ⟨s1, -, run, tables1, set⟩
    · exact ⟨-1, s', run (n + 1), Or.inr ⟨rfl, vp, Nat.le_refl _, by omega, MapsTo.none same⟩⟩
    · have absent1 : ∀ vp', vp + 1 ≤ vp' → vp' ≤ vp + 1 + n → (s1.pte d vp').p = false := by
        intro vp' low high
        rw [set vp' (by omega), if_neg (by omega)]
        exact absent vp' (by omega) (by omega)
      obtain ⟨r, s', loop, result⟩ :=
        ih (vp + 1) ((f + 1) % 1048576) s1 tables1 (by omega) (Nat.mod_lt _ (by decide)) absent1
      refine ⟨r, s', (run n).trans loop, ?_⟩
      rcases result with ⟨zero, all⟩ | ⟨minus, mid, low, high, some_⟩
      · refine Or.inl ⟨zero, MapsTo.cons frame (by omega) set ?_⟩
        rwa [show vp + (n + 1) + 1 = vp + 1 + n + 1 by omega]
      · exact Or.inr ⟨minus, mid, by omega, by omega, MapsTo.cons frame (by omega) set some_⟩

/-- A page directory whose present entries point to distinct pages is a flat map: a walk finds the one slot
of a page's entry, and mappages maps the pages of its range and no others. -/
theorem page_table_flat (s : Phys) (d : Nat) (tables : Tables s d) :
    (∀ va < 4294967296, ∀ alloc s', s.walkpgdir d va alloc = (none, s') →
      s.tableTarget d (pdx va) = none ∧ (alloc = true → s.freelist = []) ∧ ∀ vp, s'.pte d vp = s.pte d vp) ∧
    (∀ va < 4294967296, ∀ alloc t i s', s.walkpgdir d va alloc = (some (t, i), s') →
      Slot s' d (va / PGSIZE) t i ∧ Tables s' d ∧ (∀ vp, s'.pte d vp = s.pte d vp) ∧
      ∀ va' < 4294967296, va' / PGSIZE ≠ va / PGSIZE → ∀ alloc' t' i' s'',
        s'.walkpgdir d va' alloc' = (some (t', i'), s'') → (t', i') ≠ (t, i)) ∧
    ∀ va size pa perm fuel, 0 < size → va + size ≤ 4294967296 → pa < 4294967296 → pa % PGSIZE = 0 →
      (∀ vp, va / PGSIZE ≤ vp → vp ≤ (va + size - 1) / PGSIZE → (s.pte d vp).p = false) → 1048576 ≤ fuel →
      ∃ r s', s.mapFuel d va size pa perm fuel = some (.ok (r, s')) ∧
        (r = 0 ∧ MapsTo d (va / PGSIZE) ((va + size - 1) / PGSIZE + 1) (pa / PGSIZE) perm s s' ∨
          r = -1 ∧ ∃ mid, va / PGSIZE ≤ mid ∧ mid ≤ (va + size - 1) / PGSIZE ∧
            MapsTo d (va / PGSIZE) mid (pa / PGSIZE) perm s s') := by
  have pages : ∀ va < 4294967296, va / PGSIZE < 1048576 := by
    intro va hva
    simp only [PGSIZE]
    omega
  have found : ∀ {s : Phys} {va t : Nat}, Tables s d → va < 4294967296 → s.tableTarget d (pdx va) = some t →
      Slot s d (va / PGSIZE) t (ptx va) := by
    intro s va t tables hva table
    rw [pdx_eq] at table
    exact tables.slot (pages va hva) table
  refine ⟨?_, ?_, ?_⟩
  · intro va _ alloc s' run
    rcases tables.walk va alloc with ⟨s1, walk, absent, empty, same⟩ | ⟨t, s1, walk, -⟩
    · cases walk.symm.trans run
      exact ⟨absent, empty, same⟩
    · cases walk.symm.trans run
  · intro va hva alloc t i s' run
    rcases tables.walk va alloc with ⟨s1, walk, -⟩ | ⟨t1, s1, walk, table, tables1, -, same⟩
    · cases walk.symm.trans run
    · cases walk.symm.trans run
      refine ⟨found tables1 hva table, tables1, same, ?_⟩
      intro va' hva' other alloc' t' i' s'' run'
      rcases tables1.walk va' alloc' with ⟨s2, walk', -⟩ | ⟨t2, s2, walk', table', tables2, more, -⟩
      · cases walk'.symm.trans run'
      · cases walk'.symm.trans run'
        exact (found tables2 hva' table').ne (found tables2 hva (more _ _ table)) (pages va' hva') other
  · intro va size pa perm fuel pos top hpa aligned absent enough
    obtain ⟨run, loop⟩ := mapFuel_eq s d perm pos top hpa aligned enough
    have last : va / PGSIZE ≤ (va + size - 1) / PGSIZE := Nat.div_le_div_right (by omega)
    have inside := pages (va + size - 1) (by omega)
    have frame := pages pa hpa
    generalize (va + size - 1) / PGSIZE = hi at *
    obtain ⟨r, s', done, result⟩ := mappagesLoop_flat perm (hi - va / PGSIZE) (va / PGSIZE) (pa / PGSIZE) s tables
      (by omega) frame (fun vp low high => absent vp low (by omega))
    refine ⟨r, s', by rw [run, loop, done], ?_⟩
    rw [show va / PGSIZE + (hi - va / PGSIZE) = hi by omega] at result
    exact result

def Phys.emptyDir : Phys := ⟨fun _ => .table fun _ => Pte.zero, Function.update (fun _ => 0) 1 1, [2, 3], false⟩

theorem page_table_flat_two : ∃ s', Phys.emptyDir.mapFuel 1 0x1800 0x1000 0x5000 ⟨true, true, false⟩ 1048576 =
    some (.ok (0, s')) ∧ s'.pte 1 1 = ⟨⟨true, true, false⟩, 5, true⟩ ∧ s'.pte 1 2 = ⟨⟨true, true, false⟩, 6, true⟩ ∧
    s'.pte 1 3 = Pte.zero := by
  have tables : Tables Phys.emptyDir 1 := ⟨⟨nofun, nofun⟩, by decide, nofun, by decide⟩
  obtain ⟨-, -, maps⟩ := page_table_flat Phys.emptyDir 1 tables
  obtain ⟨r, s', run, result⟩ := maps 0x1800 0x1000 0x5000 ⟨true, true, false⟩ 1048576 (by decide) (by decide)
    (by decide) (by decide) (fun _ _ _ => rfl) (Nat.le_refl _)
  have zero : (Phys.emptyDir.mapFuel 1 0x1800 0x1000 0x5000 ⟨true, true, false⟩ 1048576).map
      (fun r => r.toOption.map Prod.fst) = some (some 0) := by decide +kernel
  rw [run] at zero
  have ret : r = 0 := Option.some.inj (Option.some.inj zero)
  subst ret
  rcases result with ⟨-, all⟩ | ⟨minus, -⟩
  · exact ⟨s', run, all 1 (by decide), all 2 (by decide), all 3 (by decide)⟩
  · cases minus

end Xv6
