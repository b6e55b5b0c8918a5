import Xv6.Memory.Boot
import Xv6.Memory.Translation
import Mathlib.Algebra.BigOperators.Intervals

/-!
What deallocuvm and freevm release, counted. The two go through one page directory; the
directory has to be one whose mapped frames are in use often enough, and nothing is assumed
about the rest of memory.
-/
namespace Xv6
open Phys

/-- c f references to every frame f have been given back. A frame without references is on the
free list, once, and contents have changed only in these and in the pages of W. -/
structure Dropped (c : Nat → Nat) (W : Nat → Prop) (s s' : Phys) : Prop where
  ref : ∀ f, s'.ref f + c f = s.ref f
  page : ∀ g, ¬ W g → c g = 0 ∨ s'.ref g ≠ 0 → s'.page g = s.page g
  freed : ∃ l, s'.freelist = l ++ s.freelist ∧ l.Nodup ∧ ∀ f, f ∈ l ↔ 0 < c f ∧ s'.ref f = 0

namespace Dropped
variable {c c' : Nat → Nat} {W : Nat → Prop} {s s1 s' : Phys}

theorem refl (W : Nat → Prop) (s : Phys) : Dropped (fun _ => 0) W s s :=
  ⟨fun _ => rfl, fun _ _ _ => rfl, [], rfl, List.nodup_nil, fun f => by simp⟩

theorem congr (dropped : Dropped c W s s') (same : ∀ f, c' f = c f) : Dropped c' W s s' := by
  have eq : c' = c := funext same
  rw [eq]
  exact dropped

theorem trans (first : Dropped c W s s1) (second : Dropped c' W s1 s') :
    Dropped (fun f => c f + c' f) W s s' := by
  obtain ⟨l, list, nodup, freed⟩ := first.freed
  obtain ⟨l', list', nodup', freed'⟩ := second.freed
  -- what the first part has freed has no references left for the second
  have gone : ∀ f, f ∈ l → c' f = 0 ∧ s'.ref f = 0 := by
    intro f member
    have none := ((freed f).mp member).2
    have sum := second.ref f
    omega
  refine ⟨?_, ?_, l' ++ l, ?_, ?_, ?_⟩
  · intro f
    have one := first.ref f
    have two := second.ref f
    omega
  · intro g off keeps
    have two := second.ref g
    rw [second.page g off (by omega), first.page g off (by omega)]
  · rw [list', list, List.append_assoc]
  · rw [List.nodup_append]
    refine ⟨nodup', nodup, ?_⟩
    intro f member g member' same
    subst same
    have := (gone f member').1
    have := ((freed' f).mp member).1
    omega
  · intro f
    have one := first.ref f
    have two := second.ref f
    rw [List.mem_append, freed', freed]
    omega

theorem write {t : Nat} (W : Nat → Prop) (member : W t) (i : Nat) (e : Pte) :
    Dropped (fun _ => 0) W s (s.setEntry t i e) := by
  refine ⟨fun _ => rfl, ?_, [], rfl, List.nodup_nil, fun f => by simp⟩
  intro g off _
  exact setEntry_page_ne s i e fun same => off (same ▸ member)

theorem one [Layout] {f : Nat} (W : Nat → Prop) (managed : Managed f) (held : s.ref f ≠ 0) :
    s.kfree f = .ok (s.drop f) ∧ Dropped (fun g => if g = f then 1 else 0) W s (s.drop f) := by
  refine ⟨kfree_eq managed held, ?_, ?_, ?_⟩
  · intro g
    by_cases here : g = f
    · subst here
      simp [Phys.drop]
      omega
    · simp [Phys.drop, here]
  · intro g _ keeps
    by_cases here : g = f
    · subst here
      rw [if_pos rfl] at keeps
      apply drop_page_of_shared
      intro last
      simp [Phys.drop, last] at keeps
    · exact drop_page_ne here
  · by_cases last : s.ref f = 1
    · refine ⟨[f], by simp [Phys.drop, last], List.nodup_singleton f, ?_⟩
      intro g
      by_cases here : g = f
      · subst here
        simp [Phys.drop, last]
      · simp [here]
    · refine ⟨[], by simp [Phys.drop, last], List.nodup_nil, ?_⟩
      intro g
      by_cases here : g = f
      · subst here
        simp [Phys.drop]
        omega
      · simp [here]

end Dropped

def Phys.maps (s : Phys) (d lo hi f : Nat) : Nat :=
  ∑ vp ∈ Finset.Ico lo hi, if s.userTarget d vp = some f then 1 else 0

def Phys.IsTable (s : Phys) (d f : Nat) : Prop := ∃ i < NPDENTRIES, s.tableTarget d i = some f

/-- The frames that d maps in its user half are in use, often enough, and not as its page tables. -/
structure UserPart [Layout] (s : Phys) (d : Nat) : Prop extends Distinct s d where
  user : ∀ vp < NUPAGES, ∀ f, s.userTarget d vp = some f → Managed f ∧ f ≠ d ∧ ¬ s.IsTable d f
  refs : ∀ f, s.maps d 0 NUPAGES f ≤ s.ref f

/-- The present pages of d from lo up to hi have been released, and nothing else. -/
structure Released (s : Phys) (d lo hi : Nat) (s' : Phys) : Prop extends
    Dropped (s.maps d lo hi) (s.IsTable d) s s' where
  pte : ∀ vp < 1048576, s'.pte d vp =
    if lo ≤ vp ∧ vp < hi ∧ (s.pte d vp).p = true then Pte.zero else s.pte d vp
  tables : ∀ i, s'.tableTarget d i = s.tableTarget d i

theorem maps_add (s : Phys) (d f : Nat) {lo mid hi : Nat} (first : lo ≤ mid) (second : mid ≤ hi) :
    s.maps d lo mid f + s.maps d mid hi f = s.maps d lo hi f :=
  Finset.sum_Ico_consecutive _ first second

theorem maps_congr {s s' : Phys} {d lo hi : Nat} (same : ∀ vp, lo ≤ vp → vp < hi → s'.pte d vp = s.pte d vp) (f : Nat) :
    s'.maps d lo hi f = s.maps d lo hi f := by
  apply Finset.sum_congr rfl
  intro vp member
  obtain ⟨low, high⟩ := Finset.mem_Ico.mp member
  rw [Phys.userTarget, Phys.userTarget, same vp low high]

theorem maps_zero {s : Phys} {d lo hi : Nat} (absent : ∀ vp, lo ≤ vp → vp < hi → (s.pte d vp).p = false) (f : Nat) :
    s.maps d lo hi f = 0 := by
  apply Finset.sum_eq_zero
  intro vp member
  obtain ⟨low, high⟩ := Finset.mem_Ico.mp member
  simp [Phys.userTarget, target_none.mpr (absent vp low high)]

theorem maps_one (s : Phys) (d vp f : Nat) :
    s.maps d vp (vp + 1) f = if s.userTarget d vp = some f then 1 else 0 := by
  rw [Phys.maps, Nat.Ico_succ_singleton, Finset.sum_singleton]

namespace Released
variable {s s1 s' : Phys} {d lo mid hi : Nat}

theorem none (absent : ∀ vp, lo ≤ vp → vp < hi → (s.pte d vp).p = false) : Released s d lo hi s := by
  refine ⟨(Dropped.refl _ s).congr (maps_zero absent), ?_, fun _ => rfl⟩
  intro vp _
  by_cases inside : lo ≤ vp ∧ vp < hi ∧ (s.pte d vp).p = true
  · have := absent vp inside.1 inside.2.1
    rw [this] at inside
    cases inside.2.2
  · rw [if_neg inside]

theorem trans (first : Released s d lo mid s1) (second : Released s1 d mid hi s') (low : lo ≤ mid) (high : mid ≤ hi)
    (top : hi ≤ 1048576) : Released s d lo hi s' := by
  have later : ∀ vp, mid ≤ vp → vp < hi → s1.pte d vp = s.pte d vp := by
    intro vp above below
    rw [first.pte vp (by omega), if_neg (by omega)]
  have same : s1.IsTable d = s.IsTable d := by
    funext f
    simp only [Phys.IsTable, first.tables]
  have dropped := second.toDropped
  rw [same] at dropped
  refine ⟨(first.toDropped.trans dropped).congr fun f => ?_, ?_, fun i => (second.tables i).trans (first.tables i)⟩
  · rw [maps_congr later, maps_add s d f low high]
  · intro vp hv
    rw [second.pte vp hv, first.pte vp hv]
    by_cases early : lo ≤ vp ∧ vp < mid ∧ (s.pte d vp).p = true
    · have whole : lo ≤ vp ∧ vp < hi ∧ (s.pte d vp).p = true := ⟨early.1, by omega, early.2.2⟩
      simp only [if_pos early, if_pos whole, ite_self]
    · rw [if_neg early]
      by_cases present : (s.pte d vp).p = true
      · simp only [present, and_true] at early ⊢
        congr 1
        exact propext (by omega)
      · simp [present]

theorem space [Layout] (released : Released s d lo hi s') (space : UserPart s d) (low : lo ≤ hi) (high : hi ≤ NUPAGES) :
    UserPart s' d := by
  have up : NUPAGES ≤ 1048576 := by decide
  refine ⟨space.toDistinct.congr released.tables, ?_, ?_⟩
  · intro vp hv f mapped
    have table : s'.IsTable d f = s.IsTable d f := by simp only [Phys.IsTable, released.tables]
    rw [table]
    apply space.user vp hv f
    rw [Phys.userTarget, released.pte vp (by omega)] at mapped
    split at mapped
    · cases mapped
    · exact mapped
  · intro f
    have before : s'.maps d 0 lo f = s.maps d 0 lo f := maps_congr (fun vp _ below => by
      rw [released.pte vp (by omega), if_neg (by omega)]) f
    have after : s'.maps d hi NUPAGES f = s.maps d hi NUPAGES f := maps_congr (fun vp above _ => by
      rw [released.pte vp (by omega), if_neg (by omega)]) f
    have between : s'.maps d lo hi f = 0 := by
      apply maps_zero
      intro vp above below
      rw [released.pte vp (by omega)]
      by_cases present : (s.pte d vp).p = true
      · rw [if_pos ⟨above, below, present⟩]
        rfl
      · rw [if_neg fun all => present all.2.2]
        simpa using present
    have sum := maps_add s d f (Nat.zero_le lo) low
    have sum2 := maps_add s d f (Nat.zero_le hi) high
    have sum' := maps_add s' d f (Nat.zero_le lo) low
    have sum2' := maps_add s' d f (Nat.zero_le hi) high
    have enough := space.refs f
    have ref := released.ref f
    omega

end Released
section
variable [Layout] {s : Phys} {d : Nat}

theorem managed_ne_zero {f : Nat} (managed : Managed f) : f ≠ 0 := by
  have := managed.1
  have := ‹Layout›.data_before_end
  have := ‹Layout›.text_before_data
  omega

theorem UserPart.release_page (space : UserPart s d) {vp t f : Nat} (hv : vp < NUPAGES)
    (table : s.tableTarget d (vp / 1024 % 1024) = some t) (mapped : s.userTarget d vp = some f) :
    s.kfree f = .ok (s.drop f) ∧ Released s d vp (vp + 1) ((s.drop f).setEntry t (vp % 1024) Pte.zero) := by
  have up : NUPAGES ≤ 1048576 := by decide
  have member : s.IsTable d t := ⟨_, Distinct.index_lt vp, table⟩
  obtain ⟨managed, away, plain⟩ := space.user vp hv f mapped
  have held : s.ref f ≠ 0 := by
    have one := maps_one s d vp f
    rw [if_pos mapped] at one
    have before := maps_add s d f (Nat.zero_le vp) (show vp ≤ vp + 1 by omega)
    have after := maps_add s d f (Nat.zero_le (vp + 1)) hv
    have enough := space.refs f
    omega
  obtain ⟨run, dropped⟩ := Dropped.one (s.IsTable d) managed held
  have dir : (s.drop f).page d = s.page d := drop_page_ne away.symm
  have target : ∀ i, (s.drop f).tableTarget d i = s.tableTarget d i := fun i => tableTarget_congr dir i
  have pte : ∀ vp', (s.drop f).pte d vp' = s.pte d vp' := by
    intro vp'
    apply pte_congr dir
    intro u there
    apply drop_page_ne
    rintro rfl
    exact plain ⟨_, Distinct.index_lt vp', there⟩
  have distinct := space.toDistinct.congr target
  have slot := distinct.slot (by omega) ((target _).trans table)
  refine ⟨run, (dropped.trans (Dropped.write _ member (vp % 1024) Pte.zero)).congr fun g => ?_, ?_, ?_⟩
  · rw [maps_one, mapped, Nat.add_zero]
    simp only [Option.some.injEq, eq_comm]
  · intro vp' hv'
    rw [slot.write _ vp' hv', pte]
    have present := (target_some.mp mapped).1
    by_cases here : vp' = vp
    · subst here
      rw [if_pos rfl, if_pos ⟨Nat.le_refl _, Nat.lt_succ_self _, present⟩]
    · rw [if_neg here, if_neg (by omega)]
  · intro i
    rw [distinct.set_target (Distinct.index_lt vp) ((target _).trans table), target]

/-- The loop of deallocuvm with its 32 bit sums; `none` if it takes more than the given number of rounds. -/
def Phys.deallocFuel (pgdir oldsz : Nat) : Nat → Nat → Phys → Option (Except Panic Phys)
  | 0, _, _ => none
  | fuel + 1, a, s =>
    if a < oldsz then
      match (s.walkpgdir pgdir a false).1 with
      | none =>
        let a := (pgaddr (pdx a + 1) 0 0 + 4294967296 - PGSIZE) % 4294967296
        deallocFuel pgdir oldsz fuel ((a + PGSIZE) % 4294967296) s
      | some (t, i) =>
        let pte := s.entry t i
        if pte.p then
          if pte.frame = 0 then some (.error .kfree)
          else
            match s.kfree pte.frame with
            | .error e => some (.error e)
            | .ok s => deallocFuel pgdir oldsz fuel ((a + PGSIZE) % 4294967296) (s.setEntry t i Pte.zero)
        else deallocFuel pgdir oldsz fuel ((a + PGSIZE) % 4294967296) s
    else some (.ok s)

theorem UserPart.round (space : UserPart s d) {vp oldsz : Nat} (more : vp * PGSIZE < oldsz) (top : oldsz ≤ KERNBASE) :
    ∃ vp' s1, vp < vp' ∧ Released s d vp (min vp' ((oldsz + 4095) / PGSIZE)) s1 ∧
      (∀ fuel, Phys.deallocFuel d oldsz (fuel + 1) (vp * PGSIZE) s = Phys.deallocFuel d oldsz fuel (vp' * PGSIZE) s1) ∧
      ∀ fuel, Phys.deallocuvmLoop d oldsz (fuel + 1) (vp * PGSIZE) s =
        Phys.deallocuvmLoop d oldsz fuel (vp' * PGSIZE) s1 := by
  have hv : vp < NUPAGES := by
    simp only [KERNBASE, NUPAGES, PGSIZE] at *
    omega
  have step : vp * PGSIZE + PGSIZE = (vp + 1) * PGSIZE := by rw [Nat.add_mul, Nat.one_mul]
  have below : (vp + 1) * PGSIZE % 4294967296 = (vp + 1) * PGSIZE := by
    simp only [NUPAGES, PGSIZE] at *
    omega
  have last : min (vp + 1) ((oldsz + 4095) / PGSIZE) = vp + 1 := by
    simp only [PGSIZE] at *
    omega
  cases table : s.tableTarget d (pdx (vp * PGSIZE)) with
  | none =>
    -- without a page table the cursor goes to the first page of the next one
    have skip : pgaddr (pdx (vp * PGSIZE) + 1) 0 0 - PGSIZE + PGSIZE = (vp / 1024 + 1) * 1024 * PGSIZE := by
      rw [pdx_page]
      simp only [pgaddr, PGSIZE, NUPAGES] at *
      omega
    have skip' : ((pgaddr (pdx (vp * PGSIZE) + 1) 0 0 + 4294967296 - PGSIZE) % 4294967296 + PGSIZE) % 4294967296 =
        (vp / 1024 + 1) * 1024 * PGSIZE := by
      rw [pdx_page]
      simp only [pgaddr, PGSIZE, NUPAGES] at *
      omega
    refine ⟨(vp / 1024 + 1) * 1024, s, by omega, Released.none ?_, fun fuel => ?_, fun fuel => ?_⟩
    · intro vp' low high
      have index : vp' / 1024 % 1024 = vp / 1024 % 1024 := by omega
      rw [pdx_page, ← index] at table
      rw [pte_of_no_table table]
      rfl
    · rw [Phys.deallocFuel, if_pos more, walk_false_of_no_table table]
      simp only [skip']
    · rw [Phys.deallocuvmLoop, if_pos more, walk_false_of_no_table table]
      simp only [skip]
  | some t =>
    have table' := table
    rw [pdx_page] at table'
    have slot : s.entry t (vp % 1024) = s.pte d vp := (pte_of_table table').symm
    by_cases present : (s.pte d vp).p = true
    · have mapped : s.userTarget d vp = some (s.pte d vp).frame := target_some.mpr ⟨present, rfl⟩
      have nonzero := managed_ne_zero (space.user vp hv _ mapped).1
      obtain ⟨free, released⟩ := space.release_page hv table' mapped
      refine ⟨vp + 1, _, by omega, by rw [last]; exact released, fun fuel => ?_, fun fuel => ?_⟩
      · rw [Phys.deallocFuel, if_pos more, walk_false_of_table table, ptx_page]
        simp only [slot, present, if_true, if_neg nonzero, free, step, below]
      · rw [Phys.deallocuvmLoop, if_pos more, walk_false_of_table table, ptx_page]
        simp only [slot, present, if_true, if_neg nonzero, free, step, ok_bind]
    · refine ⟨vp + 1, s, by omega, Released.none ?_, fun fuel => ?_, fun fuel => ?_⟩
      · intro vp' low high
        have here : vp' = vp := by omega
        rw [here]
        simpa using present
      · rw [Phys.deallocFuel, if_pos more, walk_false_of_table table, ptx_page]
        simp only [slot, if_neg present, step, below]
      · rw [Phys.deallocuvmLoop, if_pos more, walk_false_of_table table, ptx_page]
        simp only [slot, if_neg present, step]

theorem dealloc_stop (d vp : Nat) {oldsz : Nat} (s : Phys) (done : ¬ vp * PGSIZE < oldsz) :
    (∀ fuel, 0 < fuel → Phys.deallocFuel d oldsz fuel (vp * PGSIZE) s = some (.ok s)) ∧
      ∀ fuel, Phys.deallocuvmLoop d oldsz fuel (vp * PGSIZE) s = .ok s := by
  constructor
  · intro fuel pos
    obtain ⟨fuel, rfl⟩ := Nat.exists_eq_succ_of_ne_zero (Nat.ne_of_gt pos)
    rw [Phys.deallocFuel, if_neg done]
  · intro fuel
    cases fuel with
    | zero => rfl
    | succ fuel => rw [Phys.deallocuvmLoop, if_neg done]

theorem UserPart.loop {oldsz : Nat} (top : oldsz ≤ KERNBASE) (n vp : Nat) (s : Phys) (space : UserPart s d)
    (left : oldsz ≤ (vp + n) * PGSIZE) :
    ∃ s', (∀ fuel, n < fuel → Phys.deallocFuel d oldsz fuel (vp * PGSIZE) s = some (.ok s')) ∧
      (∀ fuel, n ≤ fuel → Phys.deallocuvmLoop d oldsz fuel (vp * PGSIZE) s = .ok s') ∧
      Released s d vp ((oldsz + 4095) / PGSIZE) s' := by
  have high : (oldsz + 4095) / PGSIZE ≤ NUPAGES := by
    simp only [KERNBASE, NUPAGES, PGSIZE] at *
    omega
  have up : NUPAGES ≤ 1048576 := by decide
  have behind : ∀ k, oldsz ≤ k * PGSIZE ↔ (oldsz + 4095) / PGSIZE ≤ k := by
    intro k
    simp only [PGSIZE]
    omega
  induction n using Nat.strong_induction_on generalizing vp s with
  | h n ih =>
    by_cases more : vp * PGSIZE < oldsz
    · obtain ⟨vp', s1, later, released, round, round'⟩ := space.round more top
      have inside : vp < (oldsz + 4095) / PGSIZE := by
        have := (behind vp).not.mp (Nat.not_le.mpr more)
        omega
      have rest : (oldsz + 4095) / PGSIZE ≤ vp + n := (behind _).mp left
      have space1 := released.space space (by omega) (by omega)
      obtain ⟨s', run, run', released'⟩ := ih (n - (vp' - vp)) (by omega) vp' s1 space1
        ((behind _).mpr (by omega))
      refine ⟨s', ?_, ?_, ?_⟩
      · intro fuel enough
        obtain ⟨fuel, rfl⟩ := Nat.exists_eq_succ_of_ne_zero (Nat.ne_of_gt (Nat.zero_lt_of_lt enough))
        rw [round, run fuel (by omega)]
      · intro fuel enough
        obtain ⟨fuel, rfl⟩ := Nat.exists_eq_succ_of_ne_zero (show fuel ≠ 0 by omega)
        rw [round', run' fuel (by omega)]
      · by_cases reached : vp' ≤ (oldsz + 4095) / PGSIZE
        · rw [Nat.min_eq_left reached] at released
          exact released.trans released' (by omega) reached (by omega)
        · -- the cursor has skipped the end, and the loop stops there
          have stop := (dealloc_stop d vp' s1 (Nat.not_lt.mpr ((behind _).mpr (by omega)))).2
          cases (stop _).symm.trans (run' _ (Nat.le_refl _))
          rw [Nat.min_eq_right (by omega)] at released
          exact released
    · obtain ⟨run, run'⟩ := dealloc_stop d vp s more
      refine ⟨s, fun fuel enough => run fuel (by omega), fun fuel _ => run' fuel, Released.none ?_⟩
      intro vp' low below
      have := (behind vp).mp (Nat.not_lt.mp more)
      omega

structure Releasable (s : Phys) (d : Nat) : Prop extends UserPart s d where
  tables : ∀ t, s.IsTable d t → Managed t ∧ s.ref t ≠ 0
  root : Managed d ∧ s.ref d ≠ 0

def Phys.pointers (s : Phys) (d : Nat) (is : List Nat) (f : Nat) : Nat :=
  is.countP fun i => s.tableTarget d i == some f

theorem freeTables_dropped (W : Nat → Prop) (is : List Nat) (nodup : is.Nodup) (s : Phys)
    (once : ∀ i ∈ is, ∀ j ∈ is, ∀ t, s.tableTarget d i = some t → s.tableTarget d j = some t → i = j)
    (used : ∀ i ∈ is, ∀ t, s.tableTarget d i = some t → t ≠ d ∧ Managed t ∧ s.ref t ≠ 0) :
    ∃ s', Phys.freeTables d is s = .ok s' ∧ Dropped (s.pointers d is) W s s' := by
  induction is generalizing s with
  | nil => exact ⟨s, rfl, Dropped.refl W s⟩
  | cons i is ih =>
    rw [List.nodup_cons] at nodup
    rw [Phys.freeTables]
    have once' : ∀ j ∈ is, ∀ k ∈ is, ∀ u, s.tableTarget d j = some u → s.tableTarget d k = some u → j = k :=
      fun j hj k hk => once j (List.mem_cons_of_mem i hj) k (List.mem_cons_of_mem i hk)
    cases table : s.tableTarget d i with
    | none =>
      have absent := target_none.mp table
      rw [if_neg (by rw [absent]; decide)]
      obtain ⟨s', run, dropped⟩ := ih nodup.2 s once' fun j hj => used j (List.mem_cons_of_mem i hj)
      refine ⟨s', run, dropped.congr fun f => ?_⟩
      simp [Phys.pointers, table]
    | some t =>
      obtain ⟨present, frame⟩ := target_some.mp table
      obtain ⟨away, managed, held⟩ := used i List.mem_cons_self t table
      obtain ⟨free, first⟩ := Dropped.one W managed held
      have target : ∀ j, (s.drop t).tableTarget d j = s.tableTarget d j :=
        fun j => tableTarget_congr (drop_page_ne away.symm) j
      obtain ⟨s', run, rest⟩ := ih nodup.2 (s.drop t)
        (fun j hj k hk u => by rw [target, target]; exact once' j hj k hk u)
        (fun j hj u there => by
          rw [target] at there
          obtain ⟨away', managed', held'⟩ := used j (List.mem_cons_of_mem i hj) u there
          refine ⟨away', managed', ?_⟩
          have other : u ≠ t := by
            rintro rfl
            have same := once i List.mem_cons_self j (List.mem_cons_of_mem i hj) u table there
            exact nodup.1 (same ▸ hj)
          have sum := first.ref u
          rw [if_neg other] at sum
          omega)
      refine ⟨s', ?_, (first.trans rest).congr fun f => ?_⟩
      · rw [if_pos present, frame, free, ok_bind]
        exact run
      · have later : (s.drop t).pointers d is f = s.pointers d is f := by
          simp only [Phys.pointers, target]
        rw [later, Phys.pointers, List.countP_cons, table, Phys.pointers, Nat.add_comm]
        congr 1
        by_cases here : f = t
        · simp [here]
        · simp [here, Ne.symm here]

namespace Releasable

theorem table_unmapped (whole : Releasable s d) {t : Nat} (table : s.IsTable d t) : s.maps d 0 NUPAGES t = 0 := by
  apply Finset.sum_eq_zero
  intro vp member
  rw [if_neg]
  intro mapped
  exact (whole.user vp (Finset.mem_Ico.mp member).2 t mapped).2.2 table

theorem root_unmapped (whole : Releasable s d) : s.maps d 0 NUPAGES d = 0 := by
  apply Finset.sum_eq_zero
  intro vp member
  rw [if_neg]
  intro mapped
  exact (whole.user vp (Finset.mem_Ico.mp member).2 d mapped).2.1 rfl

theorem root_pointers (whole : Releasable s d) : s.pointers d (List.range NPDENTRIES) d = 0 := by
  rw [Phys.pointers, List.countP_eq_zero]
  intro i hi
  simpa using whole.dir i (List.mem_range.mp hi)

theorem table_pointers (whole : Releasable s d) {t : Nat} (table : s.IsTable d t) :
    s.pointers d (List.range NPDENTRIES) t = 1 := by
  obtain ⟨i, hi, there⟩ := table
  have only : ∀ j ∈ List.range NPDENTRIES, (s.tableTarget d j == some t) = (j == i) := by
    intro j hj
    rw [Bool.eq_iff_iff, beq_iff_eq, beq_iff_eq]
    constructor
    · intro here
      exact whole.once j (List.mem_range.mp hj) i hi t here there
    · rintro rfl
      exact there
  rw [Phys.pointers, List.countP_congr fun j hj => by rw [only j hj]]
  exact List.count_eq_one_of_mem List.nodup_range (List.mem_range.mpr hi)

theorem freevm (whole : Releasable s d) : ∃ s', s.freevm d = .ok s' ∧
    Dropped (fun f => s.maps d 0 NUPAGES f + s.pointers d (List.range NPDENTRIES) f + if f = d then 1 else 0)
      (s.IsTable d) s s' := by
  have whole_ : (KERNBASE + 4095) / PGSIZE = NUPAGES := by decide
  obtain ⟨s1, -, run, released⟩ := UserPart.loop (Nat.le_refl KERNBASE) NUPAGES 0 s whole.toUserPart (by decide)
  rw [whole_] at released
  have ref1 : ∀ t, s.maps d 0 NUPAGES t = 0 → s1.ref t = s.ref t := by
    intro t none
    have sum := released.ref t
    omega
  obtain ⟨s2, tables, dropped⟩ := freeTables_dropped (s.IsTable d) (List.range NPDENTRIES) List.nodup_range s1
    (fun i hi j hj t => by
      rw [released.tables, released.tables]
      exact whole.once i (List.mem_range.mp hi) j (List.mem_range.mp hj) t)
    (fun i hi t table => by
      rw [released.tables] at table
      have member : s.IsTable d t := ⟨i, List.mem_range.mp hi, table⟩
      rw [ref1 t (whole.table_unmapped member)]
      exact ⟨whole.table_ne (List.mem_range.mp hi) table, whole.tables t member⟩)
  have pointers : s1.pointers d (List.range NPDENTRIES) = s.pointers d (List.range NPDENTRIES) := by
    funext f
    simp only [Phys.pointers, released.tables]
  rw [pointers] at dropped
  have root : s2.ref d = s.ref d := by
    have sum := dropped.ref d
    rw [whole.root_pointers, ref1 d whole.root_unmapped] at sum
    omega
  obtain ⟨last, dropped'⟩ := Dropped.one (s.IsTable d) whole.root.1 (by rw [root]; exact whole.root.2)
  refine ⟨s2.drop d, ?_, (released.toDropped.trans dropped).trans dropped'⟩
  have nonzero := managed_ne_zero whole.root.1
  have dealloc : s.deallocuvm d KERNBASE 0 = .ok (0, s1) := by
    have loop := run (KERNBASE / PGSIZE + 1) (by decide)
    have start : pgroundup 0 = 0 * PGSIZE := by decide
    rw [Phys.deallocuvm, if_neg (by decide), start, loop, ok_bind]
  rw [Phys.freevm, if_neg nonzero, dealloc, ok_bind]
  simp only
  rw [tables, ok_bind, last]

end Releasable

theorem FrameInv.whole {live own : Finset Nat} {x : Nat → Nat} (inv : FrameInv live own x s) (hd : d ∈ live) :
    Releasable s d := by
  have table : ∀ t, s.IsTable d t → t ∉ live ∧ s.ref t ≠ 0 := by
    rintro t ⟨i, hi, there⟩
    refine ⟨inv.table_not_live hd hi there, ?_⟩
    have held := inv.table_held hd hi there
    have sum := inv.refs t
    unfold kernelRefs at sum
    omega
  have root : s.ref d ≠ 0 := by
    have sum := inv.refs d
    simp only [kernelRefs, if_pos hd] at sum
    omega
  refine ⟨⟨⟨?_, ?_⟩, ?_, ?_⟩, fun t there => ⟨inv.managed t (table t there).2, (table t there).2⟩,
    inv.managed d root, root⟩
  · intro i hi j hj t here there
    exact (inv.table_unique hd hd hi hj here there).2
  · intro i hi there
    exact (table d ⟨i, hi, there⟩).1 hd
  · intro vp hv f mapped
    refine ⟨inv.managed f (inv.user_held hd hv mapped), ?_, ?_⟩
    · rintro rfl
      have kern := inv.user_not_kernel hd hv mapped
      exact (FrameInv.kernelRefs_zero kern).2.1 hd
    · rintro ⟨i, hi, there⟩
      exact (inv.user_ne_table hd hv mapped hd hi there).1 rfl
  · intro f
    have sum := inv.refs f
    have row : s.maps d 0 NUPAGES f ≤ s.userRefs live f := by
      have mine : s.maps d 0 NUPAGES f = ((Finset.range NUPAGES).filter fun vp => s.userTarget d vp = some f).card := by
        rw [Finset.card_filter, Finset.range_eq_Ico]
        rfl
      rw [mine]
      exact Finset.single_le_sum (f := fun d => ((Finset.range NUPAGES).filter fun vp =>
        s.userTarget d vp = some f).card) (fun _ _ => Nat.zero_le _) hd
    omega

/-- deallocuvm gives back one reference for every present page of its range and clears the entries of these
pages; freevm one for every present page of the user half, for every page table and for the directory. -/
theorem release_exact (s : Phys) (d : Nat) :
    (UserPart s d → ∀ oldsz newsz, oldsz ≤ KERNBASE → newsz < oldsz → ∃ s',
      s.deallocuvm d oldsz newsz = .ok (newsz, s') ∧
      (∀ fuel, NUPAGES < fuel → Phys.deallocFuel d oldsz fuel (pgroundup newsz) s = some (.ok s')) ∧
      Released s d (pgroundup newsz / PGSIZE) ((oldsz + 4095) / PGSIZE) s') ∧
    (Releasable s d → ∃ s', s.freevm d = .ok s' ∧
      Dropped (fun f => s.maps d 0 NUPAGES f + s.pointers d (List.range NPDENTRIES) f + if f = d then 1 else 0)
        (s.IsTable d) s s' ∧
      (∀ t, s.IsTable d t → s'.ref t + 1 = s.ref t) ∧ s'.ref d + 1 = s.ref d ∧
      ∀ f, s.maps d 0 NUPAGES f = 0 → ¬ s.IsTable d f → f ≠ d → s'.ref f = s.ref f ∧ s'.page f = s.page f) := by
  constructor
  · intro space oldsz newsz top shrink
    have whole : pgroundup newsz / PGSIZE * PGSIZE = pgroundup newsz := by
      simp only [pgroundup, PGSIZE]
      omega
    have near : oldsz ≤ (pgroundup newsz / PGSIZE + NUPAGES) * PGSIZE := by
      have half : NUPAGES * PGSIZE = KERNBASE := by decide
      rw [Nat.add_mul, half]
      omega
    have least : oldsz ≤ (pgroundup newsz / PGSIZE + (oldsz / PGSIZE + 1)) * PGSIZE := by
      rw [Nat.add_mul]
      have here : oldsz ≤ (oldsz / PGSIZE + 1) * PGSIZE := by
        simp only [PGSIZE]
        omega
      omega
    obtain ⟨s', run, -, released⟩ := UserPart.loop top NUPAGES (pgroundup newsz / PGSIZE) s space near
    obtain ⟨s2, run2, loop, -⟩ := UserPart.loop top (oldsz / PGSIZE + 1) (pgroundup newsz / PGSIZE) s space least
    -- both are the result of the same loop
    have rounds : oldsz / PGSIZE + 1 < NUPAGES + 2 := by
      simp only [KERNBASE, NUPAGES, PGSIZE] at *
      omega
    cases (run (NUPAGES + 2) (by omega)).symm.trans (run2 (NUPAGES + 2) rounds)
    rw [whole] at run loop
    refine ⟨s', ?_, run, released⟩
    rw [Phys.deallocuvm, if_neg (Nat.not_le.mpr shrink), loop _ (Nat.le_refl _), ok_bind]
  · intro whole
    obtain ⟨s', run, dropped⟩ := whole.freevm
    refine ⟨s', run, dropped, ?_, ?_, ?_⟩
    · intro t table
      have sum := dropped.ref t
      have one : s.pointers d (List.range NPDENTRIES) t = 1 := whole.table_pointers table
      have away : t ≠ d := by
        obtain ⟨i, hi, there⟩ := table
        exact whole.table_ne hi there
      rw [whole.table_unmapped table, one, if_neg away] at sum
      omega
    · have sum := dropped.ref d
      rw [whole.root_unmapped, whole.root_pointers, if_pos rfl] at sum
      omega
    · intro f unmapped plain away
      have none : s.pointers d (List.range NPDENTRIES) f = 0 := by
        rw [Phys.pointers, List.countP_eq_zero]
        intro i hi there
        exact plain ⟨i, List.mem_range.mp hi, by simpa using there⟩
      have sum := dropped.ref f
      rw [unmapped, none, if_neg away] at sum
      exact ⟨by omega, dropped.page f plain (Or.inl (by rw [unmapped, none, if_neg away]))⟩

end
/-- init gives back its stack page and keeps its guard page, or gives back everything. -/
theorem release_exact_stack : ∃ _ : Layout, ∃ (m : Mem) (t : Tenant), m.Reachable ∧ m.slot 0 = some t ∧
    (∃ s', m.phys.deallocuvm t.space.pgdir 8192 4096 = .ok (4096, s') ∧ s'.pte t.space.pgdir 1 = Pte.zero ∧
      s'.pte t.space.pgdir 0 = m.phys.pte t.space.pgdir 0) ∧
    ∃ s', m.phys.freevm t.space.pgdir = .ok s' ∧ s'.ref t.space.pgdir + 1 = m.phys.ref t.space.pgdir := by
  let _ := Layout.small
  obtain ⟨m, t, loaded⟩ := Mem.loaded_exists (by decide)
  have inv := loaded.reach.inv
  have whole := inv.frames.whole (inv.tidy.dir_mem loaded.used)
  obtain ⟨dealloc, free⟩ := release_exact m.phys t.space.pgdir
  obtain ⟨s', run, -, released⟩ := dealloc whole.toUserPart 8192 4096 (by decide) (by decide)
  obtain ⟨s'', gone, -, -, root, -⟩ := free whole
  have stack := released.pte 1 (by decide)
  have guard := released.pte 0 (by decide)
  rw [if_pos ⟨by decide, by decide, loaded.stack.1⟩] at stack
  rw [if_neg fun inside => absurd inside.1 (by decide)] at guard
  exact ⟨Layout.small, m, t, loaded.reach, loaded.used, ⟨s', run, stack, guard⟩, s'', gone, root⟩

end Xv6
