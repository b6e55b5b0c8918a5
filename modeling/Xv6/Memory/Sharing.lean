import Xv6.Memory.Setup

/-!
Copy-on-write fork. cowuvm gives the child the parent's own entries after taking
PTE_W away from them, so both see the bytes the parent saw; when it fails, the
parent has lost PTE_W on some pages and nothing else.
-/
namespace Xv6
open RefCount Phys

def Pte.protect (e : Pte) : Pte := { e with w := false, cow := true }

/-- Only entries of P change, and only by being protected; no page changes. -/
structure Protects (live : Finset Nat) (P : Nat) (s s' : Phys) : Prop where
  pte : ∀ d ∈ live, ∀ vp < 1048576, s'.pte d vp = s.pte d vp ∨
    d = P ∧ (s.pte d vp).p = true ∧ s'.pte d vp = (s.pte d vp).protect
  page : ∀ d ∈ live, ∀ vp < NUPAGES, ∀ f, s.userTarget d vp = some f → s'.page f = s.page f

namespace Protects
variable {live : Finset Nat} {P : Nat} {s s' s'' : Phys}

theorem of_keeps (k : KeepsOff live (fun _ _ => False) s s') : Protects live P s s' :=
  ⟨fun d hd vp hv => Or.inl (k.pte d hd vp hv not_false),
    fun d hd vp hv => k.page d hd vp hv not_false⟩

theorem present (k : Protects live P s s') {d vp : Nat} (hd : d ∈ live) (hv : vp < 1048576) :
    (s'.pte d vp).p = (s.pte d vp).p ∧ (s'.pte d vp).frame = (s.pte d vp).frame ∧
      (s'.pte d vp).u = (s.pte d vp).u := by
  rcases k.pte d hd vp hv with same | ⟨-, -, prot⟩
  · simp [same]
  · simp [prot, Pte.protect]

theorem target (k : Protects live P s s') {d vp : Nat} (hd : d ∈ live) (hv : vp < 1048576) :
    s'.userTarget d vp = s.userTarget d vp := by
  obtain ⟨present, frame, -⟩ := k.present hd hv
  simp [userTarget, Pte.target, present, frame]

theorem trans (k : Protects live P s s') (k' : Protects live P s' s'') : Protects live P s s'' := by
  constructor
  · intro d hd vp hv
    rcases k.pte d hd vp hv with one | ⟨own, was, one⟩
    · rcases k'.pte d hd vp hv with two | ⟨own, was, two⟩
      · exact Or.inl (two.trans one)
      · exact Or.inr ⟨own, one ▸ was, by rw [two, one]⟩
    · refine Or.inr ⟨own, was, ?_⟩
      rcases k'.pte d hd vp hv with two | ⟨-, -, two⟩
      · rw [two, one]
      · rw [two, one]
        rfl
  · intro d hd vp hv f mapped
    have still : s'.userTarget d vp = some f := by
      rw [k.target hd (Nat.lt_of_lt_of_le hv pages_lt)]
      exact mapped
    rw [k'.page d hd vp hv f still, k.page d hd vp hv f mapped]

theorem content (k : Protects live P s s') {d vp : Nat} (hd : d ∈ live) (hv : vp < NUPAGES) :
    s'.content d vp = s.content d vp := by
  obtain ⟨present, frame, -⟩ := k.present hd (Nat.lt_of_lt_of_le hv pages_lt)
  unfold Phys.content
  rw [present, frame]
  by_cases here : (s.pte d vp).p = true
  · simp only [here, ↓reduceIte]
    rw [k.page d hd vp hv _ (target_some.mpr ⟨here, rfl⟩)]
  · simp [here]

end Protects

section
variable [Layout] {live own : Finset Nat} {x : Nat → Nat} {s : Phys}

namespace FrameInv

theorem frozen (inv : FrameInv live own x s) {d vp f : Nat} (hd : d ∈ live) (hv : vp < NUPAGES)
    (mapped : s.userTarget d vp = some f) (protectd : (s.pte d vp).w = false) :
    ∀ d' ∈ live, ∀ vp' < NUPAGES, s.userTarget d' vp' = some f → (s.pte d' vp').w = false := by
  intro d' hd' vp' hv' mapped'
  obtain ⟨present, frame⟩ := target_some.mp mapped'
  cases write : (s.pte d' vp').w with
  | false => rfl
  | true =>
    have one := inv.writable d' hd' vp' hv' present write
    rw [frame] at one
    have few : refsTo live (Finset.range NUPAGES) s.userTarget f ≤ 1 := by
      have := inv.refs f
      simp only [userRefs] at this
      omega
    obtain ⟨rfl, rfl⟩ := refs_unique few hd hd' (Finset.mem_range.mpr hv) (Finset.mem_range.mpr hv')
      mapped mapped'
    rw [protectd] at write
    cases write

theorem protect (inv : FrameInv live own x s) {d vp t : Nat} (hd : d ∈ live) (hv : vp < NUPAGES)
    (table : s.tableTarget d (vp / 1024 % 1024) = some t) (present : (s.pte d vp).p = true) :
    FrameInv live own x (s.setEntry t (vp % 1024) (s.pte d vp).protect) := by
  have mapped : s.userTarget d vp = some (s.pte d vp).frame := target_some.mpr ⟨present, rfl⟩
  refine inv.set_user _ hd hv table (Finset.Subset.refl own) ?_ (fun _ => rfl) ?_ ?_
  · intro g
    simp only [mapped, Pte.target, Pte.protect, present, ↓reduceIte]
  · intro _ write
    cases write
  · intro _ d' hd' vp' hv' other
    exact inv.samePage _ d' hd' d hd vp' hv' vp hv other mapped

end FrameInv

omit [Layout] in
theorem Pte.protect_eq {e : Pte} (flags : e.w = !e.cow) (read : e.w = false) : e.protect = e := by
  rcases e with ⟨⟨w, u, cow⟩, f, p⟩
  simp only at flags read
  subst read
  cases cow with
  | true => rfl
  | false => cases flags

theorem protect_incref (inv : FrameInv live own (fun _ => 0) s) (few : live.card < 65535)
    {P vp t : Nat} (hP : P ∈ live) (hv : vp < NUPAGES)
    (table : s.tableTarget P (vp / 1024 % 1024) = some t) (present : (s.pte P vp).p = true) :
    ∃ s1 s2, (if (s.pte P vp).w then s.setEntry t (vp % 1024) (s.pte P vp).protect else s) = s1 ∧
      s1.entry t (vp % 1024) = (s.pte P vp).protect ∧
      s1.incref (s.pte P vp).frame = .ok s2 ∧
      FrameInv live own (bump (fun _ => 0) (s.pte P vp).frame) s2 ∧
      s2.pte P vp = (s.pte P vp).protect ∧
      KeepsOff live (fun d' vp' => d' = P ∧ vp' = vp) s s2 ∧
      s2.page (s.pte P vp).frame = s.page (s.pte P vp).frame ∧
      (∀ d' ∈ live, ∀ i, s2.tableTarget d' i = s.tableTarget d' i) ∧ s2.oom = s.oom ∧
      s2.freelist = s.freelist := by
  have lt := Nat.lt_of_lt_of_le hv pages_lt
  have mapped : s.userTarget P vp = some (s.pte P vp).frame := target_some.mpr ⟨present, rfl⟩
  have held := inv.user_held hP hv mapped
  have off := (inv.user_ne_table hP hv mapped hP (Nat.mod_lt _ (by decide)) table).1
  generalize pick : (if (s.pte P vp).w then s.setEntry t (vp % 1024) (s.pte P vp).protect else s) = s1
  -- either way the entry is protected now and the counts are as before
  have step : FrameInv live own (fun _ => 0) s1 ∧ s1.pte P vp = (s.pte P vp).protect ∧
      KeepsOff live (fun d' vp' => d' = P ∧ vp' = vp) s s1 ∧ s1.ref = s.ref ∧
      s1.page (s.pte P vp).frame = s.page (s.pte P vp).frame ∧
      (∀ d' ∈ live, ∀ i, s1.tableTarget d' i = s.tableTarget d' i) ∧ s1.oom = s.oom ∧
      s1.freelist = s.freelist := by
    by_cases write : (s.pte P vp).w = true
    · simp only [write, ↓reduceIte] at pick
      subst pick
      have pte := inv.pte_set (s.pte P vp).protect hP lt table hP lt
      exact ⟨inv.protect hP hv table present, by simpa using pte, inv.set_keeps _ hP lt table, rfl,
        setEntry_page_ne s _ _ off,
        fun d' hd' i => inv.tableTarget_set _ _ hP (Nat.mod_lt _ (by decide)) table hd' i, rfl, rfl⟩
    · have read : (s.pte P vp).w = false := by simpa using write
      simp only [read, Bool.false_eq_true, ↓reduceIte] at pick
      subst pick
      exact ⟨inv, (Pte.protect_eq (inv.flags P hP vp hv present) read).symm, KeepsOff.refl .., rfl, rfl,
        fun _ _ _ => rfl, rfl, rfl⟩
  obtain ⟨inv1, pte1, keeps1, ref1, page1, tabs1, calm1, list1⟩ := step
  have mapped1 : s1.userTarget P vp = some (s.pte P vp).frame := by
    rw [userTarget, pte1]
    exact target_some.mpr ⟨present, rfl⟩
  have table1 : s1.tableTarget P (vp / 1024 % 1024) = some t := by
    rw [tabs1 P hP]
    exact table
  have bound := inv1.ref_le (s.pte P vp).frame
  have small : s1.ref (s.pte P vp).frame + 1 < 65536 := by
    have : max 1 (live.card + 0) < 65535 := by omega
    omega
  have range := (inv.managed _ held).2
  refine ⟨s1, s1.setRef (s.pte P vp).frame (s1.ref (s.pte P vp).frame + 1), rfl, ?_, ?_, ?_, pte1, ?_,
    page1, tabs1, calm1, list1⟩
  · rw [← pte_of_table table1, pte1]
  · have some' : ¬ s1.ref (s.pte P vp).frame = 0 := by
      rw [ref1]
      exact held
    simp only [Phys.incref, Nat.not_le.mpr range, ↓reduceIte, some', Nat.mod_eq_of_lt small]
  · refine inv1.incref ?_ (inv1.user_not_kernel hP hv mapped1)
      (inv1.frozen hP hv mapped1 (by rw [pte1]; rfl))
    rw [ref1]
    exact held
  · exact ⟨keeps1.pte, keeps1.page⟩

structure Inherits (s : Phys) (P d lo : Nat) : Prop where
  copied : ∀ vp < NUPAGES, vp < lo → (s.pte P vp).p = true → s.pte d vp = s.pte P vp
  absent : ∀ vp < NUPAGES, lo ≤ vp ∨ (s.pte P vp).p = false → (s.pte d vp).p = false

omit [Layout] in
theorem Inherits.content {P d lo vp : Nat} (inherits : Inherits s P d lo) (hv : vp < NUPAGES)
    (top : (s.pte P vp).p = true → vp < lo) : s.content d vp = s.content P vp := by
  unfold Phys.content
  by_cases there : (s.pte P vp).p = true
  · rw [inherits.copied vp hv (top there) there]
  · have gone := inherits.absent vp hv (Or.inr (by simpa using there))
    simp [gone, there]

theorem FrameInv.cow_of_shared (inv : FrameInv live own x s) {d d' vp vp' f : Nat} (hd : d ∈ live)
    (hd' : d' ∈ live) (ne : d ≠ d') (hv : vp < NUPAGES) (hv' : vp' < NUPAGES)
    (mapped : s.userTarget d vp = some f) (mapped' : s.userTarget d' vp' = some f) :
    (s.pte d vp).cow = true := by
  obtain ⟨present, frame⟩ := target_some.mp mapped
  by_contra plain
  have flags := inv.flags d hd vp hv present
  rw [Bool.not_eq_true] at plain
  rw [plain, Bool.not_false] at flags
  have one := inv.writable d hd vp hv present flags
  have sum := inv.refs f
  rw [frame] at one
  exact ne (refs_unique (by simp only [userRefs] at sum; omega) hd hd' (Finset.mem_range.mpr hv)
    (Finset.mem_range.mpr hv') mapped mapped').1

/-- The outcome of cowuvm for the parent P, which needs at most k frames. -/
inductive CowuvmOutcome (live own : Finset Nat) (s : Phys) (P sz k : Nat) :
    Option Nat → Phys → Prop where
  | made (d : Nat) (s' : Phys) (fresh : d ∉ live) (new : d ∉ own)
      (inv : FrameInv (insert d live) own (fun _ => 0) s')
      (inherits : Inherits s' P d ((sz + 4095) / 4096))
      (protects : Protects live P s s') (calm : s'.oom = s.oom)
      (budget : s.freelist.length ≤ s'.freelist.length + k) (tables : SameTables live s s') :
      CowuvmOutcome live own s P sz k (some d) s'
  | failed (s' : Phys) (inv : FrameInv live own (fun _ => 0) s')
      (protects : Protects live P s s') (short : s'.oom = true) (tight : s.freelist.length < k)
      (tables : SameTables live s s') :
      CowuvmOutcome live own s P sz k none s'

/-- The body of the loop of cowuvm at a present page: protect, count, map in the child. -/
def Phys.sharePage (s : Phys) (d vp : Nat) (e : Pte) : Except Panic (Int × Phys) := do
  let s ← s.incref e.frame
  s.mappages d (vp * PGSIZE) PGSIZE e.frame e.toPerm

omit [Layout] in
theorem Pte.protect_present {e : Pte} (present : e.p = true) :
    (⟨e.protect.toPerm, e.frame, true⟩ : Pte) = e.protect := by
  simp only [Pte.protect, present]

inductive ShareOutcome (live own : Finset Nat) (s : Phys) (P d vp : Nat) : Int → Phys → Prop where
  | shared (s' : Phys) (inv : FrameInv (insert d live) own (fun _ => 0) s')
      (inherits : Inherits s' P d (vp + 1)) (protects : Protects live P s s') (calm : s'.oom = s.oom)
      (balance : s'.missing d + s.freelist.length = s.missing d + s'.freelist.length)
      (tables : SameTables live s s') :
      ShareOutcome live own s P d vp 0 s'
  | failed (s' s'' : Phys) (free : s'.kfree (s.pte P vp).frame = .ok s'')
      (inv : FrameInv (insert d live) own (fun _ => 0) s'') (protects : Protects live P s s'')
      (short : s''.oom = true) (tight : s.freelist.length < s.missing d) (tables : SameTables live s s'') :
      ShareOutcome live own s P d vp (-1) s'

theorem sharePage_spec {P d vp t : Nat} (hP : P ∈ live) (fresh : d ∉ live)
    (few : live.card < 65534) (hv : vp < NUPAGES)
    (inv : FrameInv (insert d live) own (fun _ => 0) s) (inherits : Inherits s P d vp)
    (table : s.tableTarget P (vp / 1024 % 1024) = some t) (present : (s.pte P vp).p = true) :
    ∃ s1, (if (s.pte P vp).w then s.setEntry t (vp % 1024) (s.pte P vp).protect else s) = s1 ∧
      s1.entry t (vp % 1024) = (s.pte P vp).protect ∧
      ∃ r s', s1.sharePage d vp (s.pte P vp).protect = .ok (r, s') ∧
        ShareOutcome live own s P d vp r s' := by
  have hd := Finset.mem_insert_self d live
  have hP' := Finset.mem_insert_of_mem hP (b := d)
  have neP : P ≠ d := fun same => fresh (same ▸ hP)
  have lt := Nat.lt_of_lt_of_le hv pages_lt
  obtain ⟨s1, s2, pick, entry1, count, inv2, pte2, keeps2, page2, tabs2, calm2, list2⟩ :=
    protect_incref inv (by rw [Finset.card_insert_of_notMem fresh]; omega) hP' hv table present
  refine ⟨s1, pick, entry1, ?_⟩
  have missing2 : s2.missing d = s.missing d := missing_congr (tabs2 d hd)
  have tables2 : SameTables live s s2 := SameTables.subset tabs2 (Finset.subset_insert d live)
  have protects2 : Protects live P s s2 := by
    constructor
    · intro d' hd' vp' hv'
      by_cases here : d' = P ∧ vp' = vp
      · obtain ⟨rfl, rfl⟩ := here
        exact Or.inr ⟨rfl, present, pte2⟩
      · exact Or.inl (keeps2.pte d' (Finset.mem_insert_of_mem hd') vp' hv' here)
    · intro d' hd' vp' hv' f mapped
      by_cases here : d' = P ∧ vp' = vp
      · obtain ⟨rfl, rfl⟩ := here
        obtain ⟨-, rfl⟩ := target_some.mp mapped
        exact page2
      · exact keeps2.page d' (Finset.mem_insert_of_mem hd') vp' hv' here f mapped
  have gone2 : (s2.pte d vp).p = false := by
    rw [keeps2.pte d hd vp lt (fun here => neP here.1.symm)]
    exact inherits.absent vp hv (Or.inl (Nat.le_refl _))
  have frame : (s.pte P vp).protect.frame = (s.pte P vp).frame := rfl
  have start : s1.sharePage d vp (s.pte P vp).protect =
      s2.mappages d (vp * PGSIZE) PGSIZE (s.pte P vp).frame (s.pte P vp).protect.toPerm := by
    rw [Phys.sharePage, frame, count, ok_bind]
  rw [start]
  rcases map_page inv2 hd lt gone2 (s.pte P vp).frame (s.pte P vp).protect.toPerm with
    ⟨empty, need, run⟩ | ⟨u, s3, inv3, walked, run⟩
  · -- no memory for the child's page table: the reference is given back
    obtain ⟨free, inv4⟩ := (inv2.oom true).kfree_flight
    have tight : s.freelist.length < s.missing d := by
      rw [← list2, empty, ← missing2]
      exact missing_pos need
    have mapped2 : s2.userTarget P vp = some (s.pte P vp).frame := by
      rw [userTarget, pte2]
      exact target_some.mpr ⟨present, rfl⟩
    have shared : (({ s2 with oom := true } : Phys)).ref (s.pte P vp).frame ≠ 1 := by
      have sum := inv2.refs (s.pte P vp).frame
      have pos : 0 < s2.userRefs (insert d live) (s.pte P vp).frame :=
        refs_pos hP' (Finset.mem_range.mpr hv) mapped2
      simp only [bump, ↓reduceIte] at sum
      change s2.ref _ ≠ 1
      omega
    have same : KeepsOff (insert d live) (fun _ _ => False) s2
        (({ s2 with oom := true } : Phys).drop (s.pte P vp).frame) :=
      inv2.keeps_of_held (fun _ _ => False) fun g _ => drop_page_of_shared g shared
    refine ⟨-1, _, run, .failed _ _ free inv4 (protects2.trans (Protects.of_keeps ?_)) rfl tight
      (tables2.trans (SameTables.of_pages fun d' _ => drop_page_of_shared d' shared))⟩
    exact same.subset (Finset.subset_insert d live)
  · rw [Pte.protect_present present] at run
    have tableD := walked.table
    rw [pdx_page] at tableD
    have mapped3 : s3.userTarget P vp = some (s.pte P vp).frame := by
      rw [userTarget, walked.keeps.pte P hP' vp lt not_false, pte2]
      exact target_some.mpr ⟨present, rfl⟩
    have gone3 : s3.userTarget d vp = none := by
      rw [userTarget, walked.keeps.pte d hd vp lt not_false]
      exact target_none.mpr gone2
    have inv4 : FrameInv (insert d live) own (fun _ => 0)
        (s3.setEntry u (vp % 1024) (s.pte P vp).protect) := by
      refine inv3.set_user _ hd hv tableD (Finset.Subset.refl own) ?_ (fun _ => rfl) ?_ ?_
      · intro g
        simp only [gone3, Pte.target, Pte.protect, present, ↓reduceIte, reduceCtorEq,
          Option.some.injEq, bump]
        by_cases same : g = (s.pte P vp).frame
        · simp only [same, ↓reduceIte]
          omega
        · simp only [same, Ne.symm same, ↓reduceIte]
      · intro _ write
        cases write
      · intro _ d' hd' vp' hv' other
        exact inv3.samePage _ d' hd' P hP' vp' hv' vp hv other mapped3
    have keeps4 := inv3.set_keeps (s.pte P vp).protect hd lt tableD
    have view : ∀ d' ∈ insert d live, ∀ vp' < 1048576, vp' ≠ vp →
        (s3.setEntry u (vp % 1024) (s.pte P vp).protect).pte d' vp' = s.pte d' vp' := by
      intro d' hd' vp' hv' ne
      rw [keeps4.pte d' hd' vp' hv' (fun here => ne here.2), walked.keeps.pte d' hd' vp' hv' not_false,
        keeps2.pte d' hd' vp' hv' (fun here => ne here.2)]
    have atP : (s3.setEntry u (vp % 1024) (s.pte P vp).protect).pte P vp = (s.pte P vp).protect := by
      rw [keeps4.pte P hP' vp lt (fun here => neP here.1),
        walked.keeps.pte P hP' vp lt not_false, pte2]
    have atd : (s3.setEntry u (vp % 1024) (s.pte P vp).protect).pte d vp = (s.pte P vp).protect := by
      rw [inv3.pte_set (s.pte P vp).protect hd lt tableD hd lt]
      simp
    refine ⟨0, _, run, .shared _ inv4 ⟨?_, ?_⟩ ?_ ?_ ?_ ?_⟩
    · intro vp' hv' lo here
      have lt' := Nat.lt_of_lt_of_le hv' pages_lt
      by_cases same : vp' = vp
      · subst same
        rw [atd, atP]
      · rw [view P hP' vp' lt' same] at here
        rw [view d hd vp' lt' same, view P hP' vp' lt' same]
        exact inherits.copied vp' hv' (by omega) here
    · intro vp' hv' out
      have lt' := Nat.lt_of_lt_of_le hv' pages_lt
      by_cases same : vp' = vp
      · subst same
        rcases out with lo | missing
        · omega
        · rw [atP] at missing
          simp [Pte.protect, present] at missing
      · rw [view P hP' vp' lt' same] at out
        rw [view d hd vp' lt' same]
        refine inherits.absent vp' hv' ?_
        rcases out with lo | missing
        · exact Or.inl (by omega)
        · exact Or.inr missing
    · refine protects2.trans (Protects.of_keeps ?_)
      refine (walked.keeps.subset (Finset.subset_insert d live)).trans ?_
      refine (keeps4.subset (Finset.subset_insert d live)).mono ?_
      rintro d' hd' vp' ⟨same, -⟩
      exact fresh (same ▸ hd')
    · rw [setEntry_oom, walked.oom, calm2]
    · rw [setEntry_freelist, ← missing2, ← list2, ← walked.tables]
      exact congrArg (· + s2.freelist.length) (missing_congr fun i =>
        inv3.tableTarget_set _ _ hd (Nat.mod_lt _ (by decide)) tableD hd i)
    · have walk3 := walked.others
      rw [Finset.erase_insert fresh] at walk3
      exact (tables2.trans walk3).trans fun d' hd' =>
        inv3.tableTarget_set _ _ hd (Nat.mod_lt _ (by decide)) tableD (Finset.mem_insert_of_mem hd')

omit [Layout] in
theorem Inherits.skip {P d vp : Nat} (inherits : Inherits s P d vp) (missing : (s.pte P vp).p = false) :
    Inherits s P d (vp + 1) := by
  constructor
  · intro vp' hv' lo present
    refine inherits.copied vp' hv' ?_ present
    rcases Nat.lt_succ_iff_lt_or_eq.mp lo with less | rfl
    · exact less
    · rw [missing] at present
      cases present
  · intro vp' hv' out
    refine inherits.absent vp' hv' ?_
    rcases out with lo | gone
    · exact Or.inl (by omega)
    · exact Or.inr gone

theorem cowuvmLoop_spec {P d sz : Nat} (hP : P ∈ live) (fresh : d ∉ live) (new : d ∉ own)
    (few : live.card < 65534) (top : sz ≤ KERNBASE) (fuel vp : Nat) (s : Phys)
    (enough : sz ≤ 4096 * (vp + fuel)) (low : vp ≤ (sz + 4095) / 4096)
    (inv : FrameInv (insert d live) own (fun _ => 0) s) (inherits : Inherits s P d vp) :
    ∃ r s', Phys.cowuvmLoop P sz d fuel (vp * PGSIZE) s = .ok (r, s') ∧
      CowuvmOutcome live own s P sz (s.missing d) r s' := by
  have hd := Finset.mem_insert_self d live
  induction fuel generalizing vp s with
  | zero =>
    have stop : vp = (sz + 4095) / 4096 := by omega
    exact ⟨some d, s, rfl, .made d s fresh new inv (stop ▸ inherits)
      (Protects.of_keeps (KeepsOff.refl ..)) rfl (Nat.le_add_right _ _) (SameTables.refl _ _)⟩
  | succ fuel ih =>
    have next : vp * PGSIZE + PGSIZE = (vp + 1) * PGSIZE := by rw [Nat.add_mul, Nat.one_mul]
    rw [Phys.cowuvmLoop]
    by_cases more : vp * PGSIZE < sz
    · have hv : vp < NUPAGES := by
        simp only [KERNBASE, NUPAGES, PGSIZE] at *
        omega
      have low' : vp + 1 ≤ (sz + 4095) / 4096 := by
        simp only [PGSIZE] at more
        omega
      rw [if_pos more, next]
      cases table : s.tableTarget P (pdx (vp * PGSIZE)) with
      | none =>
        simp only [walk_false_of_no_table table]
        rw [pdx_page] at table
        exact ih (vp + 1) s (by omega) low' inv (inherits.skip (by rw [pte_of_no_table table]; rfl))
      | some t =>
        simp only [walk_false_of_table table, ptx_page]
        rw [pdx_page] at table
        have slot : s.entry t (vp % 1024) = s.pte P vp := (pte_of_table table).symm
        rw [slot]
        by_cases present : (s.pte P vp).p = true
        · rw [if_neg (not_not_intro present)]
          obtain ⟨s1, pick, entry1, r, s2, share, outcome⟩ :=
            sharePage_spec hP fresh few hv inv inherits table present
          have shape : ({ s.pte P vp with w := false, cow := true } : Pte) = (s.pte P vp).protect := rfl
          rw [shape, pick, entry1]
          obtain ⟨s3, count, map⟩ := bind_eq_ok share
          rw [count, ok_bind, map, ok_bind]
          cases outcome with
          | failed _ s4 free inv4 protects short tight tables =>
            -- the child is dropped with all it had inherited so far
            obtain ⟨s5, drop, inv5, keeps5, calm5, tables5⟩ := freevm_spec inv4 hd
            rw [Finset.erase_insert fresh] at inv5 keeps5 tables5
            refine ⟨none, s5, ?_, .failed s5 inv5 (protects.trans (Protects.of_keeps keeps5)) ?_ tight
              (tables.trans tables5)⟩
            · rw [if_pos (show (-1 : Int) < 0 by decide)]
              have frame : (s.pte P vp).protect.frame = (s.pte P vp).frame := rfl
              rw [frame, free, ok_bind, drop, ok_bind]
            · rw [calm5, short]
          | shared _ inv4 inherits4 protects calm balance tables =>
            obtain ⟨r, s', loop, outcome⟩ := ih (vp + 1) s2 (by omega) low' inv4 inherits4
            refine ⟨r, s', ?_, ?_⟩
            · rw [if_neg (show ¬ (0 : Int) < 0 by decide)]
              exact loop
            · cases outcome with
              | made d' _ fresh' new' inv' inherits' protects' calm' budget' tables' =>
                exact .made d' s' fresh' new' inv' inherits' (protects.trans protects') (calm'.trans calm)
                  (by omega) (tables.trans tables')
              | failed _ inv' protects' short' tight' tables' =>
                exact .failed s' inv' (protects.trans protects') short' (by omega) (tables.trans tables')
        · rw [if_pos present]
          exact ih (vp + 1) s (by omega) low' inv (inherits.skip (by simpa using present))
    · rw [if_neg more]
      have stop : vp = (sz + 4095) / 4096 := by
        simp only [PGSIZE] at more
        omega
      exact ⟨some d, s, rfl, .made d s fresh new inv (stop ▸ inherits)
        (Protects.of_keeps (KeepsOff.refl ..)) rfl (Nat.le_add_right _ _) (SameTables.refl _ _)⟩

theorem cowuvm_spec (inv : FrameInv live own (fun _ => 0) s) {P sz : Nat} (hP : P ∈ live)
    (few : live.card < 65534) (top : sz ≤ KERNBASE) :
    ∃ r s', s.cowuvm P sz = .ok (r, s') ∧ CowuvmOutcome live own s P sz 1025 r s' := by
  obtain ⟨r, s1, run, outcome⟩ := setupkvm_spec inv
  cases outcome with
  | failed _ inv' keeps short tight tables =>
    refine ⟨none, s1, ?_, .failed s1 inv' (Protects.of_keeps keeps) short tight tables⟩
    simp only [Phys.cowuvm, run, bind, Except.bind]
  | made d _ fresh new free inv' empty kernel keeps calm balance tables =>
    have inherits : Inherits s1 P d 0 :=
      ⟨fun vp _ lo _ => absurd lo (Nat.not_lt_zero vp), fun vp hv _ => empty vp hv⟩
    obtain ⟨r, s', loop, outcome⟩ := cowuvmLoop_spec hP fresh new few top (sz / PGSIZE + 1) 0 s1
      (by simp only [PGSIZE]; omega) (Nat.zero_le _) inv' inherits
    rw [Nat.zero_mul] at loop
    refine ⟨r, s', ?_, ?_⟩
    · simp only [Phys.cowuvm, run, bind, Except.bind, loop]
    · cases outcome with
      | made d' _ fresh' new' inv2 inherits' protects' calm' budget' tables' =>
        exact .made d' s' fresh' new' inv2 inherits' ((Protects.of_keeps keeps).trans protects')
          (calm'.trans calm) (by omega) (tables.trans tables')
      | failed _ inv2 protects' short' tight' tables' =>
        exact .failed s' inv2 ((Protects.of_keeps keeps).trans protects') short' (by omega) (tables.trans tables')

end
end Xv6
