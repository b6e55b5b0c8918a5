import Xv6.Memory.Accounting

/-!
What each primitive store or allocator call does to the frame accounting. The
functions of vm.c are sequences of these.
-/
namespace Xv6
open RefCount Phys

section
variable [Layout] {live own : Finset Nat} {x : Nat → Nat} {s : Phys}

namespace FrameInv

/-- Store e in the user slot (d, vp). What the slot held and what it now holds
    must balance with the frames in own and in flight. -/
theorem set_user (inv : FrameInv live own x s) {d vp t : Nat} (e : Pte) (hd : d ∈ live)
    (hv : vp < NUPAGES) (ht : s.tableTarget d (vp / 1024 % 1024) = some t)
    {own' : Finset Nat} {x' : Nat → Nat} (sub : own' ⊆ own)
    (balance : ∀ f, (if e.target = some f then 1 else 0) + (if f ∈ own' then 1 else 0) + x' f =
      (if s.userTarget d vp = some f then 1 else 0) + (if f ∈ own then 1 else 0) + x f)
    (flags : e.p = true → e.w = !e.cow)
    (writable : e.p = true → e.w = true → s.ref e.frame = 1)
    (same : e.p = true → ∀ d' ∈ live, ∀ vp' < NUPAGES, s.userTarget d' vp' = some e.frame → vp' = vp) :
    FrameInv live own' x' (s.setEntry t (vp % 1024) e) := by
  have lt : ∀ {n}, n < NUPAGES → n < 1048576 := fun h => Nat.lt_of_lt_of_le h pages_lt
  have pte : ∀ d' ∈ live, ∀ vp' < NUPAGES, (s.setEntry t (vp % 1024) e).pte d' vp' =
      if d' = d ∧ vp' = vp then e else s.pte d' vp' :=
    fun d' hd' vp' hv' => inv.pte_set e hd (lt hv) ht hd' (lt hv')
  have user : ∀ f, (s.setEntry t (vp % 1024) e).userRefs live f +
      (if s.userTarget d vp = some f then 1 else 0) =
        s.userRefs live f + (if e.target = some f then 1 else 0) := by
    intro f
    have here : (s.setEntry t (vp % 1024) e).userTarget d vp = e.target := by
      simp [userTarget, pte d hd vp hv]
    rw [← here]
    have elsewhere : ∀ d' ∈ live, ∀ vp' ∈ Finset.range NUPAGES, (d' ≠ d ∨ vp' ≠ vp) →
        (s.setEntry t (vp % 1024) e).userTarget d' vp' = s.userTarget d' vp' := by
      intro d' hd' vp' hv' ne
      have : ¬ (d' = d ∧ vp' = vp) := fun both => ne.elim (· both.1) (· both.2)
      simp [userTarget, pte d' hd' vp' (Finset.mem_range.mp hv'), this]
    exact refs_update (R := Finset.range NUPAGES) hd (Finset.mem_range.mpr hv) elsewhere f
  have tab : ∀ f, (s.setEntry t (vp % 1024) e).tableRefs live f = s.tableRefs live f := fun f =>
    refs_congr (fun d' hd' i _ =>
      inv.tableTarget_set _ e hd (Nat.mod_lt _ (by decide)) ht hd' i) f
  have less : ∀ f, (s.setEntry t (vp % 1024) e).kernelRefs live own' f ≤ s.kernelRefs live own f := by
    intro f
    simp only [kernelRefs, tab]
    have : (if f ∈ own' then 1 else 0) ≤ (if f ∈ own then 1 else 0) := by
      by_cases member : f ∈ own'
      · simp [member, sub member]
      · simp [member]
    omega
  constructor
  · intro f
    have old := inv.refs f
    have move := user f
    have bal := balance f
    simp only [kernelRefs, tab, setEntry_ref] at old ⊢
    omega
  · intro f held
    exact inv.kernel f (Nat.lt_of_lt_of_le held (less f))
  · intro d' hd' vp' hv'
    rw [pte d' hd' vp' hv']
    split
    · exact flags
    · exact inv.flags d' hd' vp' hv'
  · intro d' hd' vp' hv'
    rw [pte d' hd' vp' hv']
    split
    · exact writable
    · exact inv.writable d' hd' vp' hv'
  · -- a mapping of the new frame elsewhere lies at the same page by hypothesis
    intro f a ha b hb vpa hva vpb hvb
    simp only [userTarget, pte a ha vpa hva, pte b hb vpb hvb]
    by_cases ca : a = d ∧ vpa = vp
    · by_cases cb : b = d ∧ vpb = vp
      · intros
        rw [ca.2, cb.2]
      · simp only [ca, and_self, ↓reduceIte, cb]
        intro new old
        obtain ⟨present, frame⟩ := target_some.mp new
        exact (same present b hb vpb hvb (frame ▸ old)).symm
    · by_cases cb : b = d ∧ vpb = vp
      · simp only [ca, ↓reduceIte, cb, and_self]
        intro old new
        obtain ⟨present, frame⟩ := target_some.mp new
        exact same present a ha vpa hva (frame ▸ old)
      · simp only [ca, ↓reduceIte, cb]
        exact inv.samePage f a ha b hb vpa hva vpb hvb
  · exact inv.managed
  · exact inv.free
  · exact inv.nodup

end FrameInv

def Phys.pop (s : Phys) (f : Nat) (next : List Nat) : Phys :=
  { s with freelist := next, ref := Function.update s.ref f 1 }

omit [Layout] in
theorem kalloc_cons {f : Nat} {next : List Nat} (list : s.freelist = f :: next) :
    s.kalloc = (some f, s.pop f next) := by
  simp [Phys.kalloc, list, Phys.pop]

omit [Layout] in
theorem kalloc_nil (list : s.freelist = []) : s.kalloc = (none, { s with oom := true }) := by
  simp [Phys.kalloc, list]

namespace FrameInv

theorem kalloc (inv : FrameInv live own x s) {f : Nat} {next : List Nat}
    (list : s.freelist = f :: next) :
    FrameInv live (insert f own) x (s.pop f next) := by
  have member : f ∈ s.freelist := by simp [list]
  obtain ⟨user, kern, flight⟩ := inv.fresh member
  obtain ⟨tab, dir, held⟩ := kernelRefs_zero kern
  have managed := ((inv.free f).mp member).1
  have zero := ((inv.free f).mp member).2
  have userSame : ∀ g, (s.pop f next).userRefs live g = s.userRefs live g := fun g => rfl
  have kernSame : ∀ g, (s.pop f next).kernelRefs live (insert f own) g =
      s.kernelRefs live own g + (if g = f then 1 else 0) := by
    intro g
    have same : (s.pop f next).tableRefs live g = s.tableRefs live g := rfl
    simp only [kernelRefs, same, Finset.mem_insert]
    by_cases here : g = f
    · subst here
      simp [held]
    · simp [here]
  constructor
  · intro g
    rw [userSame, kernSame]
    by_cases here : g = f
    · subst here
      simp [Phys.pop, user, kern, flight]
    · simp only [Phys.pop, ne_eq, here, not_false_eq_true, Function.update_of_ne, ↓reduceIte, Nat.add_zero]
      exact inv.refs g
  · intro g pos
    rw [kernSame] at pos
    by_cases here : g = f
    · subst here
      simp [Phys.pop]
    · simp only [here, ↓reduceIte, Nat.add_zero] at pos
      simp only [Phys.pop, ne_eq, here, not_false_eq_true, Function.update_of_ne]
      exact inv.kernel g pos
  · exact inv.flags
  · intro d hd vp hv present write
    have one := inv.writable d hd vp hv present write
    have ne : (s.pte d vp).frame ≠ f := by
      intro same
      rw [same, zero] at one
      omega
    change Function.update s.ref f 1 (s.pte d vp).frame = 1
    rw [Function.update_of_ne ne]
    exact one
  · exact inv.samePage
  · intro g pos
    by_cases here : g = f
    · subst here
      exact managed
    · simp only [Phys.pop, ne_eq, here, not_false_eq_true, Function.update_of_ne] at pos
      exact inv.managed g pos
  · intro g
    have nd := inv.nodup
    rw [list, List.nodup_cons] at nd
    have old := inv.free g
    rw [list, List.mem_cons] at old
    by_cases here : g = f
    · subst here
      simp [Phys.pop, nd.1]
    · simpa [Phys.pop, here] using old
  · have nd := inv.nodup
    rw [list, List.nodup_cons] at nd
    exact nd.2

theorem set_table (inv : FrameInv live (insert t own) x s) (new : t ∉ own) {d i : Nat}
    (hd : d ∈ live) (hi : i < NPDENTRIES) (none : s.tableTarget d i = none)
    (zero : s.page t = .table fun _ => Pte.zero) (perm : Perm) :
    FrameInv live own x (s.setEntry d i ⟨perm, t, true⟩) ∧
      ∀ d' ∈ live, ∀ vp, (s.setEntry d i ⟨perm, t, true⟩).pte d' vp = s.pte d' vp := by
  have exclusive := inv.kernel_exclusive (f := t) (by simp [kernelRefs])
  have parts : s.tableRefs live t = 0 ∧ t ∉ live := by
    have := exclusive.2.1
    simp only [kernelRefs, Finset.mem_insert_self, ↓reduceIte] at this
    refine ⟨by omega, ?_⟩
    intro member
    simp [member] at this
  have ne : t ≠ d := fun same => parts.2 (same ▸ hd)
  have tab : ∀ d' k, (s.setEntry d i ⟨perm, t, true⟩).tableTarget d' k =
      if d' = d ∧ k = i then some t else s.tableTarget d' k := by
    intro d' k
    simp only [tableTarget, entry_setEntry]
    split
    · simp [Pte.target]
    · rfl
  have pte : ∀ d' ∈ live, ∀ vp, (s.setEntry d i ⟨perm, t, true⟩).pte d' vp = s.pte d' vp := by
    intro d' hd' vp
    by_cases here : d' = d ∧ vp / 1024 % 1024 = i
    · obtain ⟨rfl, rfl⟩ := here
      rw [pte_of_no_table none, pte_of_table (t := t) (by simp [tab])]
      rw [entry_setEntry, if_neg fun both => ne both.1]
      simp [entry, zero, Page.entry]
    · cases hu : s.tableTarget d' (vp / 1024 % 1024) with
      | none => rw [pte_of_no_table hu, pte_of_no_table (by simp [tab, here, hu])]
      | some u =>
        rw [pte_of_table hu, pte_of_table (t := u) (by simp [tab, here, hu]), entry_setEntry]
        -- the table u is no directory, so the store to d does not reach it
        have away : u ≠ d := by
          rintro rfl
          exact inv.table_not_live hd' (Nat.mod_lt _ (by decide)) hu hd
        simp [away]
  refine ⟨?_, pte⟩
  have user : ∀ f, (s.setEntry d i ⟨perm, t, true⟩).userRefs live f = s.userRefs live f := fun f =>
    refs_congr (fun d' hd' vp _ => by simp [userTarget, pte d' hd' vp]) f
  have kern : ∀ f, (s.setEntry d i ⟨perm, t, true⟩).kernelRefs live own f =
      s.kernelRefs live (insert t own) f := by
    intro f
    have elsewhere : ∀ d' ∈ live, ∀ k ∈ Finset.range NPDENTRIES, (d' ≠ d ∨ k ≠ i) →
        (s.setEntry d i ⟨perm, t, true⟩).tableTarget d' k = s.tableTarget d' k := by
      intro d' _ k _ ne
      have : ¬ (d' = d ∧ k = i) := fun both => ne.elim (· both.1) (· both.2)
      simp [tab, this]
    have move := refs_update (R := Finset.range NPDENTRIES) hd (Finset.mem_range.mpr hi) elsewhere f
    simp only [tab, and_self, ↓reduceIte, none, reduceCtorEq, Nat.add_zero, Option.some.injEq] at move
    simp only [kernelRefs, tableRefs, move, Finset.mem_insert]
    by_cases here : f = t
    · subst here
      simp [new]
      omega
    · simp [here, Ne.symm here]
  constructor
  · intro f
    rw [user, kern]
    exact inv.refs f
  · intro f pos
    rw [kern] at pos
    exact inv.kernel f pos
  · intro d' hd' vp hv
    rw [pte d' hd' vp]
    exact inv.flags d' hd' vp hv
  · intro d' hd' vp hv
    rw [pte d' hd' vp]
    exact inv.writable d' hd' vp hv
  · intro f a ha b hb vpa hva vpb hvb
    simp only [userTarget, pte a ha, pte b hb]
    exact inv.samePage f a ha b hb vpa hva vpb hvb
  · exact inv.managed
  · exact inv.free
  · exact inv.nodup

end FrameInv

def Phys.drop (s : Phys) (f : Nat) : Phys :=
  { page := if s.ref f = 1 then Function.update s.page f junk else s.page
    ref := Function.update s.ref f (s.ref f - 1)
    freelist := if s.ref f = 1 then f :: s.freelist else s.freelist
    oom := s.oom }

theorem kfree_eq {f : Nat} (managed : Managed f) (held : s.ref f ≠ 0) :
    s.kfree f = .ok (s.drop f) := by
  simp only [Phys.kfree, managed, not_true_eq_false, ↓reduceIte, held, setRef_ref,
    Function.update_self, Phys.drop]
  by_cases last : s.ref f = 1
  · simp [last, Phys.setPage, Phys.setRef]
  · have : s.ref f - 1 ≠ 0 := by omega
    simp [last, this, Phys.setRef]

omit [Layout] in
theorem drop_page_ne {f g : Nat} (ne : g ≠ f) : (s.drop f).page g = s.page g := by
  unfold Phys.drop
  split
  · simp [ne]
  · rfl

omit [Layout] in
theorem drop_page_of_shared {f : Nat} (g : Nat) (shared : s.ref f ≠ 1) : (s.drop f).page g = s.page g := by
  simp [Phys.drop, shared]

omit [Layout] in
theorem drop_setEntry {f t : Nat} (i : Nat) (e : Pte) (ne : t ≠ f) :
    (s.drop f).setEntry t i e = (s.setEntry t i e).drop f := by
  have page : (s.drop f).page t = s.page t := drop_page_ne ne
  unfold Phys.setEntry Phys.setPage
  rw [page]
  by_cases last : s.ref f = 1
  · simp only [Phys.drop, last, ↓reduceIte]
    rw [Function.update_comm ne]
  · simp only [Phys.drop, last, ↓reduceIte]

namespace FrameInv

theorem drop (inv : FrameInv live own x s) {f : Nat} (dir : f ∉ live)
    (tab : s.tableRefs live f = 0) {own' : Finset Nat} (x' : Nat → Nat) (sub : own' ⊆ own)
    (balance : ∀ g, (if g ∈ own' then 1 else 0) + x' g + (if g = f then 1 else 0) =
      (if g ∈ own then 1 else 0) + x g) :
    Managed f ∧ s.ref f ≠ 0 ∧ FrameInv live own' x' (s.drop f) := by
  have here := balance f
  simp only [↓reduceIte] at here
  have sum := inv.refs f
  have kern : s.kernelRefs live own f = if f ∈ own then 1 else 0 := by simp [kernelRefs, tab, dir]
  have held : s.ref f ≠ 0 := by omega
  refine ⟨inv.managed f held, held, ?_⟩
  have kept : f ∉ own' := by
    intro member
    have one := inv.kernel_exclusive (f := f) (by rw [kern]; simp [sub member])
    simp only [member, sub member, ↓reduceIte] at here
    omega
  have still : FrameInv live own x { s with page := (s.drop f).page } := by
    by_cases last : s.ref f = 1
    · have := inv.setPage junk dir tab
      simpa [Phys.drop, last, Phys.setPage] using this
    · simpa [Phys.drop, last] using inv
  have pte : ∀ d vp, (s.drop f).pte d vp = ({ s with page := (s.drop f).page } : Phys).pte d vp :=
    fun d vp => rfl
  have user : ∀ g, (s.drop f).userRefs live g =
      ({ s with page := (s.drop f).page } : Phys).userRefs live g := fun g => rfl
  have kernSame : ∀ g, (s.drop f).kernelRefs live own' g + (if g ∈ own then 1 else 0) =
      ({ s with page := (s.drop f).page } : Phys).kernelRefs live own g +
        (if g ∈ own' then 1 else 0) := by
    intro g
    have : (s.drop f).tableRefs live g =
      ({ s with page := (s.drop f).page } : Phys).tableRefs live g := rfl
    simp only [kernelRefs, this]
    omega
  have less : ∀ g, (if g ∈ own' then 1 else 0) ≤ (if g ∈ own then 1 else 0) := by
    intro g
    by_cases member : g ∈ own'
    · simp [member, sub member]
    · simp [member]
  have ref : ∀ g, (s.drop f).ref g + (if g = f then 1 else 0) = s.ref g := by
    intro g
    by_cases same : g = f
    · subst same
      simp only [Phys.drop, Function.update_self, ↓reduceIte]
      omega
    · simp [Phys.drop, same]
  constructor
  · intro g
    have old := still.refs g
    have bal := balance g
    have k := kernSame g
    have r := ref g
    rw [user]
    simp only at old
    omega
  · intro g pos
    have k := kernSame g
    have l := less g
    have one := still.kernel g (by omega)
    have ne : g ≠ f := by
      rintro rfl
      have now : (s.drop g).kernelRefs live own' g = 0 := by
        have : (s.drop g).tableRefs live g = 0 := by
          have flat : (s.drop g).tableRefs live g = s.tableRefs live g :=
            refs_congr (fun d hd i _ => tableTarget_congr
              (drop_page_ne (fun same : d = g => dir (same ▸ hd))) i) g
          rw [flat, tab]
        simp [kernelRefs, this, dir, kept]
      omega
    have r := ref g
    simp only [ne, ↓reduceIte, Nat.add_zero] at r
    rw [r]
    exact one
  · exact still.flags
  · intro d hd vp hv present write
    have one := still.writable d hd vp hv present write
    -- a frame mapped writable is referenced by that entry alone, so it is not f
    have mapped : 0 < ({ s with page := (s.drop f).page } : Phys).userRefs live
        (({ s with page := (s.drop f).page } : Phys).pte d vp).frame :=
      refs_pos hd (Finset.mem_range.mpr hv) (target_some.mpr ⟨present, rfl⟩)
    have total := still.refs (({ s with page := (s.drop f).page } : Phys).pte d vp).frame
    have ne : (({ s with page := (s.drop f).page } : Phys).pte d vp).frame ≠ f := by
      intro same
      rw [same] at one total mapped
      have lower : (if f ∈ own then 1 else 0) ≤
          ({ s with page := (s.drop f).page } : Phys).kernelRefs live own f := by
        simp only [kernelRefs]
        omega
      omega
    have r := ref (({ s with page := (s.drop f).page } : Phys).pte d vp).frame
    simp only [ne, ↓reduceIte, Nat.add_zero] at r
    rw [pte, r]
    exact one
  · exact still.samePage
  · intro g pos
    have r := ref g
    exact inv.managed g (by omega)
  · intro g
    have r := ref g
    have old := inv.free g
    by_cases same : g = f
    · subst same
      have gone : g ∉ s.freelist := fun member => held ((inv.free g).mp member).2
      have managed := inv.managed g held
      simp only [↓reduceIte] at r
      by_cases last : s.ref g = 1
      · have : (s.drop g).ref g = 0 := by omega
        simp [this, managed]
        simp [Phys.drop, last]
      · have : (s.drop g).ref g ≠ 0 := by omega
        simp [this]
        simp [Phys.drop, last, gone]
    · simp only [same, ↓reduceIte, Nat.add_zero] at r
      rw [r, ← old]
      unfold Phys.drop
      split
      · simp [same]
      · rfl
  · have gone : f ∉ s.freelist := fun member => held ((inv.free f).mp member).2
    unfold Phys.drop
    split
    · simp [gone, inv.nodup]
    · exact inv.nodup

theorem kfree_flight {f : Nat} (inv : FrameInv live own (bump x f) s) :
    s.kfree f = .ok (s.drop f) ∧ FrameInv live own x (s.drop f) := by
  have sum := inv.refs f
  have none : s.kernelRefs live own f = 0 := by
    by_contra held
    have := (inv.kernel_exclusive (Nat.pos_of_ne_zero held)).2.2
    simp [bump] at this
  obtain ⟨tab, dir, -⟩ := kernelRefs_zero none
  obtain ⟨managed, held, next⟩ := inv.drop dir tab x (Finset.Subset.refl own) (by
    intro g
    simp only [bump]
    omega)
  exact ⟨kfree_eq managed held, next⟩

theorem kfree_own {f : Nat} (inv : FrameInv live (insert f own) x s) (new : f ∉ own) :
    s.kfree f = .ok (s.drop f) ∧ FrameInv live own x (s.drop f) := by
  have one := (inv.kernel_exclusive (f := f) (by simp [kernelRefs])).2.1
  have dir : f ∉ live := by
    intro member
    simp [kernelRefs, member] at one
  have tab : s.tableRefs live f = 0 := by
    simp [kernelRefs] at one
    omega
  obtain ⟨managed, held, next⟩ := inv.drop dir tab x (Finset.subset_insert f own) (by
    intro g
    by_cases same : g = f
    · subst same
      simp [new]
      omega
    · simp [same])
  exact ⟨kfree_eq managed held, next⟩

theorem incref (inv : FrameInv live own x s) {f : Nat} (held : s.ref f ≠ 0)
    (kern : s.kernelRefs live own f = 0)
    (frozen : ∀ d ∈ live, ∀ vp < NUPAGES, s.userTarget d vp = some f → (s.pte d vp).w = false) :
    FrameInv live own (bump x f) (s.setRef f (s.ref f + 1)) := by
  have ref : ∀ g, (s.setRef f (s.ref f + 1)).ref g = s.ref g + if g = f then 1 else 0 := by
    intro g
    by_cases same : g = f
    · subst same
      simp
    · simp [same]
  have user : ∀ g, (s.setRef f (s.ref f + 1)).userRefs live g = s.userRefs live g := fun g => rfl
  have kernSame : ∀ g, (s.setRef f (s.ref f + 1)).kernelRefs live own g =
      s.kernelRefs live own g := fun g => rfl
  constructor
  · intro g
    have old := inv.refs g
    rw [ref, user, kernSame]
    simp only [bump]
    omega
  · intro g pos
    rw [kernSame] at pos
    have ne : g ≠ f := by
      rintro rfl
      omega
    rw [ref]
    simp [ne, inv.kernel g pos]
  · exact inv.flags
  · intro d hd vp hv present write
    have ne : (s.pte d vp).frame ≠ f := by
      intro same
      have := frozen d hd vp hv (target_some.mpr ⟨present, same⟩)
      change (s.pte d vp).w = true at write
      simp [this] at write
    change (s.setRef f (s.ref f + 1)).ref (s.pte d vp).frame = 1
    rw [ref]
    simp [ne, inv.writable d hd vp hv present write]
  · exact inv.samePage
  · intro g pos
    rw [ref] at pos
    by_cases same : g = f
    · subst same
      exact inv.managed g held
    · simp only [same, ↓reduceIte, Nat.add_zero] at pos
      exact inv.managed g pos
  · intro g
    rw [ref]
    by_cases same : g = f
    · subst same
      have := inv.free g
      simp [this, held]
    · simpa [same] using inv.free g
  · exact inv.nodup

theorem attach {d : Nat} (inv : FrameInv live (insert d own) x s) (new : d ∉ own)
    (zero : s.page d = .table fun _ => Pte.zero) : FrameInv (insert d live) own x s := by
  have one := (inv.kernel_exclusive (f := d) (by simp [kernelRefs])).2.1
  have fresh : d ∉ live := by
    intro member
    simp [kernelRefs, member] at one
  have noTable : ∀ i, s.tableTarget d i = none := by
    intro i
    simp [tableTarget, entry, zero, Page.entry, Pte.target, Pte.zero]
  have noPage : ∀ vp, s.pte d vp = Pte.zero := fun vp => pte_of_no_table (noTable _)
  have user : ∀ f, s.userRefs (insert d live) f = s.userRefs live f := fun f =>
    refs_insert_empty (fun vp _ => by simp [userTarget, noPage, Pte.target, Pte.zero]) f
  have kern : ∀ f, s.kernelRefs (insert d live) own f = s.kernelRefs live (insert d own) f := by
    intro f
    have : s.tableRefs (insert d live) f = s.tableRefs live f :=
      refs_insert_empty (fun i _ => noTable i) f
    simp only [kernelRefs, this, Finset.mem_insert]
    by_cases same : f = d
    · subst same
      simp [fresh, new]
    · simp [same]
  have empty : ∀ vp f, s.userTarget d vp ≠ some f := by
    intro vp f
    simp [userTarget, noPage, Pte.target, Pte.zero]
  constructor
  · intro f
    rw [user, kern]
    exact inv.refs f
  · intro f pos
    rw [kern] at pos
    exact inv.kernel f pos
  · intro d' hd' vp hv present
    rcases Finset.mem_insert.mp hd' with rfl | hd'
    · simp [noPage, Pte.zero] at present
    · exact inv.flags d' hd' vp hv present
  · intro d' hd' vp hv present
    rcases Finset.mem_insert.mp hd' with rfl | hd'
    · simp [noPage, Pte.zero] at present
    · exact inv.writable d' hd' vp hv present
  · intro f a ha b hb vpa hva vpb hvb hfa hfb
    rcases Finset.mem_insert.mp ha with rfl | ha
    · exact absurd hfa (empty vpa f)
    · rcases Finset.mem_insert.mp hb with rfl | hb
      · exact absurd hfb (empty vpb f)
      · exact inv.samePage f a ha b hb vpa hva vpb hvb hfa hfb
  · exact inv.managed
  · exact inv.free
  · exact inv.nodup

end FrameInv

def Phys.tablesOf (s : Phys) (d : Nat) (is : List Nat) : Finset Nat :=
  (is.filterMap (s.tableTarget d)).toFinset

omit [Layout] in
theorem mem_tablesOf {d f : Nat} {is : List Nat} :
    f ∈ s.tablesOf d is ↔ ∃ i ∈ is, s.tableTarget d i = some f := by
  simp [Phys.tablesOf]

namespace FrameInv

theorem detach (inv : FrameInv live own x s) {d : Nat} (hd : d ∈ live)
    (empty : ∀ vp < NUPAGES, s.userTarget d vp = none) :
    FrameInv (live.erase d) (insert d (s.tablesOf d (List.range NPDENTRIES) ∪ own)) x s := by
  have user : ∀ f, s.userRefs (live.erase d) f = s.userRefs live f := fun f =>
    refs_erase_empty (fun vp hv => empty vp (Finset.mem_range.mp hv)) f
  have row : ∀ f, s.tableRefs live f =
      ((Finset.range NPDENTRIES).filter fun i => s.tableTarget d i = some f).card +
        s.tableRefs (live.erase d) f := by
    intro f
    rw [tableRefs, tableRefs, ← refs_insert (Finset.notMem_erase d live), Finset.insert_erase hd]
  have one : s.tableRefs live d = 0 ∧ d ∉ own := by
    have := (inv.kernel_exclusive (f := d) (by simp [kernelRefs, hd])).2.1
    simp only [kernelRefs, hd, ↓reduceIte] at this
    refine ⟨by omega, ?_⟩
    intro member
    simp [member] at this
  have kern : ∀ f, s.kernelRefs (live.erase d)
      (insert d (s.tablesOf d (List.range NPDENTRIES) ∪ own)) f = s.kernelRefs live own f := by
    intro f
    have r := row f
    by_cases mine : f ∈ s.tablesOf d (List.range NPDENTRIES)
    · -- f is a table of d: counted once on both sides
      obtain ⟨i, hi, ht⟩ := mem_tablesOf.mp mine
      rw [List.mem_range] at hi
      have pos := inv.table_held hd hi ht
      have total := (inv.kernel_exclusive (f := f) (by unfold kernelRefs; omega)).2.1
      have rowPos : 0 < ((Finset.range NPDENTRIES).filter fun i => s.tableTarget d i = some f).card :=
        Finset.card_pos.mpr ⟨i, by simp [hi, ht]⟩
      have notLive := inv.table_not_live hd hi ht
      rw [total]
      simp only [kernelRefs] at total ⊢
      simp only [notLive, ↓reduceIte, Finset.mem_insert, Finset.mem_union, mine, true_or, or_true,
        Finset.mem_erase, and_false] at total ⊢
      omega
    · have rowZero : ((Finset.range NPDENTRIES).filter fun i => s.tableTarget d i = some f).card = 0 := by
        rw [Finset.card_eq_zero, Finset.filter_eq_empty_iff]
        intro i hi ht
        exact mine (mem_tablesOf.mpr ⟨i, List.mem_range.mpr (Finset.mem_range.mp hi), ht⟩)
      simp only [kernelRefs, Finset.mem_erase, Finset.mem_insert, Finset.mem_union, mine, false_or]
      by_cases same : f = d
      · subst same
        simp only [ne_eq, not_true_eq_false, false_and, ↓reduceIte, true_or, hd, one.2]
        omega
      · simp only [ne_eq, same, not_false_eq_true, true_and, false_or]
        omega
  have sub : ∀ {a}, a ∈ live.erase d → a ∈ live := fun h => Finset.mem_of_mem_erase h
  constructor
  · intro f
    rw [user, kern]
    exact inv.refs f
  · intro f pos
    rw [kern] at pos
    exact inv.kernel f pos
  · intro d' hd'
    exact inv.flags d' (sub hd')
  · intro d' hd'
    exact inv.writable d' (sub hd')
  · intro f a ha b hb
    exact inv.samePage f a (sub ha) b (sub hb)
  · exact inv.managed
  · exact inv.free
  · exact inv.nodup

theorem ref_le (inv : FrameInv live own x s) (f : Nat) : s.ref f ≤ max 1 (live.card + x f) := by
  have sum := inv.refs f
  by_cases held : 0 < s.kernelRefs live own f
  · have := inv.kernel f held
    omega
  · have user : s.userRefs live f ≤ live.card := refs_le_card
      (fun d hd vp hv vp' hv' h h' => inv.samePage f d hd d hd vp (Finset.mem_range.mp hv) vp'
        (Finset.mem_range.mp hv') h h')
    omega

end FrameInv
end
end Xv6
