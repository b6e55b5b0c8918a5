import Xv6.Memory.FaultSpec

/-!
The page fault handler as a whole: its five outcomes, and what each of them keeps.
The error code may describe an older page table; the outcome depends only on the
table found under vmlock and on whether the access was a write.
-/
namespace Xv6
open RefCount Phys

section
variable [Layout] {live own : Finset Nat} {x : Nat → Nat} {s : Phys}

/-- Frames the handler must obtain to resolve a fault at va. -/
def Phys.faultNeed (s : Phys) (d va : Nat) : Nat :=
  if (s.pte d (va / 4096)).p then
    if (s.pte d (va / 4096)).cow && s.ref (s.pte d (va / 4096)).frame != 1 then 1 else 0
  else 1 + s.needsTable d va

omit [Layout] in
theorem needsTable_page (s : Phys) (d va : Nat) :
    s.needsTable d (va / 4096 * PGSIZE) = s.needsTable d va := by
  simp only [Phys.needsTable, pdx_page, pdx_eq va]

inductive FaultOutcome (live own : Finset Nat) (x : Nat → Nat) (s : Phys) (d sz va : Nat)
    (err : FaultCode) : Int → Phys → Prop where
  | beyond (absent : (s.pte d (va / 4096)).p = false) (above : sz ≤ va) :
      FaultOutcome live own x s d sz va err (-1) s
  | lazy (absent : (s.pte d (va / 4096)).p = false) (below : va < sz) (r : Int) (s' : Phys)
      (done : LazyOutcome live own x s d (va / 4096) r s') : FaultOutcome live own x s d sz va err r s'
  | cow (present : (s.pte d (va / 4096)).p = true) (write : err.wr = true)
      (mark : (s.pte d (va / 4096)).cow = true) (r : Int) (s' : Phys)
      (done : CowOutcome live own x s d (va / 4096) r s') : FaultOutcome live own x s d sz va err r s'
  | writable (present : (s.pte d (va / 4096)).p = true) (write : err.wr = true)
      (plain : (s.pte d (va / 4096)).cow = false) (w : (s.pte d (va / 4096)).w = true) :
      FaultOutcome live own x s d sz va err 0 s
  | refused (present : (s.pte d (va / 4096)).p = true) (read : err.wr = false) :
      FaultOutcome live own x s d sz va err (-1) s

omit [Layout] in
theorem found_eq_pte (s : Phys) (d va : Nat) : s.found d va = s.pte d (va / 4096) := by
  unfold Phys.found
  cases ht : s.tableTarget d (pdx va) with
  | none =>
    rw [walk_false_of_no_table ht]
    rw [pdx_eq] at ht
    exact (pte_of_no_table ht).symm
  | some t =>
    rw [walk_false_of_table ht]
    exact entry_eq_pte ht

theorem pagefault_spec (inv : FrameInv live own x s) {d va : Nat} (sz : Nat) (err : FaultCode)
    (hd : d ∈ live) (user : va < KERNBASE) :
    ∃ r s', s.pagefault (some ⟨d, sz⟩) va err = .ok (r, s') ∧
      FaultOutcome live own x s d sz va err r s' := by
  have hv : va / 4096 < NUPAGES := by
    simp only [KERNBASE, NUPAGES] at *
    omega
  simp only [Phys.pagefault, Nat.not_le.mpr user, ↓reduceIte, found_eq_pte]
  by_cases present : (s.pte d (va / 4096)).p = true
  · have flags := inv.flags d hd _ hv present
    simp only [present, not_true_eq_false, ↓reduceIte]
    by_cases write : err.wr = true
    · by_cases mark : (s.pte d (va / 4096)).cow = true
      · obtain ⟨r, s', run, done⟩ := cowfault_spec inv hd user present mark
        exact ⟨r, s', by simp [write, mark, run], .cow present write mark r s' done⟩
      · simp only [Bool.not_eq_true] at mark
        rw [mark, Bool.not_false] at flags
        exact ⟨0, s, by simp [write, mark, flags], .writable present write mark flags⟩
    · simp only [Bool.not_eq_true] at write
      exact ⟨-1, s, by simp [write], .refused present write⟩
  · simp only [Bool.not_eq_true] at present
    simp only [present, Bool.false_eq_true, not_false_eq_true, ↓reduceIte]
    by_cases above : sz ≤ va
    · exact ⟨-1, s, by simp [above], .beyond present above⟩
    · obtain ⟨r, s', run, done⟩ := lazyalloc_spec inv hd user present
      exact ⟨r, s', by simp [above, run], .lazy present (by omega) r s' done⟩

namespace FaultOutcome
variable {d sz va : Nat} {err : FaultCode} {r : Int} {s' : Phys}

theorem inv (o : FaultOutcome live own x s d sz va err r s') (old : FrameInv live own x s) :
    FrameInv live own x s' := by
  cases o with
  | beyond => exact old
  | lazy _ _ _ _ done => cases done with
    | mapped _ f inv => exact inv
    | failed _ inv => exact inv
  | cow _ _ _ _ _ done => cases done with
    | inPlace _ inv => exact inv
    | copied _ f inv => exact inv
    | failed => exact old.oom true
  | writable => exact old
  | refused => exact old

theorem keeps (o : FaultOutcome live own x s d sz va err r s') (old : FrameInv live own x s) :
    KeepsOff live (fun d' vp => d' = d ∧ vp = va / 4096) s s' := by
  cases o with
  | beyond => exact KeepsOff.refl ..
  | lazy _ _ _ _ done => cases done with
    | mapped _ f _ _ _ keeps => exact keeps
    | failed _ _ keeps => exact keeps.mono fun _ _ _ h => h.elim
  | cow _ _ _ _ _ done => cases done with
    | inPlace _ _ _ _ _ keeps => exact keeps
    | copied _ f _ _ _ _ _ keeps => exact keeps
    | failed => exact old.keeps_of_held _ fun _ _ => rfl
  | writable => exact KeepsOff.refl ..
  | refused => exact KeepsOff.refl ..

theorem content_here (o : FaultOutcome live own x s d sz va err r s') (old : FrameInv live own x s)
    (hd : d ∈ live) (hv : va / 4096 < NUPAGES) :
    s'.content d (va / 4096) = s.content d (va / 4096) := by
  cases o with
  | beyond => rfl
  | lazy absent _ _ _ done => cases done with
    | mapped _ f _ entry zero =>
      simp only [Phys.content, entry, zero, absent, ↓reduceIte, Bool.false_eq_true]
      rfl
    | failed _ _ keeps => exact keeps.content hd hv not_false
  | cow present _ _ _ _ done => cases done with
    | inPlace _ _ _ entry same => simp [Phys.content, entry, present, same, Pte.privatized]
    | copied _ f _ _ entry _ same => simp [Phys.content, entry, present, same, Pte.privatized]
    | failed => exact (old.keeps_of_held (fun _ _ => False) fun _ _ => rfl).content hd hv not_false
  | writable => rfl
  | refused => rfl

theorem content (o : FaultOutcome live own x s d sz va err r s') (old : FrameInv live own x s)
    (hd : d ∈ live) (hv : va / 4096 < NUPAGES) {d' vp : Nat} (hd' : d' ∈ live) (hv' : vp < NUPAGES) :
    s'.content d' vp = s.content d' vp := by
  by_cases here : d' = d ∧ vp = va / 4096
  · obtain ⟨rfl, rfl⟩ := here
    exact o.content_here old hd hv
  · exact (o.keeps old).content hd' hv' here

theorem user_bit (o : FaultOutcome live own x s d sz va err r s')
    (present : (s.pte d (va / 4096)).p = true) :
    (s'.pte d (va / 4096)).p = true ∧ (s'.pte d (va / 4096)).u = (s.pte d (va / 4096)).u := by
  cases o with
  | beyond absent => simp [absent] at present
  | lazy absent => simp [absent] at present
  | cow _ _ _ _ _ done => cases done with
    | inPlace _ _ _ entry => simp [entry, Pte.privatized]
    | copied _ f _ _ entry => simp [entry, Pte.privatized]
    | failed => exact ⟨present, rfl⟩
  | writable => exact ⟨present, rfl⟩
  | refused => exact ⟨present, rfl⟩

end FaultOutcome
end
end Xv6
