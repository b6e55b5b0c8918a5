import Xv6.Memory.PageFault
import Xv6.Memory.ImageSpec
import Xv6.Memory.Machine

/-!
One access to a user page, with the fault it may raise. The access changes nothing that
any process reads; with memory left it completes below the break, except for user code
at a page without PTE_U.
-/
namespace Xv6
open RefCount Phys

section
variable [Layout] {live own : Finset Nat} {x : Nat → Nat} {s : Phys}

/-- The outcome of touch at address va of directory d with break sz. -/
structure Touched (live own : Finset Nat) (x : Nat → Nat) (s : Phys) (d sz va : Nat) (wr u done : Bool)
    (s' : Phys) : Prop where
  inv : FrameInv live own x s'
  keeps : KeepsOff live (fun d' vp => d' = d ∧ vp = va / 4096) s s'
  present : (s'.pte d (va / 4096)).p = true → (s.pte d (va / 4096)).p = true ∨ va < sz
  content : ∀ d' ∈ live, ∀ vp < NUPAGES, s'.content d' vp = s.content d' vp
  permits : done = true → (s'.pte d (va / 4096)).permits wr u = true
  complete : va < sz → s'.oom = false →
    (u = true → (s.pte d (va / 4096)).p = true → (s.pte d (va / 4096)).u = true) → done = true

omit [Layout] in
theorem Pte.permits_iff {e : Pte} {wr u : Bool} :
    e.permits wr u = true ↔ e.p = true ∧ (wr = true → e.w = true) ∧ (u = true → e.u = true) := by
  unfold Pte.permits
  cases e.p <;> cases wr <;> cases e.w <;> cases u <;> cases e.u <;> simp

/-- A resolved fault makes the page present, writable if the access was a write, and
    leaves PTE_U as it was on a page that was there. -/
theorem FaultOutcome.resolved {d sz va : Nat} {err : FaultCode} {s' : Phys}
    (o : FaultOutcome live own x s d sz va err 0 s') :
    (s'.pte d (va / 4096)).p = true ∧ (err.wr = true → (s'.pte d (va / 4096)).w = true) ∧
      (((s.pte d (va / 4096)).p = true → (s.pte d (va / 4096)).u = true) → (s'.pte d (va / 4096)).u = true) := by
  cases o with
  | lazy absent below _ _ done => cases done with
    | mapped _ f _ entry => simp [entry]
  | cow present write mark _ _ done => cases done with
    | inPlace _ _ _ entry =>
      rw [entry]
      exact ⟨rfl, fun _ => rfl, fun user => user present⟩
    | copied _ f _ _ entry =>
      rw [entry]
      exact ⟨rfl, fun _ => rfl, fun user => user present⟩
  | writable present write plain w => exact ⟨present, fun _ => w, fun user => user present⟩

/-- A fault that is not resolved, although memory was left: beyond the break, or a read
    of a page that is there. -/
theorem FaultOutcome.unresolved {d sz va : Nat} {err : FaultCode} {r : Int} {s' : Phys}
    (o : FaultOutcome live own x s d sz va err r s') (ne : r ≠ 0) (calm : s'.oom = false) :
    sz ≤ va ∨ (s.pte d (va / 4096)).p = true ∧ err.wr = false := by
  cases o with
  | beyond absent above => exact Or.inl above
  | lazy absent below _ _ done => cases done with
    | mapped => exact (ne rfl).elim
    | failed _ _ _ _ short =>
      rw [short] at calm
      cases calm
  | cow present write mark _ _ done => cases done with
    | inPlace => exact (ne rfl).elim
    | copied => exact (ne rfl).elim
    | failed => cases calm
  | writable => exact (ne rfl).elim
  | refused present read => exact Or.inr ⟨present, read⟩

theorem FaultOutcome.present {d sz va : Nat} {err : FaultCode} {r : Int} {s' : Phys}
    (o : FaultOutcome live own x s d sz va err r s') (here : (s'.pte d (va / 4096)).p = true) :
    (s.pte d (va / 4096)).p = true ∨ va < sz := by
  cases o with
  | beyond => exact Or.inl here
  | lazy absent below => exact Or.inr below
  | cow present => exact Or.inl present
  | writable present => exact Or.inl present
  | refused present => exact Or.inl present

theorem touch_spec (inv : FrameInv live own x s) {d va : Nat} (sz : Nat) (hd : d ∈ live) (user : va < KERNBASE)
    (wr u : Bool) : ∃ done s', s.touch ⟨d, sz⟩ va wr u = .ok (done, s') ∧
      Touched live own x s d sz va wr u done s' := by
  have hv : va / 4096 < NUPAGES := by
    simp only [KERNBASE, NUPAGES] at *
    omega
  simp only [Phys.touch, found_eq_pte]
  by_cases fine : (s.pte d (va / 4096)).permits wr u = true
  · rw [if_pos fine]
    exact ⟨true, s, rfl, inv, KeepsOff.refl .., Or.inl, fun _ _ _ _ => rfl, fun _ => fine, fun _ _ _ => rfl⟩
  · rw [if_neg fine]
    obtain ⟨r, s', run, outcome⟩ := pagefault_spec inv sz ((s.pte d (va / 4096)).faultCode wr u) hd user
    rw [run, ok_bind]
    refine ⟨_, s', rfl, outcome.inv inv, outcome.keeps inv, outcome.present,
      fun d' hd' vp hv' => outcome.content inv hd hv hd' hv', ?_, ?_⟩
    · intro done
      exact ((Bool.and_eq_true _ _).mp done).2
    · intro below calm legal
      by_cases zero : r = 0
      · subst zero
        obtain ⟨present, write, open'⟩ := outcome.resolved
        have now : (s'.pte d (va / 4096)).permits wr u = true :=
          Pte.permits_iff.mpr ⟨present, write, fun asUser => open' (legal asUser)⟩
        simp [now]
      · -- a page that is there may be read, so the CPU would not have refused
        rcases outcome.unresolved zero calm with above | ⟨present, read⟩
        · omega
        · refine (fine (Pte.permits_iff.mpr ⟨present, ?_, fun asUser => legal asUser present⟩)).elim
          intro asWrite
          rw [asWrite] at read
          cases read

/-- Bytes stored to a page that the CPU lets the process write. -/
structure Stored (live own : Finset Nat) (x : Nat → Nat) (s : Phys) (d sz va : Nat) (s' : Phys) : Prop where
  inv : FrameInv live own x s'
  keeps : KeepsOff live (fun d' vp => d' = d ∧ vp = va / 4096) s s'
  present : (s'.pte d (va / 4096)).p = true → (s.pte d (va / 4096)).p = true ∨ va < sz

theorem Touched.write {d sz va : Nat} {wr u done : Bool} {s1 : Phys}
    (touched : Touched live own x s d sz va wr u done s1) (fine : done = true) (write : wr = true)
    (hd : d ∈ live) (hv : va / 4096 < NUPAGES) (pg : Page) :
    Stored live own x s d sz va (s1.setPage (s1.pte d (va / 4096)).frame pg) := by
  obtain ⟨present, writable, -⟩ := Pte.permits_iff.mp (touched.permits fine)
  obtain ⟨inv2, pte2, keeps2⟩ := touched.inv.write_user hd hv present (writable write) pg
  refine ⟨inv2, touched.keeps.trans keeps2, ?_⟩
  rw [pte2 d hd]
  exact touched.present

theorem store_spec (inv : FrameInv live own x s) {d va : Nat} (sz : Nat) (hd : d ∈ live) (user : va < KERNBASE)
    (bs : List UInt8) : (∃ s', s.store ⟨d, sz⟩ va bs = .ok s' ∧ Stored live own x s d sz va s') ∨
      s.store ⟨d, sz⟩ va bs = .error .kernelPageFault := by
  have hv : va / 4096 < NUPAGES := by
    simp only [KERNBASE, NUPAGES] at *
    omega
  obtain ⟨done, s1, run, touched⟩ := touch_spec inv sz hd user true false
  simp only [Phys.store, run, ok_bind, found_eq_pte]
  cases fine : done with
  | true =>
    rw [if_pos rfl]
    exact Or.inl ⟨_, rfl, touched.write fine rfl hd hv _⟩
  | false =>
    rw [if_neg Bool.false_ne_true]
    exact Or.inr rfl

end
end Xv6
