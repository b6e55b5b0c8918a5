import Mathlib.Data.Finset.Card
import Xv6.Concurrent.Kmem
import Xv6.Lib.Runs

/-!
The allocator under any interleaving of its steps by any number of threads. A frame
that has lost its last reference is on neither side until kfree's second critical
section: the free list, the referenced frames and these frames are all there is.
-/
namespace Xv6

/-- What a thread can do to the allocator and to the frames it holds. -/
inductive KmemAct where
  | kalloc (t : Nat)
  | incref (t f : Nat)
  | kfree (t f : Nat)
  | resume (t : Nat)
  | write (t f : Nat) (b : Nat → UInt8)
  | pass (t u f : Nat)

namespace Kmem

def finish (s : Kmem Nat Nat) (t : Nat) : Kmem Nat Nat :=
  match s.resume t with
  | none => s
  | some s => (s.resume t).getD s

variable [Layout]

/-- freerange on the boot CPU: every frame is given a reference and freed. -/
def freerange : List Nat → Kmem Nat Nat → Except Panic (Kmem Nat Nat)
  | [], s => .ok s
  | f :: fs, s =>
    match ({ s with ref := Function.update s.ref f 1, held := (0, f) :: s.held } : Kmem Nat Nat).kfree 0 0 f with
    | .ok s => freerange fs (s.finish 0)
    | .error p => .error p

/-- kmem is zero and the frames hold anything; then freerange runs. -/
def Boot (fs : List Nat) (s : Kmem Nat Nat) : Prop :=
  ∃ mem, freerange fs ⟨none, mem, fun _ => 0, [], fun _ => none⟩ = .ok s

inductive Stop where
  | disabled
  | panic (p : Panic)

/-- A thread in the middle of a kfree does nothing else; incref and kfree are called
    on frames the caller holds. A reference can be passed on, and a holder may write
    anything to its frame. -/
def step (s : Kmem Nat Nat) : KmemAct → Except Stop (Kmem Nat Nat)
  | .kalloc t => if s.mid t = none then .ok (s.kalloc t).2 else .error .disabled
  | .incref t f =>
    if s.mid t = none ∧ (t, f) ∈ s.held then
      match s.incref t f with
      | .ok s => .ok s
      | .error p => .error (.panic p)
    else .error .disabled
  | .kfree t f =>
    if s.mid t = none ∧ (t, f) ∈ s.held then
      match s.kfree t t f with
      | .ok s => .ok s
      | .error p => .error (.panic p)
    else .error .disabled
  | .resume t =>
    match s.resume t with
    | some s => .ok s
    | none => .error .disabled
  | .write t f b =>
    if s.mid t = none ∧ (t, f) ∈ s.held then .ok (s.store f (.bytes b)) else .error .disabled
  | .pass t u f =>
    if s.mid t = none ∧ (t, f) ∈ s.held then .ok { s with held := (u, f) :: s.held.erase (t, f) }
    else .error .disabled

/-- No frame has more references than a ushort can count. -/
def FewRefs (s : Kmem Nat Nat) (a : KmemAct) : Prop := ∀ t f, a = .incref t f → s.refs f < 65535

end Kmem

/-- The three disjoint sets of frames; l is the free list. -/
structure KmemOk (given : Nat → Prop) (l : List Nat) (s : Kmem Nat Nat) : Prop where
  linked : LinkedQueue.Linked (fun f => (s.mem f).next) s.freelist l
  nodup : l.Nodup
  cover : ∀ f, given f ↔ f ∈ l ∨ 0 < s.ref f ∨ s.Mid f
  disjoint : ∀ f, ¬ (f ∈ l ∧ 0 < s.ref f) ∧ ¬ (f ∈ l ∧ s.Mid f) ∧ ¬ (0 < s.ref f ∧ s.Mid f)
  freemem : s.freemem = some l.length
  kalloc : ∀ t f s', s.kalloc t = (some f, s') → (∀ h, (h, f) ∉ s.held) ∧ ¬ s.Mid f

namespace KmemInv
variable {given : Nat → Prop} {l : List Nat} {s s' : Kmem Nat Nat}

theorem give (inv : KmemInv given l s) {f : Nat} (new : ¬ given f) :
    KmemInv (fun g => given g ∨ g = f) l
      { s with ref := Function.update s.ref f 1, held := (0, f) :: s.held } := by
  have zero : s.ref f = 0 := by
    by_contra used
    exact new (inv.used f used)
  have off : ∀ g, g ≠ f → Function.update s.ref f 1 g = s.ref g := fun g ne => Function.update_of_ne ne 1 s.ref
  refine ⟨inv.linked, inv.nodup, ?_, ?_, ?_, ?_, inv.once, ?_⟩
  · refine inv.recount rfl ?_ ?_
    · rw [Kmem.refs, List.map_cons, List.count_cons_self]
      exact congrArg (· + 1) ((inv.count f).symm.trans zero)
    · intro g ne
      rw [Kmem.refs, List.map_cons, List.count_cons_of_ne (Ne.symm ne)]
      rfl
  · intro g free
    obtain ⟨mine, none, still⟩ := inv.free g free
    have ne : g ≠ f := by
      rintro rfl
      exact new mine
    exact ⟨Or.inl mine, (off g ne).trans none, still⟩
  · intro g used
    by_cases eq : g = f
    · exact Or.inr eq
    · exact Or.inl (inv.used g fun none => used ((off g eq).trans none))
  · intro g middle
    obtain ⟨mine, none⟩ := inv.mid g middle
    have ne : g ≠ f := by
      rintro rfl
      exact new mine
    exact ⟨Or.inl mine, (off g ne).trans none⟩
  · intro g mine
    by_cases eq : g = f
    · refine Or.inr (Or.inl ?_)
      change Function.update s.ref f 1 g ≠ 0
      rw [eq, Function.update_self]
      decide
    · rcases mine with mine | here
      · rcases inv.cover g mine with free | used | middle
        · exact Or.inl free
        · exact Or.inr (Or.inl fun none => used ((off g eq).symm.trans none))
        · exact Or.inr (Or.inr middle)
      · exact (eq here).elim

variable [Layout]

theorem freerange {fs : List Nat} (inv : KmemInv given l s) (idle : s.mid 0 = none) (nodup : fs.Nodup)
    (new : ∀ f ∈ fs, ¬ given f) (done : Kmem.freerange fs s = .ok s') :
    ∃ l', KmemInv (fun g => given g ∨ g ∈ fs) l' s' := by
  induction fs generalizing given l s with
  | nil =>
    cases done
    refine ⟨l, ?_⟩
    simpa using inv
  | cons f fs ih =>
    obtain ⟨absent, nodup⟩ := List.nodup_cons.mp nodup
    have given' := inv.give (new f List.mem_cons_self)
    unfold Kmem.freerange at done
    split at done
    · rename_i s1 freed
      have inv1 := given'.kfree List.mem_cons_self idle freed
      obtain ⟨-, -, -, -, -, mid⟩ := Kmem.kfree_ok freed
      simp only [Function.update_self, ↓reduceIte] at mid
      have at1 : s1.mid 0 = some (.fill f) := by rw [mid, Function.update_self]
      have fill : ∃ s2, s1.resume 0 = some s2 ∧ s2.mid 0 = some (.push f) := by
        unfold Kmem.resume
        rw [at1]
        exact ⟨_, rfl, by simp⟩
      obtain ⟨s2, filled, at2⟩ := fill
      have push : ∃ s3, s2.resume 0 = some s3 ∧ s3.mid 0 = none := by
        unfold Kmem.resume
        rw [at2]
        exact ⟨_, rfl, by simp⟩
      obtain ⟨s3, pushed, at3⟩ := push
      have inv3 := (inv1.fill at1 filled).push at2 pushed
      have last : s1.finish 0 = s3 := by
        unfold Kmem.finish
        rw [filled]
        simp only [pushed, Option.getD_some]
      rw [last] at done
      obtain ⟨l', inv'⟩ := ih inv3 at3 nodup (by
        rintro g member (old | rfl)
        · exact new g (List.mem_cons_of_mem f member) old
        · exact absent member) done
      refine ⟨l', ?_⟩
      simpa [or_assoc] using inv'
    · cases done

theorem boot {fs : List Nat} (nodup : fs.Nodup) (booted : Kmem.Boot fs s) : ∃ l, KmemInv (· ∈ fs) l s := by
  obtain ⟨mem, done⟩ := booted
  have empty : KmemInv (fun _ => False) [] (⟨none, mem, fun _ => 0, [], fun _ => none⟩ : Kmem Nat Nat) := by
    refine ⟨rfl, List.nodup_nil, fun _ => rfl, nofun, fun f used => (used rfl).elim, ?_, nofun, nofun⟩
    rintro f ⟨t, here⟩
    cases here
  obtain ⟨l, inv⟩ := empty.freerange rfl nodup (fun _ _ h => h) done
  refine ⟨l, ?_⟩
  simpa using inv

theorem step {a : KmemAct} (inv : KmemInv given l s) (few : Kmem.FewRefs s a) (done : s.step a = .ok s') :
    ∃ l', KmemInv given l' s' := by
  cases a with
  | kalloc t =>
    simp only [Kmem.step] at done
    split at done
    · cases done
      cases result : s.kalloc t with
      | mk r s1 =>
        cases r with
        | none =>
          rw [(Kmem.kalloc_none result).2]
          exact ⟨l, inv⟩
        | some f =>
          obtain ⟨rest, -, next, -⟩ := inv.kalloc result
          exact ⟨rest, next⟩
    · cases done
  | incref t f =>
    simp only [Kmem.step] at done
    split at done
    · rename_i mine
      split at done
      · rename_i s1 result
        cases done
        refine ⟨l, inv.incref ?_ result⟩
        rw [inv.count f]
        exact few t f rfl
      · cases done
    · cases done
  | kfree t f =>
    simp only [Kmem.step] at done
    split at done
    · rename_i mine
      split at done
      · rename_i s1 result
        cases done
        exact ⟨l, inv.kfree mine.2 mine.1 result⟩
      · cases done
    · cases done
  | resume t =>
    simp only [Kmem.step] at done
    split at done
    · rename_i s1 result
      cases done
      cases at' : s.mid t with
      | none =>
        unfold Kmem.resume at result
        rw [at'] at result
        cases result
      | some stage =>
        cases stage with
        | fill f => exact ⟨l, inv.fill at' result⟩
        | push f => exact ⟨f :: l, inv.push at' result⟩
    · cases done
  | write t f b =>
    simp only [Kmem.step] at done
    split at done
    · rename_i mine
      cases done
      exact ⟨l, inv.store (Nat.ne_of_gt (inv.held_pos mine.2)) _⟩
    · cases done
  | pass t u f =>
    simp only [Kmem.step] at done
    split at done
    · rename_i mine
      cases done
      refine ⟨l, inv.congr rfl rfl ?_ rfl fun _ _ => rfl⟩
      intro g
      have count := ((List.perm_cons_erase mine.2).map Prod.snd).count_eq g
      rw [Kmem.refs, Kmem.refs, count]
      rfl
    · cases done

omit [Layout] in
theorem countFree {fuel : Nat} {head : Option Nat} {m : List Nat}
    (linked : LinkedQueue.Linked (fun f => (s.mem f).next) head m) (short : m.length ≤ fuel) :
    s.countFree fuel head = some m.length := by
  induction m generalizing fuel head with
  | nil =>
    obtain rfl : head = none := linked
    unfold Kmem.countFree
    rfl
  | cons f m ih =>
    obtain ⟨rfl, linked⟩ := linked
    cases fuel with
    | zero => simp at short
    | succ fuel =>
      unfold Kmem.countFree
      rw [ih linked (by simpa using short)]
      rfl

theorem ok (inv : KmemInv given l s) (managed : ∀ f, given f → Phys.Managed f) : KmemOk given l s := by
  refine ⟨inv.linked, inv.nodup, ?_, ?_, ?_, ?_⟩
  · intro f
    constructor
    · intro mine
      rcases inv.cover f mine with free | used | middle
      · exact Or.inl free
      · exact Or.inr (Or.inl (Nat.pos_of_ne_zero used))
      · exact Or.inr (Or.inr middle)
    · rintro (free | used | middle)
      · exact (inv.free f free).1
      · exact inv.used f (Nat.ne_of_gt used)
      · exact (inv.mid f middle).1
  · intro f
    refine ⟨?_, ?_, ?_⟩
    · rintro ⟨free, used⟩
      have := (inv.free f free).2.1
      omega
    · rintro ⟨free, middle⟩
      exact (inv.free f free).2.2 middle
    · rintro ⟨used, middle⟩
      have := (inv.mid f middle).2
      omega
  · refine countFree inv.linked ?_
    have sub : l.toFinset ⊆ Finset.range NFRAMES := by
      intro f member
      rw [List.mem_toFinset] at member
      exact Finset.mem_range.mpr (managed f (inv.free f member).1).2
    have card := Finset.card_le_card sub
    rwa [List.toFinset_card_of_nodup inv.nodup, Finset.card_range] at card
  · intro t f s' done
    obtain ⟨-, -, -, zero, idle⟩ := inv.kalloc done
    exact ⟨inv.unheld zero, idle⟩

end KmemInv

/-- In every interleaving that stays within the counters, the free list, the referenced
    frames and the frames in the middle of a last kfree partition what freerange was
    given, and kalloc returns a frame of the first set. -/
theorem allocator_partition [Layout] (fs : List Nat) (nodup : fs.Nodup)
    (managed : ∀ f ∈ fs, Phys.Managed f) (s : Kmem Nat Nat)
    (reach : Runs.Reachable (Kmem.Boot fs) Kmem.step Kmem.FewRefs s) : ∃ l, KmemOk (· ∈ fs) l s := by
  have inv : ∃ l, KmemInv (· ∈ fs) l s := by
    refine Runs.Reachable.invariant (P := fun s => ∃ l, KmemInv (· ∈ fs) l s) ?_ ?_ reach
    · intro s booted
      exact KmemInv.boot nodup booted
    · rintro s a s' ⟨l, inv⟩ few done
      exact inv.step few done
  obtain ⟨l, inv⟩ := inv
  exact ⟨l, inv.ok managed⟩

theorem allocator_partition_mid : ∃ _ : Layout, ∃ s : Kmem Nat Nat,
    s.mid 0 = some (.fill 300) ∧ Runs.Reachable (Kmem.Boot [301, 300]) Kmem.step Kmem.FewRefs s ∧
      ∃ l, KmemOk (· ∈ [301, 300]) l s := by
  refine ⟨Layout.small, ?_⟩
  have trace : ∃ s₀, @Kmem.freerange Layout.small [301, 300] ⟨none, fun _ => .run none, fun _ => 0, [],
      fun _ => none⟩ = .ok s₀ ∧ ∃ s, Runs.run (@Kmem.step Layout.small) s₀ [.kalloc 0, .kfree 0 300] = .ok s ∧
        s.mid 0 = some (.fill 300) := ⟨_, rfl, _, rfl, rfl⟩
  obtain ⟨s₀, booted, s, done, middle⟩ := trace
  have reach : Runs.Reachable (@Kmem.Boot Layout.small [301, 300]) (@Kmem.step Layout.small) Kmem.FewRefs s := by
    refine (Runs.Reachable.start ⟨_, booted⟩).run ?_ done
    intro s a member t f eq
    subst eq
    simp at member
  exact ⟨s, middle, reach, @allocator_partition Layout.small [301, 300] (by decide) (by decide) s reach⟩

theorem increfs_reachable (n : Nat) (few : n ≤ 65535) : ∃ s : Kmem Nat Nat,
    Runs.Reachable (@Kmem.Boot Layout.small [300]) (@Kmem.step Layout.small) (fun _ _ => True) s ∧
      s.ref 300 = (n + 1) % 65536 ∧ (0, 300) ∈ s.held ∧ s.freelist = none ∧ ∀ t, s.mid t = none := by
  induction n with
  | zero =>
    have trace : ∃ s₀, @Kmem.freerange Layout.small [300] ⟨none, fun _ => .run none, fun _ => 0, [],
        fun _ => none⟩ = .ok s₀ ∧ ∃ s, Runs.run (@Kmem.step Layout.small) s₀ [.kalloc 0] = .ok s ∧
          s.ref 300 = 1 ∧ s.held = [(0, 300)] ∧ s.freelist = none ∧ s.mid = Function.update (Function.update
            (Function.update (fun _ => none) 0 (some (.fill 300))) 0 (some (.push 300))) 0 none :=
      ⟨_, rfl, _, rfl, rfl, rfl, rfl, rfl⟩
    obtain ⟨s₀, booted, s, done, one, held, empty, mid⟩ := trace
    refine ⟨s, (Runs.Reachable.start ⟨_, booted⟩).run (fun _ _ _ => trivial) done, one, ?_, empty, ?_⟩
    · rw [held]
      exact List.mem_singleton_self _
    · intro t
      rw [mid]
      by_cases eq : t = 0
      · rw [eq, Function.update_self]
      · simp [eq]
  | succ n ih =>
    obtain ⟨s, reach, ref, held, empty, idle⟩ := ih (by omega)
    have pos : s.ref 300 ≠ 0 := by omega
    have inside : ¬ NFRAMES ≤ 300 := by decide
    refine ⟨{ s with ref := Function.update s.ref 300 ((s.ref 300 + 1) % 65536), held := (0, 300) :: s.held },
      reach.next (.incref 0 300) trivial ?_, ?_, List.mem_cons_self, empty, idle⟩
    · simp [Kmem.step, Kmem.incref, idle 0, held, pos, inside]
    · simp only [Function.update_self, ref]
      omega

theorem allocator_partition_wraps : ∃ _ : Layout, ∃ s : Kmem Nat Nat,
    Runs.Reachable (Kmem.Boot [300]) Kmem.step (fun _ _ => True) s ∧ ¬ ∃ l, KmemOk (· ∈ [300]) l s := by
  refine ⟨Layout.small, ?_⟩
  obtain ⟨s, reach, zero, -, empty, idle⟩ := increfs_reachable 65535 (Nat.le_refl _)
  refine ⟨s, reach, ?_⟩
  rintro ⟨l, ok⟩
  rcases (ok.cover 300).mp (by simp) with free | used | ⟨t, middle⟩
  · have linked := ok.linked
    rw [empty] at linked
    cases l with
    | nil => cases free
    | cons f l => cases linked.1
  · have zero' : s.ref 300 = 0 := zero
    omega
  · rw [idle t] at middle
    cases middle

end Xv6
