import Xv6.Sched.Fields
import Xv6.Sched.Growth

/-!
What an aging pass does to the run queues. rq_age takes every process off the queues of
a CPU, level by level, and puts each back at the level it has afterwards, so every level
keeps the order in which rq_pop would have taken its processes.
-/
namespace Xv6

/-- The processes queued on CPU c in the order in which rq_pop takes them. -/
def Lists.flat (q : Lists) (c : Nat) : List Nat := (List.range NPRIO).flatMap (q c)

def Lists.clear (q : Lists) (c : Nat) : Lists := fun c' k => if c' = c then [] else q c' k

theorem Lists.mem_flat {q : Lists} {c i : Nat} : i ∈ q.flat c ↔ ∃ k < NPRIO, i ∈ q c k := by
  simp [Lists.flat, List.mem_flatMap]

theorem Lists.clear_set (q : Lists) (c k : Nat) (l : List Nat) : (q.set c k l).clear c = q.clear c := by
  funext c' k'
  unfold Lists.clear
  split
  · rfl
  · rename_i other
    exact q.set_off l fun both => other both.1

theorem Lists.flat_zero (q : Lists) (c : Nat) : ∃ rest, q.flat c = q c 0 ++ rest := by
  refine ⟨(List.range' 1 ( NPRIO - 1)).flatMap (q c), ?_⟩
  have split : List.range NPRIO = 0 :: List.range' 1 ( NPRIO - 1) := by decide
  rw [Lists.flat, split, List.flatMap_cons]

def Proc.credit (p : Proc) : Nat × Int := (p.prio, p.waited)

theorem credit_blind : Blind Proc.credit := ⟨⟨fun _ _ _ => rfl⟩, fun _ _ => rfl⟩

theorem state_placeless : Placeless Proc.state := ⟨fun _ _ _ => rfl⟩

theorem ageOne_credit {p p' : Proc} (same : p'.credit = p.credit) (elapsed : Nat) :
    (Sched.ageOne elapsed p').credit = (Sched.ageOne elapsed p).credit := by
  have prio : p'.prio = p.prio := congrArg Prod.fst same
  have waited : p'.waited = p.waited := congrArg Prod.snd same
  unfold Sched.ageOne
  simp only [prio, waited]
  split
  · rfl
  · simp only [Proc.credit]

theorem Sched.rqPopFrom_lastAged (s : Sched) (c : Nat) (ks : List Nat) :
    (s.rqPopFrom c ks).2.lastAged = s.lastAged := by
  induction ks with
  | nil => rfl
  | cons k ks ih =>
    rw [Sched.rqPopFrom]
    simp only
    split
    · rfl
    · exact ih

namespace QueueInv
variable {s : Sched} {q : Lists} {out : List Nat}

theorem lists {q' : Lists} (inv : QueueInv s q out)
    (same : ∀ c < s.ncpu, ∀ k < NPRIO, q' c k = q c k) : QueueInv s q' out := by
  constructor
  · intro c hc k hk
    rw [same c hc k hk]
    exact inv.queue c hc k hk
  · intro c hc k hk
    rw [same c hc k hk]
    exact inv.member c hc k hk
  · intro i hi run off
    rw [same _ (inv.range i).1 _ (inv.range i).2.1]
    exact inv.covers i hi run off
  · intro c hc
    rw [inv.count c hc]
    apply Finset.sum_congr rfl
    intro k hk
    rw [same c hc k (Finset.mem_range.mp hk)]
  · exact inv.range

theorem congr_out {out' : List Nat} (inv : QueueInv s q out) (same : ∀ i, i ∈ out' ↔ i ∈ out) :
    QueueInv s q out' := by
  refine ⟨inv.queue, ?_, ?_, inv.count, inv.range⟩
  · intro c hc k hk i hi
    rw [same i]
    exact inv.member c hc k hk i hi
  · intro i hi run off
    rw [same i] at off
    exact inv.covers i hi run off

theorem place (inv : QueueInv s q out) {c c' k k' i : Nat} (hc : c < s.ncpu) (hk : k < NPRIO) (hc' : c' < s.ncpu)
    (hk' : k' < NPRIO) (here : i ∈ q c k) (there : i ∈ q c' k') : c = c' ∧ k = k' := by
  obtain ⟨-, -, prio, cpu, -⟩ := inv.member c hc k hk i here
  obtain ⟨-, -, prio', cpu', -⟩ := inv.member c' hc' k' hk' i there
  exact ⟨cpu.symm.trans cpu', prio.symm.trans prio'⟩

theorem flat_nodup (inv : QueueInv s q out) {c : Nat} (hc : c < s.ncpu) : (q.flat c).Nodup := by
  rw [Lists.flat, List.nodup_flatMap]
  constructor
  · intro k hk
    exact (inv.queue c hc k (List.mem_range.mp hk)).nodup
  · apply List.Pairwise.imp_of_mem _ List.nodup_range
    intro k k' hk hk' ne i here there
    exact ne (inv.place hc (List.mem_range.mp hk) hc (List.mem_range.mp hk') here there).2

theorem flat_slots (inv : QueueInv s q out) {c : Nat} (hc : c < s.ncpu) {i : Nat} (member : i ∈ q.flat c) :
    i < NPROC ∧ (s.proc i).state = .runnable := by
  obtain ⟨k, hk, here⟩ := Lists.mem_flat.mp member
  obtain ⟨lt, run, -⟩ := inv.member c hc k hk i here
  exact ⟨lt, run⟩

theorem flat_length (inv : QueueInv s q out) {c : Nat} (hc : c < s.ncpu) : (q.flat c).length ≤ NPROC := by
  have slots : q.flat c ⊆ List.range NPROC := fun i hi => List.mem_range.mpr (inv.flat_slots hc hi).1
  have fits := (inv.flat_nodup hc).subperm slots
  simpa using fits.length_le

theorem pop_flat (inv : QueueInv s q out) {c : Nat} (hc : c < s.ncpu) :
    (s.rqPop c = (none, s) ∧ q.flat c = []) ∨
    ∃ i s' k rest, s.rqPop c = (some i, s') ∧ k < NPRIO ∧ q c k = i :: rest ∧
      q.flat c = i :: (q.set c k rest).flat c ∧ QueueInv s' (q.set c k rest) (i :: out) ∧ s'.ncpu = s.ncpu := by
  rcases inv.popFrom hc (List.range NPRIO) (fun k hk => List.mem_range.mp hk) with
    ⟨run, none⟩ | ⟨i, s', k, rest, run, ⟨above, below, order, empty⟩, split, inv', lt, state, ncpu, -⟩
  · refine Or.inl ⟨run, ?_⟩
    rw [Lists.flat, List.flatMap_eq_nil_iff]
    exact none
  · have hk : k < NPRIO := List.mem_range.mp (by rw [order]; exact List.mem_append_right above List.mem_cons_self)
    have distinct : (above ++ k :: below).Nodup := order ▸ List.nodup_range
    rw [List.nodup_append, List.nodup_cons] at distinct
    obtain ⟨-, ⟨later, -⟩, apart⟩ := distinct
    have before : above.flatMap (q c) = [] := List.flatMap_eq_nil_iff.mpr empty
    have before' : above.flatMap (q.set c k rest c) = [] := by
      rw [List.flatMap_eq_nil_iff]
      intro j hj
      rw [q.set_off rest fun both => apart j hj k List.mem_cons_self both.2]
      exact empty j hj
    have after : below.flatMap (q.set c k rest c) = below.flatMap (q c) := by
      apply List.flatMap_congr
      intro j hj
      apply q.set_off rest
      rintro ⟨-, rfl⟩
      exact later hj
    refine Or.inr ⟨i, s', k, rest, run, hk, split, ?_, inv', ncpu⟩
    rw [Lists.flat, Lists.flat, order, List.flatMap_append, List.flatMap_append, List.flatMap_cons,
      List.flatMap_cons, before, before', after, q.set_here, split]
    rfl

theorem drain_flat {c n : Nat} (inv : QueueInv s q out) (hc : c < s.ncpu) (fits : (q.flat c).length ≤ n) :
    ∃ s', Sched.rqDrain c n s = (q.flat c, s') ∧ QueueInv s' (q.clear c) ((q.flat c).reverse ++ out) ∧
      s'.ncpu = s.ncpu ∧ s'.lastAged = s.lastAged := by
  have empty : ∀ {s : Sched} {q : Lists} {out : List Nat}, QueueInv s q out → q.flat c = [] →
      QueueInv s (q.clear c) ((q.flat c).reverse ++ out) := by
    intro s q out inv none
    rw [none]
    apply inv.lists
    intro c' _ k hk
    unfold Lists.clear
    split
    · rename_i here
      rw [Lists.flat, List.flatMap_eq_nil_iff] at none
      rw [here, none k (List.mem_range.mpr hk)]
    · rfl
  induction n generalizing s q out with
  | zero =>
    have none := List.length_eq_zero_iff.mp (Nat.le_zero.mp fits)
    exact ⟨s, by rw [none]; rfl, empty inv none, rfl, rfl⟩
  | succ n ih =>
    rw [Sched.rqDrain]
    have aged := s.rqPopFrom_lastAged c (List.range NPRIO)
    rcases inv.pop_flat hc with ⟨run, none⟩ | ⟨i, s1, k, rest, run, hk, split, flat, inv1, ncpu⟩
    · rw [run]
      exact ⟨s, by rw [none], empty inv none, rfl, rfl⟩
    · have aged1 : s1.lastAged = s.lastAged := by
        rw [← aged]
        exact congrArg (fun r => r.2.lastAged) run.symm
      rw [flat, List.length_cons] at fits
      obtain ⟨s', loop, inv', ncpu', lastAged⟩ := ih inv1 (by rw [ncpu]; exact hc) (by omega)
      rw [q.clear_set] at inv'
      refine ⟨s', ?_, ?_, ncpu'.trans ncpu, lastAged.trans aged1⟩
      · rw [run, flat]
        simp only [loop]
      · rw [flat]
        simpa using inv'

end QueueInv

/-- The processes of the list that are at level k once they have aged. -/
def Sched.agedTo (s : Sched) (elapsed k : Nat) (ps : List Nat) : List Nat :=
  ps.filter fun i => (Sched.ageOne elapsed (s.proc i)).prio == k

theorem Sched.agedTo_congr {s s' : Sched} (elapsed k : Nat) {ps : List Nat}
    (same : ∀ i ∈ ps, (s'.proc i).credit = (s.proc i).credit) :
    s'.agedTo elapsed k ps = s.agedTo elapsed k ps := by
  apply List.filter_congr
  intro i hi
  have prio := congrArg Prod.fst (ageOne_credit (same i hi) elapsed)
  exact congrArg (· == k) prio

/-- The pass over the processes in pending, which all go back to CPU c. -/
structure Repushed (elapsed c : Nat) (pending : List Nat) (s : Sched) (q : Lists) (s' : Sched) (q' : Lists) :
    Prop where
  inv : QueueInv s' q' []
  ncpu : s'.ncpu = s.ncpu
  lastAged : s'.lastAged = s.lastAged
  lists : ∀ c' k, q' c' k = if c' = c then q c k ++ s.agedTo elapsed k pending else q c' k
  aged : ∀ j ∈ pending, (s'.proc j).credit = (Sched.ageOne elapsed (s.proc j)).credit
  kept : ∀ j, j ∉ pending → (s'.proc j).credit = (s.proc j).credit

namespace QueueInv
variable {s : Sched} {q : Lists}

theorem repush_one (elapsed : Nat) {c p : Nat} {rest : List Nat} (inv : QueueInv s q (p :: rest)) (hp : p < NPROC)
    (run : (s.proc p).state = .runnable) (off : p ∉ rest) (hc : c < s.ncpu) :
    QueueInv ((s.modify p (Sched.ageOne elapsed)).rqPush c p)
      (q.set c (Sched.ageOne elapsed (s.proc p)).prio (q c (Sched.ageOne elapsed (s.proc p)).prio ++ [p])) rest := by
  obtain ⟨-, state, prio, base, rqcpu⟩ := ageOne_fields elapsed (s.proc p)
  have range := inv.range p
  have aged := inv.modify (f := Sched.ageOne elapsed) List.mem_cons_self
    ⟨by rw [rqcpu]; exact range.1, by omega, by rw [base]; exact range.2.2⟩
  have pushed := aged.push hp off (by simp [state, run]) (by simpa using hc)
  have self : (s.modify p (Sched.ageOne elapsed)).proc p = Sched.ageOne elapsed (s.proc p) := by simp
  rw [self] at pushed
  exact pushed

theorem repush_lists (elapsed : Nat) {c : Nat} (pending : List Nat) (nodup : pending.Nodup)
    (facts : ∀ p ∈ pending, p < NPROC ∧ (s.proc p).state = .runnable) (inv : QueueInv s q pending)
    (hc : c < s.ncpu) :
    ∃ q', Repushed elapsed c pending s q
      (pending.foldl (fun s p => (s.modify p (Sched.ageOne elapsed)).rqPush c p) s) q' := by
  induction pending generalizing s q with
  | nil =>
    refine ⟨q, inv, rfl, rfl, ?_, fun j hj => (List.not_mem_nil hj).elim, fun _ _ => rfl⟩
    intro c' k
    split
    · rename_i here
      simp [here, Sched.agedTo]
    · rfl
  | cons p rest ih =>
    rw [List.nodup_cons] at nodup
    rw [List.foldl_cons]
    obtain ⟨hp, run⟩ := facts p List.mem_cons_self
    have inv1 := inv.repush_one elapsed hp run nodup.1 hc
    obtain ⟨-, ncpu1, -⟩ := QueueInv.push_cpu (s.modify p (Sched.ageOne elapsed)) c p
    have aged1 := Sched.rqPush_lastAged (s.modify p (Sched.ageOne elapsed)) c p
    have credit := credit_blind.rqPush (s.modify p (Sched.ageOne elapsed)) c p
    have state := state_placeless.rqPush (s.modify p (Sched.ageOne elapsed)) c p
    generalize (s.modify p (Sched.ageOne elapsed)).rqPush c p = s1 at *
    have other : ∀ j, j ≠ p → (s1.proc j).credit = (s.proc j).credit := by
      intro j ne
      rw [credit j]
      simp [ne]
    have self : (s1.proc p).credit = (Sched.ageOne elapsed (s.proc p)).credit := by
      rw [credit p]
      simp
    have facts1 : ∀ j ∈ rest, j < NPROC ∧ (s1.proc j).state = .runnable := by
      intro j hj
      obtain ⟨lt, ready⟩ := facts j (List.mem_cons_of_mem p hj)
      have ne : j ≠ p := by
        rintro rfl
        exact nodup.1 hj
      refine ⟨lt, ?_⟩
      rw [state j]
      simpa [ne] using ready
    obtain ⟨q', done⟩ := ih nodup.2 facts1 inv1 (by rw [ncpu1]; exact hc)
    refine ⟨q', done.inv, done.ncpu.trans ncpu1, done.lastAged.trans aged1, ?_, ?_, ?_⟩
    · intro c' k
      have later : s1.agedTo elapsed k rest = s.agedTo elapsed k rest := by
        apply Sched.agedTo_congr
        intro j hj
        apply other
        rintro rfl
        exact nodup.1 hj
      rw [done.lists c' k, later]
      split
      · by_cases level : (Sched.ageOne elapsed (s.proc p)).prio = k
        · subst level
          simp [q.set_here, Sched.agedTo]
        · rw [q.set_off _ fun both => level both.2.symm]
          simp [Sched.agedTo, level]
      · rename_i off
        exact q.set_off _ fun both => off both.1
    · intro j member
      rcases List.mem_cons.mp member with rfl | later
      · rw [done.kept j nodup.1, self]
      · have ne : j ≠ p := by
          rintro rfl
          exact nodup.1 later
        rw [done.aged j later]
        exact ageOne_credit (other j ne) elapsed
    · intro j off
      rw [List.mem_cons, not_or] at off
      rw [done.kept j off.2, other j off.1]

end QueueInv

structure Aged (elapsed : Nat) (done : List Nat) (s : Sched) (q : Lists) (s' : Sched) (q' : Lists) : Prop where
  inv : QueueInv s' q' []
  ncpu : s'.ncpu = s.ncpu
  lastAged : s'.lastAged = s.lastAged
  lists : ∀ c < s.ncpu, ∀ k < NPRIO, q' c k = if c ∈ done then s.agedTo elapsed k (q.flat c) else q c k
  aged : ∀ c ∈ done, ∀ j ∈ q.flat c, (s'.proc j).credit = (Sched.ageOne elapsed (s.proc j)).credit
  kept : ∀ j, (∀ c ∈ done, j ∉ q.flat c) → (s'.proc j).credit = (s.proc j).credit

namespace QueueInv
variable {s : Sched} {q : Lists}

theorem ageCpu_lists (elapsed : Nat) {c : Nat} (inv : QueueInv s q []) (hc : c < s.ncpu) :
    ∃ q', Aged elapsed [c] s q (Sched.rqAgeCpu elapsed s c) q' := by
  obtain ⟨s1, loop, drained, ncpu, lastAged⟩ := inv.drain_flat hc (inv.flat_length hc)
  have credit := credit_blind.rqDrain c NPROC s
  have state := state_placeless.rqDrain c NPROC s
  rw [loop] at credit state
  have facts : ∀ p ∈ q.flat c, p < NPROC ∧ (s1.proc p).state = .runnable := by
    intro p hp
    obtain ⟨lt, run⟩ := inv.flat_slots hc hp
    exact ⟨lt, (state p).trans run⟩
  have held : QueueInv s1 (q.clear c) (q.flat c) := drained.congr_out fun i => by simp
  obtain ⟨q', done⟩ := held.repush_lists elapsed (q.flat c) (inv.flat_nodup hc) facts (by rw [ncpu]; exact hc)
  unfold Sched.rqAgeCpu
  rw [loop]
  refine ⟨q', done.inv, done.ncpu.trans ncpu, done.lastAged.trans lastAged, ?_, ?_, ?_⟩
  · intro c' _ k _
    rw [done.lists c' k, Sched.agedTo_congr elapsed k fun i _ => credit i]
    by_cases here : c' = c
    · subst here
      simp [Lists.clear]
    · simp [Lists.clear, here]
  · intro c' member j hj
    obtain rfl := List.mem_singleton.mp member
    rw [done.aged j hj]
    exact ageOne_credit (credit j) elapsed
  · intro j off
    rw [done.kept j (off c (List.mem_singleton.mpr rfl))]
    exact credit j

theorem Aged.more {elapsed c : Nat} {done : List Nat} {s1 s2 : Sched} {q1 q2 : Lists} (inv : QueueInv s q [])
    (cpus : ∀ d ∈ done, d < s.ncpu) (hc : c < s.ncpu) (new : c ∉ done) (first : Aged elapsed [c] s q s1 q1)
    (second : Aged elapsed done s1 q1 s2 q2) : Aged elapsed (c :: done) s q s2 q2 := by
  have apart : ∀ d ∈ done, ∀ j ∈ q.flat d, j ∉ q.flat c := by
    intro d hd j there here
    obtain ⟨k, hk, here⟩ := Lists.mem_flat.mp here
    obtain ⟨k', hk', there⟩ := Lists.mem_flat.mp there
    have same := (inv.place hc hk (cpus d hd) hk' here there).1
    subst same
    exact new hd
  have credit : ∀ d ∈ done, ∀ j ∈ q.flat d, (s1.proc j).credit = (s.proc j).credit := by
    intro d hd j hj
    apply first.kept
    intro c' member
    obtain rfl := List.mem_singleton.mp member
    exact apart d hd j hj
  have flat : ∀ d < s.ncpu, d ≠ c → q1.flat d = q.flat d := by
    intro d hd ne
    unfold Lists.flat
    apply List.flatMap_congr
    intro k hk
    rw [first.lists d hd k (List.mem_range.mp hk), if_neg (by simpa using ne)]
  have ne : ∀ d ∈ done, d ≠ c := by
    rintro d hd rfl
    exact new hd
  refine ⟨second.inv, second.ncpu.trans first.ncpu, second.lastAged.trans first.lastAged, ?_, ?_, ?_⟩
  · intro d hd k hk
    rw [second.lists d (by rw [first.ncpu]; exact hd) k hk]
    by_cases member : d ∈ done
    · rw [if_pos member, if_pos (List.mem_cons_of_mem c member), flat d hd (ne d member)]
      exact Sched.agedTo_congr elapsed k (credit d member)
    · rw [if_neg member, first.lists d hd k hk]
      simp [member]
  · intro d member j hj
    rcases List.mem_cons.mp member with rfl | member
    · rw [second.kept j, first.aged d (List.mem_singleton.mpr rfl) j hj]
      intro d' hd' there
      rw [flat d' (cpus d' hd') (ne d' hd')] at there
      exact apart d' hd' j there hj
    · rw [second.aged d member j (by rw [flat d (cpus d member) (ne d member)]; exact hj)]
      exact ageOne_credit (credit d member j hj) elapsed
  · intro j off
    rw [second.kept j, first.kept j]
    · intro d member
      obtain rfl := List.mem_singleton.mp member
      exact off d List.mem_cons_self
    · intro d member
      rw [flat d (cpus d member) (ne d member)]
      exact off d (List.mem_cons_of_mem c member)

theorem ageCpus_lists (elapsed : Nat) (cs : List Nat) (inv : QueueInv s q []) (cpus : ∀ c ∈ cs, c < s.ncpu)
    (nodup : cs.Nodup) : ∃ q', Aged elapsed cs s q (cs.foldl (Sched.rqAgeCpu elapsed) s) q' := by
  induction cs generalizing s q with
  | nil => exact ⟨q, inv, rfl, rfl, fun _ _ _ _ => rfl, fun c hc => (List.not_mem_nil hc).elim, fun _ _ => rfl⟩
  | cons c cs ih =>
    rw [List.nodup_cons] at nodup
    have hc := cpus c List.mem_cons_self
    obtain ⟨q1, first⟩ := inv.ageCpu_lists elapsed hc
    have cpus' := fun d hd => cpus d (List.mem_cons_of_mem c hd)
    obtain ⟨q2, second⟩ := ih first.inv (fun d hd => by rw [first.ncpu]; exact cpus' d hd) nodup.2
    exact ⟨q2, Aged.more inv cpus' hc nodup.1 first second⟩

theorem rqAge_lists (elapsed : Nat) (inv : QueueInv s q []) :
    ∃ q', QueueInv (s.rqAge elapsed) q' [] ∧ (s.rqAge elapsed).ncpu = s.ncpu ∧
      (s.rqAge elapsed).lastAged = s.lastAged ∧
      (∀ c < s.ncpu, ∀ k < NPRIO, q' c k = s.agedTo elapsed k (q.flat c)) ∧
      (∀ j < NPROC, (s.proc j).state = .runnable →
        ((s.rqAge elapsed).proc j).credit = (Sched.ageOne elapsed (s.proc j)).credit) ∧
      ∀ j, (s.proc j).state ≠ .runnable → ((s.rqAge elapsed).proc j).credit = (s.proc j).credit := by
  obtain ⟨q', done⟩ := inv.ageCpus_lists elapsed (List.range s.ncpu) (fun c hc => List.mem_range.mp hc)
    List.nodup_range
  refine ⟨q', done.inv, done.ncpu, done.lastAged, ?_, ?_, ?_⟩
  · intro c hc k hk
    rw [done.lists c hc k hk, if_pos (List.mem_range.mpr hc)]
  · intro j hj run
    obtain ⟨on, level, -⟩ := inv.range j
    exact done.aged _ (List.mem_range.mpr on) j
      (Lists.mem_flat.mpr ⟨_, level, inv.covers j hj run List.not_mem_nil⟩)
  · intro j idle
    apply done.kept
    intro c hc member
    exact idle (inv.flat_slots (List.mem_range.mp hc) member).2

theorem agedTo_zero (elapsed : Nat) (inv : QueueInv s q []) {c : Nat} (hc : c < s.ncpu) :
    q c 0 <+: s.agedTo elapsed 0 (q.flat c) := by
  obtain ⟨rest, split⟩ := q.flat_zero c
  have top : s.agedTo elapsed 0 (q c 0) = q c 0 := by
    apply List.filter_eq_self.mpr
    intro i hi
    obtain ⟨-, -, prio, -⟩ := inv.member c hc 0 (by decide) i hi
    have fields := (ageOne_fields elapsed (s.proc i)).2.2.1
    simp only [beq_iff_eq]
    omega
  rw [split, Sched.agedTo, List.filter_append]
  exact ⟨_, congrArg (· ++ _) top.symm⟩

theorem agedTo_sum (s : Sched) (elapsed : Nat) (ps : List Nat)
    (low : ∀ i ∈ ps, (Sched.ageOne elapsed (s.proc i)).prio < NPRIO) :
    ∑ k ∈ Finset.range NPRIO, ((s.agedTo elapsed k ps).length : Int) = ps.length := by
  induction ps with
  | nil => simp [Sched.agedTo]
  | cons p ps ih =>
    have rest := ih fun i hi => low i (List.mem_cons_of_mem p hi)
    have here := Finset.mem_range.mpr (low p List.mem_cons_self)
    have one : ∀ k, ((s.agedTo elapsed k (p :: ps)).length : Int) =
        (s.agedTo elapsed k ps).length + if (Sched.ageOne elapsed (s.proc p)).prio = k then 1 else 0 := by
      intro k
      by_cases level : (Sched.ageOne elapsed (s.proc p)).prio = k <;> simp [Sched.agedTo, level]
    simp only [one, Finset.sum_add_distrib, rest, Finset.sum_ite_eq, if_pos here, List.length_cons]
    omega

theorem flat_sum (inv : QueueInv s q []) {c : Nat} (hc : c < s.ncpu) : (s.runq c).nready = (q.flat c).length := by
  rw [inv.count c hc, Lists.flat, List.length_flatMap]
  generalize NPRIO = levels
  induction levels with
  | zero => rfl
  | succ n ih =>
    rw [Finset.sum_range_succ, ih, List.range_succ, List.map_append, List.sum_append]
    simp

end QueueInv

theorem Sched.rqPopFrom_rqcpu (s : Sched) (c : Nat) (ks : List Nat) (j : Nat) :
    ((s.rqPopFrom c ks).2.proc j).rqcpu = (s.proc j).rqcpu := by
  induction ks with
  | nil => rfl
  | cons k ks ih =>
    rw [Sched.rqPopFrom]
    simp only
    split
    · rename_i p _
      by_cases here : j = p <;> simp [here]
    · exact ih

theorem Sched.rqDrain_rqcpu (c n : Nat) (s : Sched) (j : Nat) :
    ((Sched.rqDrain c n s).2.proc j).rqcpu = (s.proc j).rqcpu := by
  induction n generalizing s with
  | zero => rfl
  | succ n ih =>
    have popped : ((s.rqPop c).2.proc j).rqcpu = (s.proc j).rqcpu := s.rqPopFrom_rqcpu c (List.range NPRIO) j
    rw [Sched.rqDrain]
    split
    · rename_i empty
      rw [empty] at popped
      exact popped
    · rename_i p s1 one
      rw [one] at popped
      exact (ih s1).trans popped

theorem Sched.rqPush_rqcpu (s : Sched) (c p j : Nat) :
    ((s.rqPush c p).proc j).rqcpu = if j = p then c else (s.proc j).rqcpu := by
  have bound : ((s.modify p fun q => { q with rqnext := none, rqcpu := c }).proc j).rqcpu =
      if j = p then c else (s.proc j).rqcpu := by
    by_cases here : j = p <;> simp [here]
  unfold Sched.rqPush
  simp only
  generalize s.modify p (fun q => { q with rqnext := none, rqcpu := c }) = s1 at bound ⊢
  split
  · rename_i t _
    rw [← bound]
    by_cases last : j = t <;> simp [last]
  · exact bound

theorem Sched.repush_rqcpu (elapsed c : Nat) (pending : List Nat) (s : Sched)
    (here : ∀ p ∈ pending, (s.proc p).rqcpu = c) (j : Nat) :
    ((pending.foldl (fun s p => (s.modify p (Sched.ageOne elapsed)).rqPush c p) s).proc j).rqcpu =
      (s.proc j).rqcpu := by
  induction pending generalizing s with
  | nil => rfl
  | cons p rest ih =>
    have one : ∀ i, (((s.modify p (Sched.ageOne elapsed)).rqPush c p).proc i).rqcpu = (s.proc i).rqcpu := by
      intro i
      rw [Sched.rqPush_rqcpu]
      split
      · rename_i same
        rw [same, here p List.mem_cons_self]
      · rename_i other
        simp [other]
    rw [List.foldl_cons, ih, one]
    intro i hi
    rw [one, here i (List.mem_cons_of_mem p hi)]

def Proc.boosted (elapsed : Nat) (p : Proc) : Bool := decide (0 < p.prio ∧ (AGING_TICKS : Int) ≤ p.waited + elapsed)

theorem ageOne_boosted {elapsed : Nat} {p : Proc} (low : -2147483648 ≤ p.waited)
    (high : p.waited + elapsed < 2147483648) : (Sched.ageOne elapsed p).credit =
      if p.boosted elapsed then (p.prio - 1, 0) else (p.prio, p.waited + elapsed) := by
  have exact_ : Int.bmod (p.waited + elapsed) 4294967296 = p.waited + elapsed := by
    apply Int.bmod_eq_of_le <;> omega
  simp only [Sched.ageOne, exact_, Proc.boosted, decide_eq_true_eq]
  by_cases due : 0 < p.prio ∧ (AGING_TICKS : Int) ≤ p.waited + elapsed
  · rw [if_pos ⟨due.2, due.1⟩, if_pos due]
    rfl
  · rw [if_neg fun both => due ⟨both.2, both.1⟩, if_neg due]
    rfl

namespace QueueInv
variable {s : Sched} {q : Lists}

theorem rqAge_rqcpu (elapsed : Nat) (inv : QueueInv s q []) (j : Nat) :
    ((s.rqAge elapsed).proc j).rqcpu = (s.proc j).rqcpu := by
  have cpus : ∀ c ∈ List.range s.ncpu, c < s.ncpu := fun c hc => List.mem_range.mp hc
  unfold Sched.rqAge
  generalize List.range s.ncpu = cs at cpus ⊢
  induction cs generalizing s q with
  | nil => rfl
  | cons c cs ih =>
    have hc := cpus c List.mem_cons_self
    obtain ⟨q1, first⟩ := inv.ageCpu_lists elapsed hc
    have rest := ih first.inv fun d hd => by rw [first.ncpu]; exact cpus d (List.mem_cons_of_mem c hd)
    obtain ⟨s1, loop, -⟩ := inv.drain_flat hc (inv.flat_length hc)
    have drained := Sched.rqDrain_rqcpu c NPROC s
    rw [loop] at drained
    rw [List.foldl_cons, rest, Sched.rqAgeCpu, loop, Sched.repush_rqcpu _ _ _ _ _ j]
    · exact drained j
    · intro p hp
      obtain ⟨k, hk, here⟩ := Lists.mem_flat.mp hp
      rw [drained p]
      exact (inv.member c hc k hk p here).2.2.2.1

theorem flatMap_pair {α : Type} {n k : Nat} (hk : k < n) (f g : Nat → List α) :
    ((List.range n).flatMap fun j => if j = k then f j else if j = k + 1 then g j else []) =
      f k ++ if k + 1 < n then g (k + 1) else [] := by
  induction n with
  | zero => omega
  | succ n ih =>
    rw [List.range_succ, List.flatMap_append, List.flatMap_singleton]
    by_cases inside : k < n
    · rw [ih inside, if_neg (by omega : n ≠ k)]
      by_cases last : n = k + 1
      · subst last
        simp
      · have both : k + 1 < n + 1 ↔ k + 1 < n := by omega
        simp [last, both]
    · have last : k = n := by omega
      subst last
      have before : ((List.range k).flatMap fun j => if j = k then f j else if j = k + 1 then g j else []) = [] := by
        rw [List.flatMap_eq_nil_iff]
        intro j hj
        have := List.mem_range.mp hj
        rw [if_neg (by omega), if_neg (by omega)]
      rw [before, if_pos rfl, if_neg (by omega)]
      simp

/-- What goes back to level k: the processes of the level that are not boosted, then those boosted to it. -/
theorem agedTo_levels (elapsed : Nat) (inv : QueueInv s q [])
    (low : ∀ j < NPROC, (s.proc j).state = .runnable → -2147483648 ≤ (s.proc j).waited)
    (high : ∀ j < NPROC, (s.proc j).state = .runnable → (s.proc j).waited + elapsed < 2147483648)
    {c k : Nat} (hc : c < s.ncpu) (hk : k < NPRIO) :
    s.agedTo elapsed k (q.flat c) = ((q c k).filter fun i => !(s.proc i).boosted elapsed) ++
      if k + 1 < NPRIO then (q c (k + 1)).filter fun i => (s.proc i).boosted elapsed else [] := by
  have level : ∀ j < NPRIO, s.agedTo elapsed k (q c j) =
      if j = k then (q c j).filter fun i => !(s.proc i).boosted elapsed
      else if j = k + 1 then (q c j).filter fun i => (s.proc i).boosted elapsed else [] := by
    intro j hj
    have aged : ∀ i ∈ q c j, (Sched.ageOne elapsed (s.proc i)).prio =
        if (s.proc i).boosted elapsed then j - 1 else j := by
      intro i hi
      obtain ⟨lt, run, prio, -⟩ := inv.member c hc j hj i hi
      have credit := congrArg Prod.fst (ageOne_boosted (low i lt run) (high i lt run))
      rw [apply_ite Prod.fst, prio] at credit
      exact credit
    have top : ∀ i ∈ q c j, (s.proc i).boosted elapsed = true → 0 < j := by
      intro i hi due
      obtain ⟨-, -, prio, -⟩ := inv.member c hc j hj i hi
      rw [Proc.boosted, decide_eq_true_eq, prio] at due
      exact due.1
    by_cases here : j = k
    · rw [if_pos here]
      apply List.filter_congr
      intro i hi
      rw [aged i hi, ← here]
      cases due : (s.proc i).boosted elapsed with
      | false => simp
      | true =>
        have := top i hi due
        simp only [if_true, Bool.not_true, beq_eq_false_iff_ne]
        omega
    · rw [if_neg here]
      by_cases above : j = k + 1
      · rw [if_pos above]
        apply List.filter_congr
        intro i hi
        rw [aged i hi, above]
        cases (s.proc i).boosted elapsed <;> simp
      · rw [if_neg above, Sched.agedTo, List.filter_eq_nil_iff]
        intro i hi
        rw [aged i hi, beq_iff_eq]
        cases due : (s.proc i).boosted elapsed with
        | false => simpa using here
        | true =>
          have := top i hi due
          simp only [if_true]
          omega
  have split : s.agedTo elapsed k (q.flat c) = (List.range NPRIO).flatMap fun j => s.agedTo elapsed k (q c j) :=
    List.filter_flatMap
  rw [split, List.flatMap_congr fun j hj => level j (List.mem_range.mp hj)]
  exact flatMap_pair hk _ _

/-- One aging pass: every level keeps the processes that are not boosted, in order, and takes those
boosted from the level below it, in order; nothing else about the queues changes. -/
theorem aging_pass (elapsed : Nat) (inv : QueueInv s q [])
    (low : ∀ j < NPROC, (s.proc j).state = .runnable → -2147483648 ≤ (s.proc j).waited)
    (high : ∀ j < NPROC, (s.proc j).state = .runnable → (s.proc j).waited + elapsed < 2147483648) :
    ∃ q', QueueInv (s.rqAge elapsed) q' [] ∧ (s.rqAge elapsed).ncpu = s.ncpu ∧
      (∀ c < s.ncpu, ∀ k < NPRIO, q' c k = ((q c k).filter fun i => !(s.proc i).boosted elapsed) ++
        if k + 1 < NPRIO then (q c (k + 1)).filter fun i => (s.proc i).boosted elapsed else []) ∧
      (∀ j < NPROC, (s.proc j).state = .runnable → (s.proc j).boosted elapsed = true →
        ((s.rqAge elapsed).proc j).prio + 1 = (s.proc j).prio ∧ ((s.rqAge elapsed).proc j).waited = 0) ∧
      (∀ j < NPROC, (s.proc j).state = .runnable → (s.proc j).boosted elapsed = false →
        ((s.rqAge elapsed).proc j).prio = (s.proc j).prio ∧
        ((s.rqAge elapsed).proc j).waited = (s.proc j).waited + elapsed) ∧
      (∀ j, (s.proc j).state ≠ .runnable → ((s.rqAge elapsed).proc j).prio = (s.proc j).prio ∧
        ((s.rqAge elapsed).proc j).waited = (s.proc j).waited) ∧
      (∀ j, ((s.rqAge elapsed).proc j).basePrio = (s.proc j).basePrio ∧
        ((s.rqAge elapsed).proc j).state = (s.proc j).state ∧
        ((s.rqAge elapsed).proc j).rqcpu = (s.proc j).rqcpu) ∧
      ∀ c < s.ncpu, ((s.rqAge elapsed).runq c).nready = (s.runq c).nready := by
  obtain ⟨q', inv', ncpu, -, lists, aged, kept⟩ := inv.rqAge_lists elapsed
  have base : Placeless Proc.basePrio := ⟨fun _ _ _ => rfl⟩
  have same := base.rqAge (fun _ _ _ => rfl) s elapsed
  have state := state_placeless.rqAge (fun _ _ _ => rfl) s elapsed
  refine ⟨q', inv', ncpu, ?_, ?_, ?_, ?_, fun j => ⟨same j, state j, inv.rqAge_rqcpu elapsed j⟩, ?_⟩
  · intro c hc k hk
    rw [lists c hc k hk, inv.agedTo_levels elapsed low high hc hk]
  · intro j hj run due
    have credit := aged j hj run
    rw [ageOne_boosted (low j hj run) (high j hj run), if_pos due] at credit
    have above : 0 < (s.proc j).prio := (of_decide_eq_true due).1
    have prio : ((s.rqAge elapsed).proc j).prio = (s.proc j).prio - 1 := congrArg Prod.fst credit
    exact ⟨by omega, congrArg Prod.snd credit⟩
  · intro j hj run due
    have credit := aged j hj run
    rw [ageOne_boosted (low j hj run) (high j hj run), if_neg (by rw [due]; decide)] at credit
    exact ⟨congrArg Prod.fst credit, congrArg Prod.snd credit⟩
  · intro j idle
    have credit := kept j idle
    exact ⟨congrArg Prod.fst credit, congrArg Prod.snd credit⟩
  · intro c hc
    rw [inv'.count c (by rw [ncpu]; exact hc), inv.flat_sum hc, ← agedTo_sum s elapsed (q.flat c)]
    · apply Finset.sum_congr rfl
      intro k hk
      rw [lists c hc k (Finset.mem_range.mp hk)]
    · intro i hi
      obtain ⟨k, hk, here⟩ := Lists.mem_flat.mp hi
      have prio := (inv.member c hc k hk i here).2.2.1
      have fields := (ageOne_fields elapsed (s.proc i)).2.2.1
      omega

end QueueInv

/-- One CPU, and two processes of level 1 that have waited 8 and 2 ticks. -/
def Sched.pairOff : Sched where
  ncpu := 1
  proc i := if i = 0 then { Proc.zero with state := .runnable, prio := 1, waited := 8 }
    else if i = 1 then { Proc.zero with state := .runnable, prio := 1, waited := 2 } else Proc.zero
  runq _ := ⟨fun _ => none, fun _ => none, 0⟩
  cpu _ := none
  lastAged := 0
  nextpid := 3
  initproc := some 0

def Sched.pair : Sched := (Sched.pairOff.rqPush 0 0).rqPush 0 1

theorem Sched.pair_queues : QueueInv Sched.pair
    (Lists.set (Lists.set (fun _ _ => []) 0 1 [0]) 0 1 [0, 1]) [] := by
  have off : QueueInv Sched.pairOff (fun _ _ => []) [0, 1] := by
    refine ⟨fun _ _ _ _ => LinkedQueue.IsQueue.empty _, fun _ _ _ _ _ hi => (List.not_mem_nil hi).elim, ?_,
      fun _ _ => by simp [Sched.pairOff], ?_⟩
    · intro i _ run off
      simp only [List.mem_cons, List.not_mem_nil, or_false, not_or] at off
      simp [Sched.pairOff, off.1, off.2, Proc.zero] at run
    · intro i
      simp only [Sched.pairOff]
      split
      · decide
      · split <;> decide
  have first := off.push (i := 0) (c := 0) (by decide) (by decide) rfl (by decide)
  exact first.push (i := 1) (c := 0) (by decide) (by decide) rfl (by decide)

theorem QueueInv.aging_pass_pair : ∃ q', QueueInv (Sched.pair.rqAge 5) q' [] ∧ q' 0 0 = [0] ∧ q' 0 1 = [1] ∧
    ((Sched.pair.rqAge 5).proc 0).waited = 0 ∧ ((Sched.pair.rqAge 5).proc 1).waited = 7 := by
  have waited : ∀ j, 0 ≤ (Sched.pair.proc j).waited ∧ (Sched.pair.proc j).waited ≤ 8 := by
    intro j
    have view : Placeless Proc.waited := ⟨fun _ _ _ => rfl⟩
    have same : (Sched.pair.proc j).waited = (Sched.pairOff.proc j).waited :=
      ((view.rqPush Sched.pairOff 0 0).trans (view.rqPush _ 0 1)) j
    rw [same]
    simp only [Sched.pairOff]
    split
    · decide
    · split <;> decide
  obtain ⟨q', inv, -, lists, up, stay, -⟩ := Sched.pair_queues.aging_pass 5
    (fun j _ _ => by have := (waited j).1; omega) (fun j _ _ => by have := (waited j).2; omega)
  refine ⟨q', inv, ?_, ?_, (up 0 (by decide) rfl rfl).2, (stay 1 (by decide) rfl rfl).2⟩
  · exact lists 0 (by decide) 0 (by decide)
  · exact lists 0 (by decide) 1 (by decide)

end Xv6
