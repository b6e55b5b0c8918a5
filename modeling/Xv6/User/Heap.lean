import Xv6.Lib.Cyclic
import Xv6.Lib.Spans
import Xv6.User.Malloc

/-!
What the allocator keeps. The free list is a circle from base through the free blocks in the
order of their addresses, with a gap between any two of them; the live blocks lie apart from
it and from each other.
-/
namespace Xv6.Umalloc

open Cyclic Spans

variable {h : Heap} {base top : Nat} {l : List Span}

/-- The headers link the blocks of the list up to base and carry their sizes. -/
structure Shows (h : Heap) (base : Nat) (l : List Span) : Prop where
  links : Leads h.ptr (l.map Span.lo) base
  sizes : ∀ b ∈ l, b.hi = b.lo + 8 * h.size b.lo

theorem attach_ptr (h : Heap) {p a : Nat} (q : Nat) (other : a ≠ p) : (attach h p q).ptr a = h.ptr a := by
  rw [attach]
  split <;> exact Function.update_of_ne other ..

theorem attach_size (h : Heap) {p a : Nat} (q : Nat) (other : a ≠ p) : (attach h p q).size a = h.size a := by
  rw [attach]
  split
  · exact Function.update_of_ne other ..
  · rfl

theorem Shows.congr {h' : Heap} (shows : Shows h base l) (ptrs : ∀ b ∈ l, h'.ptr b.lo = h.ptr b.lo)
    (sizes : ∀ b ∈ l, h'.size b.lo = h.size b.lo) : Shows h' base l := by
  refine ⟨shows.links.congr ?_, ?_⟩
  · intro a mem
    obtain ⟨b, member, rfl⟩ := List.mem_map.mp mem
    exact ptrs b member
  · intro b mem
    rw [sizes b mem]
    exact shows.sizes b mem

theorem shows_append {front rest : List Span} : Shows h base (front ++ rest) ↔
    (Leads h.ptr (front.map Span.lo) ((rest.map Span.lo).headD base) ∧ ∀ b ∈ front, b.hi = b.lo + 8 * h.size b.lo) ∧
      Shows h base rest := by
  constructor
  · intro shows
    have links := shows.links
    rw [List.map_append, leads_append] at links
    refine ⟨⟨links.1, ?_⟩, links.2, ?_⟩
    · intro b mem
      exact shows.sizes b (List.mem_append_left rest mem)
    · intro b mem
      exact shows.sizes b (List.mem_append_right front mem)
  · intro parts
    refine ⟨?_, ?_⟩
    · rw [List.map_append, leads_append]
      exact ⟨parts.1.1, parts.2.links⟩
    · intro b mem
      rcases List.mem_append.mp mem with mem | mem
      · exact parts.1.2 b mem
      · exact parts.2.sizes b mem

theorem Shows.attach {x : Span} (shows : Shows h base l) (size : x.hi = x.lo + 8 * h.size x.lo)
    (new : ∀ b ∈ l, b.lo ≠ x.lo) (ends : l = [] → x.hi ≠ base) (low : x.hi < WORD) (lows : ∀ b ∈ l, b.hi < WORD) :
    Shows (attach h x.lo ((l.map Span.lo).headD base)) base (join x l) := by
  have stop : plus x.lo (h.size x.lo) = x.hi := by rw [plus, ← size, Nat.mod_eq_of_lt low]
  cases l with
  | nil =>
    rw [List.map_nil, List.headD_nil, Umalloc.attach, stop, if_neg (ends rfl)]
    refine ⟨⟨Function.update_self .., trivial⟩, ?_⟩
    intro b mem
    rw [List.mem_singleton.mp mem]
    exact size
  | cons y l =>
    have links := shows.links
    rw [List.map_cons, Leads] at links
    rw [List.map_cons, List.headD_cons]
    have next : ∀ a ∈ l.map Span.lo, a ≠ x.lo := by
      intro a mem
      obtain ⟨b, member, rfl⟩ := List.mem_map.mp mem
      exact new b (List.mem_cons_of_mem y member)
    by_cases touch : x.hi = y.lo
    · rw [Umalloc.attach, stop, if_pos touch, join, if_pos touch]
      have behind := shows.sizes y List.mem_cons_self
      have end_ := lows y List.mem_cons_self
      refine ⟨⟨(Function.update_self ..).trans links.1, ?_⟩, ?_⟩
      · exact links.2.congr fun a mem => Function.update_of_ne (next a mem) ..
      · intro b mem
        rcases List.mem_cons.mp mem with rfl | mem
        · have sum : (h.size x.lo + h.size y.lo) % WORD = h.size x.lo + h.size y.lo :=
            Nat.mod_eq_of_lt (by omega)
          show y.hi = x.lo + 8 * Function.update h.size x.lo ((h.size x.lo + h.size y.lo) % WORD) x.lo
          rw [Function.update_self, sum]
          omega
        · show b.hi = b.lo + 8 * Function.update h.size x.lo _ b.lo
          rw [Function.update_of_ne (new b (List.mem_cons_of_mem y mem))]
          exact shows.sizes b (List.mem_cons_of_mem y mem)
    · rw [Umalloc.attach, stop, if_neg touch, join, if_neg touch]
      refine ⟨⟨Function.update_self .., ?_⟩, ?_⟩
      · exact shows.links.congr fun a mem => Function.update_of_ne (by
          rcases List.mem_cons.mp mem with rfl | mem
          · exact new y List.mem_cons_self
          · exact next a mem) ..
      · intro b mem
        rcases List.mem_cons.mp mem with rfl | mem
        · exact size
        · exact shows.sizes b mem

/-- The condition on which the loop of free stops. -/
def Fits (h : Heap) (bp p : Nat) : Prop :=
  (bp > p ∧ bp < h.ptr p) ∨ (p ≥ h.ptr p ∧ (bp > p ∨ bp < h.ptr p))

theorem freeLoop_fits {bp p : Nat} (fits : Fits h bp p) (rounds : Nat) : freeLoop h bp (rounds + 1) p = some p := by
  rw [freeLoop]
  rcases fits with between | wrap
  · rw [if_pos between]
  · by_cases between : bp > p ∧ bp < h.ptr p
    · rw [if_pos between]
    · rw [if_neg between, if_pos wrap]

theorem freeLoop_past {bp p : Nat} (past : ¬ Fits h bp p) (rounds : Nat) :
    freeLoop h bp (rounds + 1) p = freeLoop h bp rounds (h.ptr p) := by
  rw [Fits, not_or] at past
  rw [freeLoop, if_neg past.1, if_neg past.2]

theorem freeLoop_leads {bp p : Nat} {l : List Nat} (leads : Leads h.ptr l p) (past : ∀ x ∈ l, ¬ Fits h bp x)
    (fits : Fits h bp p) {rounds : Nat} (enough : l.length < rounds) : freeLoop h bp rounds (l.headD p) = some p := by
  induction l generalizing rounds with
  | nil =>
    obtain ⟨k, rfl⟩ := Nat.exists_eq_succ_of_ne_zero (Nat.ne_of_gt enough)
    exact freeLoop_fits fits k
  | cons x l ih =>
    obtain ⟨k, rfl⟩ := Nat.exists_eq_succ_of_ne_zero (Nat.ne_of_gt (Nat.zero_lt_of_lt enough))
    have later : l.length < k := Nat.lt_of_succ_lt_succ enough
    rw [List.headD_cons, freeLoop_past (past x List.mem_cons_self), leads.1]
    exact ih leads.2 (fun y mem => past y (List.mem_cons_of_mem x mem)) later

def origin (base : Nat) : Span := ⟨base, base⟩

/-- A block lies behind base in memory that sbrk has given, on a multiple of 8. -/
structure Placed (base top : Nat) (b : Span) : Prop where
  aligned : b.lo % 8 = 0
  above : base + 8 ≤ b.lo
  proper : b.lo < b.hi
  inside : b.hi ≤ top

structure Inv (h : Heap) (base top : Nat) (bs live : List Span) : Prop where
  shows : Shows h base (origin base :: bs)
  rover : h.freep ∈ (origin base :: bs).map Span.lo
  spaced : (origin base :: bs).Pairwise Before
  sizes : ∀ b ∈ live, b.hi = b.lo + 8 * h.size b.lo
  frees : ∀ b ∈ bs, Placed base top b
  lives : ∀ b ∈ live, Placed base top b
  apart : live.Pairwise Spans.Apart
  clear : ∀ b ∈ live, ∀ c ∈ bs, Spans.Apart b c
  low : 0 < base
  room : base + 8 ≤ top
  high : top < WORD

namespace Inv
variable {bs live : List Span}

theorem perm {live' : List Span} (inv : Inv h base top bs live) (same : live.Perm live') : Inv h base top bs live' where
  shows := inv.shows
  rover := inv.rover
  spaced := inv.spaced
  sizes b mem := inv.sizes b (same.mem_iff.mpr mem)
  frees := inv.frees
  lives b mem := inv.lives b (same.mem_iff.mpr mem)
  apart := (same.pairwise_iff fun apart => apart.symm).mp inv.apart
  clear b mem := inv.clear b (same.mem_iff.mpr mem)
  low := inv.low
  room := inv.room
  high := inv.high

theorem node_proper (inv : Inv h base top bs live) : ∀ b ∈ origin base :: bs, b.lo ≤ b.hi := by
  intro b mem
  rcases List.mem_cons.mp mem with rfl | mem
  · exact Nat.le_refl base
  · exact Nat.le_of_lt (inv.frees b mem).proper

theorem node_low (inv : Inv h base top bs live) : ∀ b ∈ origin base :: bs, base ≤ b.lo := by
  intro b mem
  rcases List.mem_cons.mp mem with rfl | mem
  · exact Nat.le_refl base
  · have above := (inv.frees b mem).above
    omega

theorem nodup (inv : Inv h base top bs live) : ((origin base :: bs).map Span.lo).Nodup := by
  refine List.pairwise_map.mpr (inv.spaced.imp_of_mem ?_)
  intro a b left _ before
  have order := inv.node_proper a left
  have gap : a.hi < b.lo := before
  omega

theorem next_node {front rest : List Span} {x : Span} (inv : Inv h base top bs live)
    (split : origin base :: bs = front ++ x :: rest) :
    (rest = [] ∧ h.ptr x.lo = base) ∨ ∃ y tail, rest = y :: tail ∧ h.ptr x.lo = y.lo ∧ x.lo < y.lo := by
  have shows := inv.shows
  have spaced := inv.spaced
  have proper := inv.node_proper x (by rw [split]; simp)
  rw [split] at shows spaced
  have link := (shows_append.mp shows).2.links.1
  cases rest with
  | nil => exact Or.inl ⟨rfl, link⟩
  | cons y tail =>
    have gap : x.hi < y.lo :=
      (List.pairwise_cons.mp (List.pairwise_append.mp spaced).2.1).1 y List.mem_cons_self
    exact Or.inr ⟨y, tail, rfl, link, by omega⟩

theorem freeLoop_stops {front rest : List Span} {p b : Span} (inv : Inv h base top bs live)
    (split : origin base :: bs = front ++ p :: rest) (placed : Placed base top b) (below : p.hi ≤ b.lo)
    (above : ∀ y ∈ rest, b.hi ≤ y.lo) {rounds : Nat} (enough : bs.length < rounds) :
    freeLoop h b.lo rounds h.freep = some p.lo := by
  have proper := placed.proper
  have start := placed.above
  have spaced := inv.spaced
  rw [split] at spaced
  obtain ⟨_, tails, across⟩ := List.pairwise_append.mp spaced
  have member : p ∈ origin base :: bs := by rw [split]; simp
  have low : p.lo < b.lo := by
    have order := inv.node_proper p member
    rcases List.mem_cons.mp member with rfl | mem
    · show base < b.lo
      omega
    · have nonempty := (inv.frees p mem).proper
      omega
  have fits : Fits h b.lo p.lo := by
    rcases inv.next_node split with ⟨_, last⟩ | ⟨y, tail, rfl, next, _⟩
    · refine Or.inr ⟨?_, Or.inl low⟩
      rw [last]
      exact inv.node_low p member
    · refine Or.inl ⟨low, ?_⟩
      have high := above y List.mem_cons_self
      rw [next]
      omega
  have past : ∀ x ∈ origin base :: bs, x.lo ≠ p.lo → ¬ Fits h b.lo x.lo := by
    intro x mem other
    rw [split] at mem
    rcases List.mem_append.mp mem with mem | mem
    · obtain ⟨f, g, rfl⟩ := List.append_of_mem mem
      have split' : origin base :: bs = f ++ x :: (g ++ p :: rest) := by rw [split]; simp
      rcases inv.next_node split' with ⟨none, _⟩ | ⟨y, tail, same, next, up⟩
      · simp at none
      have under : y.lo ≤ p.lo := by
        cases g with
        | nil =>
          cases same
          exact Nat.le_refl _
        | cons z g =>
          cases same
          have gap : y.hi < p.lo := across y (by simp) p List.mem_cons_self
          have order := inv.node_proper y (by rw [split]; simp)
          omega
      simp only [Fits, next]
      omega
    · rcases List.mem_cons.mp mem with rfl | mem
      · exact absurd rfl other
      obtain ⟨f, g, rfl⟩ := List.append_of_mem mem
      have split' : origin base :: bs = (front ++ p :: f) ++ x :: g := by rw [split]; simp
      have high := above x mem
      rcases inv.next_node split' with ⟨_, last⟩ | ⟨y, tail, _, next, up⟩
      · simp only [Fits, last]
        omega
      · simp only [Fits, next]
        omega
  have goal : p.lo ∈ (origin base :: bs).map Span.lo := List.mem_map_of_mem member
  obtain ⟨r, leads, first, nodes, short⟩ := inv.shows.links.reach inv.nodup inv.rover goal
  rw [← first]
  refine freeLoop_leads leads ?_ fits ?_
  · intro a mem
    have listed : a ∈ (origin base :: bs).map Span.lo := (nodes a mem).1
    obtain ⟨x, node, rfl⟩ := List.mem_map.mp listed
    exact past x node (nodes x.lo mem).2
  · rw [List.length_map] at short
    omega

theorem node_high (inv : Inv h base top bs live) (some_ : base < WORD) : ∀ b ∈ origin base :: bs, b.hi < WORD := by
  intro b mem
  rcases List.mem_cons.mp mem with rfl | mem
  · exact some_
  · exact Nat.lt_of_le_of_lt (inv.frees b mem).inside inv.high

theorem shows_release {front rest : List Span} {p b : Span} (inv : Inv h base top bs (b :: live))
    (split : origin base :: bs = front ++ p :: rest) (below : p.lo < b.lo) (above : ∀ y ∈ rest, b.hi ≤ y.lo) :
    Shows (attach (attach h b.lo (h.ptr p.lo)) p.lo b.lo) base (front ++ join p (join b rest)) := by
  have placed := inv.lives b List.mem_cons_self
  have proper := placed.proper
  have start := placed.above
  have top_ := Nat.lt_of_le_of_lt placed.inside inv.high
  have shows := inv.shows
  have spaced := inv.spaced
  have order := inv.node_proper
  have highs := inv.node_high (by omega)
  rw [split] at shows spaced order highs
  obtain ⟨⟨links, sizes⟩, tail⟩ := shows_append.mp shows
  obtain ⟨_, _, across⟩ := List.pairwise_append.mp spaced
  have behind : Shows h base rest := ⟨tail.links.2, fun y mem => tail.sizes y (List.mem_cons_of_mem p mem)⟩
  have before : ∀ x ∈ front, x.lo < p.lo := by
    intro x mem
    have gap : x.hi < p.lo := across x mem p List.mem_cons_self
    have proper := order x (List.mem_append_left _ mem)
    omega
  -- the block and its successors
  have upper : Shows (attach h b.lo (h.ptr p.lo)) base (join b rest) := by
    have link : h.ptr p.lo = (rest.map Span.lo).headD base := tail.links.1
    rw [link]
    refine behind.attach (inv.sizes b List.mem_cons_self) ?_ (fun _ => by omega) top_ ?_
    · intro y mem
      have high := above y mem
      omega
    · intro y mem
      exact highs y (by simp [mem])
  -- its predecessor and the result
  have lower : Shows (attach (attach h b.lo (h.ptr p.lo)) p.lo b.lo) base (join p (join b rest)) := by
    obtain ⟨stop, others, joined⟩ := join_cons b rest
    have head : b.lo = ((join b rest).map Span.lo).headD base := by rw [joined]; rfl
    have size : (attach h b.lo (h.ptr p.lo)).size p.lo = h.size p.lo := attach_size h _ (by omega)
    nth_rewrite 2 [head]
    refine upper.attach ?_ ?_ ?_ (highs p (by simp)) ?_
    · rw [size]
      exact tail.sizes p List.mem_cons_self
    · have up : ∀ c ∈ join b rest, b.lo ≤ c.lo := by
        refine join_all (fun y z left _ _ => left) (Nat.le_refl _) ?_
        intro y mem
        have high := above y mem
        omega
      intro c mem
      have high := up c mem
      omega
    · intro none
      rw [joined] at none
      cases none
    · exact join_all (fun y z _ right _ => right) top_ fun y mem => highs y (by simp [mem])
  refine shows_append.mpr ⟨⟨?_, ?_⟩, lower⟩
  · obtain ⟨stop, others, joined⟩ := join_cons p (join b rest)
    rw [joined]
    refine links.congr ?_
    intro a mem
    obtain ⟨x, member, rfl⟩ := List.mem_map.mp mem
    have low := before x member
    rw [attach_ptr _ _ (by omega), attach_ptr _ _ (by omega)]
  · intro x mem
    have low := before x mem
    rw [attach_size _ _ (by omega), attach_size _ _ (by omega)]
    exact sizes x mem

theorem placed_release {front rest : List Span} {p b : Span} (inv : Inv h base top bs (b :: live))
    (split : origin base :: bs = front ++ p :: rest) :
    ∀ c ∈ front ++ join p (join b rest), c = origin base ∨ Placed base top c := by
  have node : ∀ c ∈ front ++ p :: rest, c = origin base ∨ Placed base top c := by
    intro c mem
    rw [← split] at mem
    rcases List.mem_cons.mp mem with same | mem
    · exact Or.inl same
    · exact Or.inr (inv.frees c mem)
  have fuse : ∀ y z : Span, (y = origin base ∨ Placed base top y) → (z = origin base ∨ Placed base top z) →
      y.hi = z.lo → (⟨y.lo, z.hi⟩ : Span) = origin base ∨ Placed base top ⟨y.lo, z.hi⟩ := by
    intro y z left right touch
    rcases left with rfl | left
    · rcases right with rfl | right
      · exact Or.inl rfl
      · have above := right.above
        have same : base = z.lo := touch
        omega
    · have above := left.above
      have proper := left.proper
      rcases right with rfl | right
      · have same : y.hi = base := touch
        omega
      · have order := right.proper
        exact Or.inr ⟨left.aligned, above, Nat.lt_trans proper (touch ▸ order), right.inside⟩
  intro c mem
  rcases List.mem_append.mp mem with mem | mem
  · exact node c (List.mem_append_left _ mem)
  · refine join_all fuse (node p (by simp)) ?_ c mem
    exact join_all fuse (Or.inr (inv.lives b List.mem_cons_self)) fun y mem => node y (by simp [mem])

theorem spaced_release {front rest : List Span} {p b : Span} (inv : Inv h base top bs (b :: live))
    (split : origin base :: bs = front ++ p :: rest) (below : p.hi ≤ b.lo) (above : ∀ y ∈ rest, b.hi ≤ y.lo) :
    (front ++ join p (join b rest)).Pairwise Before := by
  have proper := (inv.lives b List.mem_cons_self).proper
  have spaced := inv.spaced
  have order := inv.node_proper
  rw [split] at spaced order
  obtain ⟨fronts, tails, across⟩ := List.pairwise_append.mp spaced
  have rests := (List.pairwise_cons.mp tails).2
  have valid : ∀ y ∈ rest, y.lo ≤ y.hi := fun y mem => order y (by simp [mem])
  have after : ∀ c ∈ join b rest, b.lo ≤ c.lo ∧ c.lo ≤ c.hi := by
    refine join_all ?_ ⟨Nat.le_refl _, Nat.le_of_lt proper⟩ ?_
    · intro y z left right touch
      show b.lo ≤ y.lo ∧ y.lo ≤ z.hi
      omega
    · intro y mem
      have high := above y mem
      exact ⟨by omega, valid y mem⟩
  refine List.pairwise_append.mpr ⟨fronts, ?_, ?_⟩
  · refine join_spaced (join_spaced rests valid above) (fun c mem => (after c mem).2) ?_
    intro c mem
    exact Nat.le_trans below (after c mem).1
  · intro x mem c joined
    have gap : x.hi < p.lo := across x mem p List.mem_cons_self
    have start : ∀ c ∈ join p (join b rest), p.lo ≤ c.lo := by
      refine join_all (fun y z left _ _ => left) (Nat.le_refl _) ?_
      intro c mem
      have low := (after c mem).1
      have node := order p (by simp)
      omega
    exact Nat.lt_of_lt_of_le gap (start c joined)

theorem live_lo {m : Span} (inv : Inv h base top bs live) (mem : m ∈ live) : ∀ c ∈ origin base :: bs, m.lo ≠ c.lo := by
  have placed := inv.lives m mem
  have above := placed.above
  have proper := placed.proper
  intro c node
  rcases List.mem_cons.mp node with rfl | node
  · show m.lo ≠ base
    omega
  · have order := (inv.frees c node).proper
    have apart := inv.clear m mem c node
    simp only [Spans.Apart] at apart
    omega

theorem first_release {front rest : List Span} {p b : Span} (inv : Inv h base top bs (b :: live))
    (split : origin base :: bs = front ++ p :: rest) : ∃ bs', front ++ join p (join b rest) = origin base :: bs' := by
  have above := (inv.lives b List.mem_cons_self).above
  cases front with
  | nil =>
    cases split
    obtain ⟨stop, others, joined⟩ := join_cons b bs
    refine ⟨join b bs, ?_⟩
    rw [List.nil_append, joined, join, if_neg]
    show base ≠ b.lo
    omega
  | cons x front =>
    cases split
    exact ⟨front ++ join p (join b rest), rfl⟩

theorem cover_release {front rest : List Span} {p b : Span} (inv : Inv h base top bs (b :: live))
    (split : origin base :: bs = front ++ p :: rest) :
    ∃ c ∈ front ++ join p (join b rest), c.lo ≤ b.lo ∧ b.hi ≤ c.hi := by
  have proper := (inv.lives b List.mem_cons_self).proper
  have order := inv.node_proper
  rw [split] at order
  have valid : ∀ y ∈ rest, y.lo ≤ y.hi := fun y mem => order y (by simp [mem])
  have joined : ∀ y ∈ join b rest, y.lo ≤ y.hi := by
    refine join_all ?_ (Nat.le_of_lt proper) valid
    intro y z left right touch
    show y.lo ≤ z.hi
    omega
  have first : b ∈ b :: rest := List.mem_cons_self
  obtain ⟨c, mem, lo, hi⟩ := join_covers valid (Nat.le_of_lt proper) first
  obtain ⟨d, mem, lo', hi'⟩ := join_covers joined (order p (by simp)) (List.mem_cons_of_mem p mem)
  exact ⟨d, List.mem_append_right front mem, Nat.le_trans lo' lo, Nat.le_trans hi hi'⟩

theorem clear_release {front rest : List Span} {p b : Span} (inv : Inv h base top bs (b :: live))
    (split : origin base :: bs = front ++ p :: rest) :
    ∀ m ∈ live, ∀ c ∈ front ++ join p (join b rest), Spans.Apart m c := by
  intro m mem
  have valid := inv.lives m (List.mem_cons_of_mem b mem)
  have start := valid.above
  have separate := (List.pairwise_cons.mp inv.apart).1 m mem
  have away : ∀ c ∈ front ++ p :: rest, Spans.Apart m c := by
    intro c listed
    rw [← split] at listed
    rcases List.mem_cons.mp listed with rfl | listed
    · refine Or.inr ?_
      show base ≤ m.lo
      omega
    · exact inv.clear m (List.mem_cons_of_mem b mem) c listed
  intro c listed
  rcases List.mem_append.mp listed with listed | listed
  · exact away c (List.mem_append_left _ listed)
  · refine join_apart valid.proper (away p (by simp)) ?_ c listed
    exact join_apart valid.proper separate.symm fun y mem => away y (by simp [mem])

theorem header_eq {b : Span} (placed : Placed base top b) (high : top < WORD) :
    header (plus b.lo 1) = b.lo :=
  header_plus (Nat.lt_trans (Nat.lt_of_lt_of_le placed.proper placed.inside) high)

theorem free {b : Span} (inv : Inv h base top bs (b :: live)) :
    ∃ h' bs', (∀ rounds, bs.length < rounds → Umalloc.free rounds h (plus b.lo 1) = some h') ∧
      Inv h' base top bs' live ∧ ∃ c ∈ bs', c.lo ≤ b.lo ∧ b.hi ≤ c.hi := by
  have placed := inv.lives b List.mem_cons_self
  have above := placed.above
  have proper := placed.proper
  obtain ⟨separate, lives⟩ := List.pairwise_cons.mp inv.apart
  have start : (origin base).hi ≤ b.lo := Nat.le_trans (Nat.le_add_right base 8) above
  obtain ⟨front, p, rest, split, below, behind⟩ := Spans.place inv.spaced start
    (fun y mem => Nat.le_of_lt (inv.frees y mem).proper) (inv.clear b List.mem_cons_self)
  have node : p ∈ origin base :: bs := by rw [split]; simp
  have low : p.lo < b.lo := by
    have order := inv.node_proper p node
    have other := inv.live_lo List.mem_cons_self p node
    omega
  have shows := inv.shows_release split low behind
  have spaced := inv.spaced_release split below behind
  have every := inv.placed_release split
  have cover := inv.cover_release split
  have clear := inv.clear_release split
  have rover : p.lo ∈ (front ++ join p (join b rest)).map Span.lo := by
    obtain ⟨stop, others, joined⟩ := join_cons p (join b rest)
    rw [joined]
    simp
  obtain ⟨bs', first⟩ := inv.first_release split
  rw [first] at shows spaced every rover cover clear
  refine ⟨{ attach (attach h b.lo (h.ptr p.lo)) p.lo b.lo with freep := p.lo }, bs', ?_, ?_, ?_⟩
  · intro rounds enough
    rw [Umalloc.free, header_eq placed inv.high, inv.freeLoop_stops split placed below behind enough, Option.map_some]
  · exact
      { shows := ⟨shows.links, shows.sizes⟩
        rover := rover
        spaced := spaced
        sizes := by
          intro m mem
          have listed : m ∈ b :: live := List.mem_cons_of_mem b mem
          have apart := separate m mem
          have order := (inv.lives m listed).proper
          have other : m.lo ≠ b.lo := by
            simp only [Spans.Apart] at apart
            omega
          show m.hi = m.lo + 8 * (attach (attach h b.lo (h.ptr p.lo)) p.lo b.lo).size m.lo
          rw [attach_size _ _ (inv.live_lo listed p node), attach_size _ _ other]
          exact inv.sizes m listed
        frees := by
          intro c mem
          rcases every c (List.mem_cons_of_mem _ mem) with rfl | found
          · exact absurd ((List.pairwise_cons.mp spaced).1 _ mem) (Nat.lt_irrefl base)
          · exact found
        lives := fun m mem => inv.lives m (List.mem_cons_of_mem b mem)
        apart := lives
        clear := fun m mem c listed => clear m mem c (List.mem_cons_of_mem _ listed)
        low := inv.low
        room := inv.room
        high := inv.high }
  · obtain ⟨c, mem, lo, hi⟩ := cover
    rcases List.mem_cons.mp mem with rfl | mem
    · have none : b.hi ≤ base := hi
      omega
    · exact ⟨c, mem, lo, hi⟩

theorem free_apart {f g : List Span} {x : Span} (inv : Inv h base top (f ++ x :: g) live) :
    ∀ c ∈ f ++ g, Spans.Apart x c := by
  have spaced := (List.pairwise_cons.mp inv.spaced).2
  obtain ⟨_, tails, across⟩ := List.pairwise_append.mp spaced
  intro c mem
  rcases List.mem_append.mp mem with mem | mem
  · exact Or.inr (Nat.le_of_lt (across c mem x List.mem_cons_self))
  · exact Or.inl (Nat.le_of_lt ((List.pairwise_cons.mp tails).1 c mem))

theorem shows_remove {f g : List Span} {x : Span} {q : Nat} (inv : Inv h base top (f ++ x :: g) live)
    (node : q ∈ (origin base :: (f ++ x :: g)).map Span.lo) (link : h.ptr q = x.lo) :
    Shows { h.setPtr q (h.ptr x.lo) with freep := q } base (origin base :: (f ++ g)) ∧
      q ∈ (origin base :: (f ++ g)).map Span.lo := by
  rcases (origin base :: f).eq_nil_or_concat' with none | ⟨front, p, last⟩
  · cases none
  have split : origin base :: (f ++ x :: g) = front ++ p :: (x :: g) := by
    rw [← List.cons_append, last, List.append_assoc, List.singleton_append]
  have result : origin base :: (f ++ g) = front ++ p :: g := by
    rw [← List.cons_append, last, List.append_assoc, List.singleton_append]
  have shows := inv.shows
  have nodup := inv.nodup
  have there : p.lo ∈ (origin base :: (f ++ x :: g)).map Span.lo := List.mem_map_of_mem (by rw [split]; simp)
  rw [split] at shows
  obtain ⟨⟨links, sizes⟩, tail⟩ := shows_append.mp shows
  -- only the predecessor leads to the block
  have same : q = p.lo := inv.shows.links.before_unique nodup node there (link.trans tail.links.1.symm)
  subst same
  rw [split, List.map_append, List.map_cons, List.map_cons] at nodup
  obtain ⟨_, tails, across⟩ := List.nodup_append.mp nodup
  rw [result]
  refine ⟨shows_append.mpr ⟨⟨?_, sizes⟩, ⟨?_, ?_⟩, ?_⟩, by simp⟩
  · refine links.congr ?_
    intro a mem
    exact Function.update_of_ne (across a mem p.lo List.mem_cons_self) ..
  · exact (Function.update_self ..).trans tail.links.2.1
  · refine tail.links.2.2.congr ?_
    intro a mem
    refine Function.update_of_ne ?_ ..
    rintro rfl
    exact (List.nodup_cons.mp tails).1 (List.mem_cons_of_mem _ mem)
  · intro b mem
    refine tail.sizes b ?_
    rcases List.mem_cons.mp mem with rfl | mem
    · exact List.mem_cons_self
    · exact List.mem_cons_of_mem p (List.mem_cons_of_mem x mem)

theorem take_whole {f g : List Span} {x : Span} {q : Nat} (inv : Inv h base top (f ++ x :: g) live)
    (node : q ∈ (origin base :: (f ++ x :: g)).map Span.lo) (link : h.ptr q = x.lo) :
    Inv { h.setPtr q (h.ptr x.lo) with freep := q } base top (f ++ g) (x :: live) := by
  have fewer : (f ++ g).Sublist (f ++ x :: g) := (List.sublist_cons_self x g).append_left f
  have listed : x ∈ f ++ x :: g := by simp
  exact
    { shows := (inv.shows_remove node link).1
      rover := (inv.shows_remove node link).2
      spaced := inv.spaced.sublist (fewer.cons_cons (origin base))
      sizes := by
        intro m mem
        rcases List.mem_cons.mp mem with rfl | mem
        · exact inv.shows.sizes m (List.mem_cons_of_mem _ listed)
        · exact inv.sizes m mem
      frees := fun c mem => inv.frees c (fewer.subset mem)
      lives := by
        intro m mem
        rcases List.mem_cons.mp mem with rfl | mem
        · exact inv.frees m listed
        · exact inv.lives m mem
      apart := List.pairwise_cons.mpr ⟨fun m mem => (inv.clear m mem x listed).symm, inv.apart⟩
      clear := by
        intro m mem c there
        rcases List.mem_cons.mp mem with rfl | mem
        · exact inv.free_apart c there
        · exact inv.clear m mem c (fewer.subset there)
      low := inv.low
      room := inv.room
      high := inv.high }

theorem node_outside {f g : List Span} {x : Span} (inv : Inv h base top (f ++ x :: g) live) {a : Nat} (lo : x.lo ≤ a)
    (hi : a < x.hi) : ∀ c ∈ origin base :: (f ++ g), c.lo ≠ a := by
  have above := (inv.frees x (by simp)).above
  intro c mem
  rcases List.mem_cons.mp mem with rfl | mem
  · show base ≠ a
    omega
  · have listed : c ∈ f ++ x :: g := ((List.sublist_cons_self x g).append_left f).subset mem
    have order := (inv.frees c listed).proper
    have apart := inv.free_apart c mem
    simp only [Spans.Apart] at apart
    omega

theorem live_outside {f g : List Span} {x : Span} (inv : Inv h base top (f ++ x :: g) live) {a : Nat} (lo : x.lo ≤ a)
    (hi : a < x.hi) : ∀ m ∈ live, m.lo ≠ a := by
  intro m mem
  have order := (inv.lives m mem).proper
  have apart := inv.clear m mem x (by simp)
  simp only [Spans.Apart] at apart
  omega

theorem shows_shrink {f g : List Span} {x : Span} {m n q : Nat} (inv : Inv h base top (f ++ x :: g) live)
    (units : h.size x.lo = m + n) (left : 0 < m) (some_ : 0 < n) :
    Shows { (h.setSize x.lo m).setSize (x.lo + 8 * m) n with freep := q } base
      (origin base :: (f ++ ⟨x.lo, x.lo + 8 * m⟩ :: g)) := by
  have size : x.hi = x.lo + 8 * h.size x.lo := inv.shows.sizes x (by simp)
  have same : (origin base :: (f ++ ⟨x.lo, x.lo + 8 * m⟩ :: g)).map Span.lo =
      (origin base :: (f ++ x :: g)).map Span.lo := by simp
  refine ⟨?_, ?_⟩
  · rw [same]
    exact inv.shows.links
  · intro c mem
    have cases_ : c = ⟨x.lo, x.lo + 8 * m⟩ ∨ c ∈ origin base :: (f ++ g) := by
      simp only [List.mem_cons, List.mem_append] at mem ⊢
      tauto
    show c.hi = c.lo + 8 * Function.update (Function.update h.size x.lo m) (x.lo + 8 * m) n c.lo
    rcases cases_ with rfl | old
    · have other : x.lo ≠ x.lo + 8 * m := by omega
      rw [Function.update_of_ne other, Function.update_self]
    · have listed : c ∈ origin base :: (f ++ x :: g) := by
        simp only [List.mem_cons, List.mem_append] at old ⊢
        tauto
      rw [Function.update_of_ne (inv.node_outside (by omega) (by omega) c old),
        Function.update_of_ne (inv.node_outside (Nat.le_refl _) (by omega) c old)]
      exact inv.shows.sizes c listed

theorem take_end {f g : List Span} {x : Span} {m n q : Nat} (inv : Inv h base top (f ++ x :: g) live)
    (node : q ∈ (origin base :: (f ++ x :: g)).map Span.lo) (units : h.size x.lo = m + n) (left : 0 < m) (some_ : 0 < n) :
    Inv { (h.setSize x.lo m).setSize (x.lo + 8 * m) n with freep := q } base top (f ++ ⟨x.lo, x.lo + 8 * m⟩ :: g)
      (⟨x.lo + 8 * m, x.hi⟩ :: live) := by
  have listed : x ∈ f ++ x :: g := by simp
  have size : x.hi = x.lo + 8 * h.size x.lo := inv.shows.sizes x (List.mem_cons_of_mem _ listed)
  have placed := inv.frees x listed
  have above := placed.above
  have aligned := placed.aligned
  have start : x.lo < x.lo + 8 * m := by omega
  have stop : x.lo + 8 * m < x.hi := by omega
  have same : (origin base :: (f ++ ⟨x.lo, x.lo + 8 * m⟩ :: g)).map Span.lo =
      (origin base :: (f ++ x :: g)).map Span.lo := by simp
  have old : ∀ c, c ∈ f ++ (⟨x.lo, x.lo + 8 * m⟩ :: g) → c = ⟨x.lo, x.lo + 8 * m⟩ ∨ c ∈ f ++ g := by
    intro c mem
    simp only [List.mem_cons, List.mem_append] at mem ⊢
    tauto
  have fewer : (f ++ g).Sublist (f ++ x :: g) := (List.sublist_cons_self x g).append_left f
  exact
    { shows := inv.shows_shrink units left some_
      rover := by
        rw [same]
        exact node
      spaced := by
        have spaced := inv.spaced
        simp only [List.pairwise_cons, List.pairwise_append, List.mem_append, List.mem_cons, forall_eq_or_imp,
          Before] at spaced ⊢
        obtain ⟨first, fs, ⟨xs, gs⟩, across⟩ := spaced
        refine ⟨?_, fs, ⟨?_, gs⟩, across⟩
        · intro c mem
          rcases mem with mem | rfl | mem
          · exact first c (Or.inl mem)
          · exact first x (Or.inr (Or.inl rfl))
          · exact first c (Or.inr (Or.inr mem))
        · intro c mem
          exact Nat.lt_trans stop (xs c mem)
      sizes := by
        intro b mem
        show b.hi = b.lo + 8 * Function.update (Function.update h.size x.lo m) (x.lo + 8 * m) n b.lo
        rcases List.mem_cons.mp mem with rfl | mem
        · rw [Function.update_self]
          show x.hi = x.lo + 8 * m + 8 * n
          omega
        · rw [Function.update_of_ne (inv.live_outside (Nat.le_of_lt start) stop b mem),
            Function.update_of_ne (inv.live_outside (Nat.le_refl _) (Nat.lt_trans start stop) b mem)]
          exact inv.sizes b mem
      frees := by
        intro c mem
        rcases old c mem with rfl | mem
        · exact ⟨aligned, above, start, Nat.le_trans (Nat.le_of_lt stop) placed.inside⟩
        · exact inv.frees c (fewer.subset mem)
      lives := by
        intro b mem
        rcases List.mem_cons.mp mem with rfl | mem
        · have mid : (x.lo + 8 * m) % 8 = 0 := by omega
          exact ⟨mid, Nat.le_trans above (Nat.le_of_lt start), stop, placed.inside⟩
        · exact inv.lives b mem
      apart := by
        refine List.pairwise_cons.mpr ⟨?_, inv.apart⟩
        intro b mem
        have away : Spans.Apart b ⟨x.lo + 8 * m, x.hi⟩ := (inv.clear b mem x listed).part (Nat.le_of_lt start) (Nat.le_refl _)
        exact away.symm
      clear := by
        intro b mem c there
        rcases List.mem_cons.mp mem with rfl | mem
        · rcases old c there with rfl | there
          · exact Or.inr (Nat.le_refl _)
          · have away : Spans.Apart c ⟨x.lo + 8 * m, x.hi⟩ :=
              (inv.free_apart c there).symm.part (Nat.le_of_lt start) (Nat.le_refl _)
            exact away.symm
        · rcases old c there with rfl | there
          · exact (inv.clear b mem x listed).part (Nat.le_refl _) (Nat.le_of_lt stop)
          · exact inv.clear b mem c (fewer.subset there)
      low := inv.low
      room := inv.room
      high := inv.high }

theorem takeUnits {n q p : Nat} (asked : List Int) (inv : Inv h base top bs live)
    (node : q ∈ (origin base :: bs).map Span.lo) (found : p ∈ (origin base :: bs).map Span.lo) (link : h.ptr q = p)
    (some_ : 0 < n) (large : n ≤ h.size p) :
    ∃ b bs', (takeUnits h n q p asked).p = plus b.lo 1 ∧ b.hi = b.lo + 8 * n ∧
      Inv (takeUnits h n q p asked).heap base top bs' (b :: live) := by
  obtain ⟨x, listed, rfl⟩ := List.mem_map.mp found
  rcases List.mem_cons.mp listed with rfl | listed
  · have none : base = base + 8 * h.size base := inv.shows.sizes (origin base) List.mem_cons_self
    have units : n ≤ h.size base := large
    omega
  obtain ⟨f, g, rfl⟩ := List.append_of_mem listed
  have size : x.hi = x.lo + 8 * h.size x.lo := inv.shows.sizes x (by simp)
  have high := Nat.lt_of_le_of_lt (inv.frees x listed).inside inv.high
  by_cases whole : h.size x.lo = n
  · rw [Umalloc.takeUnits, if_pos whole]
    exact ⟨x, f ++ g, rfl, by omega, inv.take_whole node link⟩
  · obtain ⟨m, units⟩ : ∃ m, h.size x.lo = m + n := ⟨h.size x.lo - n, by omega⟩
    have left : h.size x.lo - n = m := by omega
    have cut : plus x.lo ((h.setSize x.lo m).size x.lo) = x.lo + 8 * m := by
      show (x.lo + 8 * Function.update h.size x.lo m x.lo) % WORD = x.lo + 8 * m
      rw [Function.update_self, Nat.mod_eq_of_lt (by omega)]
    rw [Umalloc.takeUnits, if_neg whole, left]
    simp only [cut]
    refine ⟨⟨x.lo + 8 * m, x.hi⟩, _, rfl, ?_, inv.take_end node units (by omega) some_⟩
    show x.hi = x.lo + 8 * m + 8 * n
    omega

end Inv

end Xv6.Umalloc
