import Xv6.Lib.Returns
import Xv6.Lib.Slots
import Xv6.Fs.Blocks
import Mathlib.Data.Finset.Card

/-!
Block ownership. The places for block numbers in the inodes and their blocks of addresses
are slots for the data blocks of the volume; slots and bitmap stay exact through bmap,
writei and itrunc, and an inode of N blocks has its first N blocks and no others.
-/
namespace Xv6
namespace Fs

open Runs

theorem word_zero (j : Nat) : word (fun _ => 0) j = 0 := rfl

theorem word_setWord (c : Nat → UInt8) (j k v : Nat) (small : v < 2 ^ 32) :
    word (setWord c j v) k = if k = j then v else word c k := by
  have quotient : ∀ r, r < 4 → (4 * k + r) / 4 = k ∧ (4 * k + r) % 4 = r := by
    intro r below
    omega
  obtain ⟨q0, r0⟩ := quotient 0 (by decide)
  obtain ⟨q1, r1⟩ := quotient 1 (by decide)
  obtain ⟨q2, r2⟩ := quotient 2 (by decide)
  obtain ⟨q3, r3⟩ := quotient 3 (by decide)
  rw [Nat.add_zero] at q0 r0
  by_cases here : k = j
  · subst here
    simp only [word, setWord, q0, q1, q2, q3, r0, r1, r2, r3, if_true, UInt8.toNat_ofNat']
    omega
  · simp only [word, setWord, q0, q1, q2, q3, if_neg here]

/-- Places for block numbers: the direct ones, the block of addresses, and its entries. -/
def PLACES : Nat := NDIRECT + 1 + NINDIRECT

def dataStart (sb : Superblock) : Nat := sb.bmapstart + (sb.size / BPB + 1)

def placeOf (bn : Nat) : Nat := if bn < NDIRECT then bn else bn + 1

/-- A file of n blocks has a block number at place p. -/
def Needs (n p : Nat) : Prop := if p < NDIRECT then p < n else if p = NDIRECT then NDIRECT < n else p - 1 < n

namespace Volume

variable {v w : Volume} {node : Nat → Dnode} {ext : Nat → Nat} {ip : Dnode} {b i p : Nat}

def place (v : Volume) (ip : Dnode) (p : Nat) : Nat :=
  if p ≤ NDIRECT then ip.addrs p
  else if ip.addrs NDIRECT = 0 then 0 else word (v.data (ip.addrs NDIRECT)) (p - NDIRECT - 1)

def slot (v : Volume) (node : Nat → Dnode) (x : Nat × Nat) : Nat :=
  if x.2 < PLACES then v.place (node x.1) x.2 else 0

/-- The bitmap marks the blocks below the data blocks, and of these just the stored ones. -/
structure Kept (v : Volume) (node : Nat → Dnode) : Prop where
  exact_ : Slots.Exact (dataStart v.sb) v.sb.size v.used (v.slot node)
  metadata : ∀ b < dataStart v.sb, v.used b = true
  small : v.sb.size ≤ 2 ^ 32

def Filled (v : Volume) (node : Nat → Dnode) (ext : Nat → Nat) : Prop :=
  ∀ i, ext i ≤ MAXFILE ∧ ∀ p < PLACES, v.place (node i) p ≠ 0 ↔ Needs (ext i) p

def free (v : Volume) : Finset Nat := (Finset.range v.sb.size).filter fun b => v.used b = false

def cost (n : Nat) : Nat := if NDIRECT < n then n + 1 else n

def taken (v : Volume) (b : Nat) : Volume :=
  ⟨v.sb, Function.update v.used b true, Function.update v.data b fun _ => 0, v.dinode,
    v.logged ++ [BBLOCK b v.sb] ++ [b]⟩

theorem balloc_meets (v : Volume) : Meets v.balloc (fun r => r.1 ∈ v.free ∧ r.2 = v.taken r.1)
    (fun e => e = .ballocOutOfBlocks ∧ v.free = ∅) := by
  rw [balloc]
  split
  · rename_i b found
    have clear : v.used b = false := by simpa using List.find?_some found
    exact ⟨Finset.mem_filter.mpr ⟨Finset.mem_range.mpr (List.mem_range.mp (List.mem_of_find?_eq_some found)), clear⟩,
      rfl⟩
  · rename_i none
    rw [List.find?_eq_none] at none
    refine ⟨rfl, Finset.filter_eq_empty_iff.mpr ?_⟩
    intro b inside clear
    exact none b (List.mem_range.mpr (Finset.mem_range.mp inside)) (by simpa using clear)

theorem free_mem {v : Volume} {b : Nat} (member : b ∈ v.free) : b < v.sb.size ∧ v.used b = false := by
  simpa [free] using member

theorem taken_free (member : b ∈ v.free) : (v.taken b).free = v.free.erase b := by
  ext c
  by_cases here : c = b
  · subst here
    simp [free, taken]
  · simp [free, taken, here]

theorem Kept.data_block (kept : Kept v node) (member : b ∈ v.free) : dataStart v.sb ≤ b ∧ b ≠ 0 := by
  have clear := (free_mem member).2
  have above : dataStart v.sb ≤ b := by
    by_contra below
    rw [kept.metadata b (by omega)] at clear
    cases clear
  have positive := kept.exact_.positive
  exact ⟨above, by omega⟩

theorem slot_eq (below : p < PLACES) : v.slot node (i, p) = v.place (node i) p := if_pos below

theorem Kept.stored (kept : Kept v node) (below : p < PLACES) (full : v.place (node i) p ≠ 0) :
    dataStart v.sb ≤ v.place (node i) p ∧ v.place (node i) p < v.sb.size ∧ v.used (v.place (node i) p) = true := by
  have found := kept.exact_.stored (i, p)
  rw [slot_eq below] at found
  exact found full

theorem Kept.once (kept : Kept v node) {k q : Nat} (below : p < PLACES) (below' : q < PLACES)
    (full : v.place (node i) p ≠ 0) (same : v.place (node i) p = v.place (node k) q) : i = k ∧ p = q := by
  have once := kept.exact_.once (i, p) (k, q)
  rw [slot_eq below, slot_eq below'] at once
  exact Prod.mk.inj (once full same)

theorem Kept.fresh (kept : Kept v node) (member : b ∈ v.free) (below : p < PLACES) : v.place (node i) p ≠ b := by
  intro same
  have marked := (kept.stored below (i := i) (by rw [same]; exact (kept.data_block member).2)).2.2
  rw [same, (free_mem member).2] at marked
  cases marked

theorem Kept.congr {node' : Nat → Dnode} (kept : Kept v node) (sb : w.sb = v.sb) (used : w.used = v.used)
    (places : ∀ k q, q < PLACES → w.place (node' k) q = v.place (node k) q) : Kept w node' := by
  have slots : w.slot node' = v.slot node := by
    funext ⟨k, q⟩
    by_cases bounded : q < PLACES
    · rw [slot_eq bounded, slot_eq bounded, places k q bounded]
    · rw [slot, slot, if_neg bounded, if_neg bounded]
  refine ⟨?_, ?_, ?_⟩
  · rw [sb, used, slots]
    exact kept.exact_
  · rw [sb, used]
    exact kept.metadata
  · rw [sb]
    exact kept.small

theorem Filled.congr {node' : Nat → Dnode} (filled : Filled v node ext)
    (places : ∀ k q, q < PLACES → w.place (node' k) q = v.place (node k) q) : Filled w node' ext :=
  fun k => ⟨(filled k).1, fun q bounded => by rw [places k q bounded]; exact (filled k).2 q bounded⟩

theorem place_indirect (v : Volume) (ip : Dnode) : v.place ip NDIRECT = ip.addrs NDIRECT := if_pos (Nat.le_refl _)

theorem place_setAddr (empty : ip.addrs p = 0) (inside : p ≤ NDIRECT) (positive : b ≠ 0)
    (fresh : ip.addrs NDIRECT ≠ b) (q : Nat) :
    (v.taken b).place (ip.setAddr p b) q = if q = p then b else v.place ip q := by
  by_cases direct : q ≤ NDIRECT
  · simp only [place, direct, if_true, Dnode.setAddr, Function.update_apply]
  · have other : q ≠ p := by omega
    by_cases indirect : p = NDIRECT
    · subst indirect
      simp [place, direct, Dnode.setAddr, other, empty, positive, taken, word_zero]
    · simp [place, direct, Dnode.setAddr, other, Function.update_of_ne (Ne.symm indirect), taken,
        Function.update_of_ne fresh]

theorem place_taken (fresh : ip.addrs NDIRECT ≠ b) (q : Nat) : (v.taken b).place ip q = v.place ip q := by
  simp [place, taken, Function.update_of_ne fresh]

theorem Kept.setAddr (kept : Kept v node) (member : b ∈ v.free) (inside : p ≤ NDIRECT)
    (empty : (node i).addrs p = 0) : Kept (v.taken b) (Function.update node i ((node i).setAddr p b)) := by
  have fresh : ∀ k, (node k).addrs NDIRECT ≠ b := fun k => by
    rw [← place_indirect v]
    exact kept.fresh member (by decide)
  obtain ⟨above, positive⟩ := kept.data_block member
  have below : p < PLACES := Nat.lt_of_le_of_lt inside (by decide)
  have slots : (v.taken b).slot (Function.update node i ((node i).setAddr p b)) =
      Function.update (v.slot node) (i, p) b := by
    funext ⟨k, q⟩
    by_cases bounded : q < PLACES
    · rw [slot_eq bounded]
      by_cases here : k = i
      · subst here
        rw [Function.update_self, place_setAddr empty inside positive (fresh k), Function.update_apply, slot_eq bounded]
        by_cases same : q = p <;> simp [same]
      · rw [Function.update_of_ne here, place_taken (fresh k), Function.update_of_ne (by simp [here]), slot_eq bounded]
    · have other : (k, q) ≠ (i, p) := by
        rintro ⟨⟩
        exact bounded below
      rw [Function.update_of_ne other, slot, slot, if_neg bounded, if_neg bounded]
  refine ⟨?_, ?_, kept.small⟩
  · rw [slots]
    exact kept.exact_.alloc above (free_mem member).1 (free_mem member).2
      (by rw [slot_eq below, place, if_pos inside, empty])
  · intro c low
    by_cases here : c = b
    · simp [taken, here]
    · simpa [taken, Function.update_of_ne here] using kept.metadata c low

/-- The volume after balloc returned b and b was stored as entry j of block a. -/
def entered (v : Volume) (a j b : Nat) : Volume :=
  ((v.taken b).setData a (setWord ((v.taken b).data a) j b)).log_write a

theorem place_entered {a j : Nat} (distinct : a ≠ b) (small : b < 2 ^ 32) (positive : a ≠ 0)
    (fresh : ip.addrs NDIRECT ≠ b) (q : Nat) :
    (v.entered a j b).place ip q =
      if ip.addrs NDIRECT = a ∧ NDIRECT < q ∧ q - NDIRECT - 1 = j then b else v.place ip q := by
  by_cases direct : q ≤ NDIRECT
  · simp [place, direct, Nat.not_lt.mpr direct]
  · have above : NDIRECT < q := by omega
    by_cases here : ip.addrs NDIRECT = a
    · subst here
      have data : (v.entered (ip.addrs NDIRECT) j b).data (ip.addrs NDIRECT) =
          setWord (v.data (ip.addrs NDIRECT)) j b := by
        simp [entered, log_write, setData, taken, Function.update_of_ne distinct]
      rw [place, if_neg direct, if_neg positive, data, word_setWord _ _ _ _ small]
      simp [place, direct, positive, above]
    · have data : (v.entered a j b).data (ip.addrs NDIRECT) = v.data (ip.addrs NDIRECT) := by
        simp [entered, log_write, setData, taken, Function.update_of_ne here, Function.update_of_ne fresh]
      rw [place, data]
      simp [place, direct, here]

theorem Kept.setEntry {a j : Nat} (kept : Kept v node) (member : b ∈ v.free) (indirect : (node i).addrs NDIRECT = a)
    (positive : a ≠ 0) (inside : j < NINDIRECT) (empty : word (v.data a) j = 0) : Kept (v.entered a j b) node := by
  have fresh : ∀ k, (node k).addrs NDIRECT ≠ b := fun k => by
    rw [← place_indirect v]
    exact kept.fresh member (by decide)
  have distinct : a ≠ b := indirect ▸ fresh i
  obtain ⟨above, -⟩ := kept.data_block member
  have small : b < 2 ^ 32 := Nat.lt_of_lt_of_le (free_mem member).1 kept.small
  have below : NDIRECT + 1 + j < PLACES := Nat.add_lt_add_left inside _
  have owner : ∀ k, (node k).addrs NDIRECT = a → k = i := by
    intro k same
    rw [← indirect, ← place_indirect v, ← place_indirect v] at same
    refine (kept.once (by decide) (by decide) ?_ same).1
    rw [same, place_indirect, indirect]
    exact positive
  have slots : (v.entered a j b).slot node = Function.update (v.slot node) (i, NDIRECT + 1 + j) b := by
    funext ⟨k, q⟩
    by_cases bounded : q < PLACES
    · rw [slot_eq bounded, place_entered distinct small positive (fresh k), Function.update_apply, slot_eq bounded]
      refine if_congr ?_ rfl rfl
      constructor
      · rintro ⟨same, high, entry⟩
        rw [owner k same, Prod.mk.injEq]
        exact ⟨rfl, by omega⟩
      · rintro ⟨⟩
        exact ⟨indirect, by omega, by omega⟩
    · have other : (k, q) ≠ (i, NDIRECT + 1 + j) := by
        rintro ⟨⟩
        exact bounded below
      rw [Function.update_of_ne other, slot, slot, if_neg bounded, if_neg bounded]
  refine ⟨?_, ?_, kept.small⟩
  · rw [slots]
    refine kept.exact_.alloc above (free_mem member).1 (free_mem member).2 ?_
    rw [slot_eq below, place, if_neg (by omega), indirect, if_neg positive]
    have index : NDIRECT + 1 + j - NDIRECT - 1 = j := by omega
    rw [index, empty]
  · intro c low
    by_cases here : c = b
    · simp [entered, log_write, setData, taken, here]
    · simpa [entered, log_write, setData, taken, Function.update_of_ne here] using kept.metadata c low

theorem needs_placeOf {n bn : Nat} : Needs n (placeOf bn) ↔ bn < n := by
  by_cases direct : bn < NDIRECT
  · simp [Needs, placeOf, direct]
  · have above : ¬ bn + 1 < NDIRECT := by omega
    have other : bn + 1 ≠ NDIRECT := by omega
    simp [Needs, placeOf, direct, above, other]

theorem placeOf_lt {bn : Nat} (inside : bn < MAXFILE) : placeOf bn < PLACES := by
  rw [placeOf]
  rw [MAXFILE] at inside
  split
  · rw [PLACES]
    omega
  · rw [PLACES]
    omega

theorem placeOf_ne (bn : Nat) : placeOf bn ≠ NDIRECT := by
  rw [placeOf]
  split <;> omega

/-- What bmap of block bn leaves: the block is there, and the blocks of all files are
    where they were, with the same contents. -/
structure Mapped (v : Volume) (node : Nat → Dnode) (ext : Nat → Nat) (i bn : Nat) (r : Nat × Dnode × Volume) :
    Prop where
  kept : Kept r.2.2 (Function.update node i r.2.1)
  filled : Filled r.2.2 (Function.update node i r.2.1) (Function.update ext i (max (ext i) (bn + 1)))
  block : r.2.2.place r.2.1 (placeOf bn) = r.1
  frame : ∀ k p, p < PLACES → p ≠ NDIRECT → v.place (node k) p ≠ 0 →
    r.2.2.place (Function.update node i r.2.1 k) p = v.place (node k) p ∧
      r.2.2.data (v.place (node k) p) = v.data (v.place (node k) p)
  zero : ext i ≤ bn → r.2.2.data r.1 = fun _ => 0
  old : bn < ext i → r.2.1 = node i ∧ r.2.2 = v
  type : r.2.1.type = (node i).type
  size : r.2.1.size = (node i).size
  sb : r.2.2.sb = v.sb
  dinode : r.2.2.dinode = v.dinode
  count : r.2.2.free.card + cost (max (ext i) (bn + 1)) = v.free.card + cost (ext i)

theorem Mapped.refl {bn : Nat} (kept : Kept v node) (filled : Filled v node ext) (inside : bn < ext i) :
    Mapped v node ext i bn (v.place (node i) (placeOf bn), node i, v) := by
  have same : max (ext i) (bn + 1) = ext i := by omega
  refine ⟨?_, ?_, rfl, ?_, fun past => absurd inside (by omega), fun _ => ⟨rfl, rfl⟩, rfl, rfl, rfl, rfl, ?_⟩
  · simpa using kept
  · simpa [same] using filled
  · intro k p _ _ _
    simp
  · rw [same]

theorem taken_card (member : b ∈ v.free) : (v.taken b).free.card + 1 = v.free.card := by
  rw [taken_free member]
  exact Finset.card_erase_add_one member

theorem Mapped.direct {bn : Nat} (kept : Kept v node) (filled : Filled v node ext) (direct : bn < NDIRECT)
    (next : bn = ext i) (member : b ∈ v.free) :
    Mapped v node ext i bn (b, (node i).setAddr bn b, v.taken b) := by
  have positive := (kept.data_block member).2
  have fresh : ∀ k p, p < PLACES → v.place (node k) p ≠ b := fun k p below => kept.fresh member below
  have indirect : ∀ k, (node k).addrs NDIRECT ≠ b := fun k => by
    rw [← place_indirect v]
    exact fresh k NDIRECT (by decide)
  have below : bn < PLACES := Nat.lt_trans direct (by decide)
  have empty : (node i).addrs bn = 0 := by
    have unneeded := ((filled i).2 bn below).not.mpr (by rw [Needs, if_pos direct]; omega)
    rw [not_not, place, if_pos (Nat.le_of_lt direct)] at unneeded
    exact unneeded
  have place' := place_setAddr (v := v) empty (Nat.le_of_lt direct) positive (indirect i)
  refine ⟨kept.setAddr member (Nat.le_of_lt direct) empty, ?_, ?_, ?_, ?_, fun inside => absurd inside (by omega), rfl, rfl,
    rfl, rfl, ?_⟩
  · intro k
    by_cases here : k = i
    · subst here
      rw [Function.update_self, Function.update_self]
      refine ⟨?_, ?_⟩
      · rw [MAXFILE]
        omega
      · intro q bounded
        rw [place']
        by_cases same : q = bn
        · simp [same, positive, Needs, direct]
        · rw [if_neg same, (filled k).2 q bounded]
          simp only [Needs]
          split
          · omega
          · split <;> omega
    · rw [Function.update_of_ne here, Function.update_of_ne here]
      refine ⟨(filled k).1, fun q bounded => ?_⟩
      rw [place_taken (indirect k)]
      exact (filled k).2 q bounded
  · rw [place', placeOf, if_pos direct, if_pos rfl]
  · intro k q bounded _ full
    refine ⟨?_, ?_⟩
    · by_cases here : k = i
      · subst here
        have other : q ≠ bn := by
          rintro rfl
          exact full (by rw [place, if_pos (Nat.le_of_lt direct), empty])
        rw [Function.update_self, place', if_neg other]
      · rw [Function.update_of_ne here, place_taken (indirect k)]
    · simp [taken, Function.update_of_ne (fresh k q bounded)]
  · intro _
    simp [taken]
  · have card := taken_card member
    simp only [cost, ← next]
    rw [if_neg (by omega), if_neg (by omega)]
    omega

/-- The block of addresses is there: ip and w are what loadIndirect makes of inode i. -/
structure Loaded (v : Volume) (node : Nat → Dnode) (i : Nat) (r : Dnode × Volume) : Prop where
  kept : Kept r.2 (Function.update node i r.1)
  full : r.1.addrs NDIRECT ≠ 0
  place : ∀ k p, p < PLACES → (k = i → p ≠ NDIRECT) →
    r.2.place (Function.update node i r.1 k) p = v.place (node k) p
  data : ∀ k p, p < PLACES → v.place (node k) p ≠ 0 → r.2.data (v.place (node k) p) = v.data (v.place (node k) p)
  type : r.1.type = (node i).type
  size : r.1.size = (node i).size
  sb : r.2.sb = v.sb
  dinode : r.2.dinode = v.dinode
  count : r.2.free.card + (if (node i).addrs NDIRECT = 0 then 1 else 0) = v.free.card

theorem loadIndirect_meets (kept : Kept v node) (i : Nat) : Meets (v.loadIndirect (node i)) (Loaded v node i)
    (fun e => e = .ballocOutOfBlocks ∧ v.free = ∅ ∧ (node i).addrs NDIRECT = 0) := by
  rw [loadIndirect]
  split
  · rename_i empty
    refine Meets.bind ((balloc_meets v).mono (fun _ => id) fun e fails => ⟨fails.1, fails.2, empty⟩) ?_
    rintro ⟨a, w⟩ ⟨member, same⟩
    obtain rfl : w = v.taken a := same
    have positive := (kept.data_block member).2
    have indirect : ∀ k, (node k).addrs NDIRECT ≠ a := fun k => by
      rw [← place_indirect v]
      exact kept.fresh member (by decide)
    refine ⟨kept.setAddr member (Nat.le_refl _) empty, ?_, ?_, ?_, rfl, rfl, rfl, rfl, ?_⟩
    · simpa [Dnode.setAddr] using positive
    · intro k p below other
      by_cases here : k = i
      · subst here
        rw [Function.update_self, place_setAddr empty (Nat.le_refl _) positive (indirect k), if_neg (other rfl)]
      · rw [Function.update_of_ne here, place_taken (indirect k)]
    · intro k p below full
      simp [taken, Function.update_of_ne (kept.fresh member below (i := k))]
    · rw [if_pos empty]
      exact taken_card member
  · rename_i full
    refine ⟨by simpa using kept, full, fun k p _ _ => by simp, fun _ _ _ _ => rfl, rfl, rfl, rfl, rfl, ?_⟩
    rw [if_neg full]
    rfl

theorem Loaded.entry {bn : Nat} (filled : Filled v node ext) (inside : bn < MAXFILE) (high : NDIRECT ≤ bn)
    (next : bn = ext i) (loaded : Loaded v node i (ip, w)) (member : b ∈ w.free) :
    Mapped v node ext i bn (b, ip, w.entered (ip.addrs NDIRECT) (bn - NDIRECT) b) := by
  have kept := loaded.kept
  have full := loaded.full
  have places : ∀ k p, p < PLACES → (k = i → p ≠ NDIRECT) →
      w.place (Function.update node i ip k) p = v.place (node k) p := loaded.place
  dsimp only at kept full
  have mine : Function.update node i ip i = ip := Function.update_self ..
  have small : b < 2 ^ 32 := Nat.lt_of_lt_of_le (free_mem member).1 kept.small
  have fresh : ∀ k p, p < PLACES → w.place (Function.update node i ip k) p ≠ b := fun k p below =>
    kept.fresh member below
  have indirect : ∀ k, (Function.update node i ip k).addrs NDIRECT ≠ b := fun k => by
    rw [← place_indirect w]
    exact fresh k NDIRECT (by decide)
  have distinct : ip.addrs NDIRECT ≠ b := by
    have other := indirect i
    rwa [mine] at other
  have index : bn - NDIRECT < NINDIRECT := by
    rw [MAXFILE] at inside
    omega
  have bounded := placeOf_lt inside
  have at_ : placeOf bn = bn + 1 := by rw [placeOf, if_neg (by omega)]
  -- no other inode has this block of addresses
  have owner : ∀ k, (Function.update node i ip k).addrs NDIRECT = ip.addrs NDIRECT → k = i := by
    intro k same
    have equal : w.place (Function.update node i ip k) NDIRECT = w.place (Function.update node i ip i) NDIRECT := by
      rw [place_indirect, place_indirect, same, mine]
    refine (kept.once (by decide) (by decide) ?_ equal).1
    rw [place_indirect, same]
    exact full
  have was : w.place ip (bn + 1) = 0 := by
    have unneeded := ((filled i).2 _ bounded).not.mpr (by rw [needs_placeOf]; omega)
    rw [not_not, at_, ← places i (bn + 1) (at_ ▸ bounded) (fun _ => by omega), mine] at unneeded
    exact unneeded
  have empty : word (w.data (ip.addrs NDIRECT)) (bn - NDIRECT) = 0 := by
    rw [Volume.place, if_neg (by omega), if_neg full] at was
    have same : bn + 1 - NDIRECT - 1 = bn - NDIRECT := by omega
    rwa [same] at was
  have place' : ∀ k q, (w.entered (ip.addrs NDIRECT) (bn - NDIRECT) b).place (Function.update node i ip k) q =
      if k = i ∧ q = bn + 1 then b else w.place (Function.update node i ip k) q := by
    intro k q
    rw [place_entered distinct small full (indirect k)]
    refine if_congr ?_ rfl rfl
    constructor
    · rintro ⟨same, above, entry⟩
      exact ⟨owner k same, by omega⟩
    · rintro ⟨rfl, rfl⟩
      exact ⟨by rw [mine], by omega, by omega⟩
  have positive := (kept.data_block member).2
  refine ⟨?_, ?_, ?_, ?_, ?_, fun inside => absurd inside (by omega), loaded.type, loaded.size, loaded.sb,
    loaded.dinode, ?_⟩
  · exact kept.setEntry (i := i) member (by rw [mine]) full index empty
  · intro k
    by_cases here : k = i
    · subst here
      refine ⟨?_, ?_⟩
      · rw [Function.update_self]
        omega
      · intro q below
        rw [place' k q, Function.update_self (f := ext)]
        by_cases same : q = bn + 1
        · rw [if_pos ⟨rfl, same⟩, same, ← at_, needs_placeOf, at_]
          simp [positive]
        · rw [if_neg (fun both => same both.2)]
          by_cases block : q = NDIRECT
          · subst block
            rw [mine, place_indirect]
            simp only [Needs, lt_irrefl, if_false, if_true]
            exact ⟨fun _ => by omega, fun _ => full⟩
          · rw [places k q below (fun _ => block), (filled k).2 q below]
            simp only [Needs, if_neg block]
            split <;> omega
    · rw [Function.update_of_ne here (f := ext)]
      refine ⟨(filled k).1, fun q below => ?_⟩
      rw [place' k q, if_neg (fun both => here both.1), places k q below (fun same => absurd same here)]
      exact (filled k).2 q below
  · have new := place' i (bn + 1)
    rw [mine, if_pos ⟨rfl, rfl⟩] at new
    rw [at_]
    exact new
  · intro k q below other full'
    have same := places k q below (fun _ => other)
    have elsewhere : ¬ (k = i ∧ q = bn + 1) := by
      rintro ⟨rfl, rfl⟩
      rw [mine, was] at same
      exact full' same.symm
    refine ⟨by rw [place' k q, if_neg elsewhere, same], ?_⟩
    have notB : v.place (node k) q ≠ b := by
      rw [← same]
      exact fresh k q below
    have notA : v.place (node k) q ≠ ip.addrs NDIRECT := by
      intro equal
      have stored : w.place (Function.update node i ip k) q = w.place (Function.update node i ip i) NDIRECT := by
        rw [same, equal, mine, place_indirect]
      exact other (kept.once below (by decide) (by rw [same]; exact full') stored).2
    simp only [entered, log_write, setData, taken, Function.update_of_ne notA, Function.update_of_ne notB]
    exact loaded.data k q below full'
  · intro _
    simp [entered, log_write, setData, taken, Function.update_of_ne (Ne.symm distinct)]
  · have card := taken_card member
    have before := loaded.count
    have same : (w.entered (ip.addrs NDIRECT) (bn - NDIRECT) b).free = (w.taken b).free := rfl
    rw [same]
    simp only [cost, ← next] at before ⊢
    have zero : (node i).addrs NDIRECT = 0 ↔ bn = NDIRECT := by
      have indirect := ((filled i).2 NDIRECT (by decide)).not
      rw [not_not, place_indirect] at indirect
      rw [indirect]
      simp only [Needs, lt_irrefl, if_false, if_true]
      omega
    rw [if_pos (by omega)]
    by_cases first : bn = NDIRECT
    · rw [if_pos (zero.mpr first)] at before
      rw [if_neg (by omega)]
      omega
    · rw [if_neg (fun h => first (zero.mp h))] at before
      rw [if_pos (by omega)]
      omega

theorem bmap_present {bn : Nat} (inside : bn < MAXFILE) (full : v.place ip (placeOf bn) ≠ 0) :
    v.bmap ip bn = .ok (v.place ip (placeOf bn), ip, v) := by
  rw [bmap]
  split
  · rename_i direct
    have value : v.place ip (placeOf bn) = ip.addrs bn := by
      rw [placeOf, if_pos direct, place, if_pos (Nat.le_of_lt direct)]
    rw [value] at full ⊢
    rw [if_neg full]
    rfl
  · rename_i high
    have indirect : ip.addrs NDIRECT ≠ 0 := by
      intro empty
      rw [placeOf, if_neg high, place, if_neg (by omega), if_pos empty] at full
      exact full rfl
    have value : v.place ip (placeOf bn) = word (v.data (ip.addrs NDIRECT)) (bn - NDIRECT) := by
      have same : bn + 1 - NDIRECT - 1 = bn - NDIRECT := by omega
      rw [placeOf, if_neg high, place, if_neg (by omega), if_neg indirect, same]
    rw [value] at full ⊢
    rw [if_pos (by rw [MAXFILE] at inside; omega), loadIndirect, if_neg indirect]
    simp only [bind, Except.bind, pure, Except.pure, bmapIndirect, if_neg full]

theorem bmap_meets {bn : Nat} (kept : Kept v node) (filled : Filled v node ext) (inside : bn < MAXFILE)
    (next : bn ≤ ext i) : Meets (v.bmap (node i) bn) (Mapped v node ext i bn)
      (fun e => e = .ballocOutOfBlocks ∧ v.free.card + cost (ext i) < cost (bn + 1)) := by
  have below := placeOf_lt inside
  have present := (filled i).2 (placeOf bn) below
  rw [needs_placeOf] at present
  rcases Nat.lt_or_eq_of_le next with old | last
  · rw [bmap_present inside (present.mpr old)]
    exact Mapped.refl kept filled old
  have missing : v.place (node i) (placeOf bn) = 0 := by
    rw [← not_not (a := v.place (node i) (placeOf bn) = 0), ← ne_eq, present]
    omega
  rw [bmap]
  split
  · rename_i direct
    rw [placeOf, if_pos direct, place, if_pos (Nat.le_of_lt direct)] at missing
    rw [if_pos missing]
    refine Meets.bind ((balloc_meets v).mono (fun _ => id) ?_) ?_
    · rintro e ⟨panic, none⟩
      refine ⟨panic, ?_⟩
      rw [none, Finset.card_empty, cost, cost, if_neg (by omega), if_neg (by omega)]
      omega
    · rintro ⟨b, w⟩ ⟨member, same⟩
      obtain rfl : w = v.taken b := same
      exact Mapped.direct kept filled direct last member
  · rename_i high
    have at_ : placeOf bn = bn + 1 := if_neg high
    have indirect : (node i).addrs NDIRECT ≠ 0 ↔ NDIRECT < ext i := by
      have needed := (filled i).2 NDIRECT (by decide)
      rw [place_indirect] at needed
      rw [needed]
      simp [Needs]
    rw [if_pos (by rw [MAXFILE] at inside; omega)]
    refine Meets.bind ((loadIndirect_meets kept i).mono (fun _ => id) ?_) ?_
    · rintro e ⟨panic, none, empty⟩
      refine ⟨panic, ?_⟩
      have small : ¬ NDIRECT < ext i := fun more => indirect.mpr more empty
      rw [none, Finset.card_empty, cost, cost, if_neg small, if_pos (by omega)]
      omega
    · rintro ⟨ip, w⟩ loaded
      have same := loaded.place i (bn + 1) (at_ ▸ below) (fun _ => by omega)
      have index : bn + 1 - NDIRECT - 1 = bn - NDIRECT := by omega
      rw [Function.update_self, ← at_, missing, at_, place, if_neg (by omega), if_neg loaded.full, index] at same
      dsimp only at same ⊢
      rw [bmapIndirect, if_pos same]
      refine Meets.bind ((balloc_meets w).mono (fun _ => id) ?_) ?_
      · rintro e ⟨panic, none⟩
        refine ⟨panic, ?_⟩
        have before := loaded.count
        simp only [none, Finset.card_empty] at before
        have larger : cost (bn + 1) = bn + 1 + 1 := if_pos (by omega)
        rw [larger, ← before, cost]
        by_cases unset : (node i).addrs NDIRECT = 0
        · rw [if_pos unset, if_neg (fun more => indirect.mpr more unset)]
          omega
        · rw [if_neg unset, if_pos (indirect.mp unset)]
          omega
      · rintro ⟨b, u⟩ ⟨member, same⟩
        obtain rfl : u = w.taken b := same
        exact loaded.entry filled inside (by omega) last member

end Volume
end Fs
end Xv6
