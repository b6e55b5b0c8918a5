import Xv6.Fs.Ownership

/-!
What files hold. A write changes the bytes it is for and no others, in any file; a read
gives the bytes that are there.
-/
namespace Xv6
namespace Fs
namespace Volume

open Runs

variable {v w : Volume} {node : Nat → Dnode} {ext : Nat → Nat} {ip : Dnode} {b i off : Nat} {src : List UInt8}

def byteAt (v : Volume) (ip : Dnode) (k : Nat) : UInt8 := v.data (v.place ip (placeOf (k / BSIZE))) (k % BSIZE)

def blocks (n : Nat) : Nat := (n + BSIZE - 1) / BSIZE

theorem place_setData {p : Nat} (kept : Kept v node) (below : p < PLACES) (other : p ≠ NDIRECT)
    (full : v.place (node i) p ≠ 0) (c : Nat → UInt8) (k q : Nat) :
    (v.setData (v.place (node i) p) c).place (node k) q = v.place (node k) q := by
  have apart : (node k).addrs NDIRECT ≠ v.place (node i) p := by
    intro same
    rw [← place_indirect v] at same
    exact other (kept.once below (by decide) full same.symm).2
  generalize v.place (node i) p = b at apart
  simp only [place, setData, Function.update_of_ne apart]

structure Written (v : Volume) (node : Nat → Dnode) (ext : Nat → Nat) (i off : Nat) (src : List UInt8)
    (r : Nat × Dnode × Volume) : Prop where
  past : r.1 = off + src.length
  kept : Kept r.2.2 (Function.update node i r.2.1)
  filled : Filled r.2.2 (Function.update node i r.2.1)
    (Function.update ext i (max (ext i) (blocks (off + src.length))))
  mine : ∀ k < BSIZE * max (ext i) (blocks (off + src.length)), r.2.2.byteAt r.2.1 k =
    if off ≤ k ∧ k < off + src.length then src[k - off]?.getD 0
    else if k < BSIZE * ext i then v.byteAt (node i) k else 0
  others : ∀ j, j ≠ i → ∀ k < BSIZE * ext j, r.2.2.byteAt (node j) k = v.byteAt (node j) k
  old : blocks (off + src.length) ≤ ext i → r.2.1 = node i
  type : r.2.1.type = (node i).type
  size : r.2.1.size = (node i).size
  sb : r.2.2.sb = v.sb
  dinode : r.2.2.dinode = v.dinode
  count : r.2.2.free.card + cost (max (ext i) (blocks (off + src.length))) = v.free.card + cost (ext i)

theorem index_lt {k n : Nat} (below : k < BSIZE * n) : k / BSIZE < n := Nat.div_lt_of_lt_mul below

theorem Filled.block {bn : Nat} (filled : Filled v node ext) (inside : bn < ext i) :
    placeOf bn < PLACES ∧ v.place (node i) (placeOf bn) ≠ 0 := by
  have below := placeOf_lt (Nat.lt_of_lt_of_le inside (filled i).1)
  exact ⟨below, ((filled i).2 _ below).mpr (needs_placeOf.mpr inside)⟩

theorem Mapped.written (filled : Filled v node ext) (mapped : Mapped v node ext i (off / BSIZE) (b, ip, w))
    (next : off / BSIZE ≤ ext i) (some_ : 0 < src.length) (fits : off % BSIZE + src.length ≤ BSIZE) :
    Written v node ext i off src
      (off + src.length, ip, (w.setData b (overlay (w.data b) (off % BSIZE) src)).log_write b) := by
  have last : max (ext i) (blocks (off + src.length)) = max (ext i) (off / BSIZE + 1) := by
    have round : blocks (off + src.length) = off / BSIZE + 1 := by
      rw [blocks]
      rw [BSIZE] at fits ⊢
      omega
    rw [round]
  have kept := mapped.kept
  have filled' := mapped.filled
  have block : w.place ip (placeOf (off / BSIZE)) = b := mapped.block
  dsimp only at kept filled'
  have mine : Function.update node i ip i = ip := Function.update_self ..
  have inside : off / BSIZE < Function.update ext i (max (ext i) (off / BSIZE + 1)) i := by
    rw [Function.update_self]
    omega
  obtain ⟨below, full⟩ := filled'.block inside
  rw [mine, block] at full
  have data : (w.setData b (overlay (w.data b) (off % BSIZE) src)).data =
      Function.update w.data b (overlay (w.data b) (off % BSIZE) src) := rfl
  have places : ∀ k q, (w.setData b (overlay (w.data b) (off % BSIZE) src)).place (Function.update node i ip k) q =
      w.place (Function.update node i ip k) q := by
    intro k q
    have same := place_setData kept below (placeOf_ne _) (i := i) (by rw [mine, block]; exact full)
      (overlay (w.data b) (off % BSIZE) src) k q
    rwa [mine, block] at same
  -- the block that is written is stored once
  have apart : ∀ k q, q < PLACES → w.place (Function.update node i ip k) q = b → k = i ∧ q = placeOf (off / BSIZE) := by
    intro k q bounded same
    refine kept.once bounded below (by rw [same]; exact full) ?_
    rw [same, mine, block]
  refine ⟨rfl, ?_, ?_, ?_, ?_, ?_, mapped.type, mapped.size, mapped.sb, mapped.dinode, ?_⟩
  · exact kept.congr rfl rfl fun k q _ => places k q
  · rw [last]
    exact filled'.congr fun k q _ => places k q
  · intro k bound
    rw [last] at bound
    have place' := places i (placeOf (k / BSIZE))
    rw [mine] at place'
    have value : ((w.setData b (overlay (w.data b) (off % BSIZE) src)).log_write b).byteAt ip k =
        Function.update w.data b (overlay (w.data b) (off % BSIZE) src) (w.place ip (placeOf (k / BSIZE)))
          (k % BSIZE) := by
      rw [← place']
      rfl
    rw [value]
    by_cases here : k / BSIZE = off / BSIZE
    · rw [here, block, Function.update_self, overlay]
      have position : off ≤ k ∧ k < off + src.length ↔
          off % BSIZE ≤ k % BSIZE ∧ k % BSIZE - off % BSIZE < src.length := by
        rw [BSIZE] at here ⊢
        omega
      by_cases hit : off ≤ k ∧ k < off + src.length
      · obtain ⟨low, high⟩ := position.mp hit
        have index : k % BSIZE - off % BSIZE = k - off := by
          rw [BSIZE] at here ⊢
          omega
        rw [if_pos low, if_pos hit, ← index, List.getElem?_eq_getElem high]
        rfl
      · have miss : (if off % BSIZE ≤ k % BSIZE then src[k % BSIZE - off % BSIZE]?.getD (w.data b (k % BSIZE))
            else w.data b (k % BSIZE)) = w.data b (k % BSIZE) := by
          split
          · rename_i low
            rw [List.getElem?_eq_none (not_lt.mp fun high => hit (position.mpr ⟨low, high⟩))]
            rfl
          · rfl
        rw [miss, if_neg hit]
        by_cases present : off / BSIZE < ext i
        · obtain ⟨rfl, rfl⟩ := mapped.old present
          rw [if_pos (by rw [BSIZE] at here present ⊢; omega), byteAt, here, block]
        · rw [if_neg (by rw [BSIZE] at here present ⊢; omega), mapped.zero (by omega)]
    · have present : k / BSIZE < ext i := by
        have index := index_lt bound
        omega
      obtain ⟨bounded, stored⟩ := filled.block present
      obtain ⟨place'', data''⟩ := mapped.frame i _ bounded (placeOf_ne _) stored
      dsimp only at place'' data''
      rw [mine] at place''
      have elsewhere : w.place ip (placeOf (k / BSIZE)) ≠ b := by
        intro same
        have equal := (apart i _ bounded (by rw [mine]; exact same)).2
        have injective : k / BSIZE = off / BSIZE := by
          simp only [placeOf] at equal
          split at equal <;> split at equal <;> omega
        exact here injective
      have outside : ¬ (off ≤ k ∧ k < off + src.length) := by
        rw [BSIZE] at here fits
        omega
      have low : k < BSIZE * ext i := by
        rw [BSIZE] at present ⊢
        omega
      rw [Function.update_of_ne elsewhere, place'', data'', if_neg outside, if_pos low]
      rfl
  · intro j other k bound
    obtain ⟨bounded, stored⟩ := filled.block (index_lt bound)
    obtain ⟨place', data'⟩ := mapped.frame j _ bounded (placeOf_ne _) stored
    dsimp only at place' data'
    have same := places j (placeOf (k / BSIZE))
    rw [Function.update_of_ne other] at place' same
    have elsewhere : w.place (node j) (placeOf (k / BSIZE)) ≠ b := by
      intro equal
      exact other (apart j _ bounded (by rw [Function.update_of_ne other]; exact equal)).1
    have value : ((w.setData b (overlay (w.data b) (off % BSIZE) src)).log_write b).byteAt (node j) k =
        Function.update w.data b (overlay (w.data b) (off % BSIZE) src) (w.place (node j) (placeOf (k / BSIZE)))
          (k % BSIZE) := by
      rw [← same]
      rfl
    rw [value, Function.update_of_ne elsewhere, place', data']
    rfl
  · intro present
    rw [max_eq_left present] at last
    exact (mapped.old (by omega)).1
  · rw [last]
    exact mapped.count

theorem blocks_mono {m n : Nat} (le : m ≤ n) : blocks m ≤ blocks n := by
  rw [blocks, blocks, BSIZE]
  omega

theorem blocks_le {n k : Nat} : blocks n ≤ k ↔ n ≤ BSIZE * k := by
  rw [blocks, BSIZE]
  omega

theorem cost_mono {m n : Nat} (le : m ≤ n) : cost m ≤ cost n := by
  simp only [cost]
  split <;> split <;> omega

theorem Written.nil (kept : Kept v node) (filled : Filled v node ext) (inside : off ≤ BSIZE * ext i) :
    Written v node ext i off [] (off, node i, v) := by
  have same : max (ext i) (blocks (off + ([] : List UInt8).length)) = ext i := max_eq_left (blocks_le.mpr inside)
  refine ⟨rfl, by simpa using kept, ?_, ?_, fun _ _ _ _ => rfl, fun _ => rfl, rfl, rfl, rfl, rfl, ?_⟩
  · rw [same]
    simpa using filled
  · intro k below
    rw [same] at below
    rw [if_neg (by simp), if_pos below]
  · rw [same]

theorem Written.trans {more : List UInt8} {o : Nat} {r : Nat × Dnode × Volume}
    (first : Written v node ext i off src (o, ip, w))
    (second : Written w (Function.update node i ip)
      (Function.update ext i (max (ext i) (blocks (off + src.length)))) i (off + src.length) more r) :
    Written v node ext i off (src ++ more) r := by
  obtain ⟨past, kept, filled, mine, others, old, type, size, sb, dinode, count⟩ := second
  simp only [Function.update_self, Function.update_idem] at kept filled mine old type size count
  have total : off + src.length + more.length = off + (src ++ more).length := by
    rw [List.length_append]
    omega
  have larger : blocks (off + src.length) ≤ blocks (off + src.length + more.length) := blocks_mono (by omega)
  have final : max (max (ext i) (blocks (off + src.length))) (blocks (off + src.length + more.length)) =
      max (ext i) (blocks (off + (src ++ more).length)) := by
    rw [← total]
    omega
  rw [final] at filled mine count
  refine ⟨by rw [past, total], kept, filled, ?_, ?_, ?_, type.trans first.type, size.trans first.size,
    sb.trans first.sb, dinode.trans first.dinode, count.trans first.count⟩
  · intro k below
    rw [mine k below]
    by_cases late : off + src.length ≤ k ∧ k < off + src.length + more.length
    · rw [if_pos late, if_pos (by rw [List.length_append]; omega), List.getElem?_append_right (by omega)]
      have index : k - off - src.length = k - (off + src.length) := by omega
      rw [index]
    · rw [if_neg late]
      by_cases early : k < BSIZE * max (ext i) (blocks (off + src.length))
      · rw [if_pos early, first.mine k early]
        by_cases hit : off ≤ k ∧ k < off + src.length
        · rw [if_pos hit, if_pos (by rw [List.length_append]; omega), List.getElem?_append_left (by omega)]
        · have miss : ¬ (off ≤ k ∧ k < off + (src ++ more).length) := by
            rw [List.length_append]
            omega
          rw [if_neg hit, if_neg miss]
      · have reach : off + src.length ≤ BSIZE * max (ext i) (blocks (off + src.length)) :=
          blocks_le.mp (le_max_right _ _)
        have low : BSIZE * ext i ≤ BSIZE * max (ext i) (blocks (off + src.length)) :=
          Nat.mul_le_mul_left _ (le_max_left _ _)
        have miss : ¬ (off ≤ k ∧ k < off + (src ++ more).length) := by
          rw [List.length_append]
          omega
        rw [if_neg early, if_neg miss, if_neg (by omega)]
  · intro j other k below
    have same := others j other k (by rw [Function.update_of_ne other]; exact below)
    rw [Function.update_of_ne other] at same
    rw [same, first.others j other k below]
  · intro present
    rw [← total] at present
    exact (old (by omega)).trans (first.old (by omega))

theorem writeLoop_meets (n : Nat) : ∀ (v : Volume) (node : Nat → Dnode) (ext : Nat → Nat) (off : Nat)
    (src : List UInt8), src.length ≤ n → Kept v node → Filled v node ext → off ≤ BSIZE * ext i →
    off + src.length ≤ MAXFILE * BSIZE → Meets (writeLoop n v (node i) off src) (Written v node ext i off src)
      (fun e => e = .ballocOutOfBlocks ∧
        v.free.card + cost (ext i) < cost (max (ext i) (blocks (off + src.length)))) := by
  induction n with
  | zero =>
    intro v node ext off src short kept filled inside _
    obtain rfl : src = [] := List.length_eq_zero_iff.mp (by omega)
    exact Written.nil kept filled inside
  | succ n ih =>
    intro v node ext off src short kept filled inside fits
    rw [writeLoop]
    split
    · rename_i empty
      subst empty
      exact Written.nil kept filled inside
    · rename_i nonempty
      have positive : 0 < src.length := List.length_pos_iff.mpr nonempty
      have next : off / BSIZE ≤ ext i := by
        rw [BSIZE] at inside ⊢
        omega
      have bound : off / BSIZE < MAXFILE := by
        rw [BSIZE] at fits ⊢
        omega
      have reach : off / BSIZE + 1 ≤ blocks (off + src.length) := by
        rw [blocks, BSIZE]
        omega
      refine Meets.bind ((bmap_meets kept filled bound next).mono (fun _ => id) ?_) ?_
      · rintro e ⟨panic, lacking⟩
        have larger : cost (off / BSIZE + 1) ≤ cost (max (ext i) (blocks (off + src.length))) :=
          cost_mono (by omega)
        exact ⟨panic, by omega⟩
      · rintro ⟨b, ip, w⟩ mapped
        dsimp only
        generalize size : min src.length (BSIZE - off % BSIZE) = m
        have rest : off % BSIZE < BSIZE := Nat.mod_lt _ (by decide)
        have taken : (src.take m).length = m := by
          rw [List.length_take]
          omega
        have within : off % BSIZE + (src.take m).length ≤ BSIZE := by omega
        have round := mapped.written filled next (by omega) within
        have whole : src.take m ++ src.drop m = src := List.take_append_drop m src
        have offset : off + m = off + (src.take m).length := by rw [taken]
        have total : off + (src.take m).length + (src.drop m).length = off + src.length := by
          rw [taken, List.length_drop]
          omega
        have again := ih ((w.setData b (overlay (w.data b) (off % BSIZE) (src.take m))).log_write b)
          (Function.update node i ip) (Function.update ext i (max (ext i) (blocks (off + (src.take m).length))))
          (off + (src.take m).length) (src.drop m) (by rw [List.length_drop]; omega) round.kept round.filled
          (by rw [Function.update_self]; exact blocks_le.mp (le_max_right _ _)) (by rw [total]; exact fits)
        rw [Function.update_self] at again
        rw [offset]
        refine again.mono ?_ ?_
        · intro r second
          have both := round.trans second
          rwa [whole] at both
        · rintro e ⟨panic, lacking⟩
          have before := round.count
          simp only [Function.update_self, total] at lacking before
          have larger : blocks (off + (src.take m).length) ≤ blocks (off + src.length) := blocks_mono (by omega)
          have same : max (max (ext i) (blocks (off + (src.take m).length))) (blocks (off + src.length)) =
              max (ext i) (blocks (off + src.length)) := by omega
          rw [same] at lacking
          exact ⟨panic, by omega⟩

theorem readLoop_eq {top : Nat} (present : ∀ bn < top, v.place ip (placeOf bn) ≠ 0) (bound : top ≤ MAXFILE)
    (n off rest : Nat) (enough : rest ≤ n) (inside : off + rest ≤ BSIZE * top) :
    readLoop n v ip off rest = .ok ((List.range rest).map fun k => v.byteAt ip (off + k), ip, v) := by
  induction n generalizing off rest with
  | zero =>
    obtain rfl : rest = 0 := by omega
    rfl
  | succ n ih =>
    rw [readLoop]
    split
    · rename_i done
      subst done
      rfl
    · rename_i more
      have block : off / BSIZE < top := by
        rw [BSIZE] at inside ⊢
        omega
      rw [bmap_present (Nat.lt_of_lt_of_le block bound) (present _ block)]
      generalize size : min rest (BSIZE - off % BSIZE) = m
      have low : off % BSIZE < BSIZE := Nat.mod_lt _ (by decide)
      have piece : ((List.range m).map fun k => v.data (v.place ip (placeOf (off / BSIZE))) (off % BSIZE + k)) =
          (List.range m).map fun k => v.byteAt ip (off + k) := by
        refine List.map_congr_left fun k member => ?_
        have short := List.mem_range.mp member
        have quotient : (off + k) / BSIZE = off / BSIZE ∧ (off + k) % BSIZE = off % BSIZE + k := by
          rw [BSIZE] at size low ⊢
          omega
        rw [byteAt, quotient.1, quotient.2]
      have again := ih (off + m) (rest - m) (by omega) (by omega)
      simp only [bind, Except.bind, again, piece, pure, Except.pure]
      have whole : List.range rest = List.range m ++ (List.range (rest - m)).map (m + ·) := by
        rw [← List.range_add]
        congr 1
        omega
      rw [whole, List.map_append, List.map_map]
      simp [Function.comp_def, Nat.add_assoc]

end Volume
end Fs
end Xv6
