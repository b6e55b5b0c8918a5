import Xv6.Lib.Runs
import Xv6.Fs.Contents

/-!
Files and directories over whole runs. Between two calls every valid cached inode agrees
with the disk, a file of n bytes has its first blocks and no others, and bitmap and block
numbers are exact; so truncation never meets a free block, and files are byte arrays.
-/
namespace Xv6
namespace Fs

open Runs

namespace Volume

variable {v w : Volume} {node : Nat → Dnode} {ext : Nat → Nat} {ip : Dnode} {b i : Nat} {g : Nat × Nat → Nat}

/-- The bitmap is exact for the slots g; nothing else of the volume has changed since v. -/
structure Freed (v : Volume) (g : Nat × Nat → Nat) (w : Volume) : Prop where
  exact_ : Slots.Exact (dataStart v.sb) v.sb.size w.used g
  metadata : ∀ b < dataStart v.sb, w.used b = true
  sb : w.sb = v.sb
  data : w.data = v.data
  dinode : w.dinode = v.dinode

theorem Freed.bfree (freed : Freed v g w) (x : Nat × Nat) (full : g x ≠ 0) :
    Returns (w.bfree (g x)) (Freed v (Function.update g x 0)) := by
  obtain ⟨above, -, marked⟩ := freed.exact_.stored x full
  rw [Volume.bfree, if_neg (by simp [marked])]
  refine Returns.ok ⟨freed.exact_.free rfl full, ?_, freed.sb, freed.data, freed.dinode⟩
  intro c low
  have other : c ≠ g x := by omega
  simpa [setUsed, log_write, Function.update_of_ne other] using freed.metadata c low

def cleared (g : Nat × Nat → Nat) (i : Nat) (places : List Nat) (x : Nat × Nat) : Nat :=
  if x.1 = i ∧ x.2 ∈ places then 0 else g x

theorem cleared_cons (g : Nat × Nat → Nat) (i p : Nat) (places : List Nat) :
    cleared (Function.update g (i, p) 0) i places = cleared g i (p :: places) := by
  funext ⟨k, q⟩
  simp only [cleared, List.mem_cons, Function.update_apply, Prod.mk.injEq]
  by_cases here : k = i <;> by_cases same : q = p <;> by_cases member : q ∈ places <;> simp [here, same, member]

theorem cleared_zero {p : Nat} {places : List Nat} (empty : g (i, p) = 0) :
    cleared g i places = cleared g i (p :: places) := by
  rw [← cleared_cons, ← empty, Function.update_eq_self]

theorem Freed.freeDirect {places : List Nat} (nodup : places.Nodup) (freed : Freed v g w)
    (values : ∀ p ∈ places, g (i, p) = ip.addrs p) : Returns (freeDirect places w ip) fun r =>
      Freed v (cleared g i places) r.2 ∧ r.1.type = ip.type ∧
        ∀ p, r.1.addrs p = if p ∈ places then 0 else ip.addrs p := by
  induction places generalizing g w ip with
  | nil =>
    have same : cleared g i [] = g := by
      funext x
      simp [cleared]
    exact Returns.ok ⟨by rwa [same], rfl, fun p => by simp⟩
  | cons p places ih =>
    obtain ⟨absent, nodup⟩ := List.nodup_cons.mp nodup
    have here := values p List.mem_cons_self
    rw [Volume.freeDirect]
    split
    · rename_i empty
      rw [← cleared_zero (here.trans empty)]
      refine (ih nodup freed fun q member => values q (List.mem_cons_of_mem p member)).mono ?_
      rintro ⟨ip', u⟩ ⟨freed', type, addrs⟩
      refine ⟨freed', type, fun q => ?_⟩
      by_cases same : q = p
      · subst same
        rw [addrs q, if_neg absent, if_pos List.mem_cons_self, empty]
      · rw [addrs q]
        simp [same]
    · rename_i full
      rw [← here] at full ⊢
      refine Returns.bind (freed.bfree (i, p) full) ?_
      intro u freed'
      rw [← cleared_cons]
      refine (ih nodup freed' fun q member => ?_).mono ?_
      · have other : q ≠ p := by
          rintro rfl
          exact absent member
        have same : (i, q) ≠ (i, p) := by simp [other]
        rw [Function.update_of_ne same, values q (List.mem_cons_of_mem p member)]
        simp [Dnode.setAddr, Function.update_of_ne other]
      · rintro ⟨ip', u'⟩ ⟨freed'', type, addrs⟩
        refine ⟨freed'', type, fun q => ?_⟩
        rw [addrs q]
        by_cases same : q = p
        · simp [same, Dnode.setAddr]
        · simp [same, Dnode.setAddr]

theorem Freed.freeEntries {a : Nat → UInt8} {js : List Nat} (nodup : js.Nodup) (freed : Freed v g w)
    (values : ∀ j ∈ js, g (i, NDIRECT + 1 + j) = word a j) : Returns (freeEntries a js w)
      (Freed v (cleared g i (js.map (NDIRECT + 1 + ·)))) := by
  induction js generalizing g w with
  | nil =>
    have same : cleared g i [] = g := by
      funext x
      simp [cleared]
    exact Returns.ok (by rwa [List.map_nil, same])
  | cons j js ih =>
    obtain ⟨absent, nodup⟩ := List.nodup_cons.mp nodup
    have here := values j List.mem_cons_self
    rw [Volume.freeEntries, List.map_cons]
    split
    · rename_i empty
      rw [← cleared_zero (here.trans empty)]
      exact ih nodup freed fun k member => values k (List.mem_cons_of_mem j member)
    · rename_i full
      rw [← here] at full ⊢
      refine Returns.bind (freed.bfree _ full) ?_
      intro u freed'
      rw [← cleared_cons]
      refine ih nodup freed' fun k member => ?_
      have other : (i, NDIRECT + 1 + k) ≠ (i, NDIRECT + 1 + j) := by
        intro same
        rw [Prod.mk.injEq] at same
        obtain rfl : k = j := by omega
        exact absent member
      rw [Function.update_of_ne other, values k (List.mem_cons_of_mem j member)]

theorem Freed.freeIndirect (freed : Freed v g w) (ip : Dnode) (i : Nat) (indirect : g (i, NDIRECT) = ip.addrs NDIRECT)
    (entries : ∀ j < NINDIRECT, g (i, NDIRECT + 1 + j) =
      if ip.addrs NDIRECT = 0 then 0 else word (v.data (ip.addrs NDIRECT)) j) :
    Returns (w.freeIndirect ip) fun r => Freed v
      (cleared g i (NDIRECT :: (List.range NINDIRECT).map (NDIRECT + 1 + ·))) r.2 ∧ r.1.type = ip.type ∧
        ∀ p, r.1.addrs p = if p = NDIRECT then 0 else ip.addrs p := by
  rw [Volume.freeIndirect]
  split
  · rename_i empty
    refine Returns.ok ⟨?_, rfl, fun p => ?_⟩
    · have same : cleared g i (NDIRECT :: (List.range NINDIRECT).map (NDIRECT + 1 + ·)) = g := by
        funext ⟨k, q⟩
        rw [cleared]
        split
        · rename_i both
          obtain ⟨rfl, member⟩ := both
          rcases List.mem_cons.mp member with rfl | member
          · rw [indirect, empty]
          · obtain ⟨j, inside, rfl⟩ := List.mem_map.mp member
            rw [entries j (List.mem_range.mp inside), if_pos empty]
        · rfl
      rwa [same]
    · by_cases same : p = NDIRECT
      · rw [if_pos same, same, empty]
      · rw [if_neg same]
  · rename_i full
    refine Returns.bind (freed.freeEntries (i := i) List.nodup_range fun j member => ?_) ?_
    · rw [entries j (List.mem_range.mp member), if_neg full, freed.data]
    · intro u freed'
      have value : cleared g i ((List.range NINDIRECT).map (NDIRECT + 1 + ·)) (i, NDIRECT) = ip.addrs NDIRECT := by
        rw [cleared, if_neg, indirect]
        rintro ⟨-, member⟩
        obtain ⟨j, -, same⟩ := List.mem_map.mp member
        omega
      have last := freed'.bfree (i, NDIRECT) (by rw [value]; exact full)
      rw [value] at last
      refine Returns.bind last ?_
      intro u' freed''
      have same : Function.update (cleared g i ((List.range NINDIRECT).map (NDIRECT + 1 + ·))) (i, NDIRECT) 0 =
          cleared g i (NDIRECT :: (List.range NINDIRECT).map (NDIRECT + 1 + ·)) := by
        funext ⟨k, q⟩
        simp only [cleared, Function.update_apply, List.mem_cons, Prod.mk.injEq]
        by_cases here : k = i <;> by_cases block : q = NDIRECT <;> simp [here, block]
      rw [same] at freed''
      exact Returns.ok ⟨freed'', rfl, fun p => Function.update_apply ..⟩

theorem itrunc_returns (kept : Kept v node) (i : Nat) : Returns (v.itrunc i (node i)) fun r =>
    (∀ p ≤ NDIRECT, r.1.addrs p = 0) ∧ r.1.size = 0 ∧ r.1.type = (node i).type ∧
      Kept r.2 (Function.update node i r.1) ∧ r.2.sb = v.sb ∧ r.2.data = v.data ∧
      r.2.dinode = Function.update v.dinode i r.1 := by
  have start : Freed v (v.slot node) v := ⟨kept.exact_, kept.metadata, rfl, rfl, rfl⟩
  have direct : ∀ p ≤ NDIRECT, v.slot node (i, p) = (node i).addrs p := by
    intro p inside
    rw [slot_eq (Nat.lt_of_le_of_lt inside (by decide)), place, if_pos inside]
  refine Returns.bind (start.freeDirect List.nodup_range (i := i)
    fun p member => direct p (Nat.le_of_lt (List.mem_range.mp member))) ?_
  rintro ⟨ip, w⟩ ⟨freed, type, addrs⟩
  dsimp only at freed type addrs
  have same : ip.addrs NDIRECT = (node i).addrs NDIRECT := by
    rw [addrs, if_neg (by simp)]
  have skip : ∀ q, NDIRECT ≤ q → cleared (v.slot node) i (List.range NDIRECT) (i, q) = v.slot node (i, q) := by
    intro q high
    rw [cleared, if_neg]
    rintro ⟨-, member⟩
    have low := List.mem_range.mp member
    omega
  refine Returns.bind (freed.freeIndirect ip i ?_ ?_) ?_
  · rw [skip _ (Nat.le_refl _), direct _ (Nat.le_refl _), same]
  · intro j inside
    have index : NDIRECT + 1 + j - NDIRECT - 1 = j := by omega
    rw [skip _ (by omega), slot_eq (Nat.add_lt_add_left inside _), place, if_neg (by omega), same, index]
  · rintro ⟨ip', w'⟩ ⟨freed', type', addrs'⟩
    dsimp only at freed' type' addrs'
    have zero : ∀ p ≤ NDIRECT, ip'.addrs p = 0 := by
      intro p inside
      rw [addrs', addrs]
      by_cases last : p = NDIRECT
      · rw [if_pos last]
      · rw [if_neg last, if_pos (List.mem_range.mpr (by omega))]
    have slots : (w'.iupdate i { ip' with size := 0 }).slot (Function.update node i { ip' with size := 0 }) =
        cleared (cleared (v.slot node) i (List.range NDIRECT)) i
          (NDIRECT :: (List.range NINDIRECT).map (NDIRECT + 1 + ·)) := by
      funext place
      obtain ⟨k, q⟩ := place
      have data : (w'.iupdate i { ip' with size := 0 }).data = v.data := freed'.data
      by_cases here : k = i
      · subst here
        have empty : (w'.iupdate k { ip' with size := 0 }).place { ip' with size := 0 } q = 0 := by
          rw [place]
          split
          · rename_i inside
            exact zero q inside
          · rw [if_pos (zero NDIRECT (Nat.le_refl _))]
        rw [slot, Function.update_self, empty, ite_self, cleared, cleared]
        by_cases bounded : q < PLACES
        · by_cases low : q < NDIRECT
          · simp [low]
          · rw [if_pos]
            refine ⟨rfl, ?_⟩
            rcases Nat.lt_or_ge NDIRECT q with above | below
            · refine List.mem_cons_of_mem _ (List.mem_map.mpr ⟨q - NDIRECT - 1, List.mem_range.mpr ?_, by omega⟩)
              rw [PLACES] at bounded
              omega
            · rw [Nat.le_antisymm below (by omega)]
              exact List.mem_cons_self
        · rw [slot, if_neg bounded]
          simp
      · rw [cleared, if_neg (fun both => here both.1), cleared, if_neg (fun both => here both.1), slot, slot]
        simp only [Function.update_of_ne here, place, data]
    refine Returns.ok ⟨zero, rfl, type'.trans type, ⟨?_, ?_, ?_⟩, freed'.sb, freed'.data, ?_⟩
    · rw [slots]
      have exact_ := freed'.exact_
      rwa [← freed'.sb] at exact_
    · have metadata := freed'.metadata
      rwa [← freed'.sb] at metadata
    · have small := kept.small
      rwa [← freed'.sb] at small
    · rw [← freed'.dinode]
      rfl

structure Sound (v : Volume) : Prop where
  kept : Kept v v.dinode
  filled : Filled v v.dinode fun i => blocks (v.dinode i).size

def contents (v : Volume) (i : Nat) : List UInt8 := (List.range (v.dinode i).size).map (v.byteAt (v.dinode i))

def patch (l : List UInt8) (off : Nat) (src : List UInt8) : List UInt8 :=
  l.take off ++ src ++ l.drop (off + src.length)

theorem getElem?_patch {l src : List UInt8} {off : Nat} (inside : off ≤ l.length) (k : Nat) :
    (patch l off src)[k]? = if off ≤ k ∧ k < off + src.length then src[k - off]? else l[k]? := by
  have front : (l.take off).length = off := by
    rw [List.length_take]
    omega
  rw [patch, List.append_assoc]
  rcases Nat.lt_or_ge k off with before | after
  · rw [List.getElem?_append_left (by omega), List.getElem?_take_of_lt before, if_neg (by omega)]
  · rw [List.getElem?_append_right (by omega), front]
    by_cases hit : k < off + src.length
    · rw [List.getElem?_append_left (by omega), if_pos ⟨after, hit⟩]
    · rw [List.getElem?_append_right (by omega), List.getElem?_drop, if_neg (by omega)]
      congr 1
      omega

theorem contents_length (v : Volume) (i : Nat) : (v.contents i).length = (v.dinode i).size := by
  rw [contents, List.length_map, List.length_range]

theorem getElem?_contents (v : Volume) (i k : Nat) :
    (v.contents i)[k]? = if k < (v.dinode i).size then some (v.byteAt (v.dinode i) k) else none := by
  rw [contents, List.getElem?_map]
  split
  · rename_i inside
    rw [List.getElem?_range inside]
    rfl
  · rename_i outside
    rw [List.getElem?_eq_none (by rw [List.length_range]; omega)]
    rfl

def Refused (size off n : Nat) : Prop := off > size ∨ 2 ^ 32 ≤ off + n ∨ off + n > MAXFILE * BSIZE

structure Stored (v : Volume) (i off : Nat) (src : List UInt8) (ip : Dnode) (w : Volume) : Prop where
  sound : Sound w
  sb : w.sb = v.sb
  dinode : w.dinode = Function.update v.dinode i ip
  type : ip.type = (v.dinode i).type
  size : ip.size = max (v.dinode i).size (off + src.length)
  mine : w.contents i = patch (v.contents i) off src
  others : ∀ j, j ≠ i → w.contents j = v.contents j

theorem Written.stored {off o : Nat} {src : List UInt8} (inside : off ≤ (v.dinode i).size)
    (written : Written v v.dinode (fun k => blocks (v.dinode k).size) i off src (o, ip, w)) (ip' : Dnode) (w' : Volume)
    (addrs : ip'.addrs = ip.addrs) (type : ip'.type = ip.type)
    (size : ip'.size = max (v.dinode i).size (off + src.length)) (data : w'.data = w.data) (used : w'.used = w.used)
    (sb : w'.sb = w.sb) (dinode : w'.dinode = Function.update v.dinode i ip') : Stored v i off src ip' w' := by
  have places : ∀ k q, w'.place (Function.update v.dinode i ip' k) q = w.place (Function.update v.dinode i ip k) q := by
    intro k q
    by_cases here : k = i
    · subst here
      simp only [Function.update_self, place, addrs, data]
    · simp only [Function.update_of_ne here, place, data]
  have extents : (fun k => blocks (w'.dinode k).size) = Function.update (fun k => blocks (v.dinode k).size) i
      (max (blocks (v.dinode i).size) (blocks (off + src.length))) := by
    funext k
    by_cases here : k = i
    · subst here
      rw [dinode, Function.update_self, Function.update_self, size]
      rcases Nat.le_total (v.dinode k).size (off + src.length) with more | less
      · rw [max_eq_right more, max_eq_right (blocks_mono more)]
      · rw [max_eq_left less, max_eq_left (blocks_mono less)]
    · rw [dinode, Function.update_of_ne here, Function.update_of_ne here]
  have bytes : ∀ k, w'.byteAt ip' k = w.byteAt ip k := by
    intro k
    simp only [byteAt, place, addrs, data]
  refine ⟨⟨?_, ?_⟩, sb.trans written.sb, dinode, type.trans written.type, size, ?_, ?_⟩
  · rw [dinode]
    exact written.kept.congr sb used fun k q _ => places k q
  · rw [extents, dinode]
    exact written.filled.congr fun k q _ => places k q
  · refine List.ext_getElem? fun k => ?_
    rw [getElem?_patch (by rw [contents_length]; exact inside), getElem?_contents, getElem?_contents, dinode,
      Function.update_self, size, bytes]
    by_cases below : k < max (v.dinode i).size (off + src.length)
    · have reach : max (v.dinode i).size (off + src.length) ≤
          BSIZE * max (blocks (v.dinode i).size) (blocks (off + src.length)) :=
        Nat.max_le.mpr ⟨blocks_le.mp (le_max_left _ _), blocks_le.mp (le_max_right _ _)⟩
      have value := written.mine k (Nat.lt_of_lt_of_le below reach)
      dsimp only at value
      rw [if_pos below, value]
      by_cases hit : off ≤ k ∧ k < off + src.length
      · rw [if_pos hit, if_pos hit, List.getElem?_eq_getElem (by omega)]
        rfl
      · have low : k < (v.dinode i).size := by omega
        have room : (v.dinode i).size ≤ BSIZE * blocks (v.dinode i).size := blocks_le.mp (Nat.le_refl _)
        rw [if_neg hit, if_neg hit, if_pos low, if_pos (by omega)]
    · rw [if_neg below, if_neg (by omega), if_neg (by omega)]
  · intro j other
    refine List.ext_getElem? fun k => ?_
    rw [getElem?_contents, getElem?_contents, dinode, Function.update_of_ne other]
    split
    · rename_i below
      have room : (v.dinode j).size ≤ BSIZE * blocks (v.dinode j).size := blocks_le.mp (Nat.le_refl _)
      have same := written.others j other k (by omega)
      dsimp only at same
      have value : w'.byteAt (v.dinode j) k = w.byteAt (v.dinode j) k := by simp only [byteAt, place, data]
      rw [value, same]
    · rfl

theorem writei_meets (sound : Sound v) (i : Nat) (plain : (v.dinode i).type ≠ .dev) {off : Nat} {src : List UInt8}
    (word_ : off < 2 ^ 32) (short : src.length < 2 ^ 32) : Meets (v.writei i (v.dinode i) off src)
      (fun r => (r = (false, v.dinode i, v) ∧ Refused (v.dinode i).size off src.length) ∨
        (r.1 = true ∧ ¬ Refused (v.dinode i).size off src.length ∧ Stored v i off src r.2.1 r.2.2))
      (fun e => e = .ballocOutOfBlocks ∧ ¬ Refused (v.dinode i).size off src.length ∧
        v.free.card + cost (blocks (v.dinode i).size) <
          cost (blocks (max (v.dinode i).size (off + src.length)))) := by
  have most : MAXFILE * BSIZE < 2 ^ 32 := by decide
  rw [writei, if_neg plain]
  split
  · rename_i bad
    refine Or.inl ⟨rfl, bad.imp_right fun wraps => Or.inl ?_⟩
    by_contra fits
    rw [Nat.mod_eq_of_lt (by omega)] at wraps
    omega
  · rename_i good
    push Not at good
    obtain ⟨inside, noWrap⟩ := good
    have sum : off + src.length < 2 ^ 32 := by
      by_contra wraps
      have less : (off + src.length) % 2 ^ 32 < off := by omega
      omega
    rw [Nat.mod_eq_of_lt sum]
    split
    · rename_i long
      exact Or.inl ⟨rfl, Or.inr (Or.inr long)⟩
    · rename_i fits
      have accepted : ¬ Refused (v.dinode i).size off src.length := by
        rintro (past | wraps | long) <;> omega
      have room : (v.dinode i).size ≤ BSIZE * blocks (v.dinode i).size := blocks_le.mp (Nat.le_refl _)
      refine Meets.bind ((writeLoop_meets (i := i) src.length v v.dinode (fun k => blocks (v.dinode k).size) off src
        (Nat.le_refl _) sound.kept sound.filled (by omega) (by omega)).mono (fun _ => id) ?_) ?_
      · rintro e ⟨panic, lacking⟩
        refine ⟨panic, accepted, Nat.lt_of_lt_of_le lacking (cost_mono (Nat.max_le.mpr ⟨?_, ?_⟩))⟩
        · exact blocks_mono (le_max_left _ _)
        · exact blocks_mono (le_max_right _ _)
      · rintro ⟨o, ip, w⟩ written
        have past : o = off + src.length := written.past
        have size : ip.size = (v.dinode i).size := written.size
        have dinode : w.dinode = v.dinode := written.dinode
        dsimp only
        split
        · rename_i grows
          refine Or.inr ⟨rfl, accepted, written.stored inside _ _ rfl rfl ?_ rfl rfl rfl ?_⟩
          · dsimp only
            omega
          · rw [← dinode]
            rfl
        · rename_i stays
          have inner : off + src.length ≤ (v.dinode i).size := by
            rcases Nat.eq_zero_or_pos src.length with empty | positive
            · omega
            · by_contra more
              exact stays ⟨positive, by omega⟩
          have same : ip = v.dinode i := written.old (blocks_mono inner)
          refine Or.inr ⟨rfl, accepted, written.stored inside _ _ rfl rfl ?_ rfl rfl rfl ?_⟩
          · rw [size, max_eq_left inner]
          · rw [dinode, same, Function.update_eq_self]

theorem readi_eq (sound : Sound v) (i : Nat) (plain : (v.dinode i).type ≠ .dev) {off n : Nat}
    (word_ : off < 2 ^ 32) (short : n < 2 ^ 32) : v.readi (v.dinode i) off n =
      .ok (if off > (v.dinode i).size ∨ 2 ^ 32 ≤ off + n then none else some (((v.contents i).drop off).take n),
        v.dinode i, v) := by
  rw [readi, if_neg plain]
  have wraps : off > (v.dinode i).size ∨ (off + n) % 2 ^ 32 < off ↔
      off > (v.dinode i).size ∨ 2 ^ 32 ≤ off + n := by omega
  by_cases bad : off > (v.dinode i).size ∨ 2 ^ 32 ≤ off + n
  · rw [if_pos (wraps.mpr bad), if_pos bad]
    rfl
  · rw [if_neg (fun h => bad (wraps.mp h)), if_neg bad]
    push Not at bad
    obtain ⟨inside, sum⟩ := bad
    rw [Nat.mod_eq_of_lt sum]
    generalize count : (if off + n > (v.dinode i).size then (v.dinode i).size - off else n) = m
    have total : off + m ≤ (v.dinode i).size := by
      split at count <;> omega
    have room : (v.dinode i).size ≤ BSIZE * blocks (v.dinode i).size := blocks_le.mp (Nat.le_refl _)
    have allocated : ∀ bn < blocks (v.dinode i).size, _ := fun bn present => (sound.filled.block (i := i) present).2
    have loop := readLoop_eq allocated (sound.filled i).1 m off m (Nat.le_refl _) (by omega)
    simp only [bind, Except.bind, loop, pure, Except.pure]
    have bytes : (List.range m).map (fun k => v.byteAt (v.dinode i) (off + k)) = ((v.contents i).drop off).take n := by
      refine List.ext_getElem? fun k => ?_
      rw [List.getElem?_take, List.getElem?_drop, getElem?_contents, List.getElem?_map]
      by_cases below : k < m
      · have short' : k < n := by split at count <;> omega
        rw [List.getElem?_range below, if_pos short', if_pos (by omega)]
        rfl
      · rw [List.getElem?_eq_none (by rw [List.length_range]; omega)]
        split
        · rename_i low
          rw [if_neg (by split at count <;> omega)]
          rfl
        · rfl
    rw [bytes]

theorem not_needs_zero (p : Nat) : ¬ Needs (blocks 0) p := by
  have zero : blocks 0 = 0 := rfl
  rw [Needs, zero]
  split
  · omega
  · split <;> omega

theorem Sound.no_place (sound : Sound v) (empty : (v.dinode i).size = 0) {p : Nat} (below : p < PLACES) :
    v.place (v.dinode i) p = 0 := by
  have needed := ((sound.filled i).2 p below).not
  rw [not_not] at needed
  refine needed.mpr ?_
  dsimp only
  rw [empty]
  exact not_needs_zero p

theorem place_empty (v : Volume) (zero : ∀ p ≤ NDIRECT, ip.addrs p = 0) (p : Nat) : v.place ip p = 0 := by
  rw [place]
  split
  · rename_i inside
    exact zero p inside
  · rw [if_pos (zero NDIRECT (Nat.le_refl _))]

theorem Sound.replace (sound : Sound v) (kept : Kept w w.dinode) (data : w.data = v.data)
    (dinode : w.dinode = Function.update v.dinode i ip) (zero : ∀ p ≤ NDIRECT, ip.addrs p = 0) (empty : ip.size = 0) :
    Sound w := by
  refine ⟨kept, fun k => ?_⟩
  dsimp only
  rw [dinode]
  by_cases here : k = i
  · subst here
    rw [Function.update_self, empty]
    refine ⟨by decide, fun p _ => ?_⟩
    rw [place_empty w zero]
    simp [not_needs_zero]
  · rw [Function.update_of_ne here]
    refine ⟨(sound.filled k).1, fun p below => ?_⟩
    have same : w.place (v.dinode k) p = v.place (v.dinode k) p := by simp only [place, data]
    rw [same]
    exact (sound.filled k).2 p below

end Volume

namespace Store

variable {s t : Store} {i : Nat}

/-- Between two calls: the disk is sound and valid cached inodes agree with it. -/
structure Good (s : Store) : Prop where
  sound : s.vol.Sound
  cached : ∀ i ip, s.icache i = some ip → ip = s.vol.dinode i ∧ ip.type ≠ .free
  empty : ∀ i, (s.vol.dinode i).type = .free → (s.vol.dinode i).size = 0

theorem Good.ilock (good : Good s) (i : Nat) : Meets (s.ilock i)
    (fun r => r.1 = s.vol.dinode i ∧ r.2.vol = s.vol ∧ Good r.2 ∧ (s.vol.dinode i).type ≠ .free)
    (fun e => e = .ilockNoType ∧ (s.vol.dinode i).type = .free) := by
  rw [Store.ilock]
  split
  · rename_i ip valid
    obtain ⟨same, allocated⟩ := good.cached i ip valid
    exact ⟨same, rfl, good, same ▸ allocated⟩
  · split
    · rename_i unused
      exact ⟨rfl, unused⟩
    · rename_i allocated
      refine ⟨rfl, rfl, ⟨good.sound, ?_, good.empty⟩, allocated⟩
      intro k ip valid
      simp only [setInode, Function.update_apply] at valid
      split at valid
      · rename_i here
        cases valid
        exact ⟨by rw [here]; rfl, allocated⟩
      · exact good.cached k ip valid

theorem Good.create (good : Good s) (type : Itype) : Meets (s.create type) (fun r => Good r.2)
    (fun e => e ≠ .freeingFreeBlock) := by
  rw [Store.create]
  split
  · rename_i inum found
    have unused : (s.vol.dinode inum).type = .free := by
      have here := List.find?_some found
      simp only [Bool.and_eq_true, decide_eq_true_eq] at here
      exact here.2
    have empty := good.empty inum unused
    have absent : s.icache inum = none := by
      cases valid : s.icache inum with
      | none => rfl
      | some ip =>
        obtain ⟨same, allocated⟩ := good.cached inum ip valid
        exact absurd (same ▸ unused) allocated
    have kept : ((s.vol.setDinode inum ⟨type, 0, fun _ => 0⟩).log_write (IBLOCK inum s.vol.sb)).Kept
        (Function.update s.vol.dinode inum ⟨type, 0, fun _ => 0⟩) := by
      refine good.sound.kept.congr rfl rfl fun k q below => ?_
      by_cases here : k = inum
      · subst here
        rw [Function.update_self, Volume.place_empty _ (fun _ _ => rfl), good.sound.no_place empty below]
      · rw [Function.update_of_ne here]
        rfl
    have next : Good ⟨(s.vol.setDinode inum ⟨type, 0, fun _ => 0⟩).log_write (IBLOCK inum s.vol.sb), s.icache⟩ := by
      refine ⟨good.sound.replace kept rfl rfl (fun _ _ => rfl) rfl, ?_, ?_⟩
      · intro k ip valid
        have other : k ≠ inum := by
          rintro rfl
          rw [absent] at valid
          cases valid
        have same := good.cached k ip valid
        simpa [Volume.setDinode, Volume.log_write, Function.update_of_ne other] using same
      · intro k free
        by_cases here : k = inum
        · subst here
          simp [Volume.setDinode, Volume.log_write]
        · have same := good.empty k
          simp only [Volume.setDinode, Volume.log_write, Function.update_of_ne here] at free ⊢
          exact same free
    refine (next.ilock inum).mono (fun r done => done.2.2.1) ?_
    rintro e ⟨rfl, -⟩
    decide
  · simp [Meets]

theorem Good.setInode (good : Good s) {v : Volume} {ip : Dnode} (sound : v.Sound)
    (dinode : v.dinode = Function.update s.vol.dinode i ip) (type : ip.type = (s.vol.dinode i).type)
    (allocated : (s.vol.dinode i).type ≠ .free) : Good (Store.setInode ⟨v, s.icache⟩ i ip) where
  sound := sound
  cached k jp valid := by
    simp only [Store.setInode, Function.update_apply] at valid ⊢
    split at valid
    · rename_i here
      cases valid
      subst here
      exact ⟨by rw [dinode, Function.update_self], type ▸ allocated⟩
    · rename_i other
      rw [dinode, Function.update_of_ne other]
      exact good.cached k jp valid
  empty k free := by
    simp only [Store.setInode] at free ⊢
    by_cases here : k = i
    · subst here
      rw [dinode, Function.update_self, type] at free
      exact absurd free allocated
    · rw [dinode, Function.update_of_ne here] at free ⊢
      exact good.empty k free

theorem Good.write (good : Good s) (i : Nat) {off : Nat} {src : List UInt8} (word_ : off < 2 ^ 32)
    (short : src.length < 2 ^ 32) : Meets (s.write i off src) (fun r => Good r.2)
      (fun e => e ≠ .freeingFreeBlock) := by
  refine Meets.bind ((good.ilock i).mono (fun _ => id) ?_) ?_
  · rintro e ⟨rfl, -⟩
    decide
  rintro ⟨ip, t⟩ ⟨same, vol, next, allocated⟩
  obtain rfl : ip = t.vol.dinode i := by rw [vol]; exact same
  dsimp only at vol next ⊢
  rw [← vol] at allocated
  by_cases device : (t.vol.dinode i).type = .dev
  · have skip : t.vol.writei i (t.vol.dinode i) off src = .ok (false, t.vol.dinode i, t.vol) := if_pos device
    rw [skip]
    exact next.setInode next.sound (by rw [Function.update_eq_self]) rfl allocated
  · refine Meets.bind ((Volume.writei_meets next.sound i device word_ short).mono (fun _ => id) ?_) ?_
    · rintro e ⟨rfl, -⟩
      decide
    · rintro ⟨written, ip, v⟩ (⟨same, -⟩ | ⟨-, -, stored⟩)
      · cases same
        exact next.setInode next.sound (by rw [Function.update_eq_self]) rfl allocated
      · exact next.setInode stored.sound stored.dinode stored.type allocated

theorem Good.read (good : Good s) (i : Nat) {off n : Nat} (word_ : off < 2 ^ 32) (short : n < 2 ^ 32) :
    Meets (s.read i off n) (fun r => Good r.2) (fun e => e ≠ .freeingFreeBlock) := by
  refine Meets.bind ((good.ilock i).mono (fun _ => id) ?_) ?_
  · rintro e ⟨rfl, -⟩
    decide
  rintro ⟨ip, t⟩ ⟨same, vol, next, allocated⟩
  obtain rfl : ip = t.vol.dinode i := by rw [vol]; exact same
  dsimp only at vol next ⊢
  rw [← vol] at allocated
  by_cases device : (t.vol.dinode i).type = .dev
  · have skip : t.vol.readi (t.vol.dinode i) off n = .ok (none, t.vol.dinode i, t.vol) := if_pos device
    rw [skip]
    exact next.setInode next.sound (by rw [Function.update_eq_self]) rfl allocated
  · rw [Volume.readi_eq next.sound i device word_ short]
    exact next.setInode next.sound (by rw [Function.update_eq_self]) rfl allocated

theorem Good.iput (good : Good s) (i : Nat) : Returns (s.iput i) Good := by
  rw [Store.iput]
  split
  · exact Returns.ok good
  · rename_i ip valid
    obtain ⟨rfl, -⟩ := good.cached i ip valid
    refine Returns.bind (Volume.itrunc_returns good.sound.kept i) ?_
    rintro ⟨ip, v⟩ ⟨zero, empty, -, kept, sb, data, dinode⟩
    dsimp only at zero empty kept sb data dinode
    have dinode' : (v.iupdate i { ip with type := .free }).dinode =
        Function.update s.vol.dinode i { ip with type := .free } := by
      simp [Volume.iupdate, Volume.setDinode, Volume.log_write, dinode]
    refine Returns.ok ⟨good.sound.replace ?_ data dinode' zero empty, ?_, ?_⟩
    · rw [dinode']
      refine kept.congr rfl rfl fun k q _ => ?_
      by_cases here : k = i
      · subst here
        rw [Function.update_self, Function.update_self]
        rfl
      · rw [Function.update_of_ne here, Function.update_of_ne here]
        rfl
    · intro k jp valid'
      simp only [Function.update_apply] at valid'
      split at valid'
      · cases valid'
      · rename_i other
        dsimp only
        rw [dinode', Function.update_of_ne other]
        exact good.cached k jp valid'
    · intro k free
      dsimp only at free ⊢
      rw [dinode'] at free ⊢
      by_cases here : k = i
      · subst here
        rw [Function.update_self]
        exact empty
      · rw [Function.update_of_ne here] at free ⊢
        exact good.empty k free

/-- The offsets and lengths that calls pass are uints. -/
def Act.Uints : Act → Prop
  | .write _ off src => off < 2 ^ 32 ∧ src.length < 2 ^ 32
  | .read _ off n => off < 2 ^ 32 ∧ n < 2 ^ 32
  | _ => True

theorem Good.step (good : Good s) (a : Act) (uints : a.Uints) :
    Meets (s.step a) Good (fun e => e ≠ .freeingFreeBlock) := by
  cases a with
  | create type => exact Meets.bind (good.create type) fun r next => next
  | ilock inum =>
    refine Meets.bind ((good.ilock inum).mono (fun r done => done.2.2.1) ?_) fun r next => next
    rintro e ⟨rfl, -⟩
    decide
  | write inum off src => exact Meets.bind (good.write inum uints.1 uints.2) fun r next => next
  | read inum off n => exact Meets.bind (good.read inum uints.1 uints.2) fun r next => next
  | free inum =>
    obtain ⟨t, done, next⟩ := good.iput inum
    rw [Store.step, done]
    exact next
  | recycle inum =>
    refine ⟨good.sound, ?_, good.empty⟩
    intro k ip valid
    simp only [Function.update_apply] at valid
    split at valid
    · cases valid
    · exact good.cached k ip valid

/-- A disk image: every inode has its blocks, free inodes are empty, and nothing is cached. -/
structure Image (s : Store) : Prop where
  sound : s.vol.Sound
  empty : ∀ i, (s.vol.dinode i).type = .free → (s.vol.dinode i).size = 0
  uncached : ∀ i, s.icache i = none

def Reachable (s : Store) : Prop := Runs.Reachable Image step (fun _ a => a.Uints) s

theorem Reachable.good (reach : s.Reachable) : Good s := by
  refine Runs.Reachable.invariant ?_ ?_ reach
  · intro s image
    refine ⟨image.sound, ?_, image.empty⟩
    intro i ip valid
    rw [image.uncached i] at valid
    cases valid
  · intro s a t good uints done
    exact (good.step a uints).ensures t done

/-- Every block number stored in an inode or a block of addresses is a data block, marked
    and stored once, every marked data block is stored, files have no holes, valid cached
    inodes agree with the disk, and bfree finds its block marked. -/
theorem block_ownership (s : Store) (reach : s.Reachable) :
    (∀ i p, p < PLACES → s.vol.place (s.vol.dinode i) p ≠ 0 →
      dataStart s.vol.sb ≤ s.vol.place (s.vol.dinode i) p ∧ s.vol.place (s.vol.dinode i) p < s.vol.sb.size ∧
        s.vol.used (s.vol.place (s.vol.dinode i) p) = true ∧
        ∀ k q, q < PLACES → s.vol.place (s.vol.dinode k) q = s.vol.place (s.vol.dinode i) p → k = i ∧ q = p) ∧
    (∀ b, dataStart s.vol.sb ≤ b → b < s.vol.sb.size → s.vol.used b = true →
      ∃ i p, p < PLACES ∧ s.vol.place (s.vol.dinode i) p = b) ∧
    (∀ i p, p < PLACES → (s.vol.place (s.vol.dinode i) p ≠ 0 ↔ Needs (Volume.blocks (s.vol.dinode i).size) p)) ∧
    (∀ i ip, s.icache i = some ip → ip = s.vol.dinode i) ∧
    ∀ a : Act, a.Uints → s.step a ≠ .error .freeingFreeBlock := by
  have good := reach.good
  have kept := good.sound.kept
  refine ⟨?_, ?_, fun i => (good.sound.filled i).2, fun i ip valid => (good.cached i ip valid).1, ?_⟩
  · intro i p below full
    obtain ⟨low, high, marked⟩ := kept.stored below full
    exact ⟨low, high, marked, fun k q below' same => kept.once below' below (same ▸ full) same⟩
  · intro b low high marked
    obtain ⟨⟨i, p⟩, same⟩ := kept.exact_.found b low high marked
    by_cases below : p < PLACES
    · exact ⟨i, p, below, by rw [← Volume.slot_eq below, same]⟩
    · rw [Volume.slot, if_neg below] at same
      have positive := kept.exact_.positive
      omega
  · intro a uints fails
    have meets := good.step a uints
    rw [fails] at meets
    exact meets rfl

/-- In every state reached, writei and readi treat inodes as arrays of bytes. -/
theorem inode_bytes (s : Store) (reach : s.Reachable) (i : Nat)
    (plain : (s.vol.dinode i).type = .file ∨ (s.vol.dinode i).type = .dir) (off : Nat) (word_ : off < 2 ^ 32) :
    (∀ src : List UInt8, src.length < 2 ^ 32 →
      (off ≤ (s.vol.dinode i).size → off + src.length ≤ MAXFILE * BSIZE →
        Volume.cost (Volume.blocks (max (s.vol.dinode i).size (off + src.length))) ≤
          s.vol.free.card + Volume.cost (Volume.blocks (s.vol.dinode i).size)) →
      ∃ written t, s.write i off src = .ok (written, t) ∧
        (written = false ↔ off > (s.vol.dinode i).size ∨ 2 ^ 32 ≤ off + src.length ∨
          off + src.length > MAXFILE * BSIZE) ∧
        (written = false → t.vol = s.vol) ∧
        (written = true → (t.vol.dinode i).size = max (s.vol.dinode i).size (off + src.length) ∧
          t.vol.contents i = Volume.patch (s.vol.contents i) off src ∧
          ∀ j, j ≠ i → t.vol.contents j = s.vol.contents j)) ∧
    (∀ n, n < 2 ^ 32 → ∃ bytes t, s.read i off n = .ok (bytes, t) ∧ t.vol = s.vol ∧
      (bytes = none ↔ off > (s.vol.dinode i).size ∨ 2 ^ 32 ≤ off + n) ∧
      ∀ read, bytes = some read → read = ((s.vol.contents i).drop off).take n) := by
  have good := reach.good
  have allocated : (s.vol.dinode i).type ≠ .free := by
    rcases plain with same | same <;> rw [same] <;> decide
  have device : (s.vol.dinode i).type ≠ .dev := by
    rcases plain with same | same <;> rw [same] <;> decide
  obtain ⟨⟨ip, t⟩, locked, same, vol, next, -⟩ := (good.ilock i).returns fun e fails => allocated fails.2
  obtain rfl : ip = s.vol.dinode i := same
  dsimp only at vol next
  constructor
  · intro src short enough
    obtain ⟨⟨written, ip, v⟩, done, outcome⟩ := (Volume.writei_meets good.sound i device word_ short).returns (by
      rintro e ⟨-, accepted, lacking⟩
      rw [Volume.Refused] at accepted
      have needed := enough (by omega) (by omega)
      omega)
    refine ⟨written, Store.setInode ⟨v, t.icache⟩ i ip, ?_, ?_⟩
    · rw [Store.write, locked]
      simp only [bind, Except.bind, vol, done, pure, Except.pure]
    · rcases outcome with ⟨same, refused⟩ | ⟨rfl, accepted, stored⟩
      · cases same
        exact ⟨⟨fun _ => refused, fun _ => rfl⟩, fun _ => rfl, nofun⟩
      · refine ⟨⟨nofun, fun bad => absurd bad accepted⟩, nofun, fun _ => ⟨?_, stored.mine, stored.others⟩⟩
        dsimp only [Store.setInode]
        rw [stored.dinode, Function.update_self, stored.size]
  · intro n short
    have done := Volume.readi_eq good.sound i device word_ short
    refine ⟨if off > (s.vol.dinode i).size ∨ 2 ^ 32 ≤ off + n then none else
      some (((s.vol.contents i).drop off).take n), Store.setInode ⟨s.vol, t.icache⟩ i (s.vol.dinode i), ?_, rfl, ?_, ?_⟩
    · rw [Store.read, locked]
      simp only [bind, Except.bind, vol, done, pure, Except.pure]
    · split
      · rename_i bad
        exact ⟨fun _ => bad, fun _ => rfl⟩
      · rename_i fine
        exact ⟨nofun, fun bad => absurd bad fine⟩
    · intro read some_
      split at some_
      · cases some_
      · exact (Option.some.inj some_).symm

def blank : Store where
  vol := ⟨⟨100, 200, 32, 58⟩, fun b => b < 59, fun _ _ => 0, fun _ => ⟨.free, 0, fun _ => 0⟩, []⟩
  icache _ := none

theorem blank_image : Image blank := by
  have places : ∀ i p, blank.vol.place (blank.vol.dinode i) p = 0 := fun i p =>
    Volume.place_empty _ (fun _ _ => rfl) p
  refine ⟨⟨⟨⟨by decide, ?_, ?_, ?_⟩, ?_, by decide⟩, ?_⟩, fun _ _ => rfl, fun _ => rfl⟩
  · rintro ⟨i, p⟩ full
    simp [Volume.slot, places] at full
  · rintro ⟨i, p⟩ y full
    simp [Volume.slot, places] at full
  · intro b low _ marked
    simp [blank] at marked
    have start : dataStart blank.vol.sb = 59 := by decide
    omega
  · intro b low
    have start : dataStart blank.vol.sb = 59 := by decide
    simp [blank]
    omega
  · intro i
    refine ⟨(by decide : Volume.blocks 0 ≤ MAXFILE), fun p _ => ?_⟩
    rw [places]
    simp [blank, Volume.not_needs_zero]

theorem blank_written : ∃ s : Store, s.Reachable ∧ (s.vol.dinode 1).type = .file ∧ (s.vol.dinode 1).addrs 0 = 59 := by
  have run : (Runs.run step blank [.create .file, .write 1 0 [7]]).toOption.map
      (fun s => ((s.vol.dinode 1).type, (s.vol.dinode 1).addrs 0)) = some (.file, 59) := by decide +kernel
  obtain ⟨s, done, seen⟩ := Runs.observed run
  refine ⟨s, (Runs.Reachable.start blank_image).run ?_ done, congrArg Prod.fst seen, congrArg Prod.snd seen⟩
  intro _ a member
  simp only [List.mem_cons, List.not_mem_nil, or_false] at member
  rcases member with rfl | rfl
  · trivial
  · exact ⟨by decide, by decide⟩

theorem block_ownership_written : ∃ s : Store, (s.vol.dinode 1).addrs 0 = 59 ∧ s.vol.used 59 = true ∧
    ∀ a : Act, a.Uints → s.step a ≠ .error .freeingFreeBlock := by
  obtain ⟨s, reach, -, at_⟩ := blank_written
  obtain ⟨stored, -, -, -, never⟩ := block_ownership s reach
  have first : s.vol.place (s.vol.dinode 1) 0 = 59 := at_
  refine ⟨s, at_, ?_, never⟩
  rw [← first]
  exact (stored 1 0 (by decide) (by rw [first]; decide)).2.2.1

theorem inode_bytes_written : ∃ s : Store, s.Reachable ∧ ∃ bytes t, s.read 1 0 5 = .ok (bytes, t) ∧
    (∀ read, bytes = some read → read = ((s.vol.contents 1).drop 0).take 5) := by
  obtain ⟨s, reach, file, -⟩ := blank_written
  obtain ⟨bytes, t, done, -, -, value⟩ := (inode_bytes s reach 1 (Or.inl file) 0 (by decide)).2 5 (by decide)
  exact ⟨s, reach, bytes, t, done, value⟩

end Store
end Fs
end Xv6
