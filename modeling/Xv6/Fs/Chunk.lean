import Xv6.Fs.Log
import Xv6.Fs.Store
import Mathlib.Data.Finset.Card

/-!
The blocks that one chunk of filewrite passes to log_write. A block of the file is logged
with its bitmap block when it is new and alone when it was there; the block of addresses,
its bitmap block and the inode block come once.
-/
namespace Xv6
namespace Fs
namespace Volume

open Runs

variable {v w : Volume} {ip jp : Dnode} {b bn : Nat}

def Indirect (sb : Superblock) (ip : Dnode) (x : Nat) : Prop :=
  ip.addrs NDIRECT ≠ 0 ∧ (x = ip.addrs NDIRECT ∨ x = BBLOCK (ip.addrs NDIRECT) sb)

/-- What bmap logs, with block 0 marked so that no block gets the number 0. -/
structure Logs (v : Volume) (ip : Dnode) (b : Nat) (jp : Dnode) (w : Volume) (new : List Nat) : Prop where
  logged : w.logged = v.logged ++ new
  each : ∀ x ∈ new, x = b ∨ x = BBLOCK b v.sb ∨ Indirect v.sb jp x
  sb : w.sb = v.sb
  boot : w.used 0 = true
  stays : ip.addrs NDIRECT ≠ 0 → jp.addrs NDIRECT = ip.addrs NDIRECT

theorem balloc_eq {b : Nat} (boot : v.used 0 = true) (done : v.balloc = .ok (b, w)) :
    b ≠ 0 ∧ w = v.taken b ∧ w.used 0 = true := by
  obtain ⟨member, same⟩ := (balloc_meets v).ensures (b, w) done
  have clear := (free_mem member).2
  have positive : b ≠ 0 := by
    rintro rfl
    rw [boot] at clear
    cases clear
  refine ⟨positive, same, ?_⟩
  dsimp only at same
  rw [same]
  simpa [taken, Function.update_of_ne (Ne.symm positive)] using boot

theorem loadIndirect_logs (boot : v.used 0 = true) (done : v.loadIndirect ip = .ok (jp, w)) :
    jp.addrs NDIRECT ≠ 0 ∧ (ip.addrs NDIRECT ≠ 0 → jp = ip) ∧ w.used 0 = true ∧ w.sb = v.sb ∧
      ∃ new, w.logged = v.logged ++ new ∧
        ∀ x ∈ new, x = jp.addrs NDIRECT ∨ x = BBLOCK (jp.addrs NDIRECT) v.sb := by
  rw [loadIndirect] at done
  split at done
  · rename_i empty
    obtain ⟨⟨c, u⟩, taken, rest⟩ := Runs.bind_eq_ok done
    cases rest
    obtain ⟨positive, rfl, boot'⟩ := balloc_eq boot taken
    refine ⟨by simpa [Dnode.setAddr] using positive, fun full => absurd empty full, boot', rfl,
      [BBLOCK c v.sb, c], by simp [Volume.taken], ?_⟩
    intro x member
    simp only [List.mem_cons, List.not_mem_nil, or_false] at member
    simpa [Dnode.setAddr] using member.symm
  · rename_i full
    cases done
    exact ⟨full, fun _ => rfl, boot, rfl, [], by simp, by simp⟩

theorem bmapIndirect_logs {j : Nat} (boot : v.used 0 = true) (done : v.bmapIndirect ip j = .ok (b, jp, w)) :
    jp = ip ∧ w.used 0 = true ∧ w.sb = v.sb ∧ ∃ new, w.logged = v.logged ++ new ∧
      ∀ x ∈ new, x = b ∨ x = BBLOCK b v.sb ∨ x = ip.addrs NDIRECT := by
  rw [bmapIndirect] at done
  dsimp only at done
  split at done
  · obtain ⟨⟨c, u⟩, taken, rest⟩ := Runs.bind_eq_ok done
    cases rest
    obtain ⟨-, rfl, boot'⟩ := balloc_eq boot taken
    refine ⟨rfl, boot', rfl, [BBLOCK c v.sb, c, ip.addrs NDIRECT], by simp [Volume.taken, setData, log_write], ?_⟩
    intro x member
    simp only [List.mem_cons, List.not_mem_nil, or_false] at member
    rcases member with same | same | same
    · exact Or.inr (Or.inl same)
    · exact Or.inl same
    · exact Or.inr (Or.inr same)
  · cases done
    exact ⟨rfl, boot, rfl, [], by simp, by simp⟩

theorem bmap_logs (boot : v.used 0 = true) (done : v.bmap ip bn = .ok (b, jp, w)) :
    bn < MAXFILE ∧ ∃ new, Logs v ip b jp w new := by
  rw [bmap] at done
  split at done
  · rename_i direct
    refine ⟨Nat.lt_of_lt_of_le direct (by decide), ?_⟩
    split at done
    · obtain ⟨⟨c, u⟩, taken, rest⟩ := Runs.bind_eq_ok done
      cases rest
      obtain ⟨-, rfl, boot'⟩ := balloc_eq boot taken
      refine ⟨[BBLOCK b v.sb, b], by simp [Volume.taken], ?_, rfl, boot', ?_⟩
      · intro x member
        simp only [List.mem_cons, List.not_mem_nil, or_false] at member
        exact member.symm.imp_right Or.inl
      · intro _
        simp [Dnode.setAddr, Function.update_of_ne (Nat.ne_of_gt direct)]
    · cases done
      exact ⟨[], by simp, by simp, rfl, boot, fun _ => rfl⟩
  · split at done
    · rename_i high low
      refine ⟨by rw [MAXFILE]; omega, ?_⟩
      obtain ⟨⟨kp, u⟩, loaded, rest⟩ := Runs.bind_eq_ok done
      obtain ⟨full, stays, boot', sb, first, logged, each⟩ := loadIndirect_logs boot loaded
      obtain ⟨rfl, boot'', sb', second, logged', each'⟩ := bmapIndirect_logs boot' rest
      refine ⟨first ++ second, by rw [logged', logged, List.append_assoc], ?_, sb'.trans sb, boot'',
        fun before => by rw [stays before]⟩
      intro x member
      rcases List.mem_append.mp member with member | member
      · exact Or.inr (Or.inr ⟨full, each x member⟩)
      · rw [sb] at each'
        exact (each' x member).imp_right (Or.imp_right fun same => ⟨full, Or.inl same⟩)
    · cases done

/-- The rounds of the loop of writei. -/
def rounds (off n : Nat) : Nat := if n = 0 then 0 else blocks (off + n) - off / BSIZE

theorem rounds_next {off n m : Nat} (some : 0 < n) (size : min n (BSIZE - off % BSIZE) = m) :
    rounds (off + m) (n - m) + 1 ≤ rounds off n := by
  have whole : n ≠ 0 := Nat.pos_iff_ne_zero.mp some
  rw [rounds, rounds, if_neg whole]
  simp only [blocks]
  rw [BSIZE] at size ⊢
  split
  · omega
  · -- the piece fills its block
    have fills : m = 512 - off % 512 := by omega
    have same : off + m + (n - m) = off + n := by omega
    rw [same]
    omega

theorem rounds_le {off n : Nat} (chunk : n ≤ 1536) (aligned : off % BSIZE = 0) : rounds off n ≤ 3 := by
  rw [rounds, blocks]
  rw [BSIZE] at aligned ⊢
  split <;> omega

theorem rounds_rest_le {off n m : Nat} (chunk : n ≤ 1536) (size : min n (BSIZE - off % BSIZE) = m) :
    rounds (off + m) (n - m) ≤ 3 := by
  rw [rounds, blocks]
  rw [BSIZE] at size ⊢
  split
  · omega
  · have fills : m = 512 - off % 512 := by omega
    have same : off + m + (n - m) = off + n := by omega
    rw [same]
    omega

/-- A round of writei logs at most two blocks besides the block of addresses and its bitmap
    block. -/
theorem writeLoop_logs (n : Nat) : ∀ (v : Volume) (ip : Dnode) (off : Nat) (src : List UInt8) (r : Nat × Dnode × Volume),
    src.length ≤ n → v.used 0 = true → writeLoop n v ip off src = .ok r → ∃ new : List Nat, ∃ A : Finset Nat,
      r.2.2.logged = v.logged ++ new ∧ A.card ≤ 2 * rounds off src.length ∧
      (∀ x ∈ new, x ∈ A ∨ Indirect v.sb r.2.1 x) ∧ r.2.2.sb = v.sb ∧
      (ip.addrs NDIRECT ≠ 0 → r.2.1.addrs NDIRECT = ip.addrs NDIRECT) := by
  induction n with
  | zero =>
    intro v ip off src r short boot done
    cases done
    exact ⟨[], ∅, by simp, by simp, by simp, rfl, fun _ => rfl⟩
  | succ n ih =>
    intro v ip off src r short boot done
    rw [writeLoop] at done
    split at done
    · cases done
      exact ⟨[], ∅, by simp, by simp, by simp, rfl, fun _ => rfl⟩
    · rename_i nonempty
      have positive : 0 < src.length := List.length_pos_iff.mpr nonempty
      obtain ⟨⟨b, jp, w⟩, mapped, rest⟩ := Runs.bind_eq_ok done
      obtain ⟨-, first, logs⟩ := bmap_logs boot mapped
      dsimp only at rest
      generalize size : min src.length (BSIZE - off % BSIZE) = m at rest
      have low : off % BSIZE < BSIZE := Nat.mod_lt _ (by decide)
      obtain ⟨second, A, logged, card, each, sb, stays⟩ :=
        ih ((w.setData b (overlay (w.data b) (off % BSIZE) (src.take m))).log_write b) jp (off + m) (src.drop m) r
          (by rw [List.length_drop]; omega) logs.boot rest
      refine ⟨first ++ [b] ++ second, {b, BBLOCK b v.sb} ∪ A, ?_, ?_, ?_, sb.trans logs.sb, ?_⟩
      · rw [logged]
        simp [setData, log_write, logs.logged]
      · have pair : ({b, BBLOCK b v.sb} : Finset Nat).card ≤ 2 := Finset.card_le_two
        have union := Finset.card_union_le {b, BBLOCK b v.sb} A
        have fewer := rounds_next positive size
        rw [← List.length_drop] at fewer
        omega
      · intro x member
        have indirect : ∀ x, Indirect v.sb jp x → Indirect v.sb r.2.1 x := by
          rintro x ⟨full, same⟩
          rw [Indirect, stays full]
          exact ⟨full, same⟩
        rcases List.mem_append.mp member with member | member
        · rcases List.mem_append.mp member with member | member
          · rcases logs.each x member with rfl | rfl | same
            · exact Or.inl (by simp)
            · exact Or.inl (by simp)
            · exact Or.inr (indirect x same)
          · rw [List.mem_singleton.mp member]
            exact Or.inl (by simp)
        · have same := each x member
          have sb' : ((w.setData b (overlay (w.data b) (off % BSIZE) (src.take m))).log_write b).sb = v.sb := logs.sb
          rw [sb'] at same
          exact same.imp_left (Finset.mem_union_right _)
      · intro full
        have kept := logs.stays full
        rw [stays (by rw [kept]; exact full), kept]

/-- The loop of writei for a chunk: an offset inside a block that is there saves a bitmap block. -/
theorem chunk_logs {off : Nat} {src : List UInt8} {r : Nat × Dnode × Volume} (boot : v.used 0 = true)
    (full : ∀ bn < blocks ip.size, v.place ip (placeOf bn) ≠ 0) (inside : off ≤ ip.size) (chunk : src.length ≤ 1536)
    (done : writeLoop src.length v ip off src = .ok r) : ∃ new : List Nat, ∃ A : Finset Nat,
      r.2.2.logged = v.logged ++ new ∧ A.card ≤ 7 ∧ (∀ x ∈ new, x ∈ A ∨ Indirect v.sb r.2.1 x) := by
  by_cases aligned : off % BSIZE = 0
  · obtain ⟨new, A, logged, card, each, -, -⟩ := writeLoop_logs _ v ip off src r (Nat.le_refl _) boot done
    refine ⟨new, A, logged, ?_, each⟩
    have few := rounds_le chunk aligned
    omega
  · generalize length : src.length = n at done
    cases n with
    | zero =>
      cases done
      exact ⟨[], ∅, by simp, by simp, by simp⟩
    | succ n =>
      have nonempty : src ≠ [] := by
        rintro rfl
        cases length
      rw [writeLoop, if_neg nonempty] at done
      obtain ⟨⟨b, jp, w⟩, mapped, rest⟩ := Runs.bind_eq_ok done
      have present : v.place ip (placeOf (off / BSIZE)) ≠ 0 := by
        refine full _ ?_
        rw [blocks]
        rw [BSIZE] at aligned ⊢
        omega
      rw [bmap_present (bmap_logs boot mapped).1 present] at mapped
      cases mapped
      dsimp only at rest
      generalize size : min src.length (BSIZE - off % BSIZE) = m at rest
      have low : off % BSIZE < BSIZE := Nat.mod_lt _ (by decide)
      obtain ⟨new, A, logged, card, each, -, -⟩ := writeLoop_logs n _ ip (off + m) (src.drop m) r
        (by rw [List.length_drop]; omega) (by exact boot) rest
      refine ⟨v.place ip (placeOf (off / BSIZE)) :: new, insert (v.place ip (placeOf (off / BSIZE))) A, ?_, ?_, ?_⟩
      · rw [logged]
        simp [setData, log_write]
      · have more := Finset.card_insert_le (v.place ip (placeOf (off / BSIZE))) A
        have few := rounds_rest_le chunk size
        rw [← List.length_drop] at few
        omega
      · intro x member
        rcases List.mem_cons.mp member with rfl | member
        · exact Or.inl (by simp)
        · exact (each x member).imp_left (Finset.mem_insert_of_mem)

/-- A chunk of filewrite passes at most MAXOPBLOCKS distinct blocks to log_write. -/
theorem chunk_fits (v : Volume) (boot : v.used 0 = true) (inum : Nat) (ip : Dnode)
    (full : ∀ bn < blocks ip.size, v.place ip (placeOf bn) ≠ 0) (off : Nat) (inside : off ≤ ip.size) (src : List UInt8)
    (chunk : src.length ≤ (MAXOPBLOCKS - 1 - 1 - 2) / 2 * 512) (r : Bool × Dnode × Volume)
    (done : v.writei inum ip off src = .ok r) :
    ∃ new : List Nat, r.2.2.logged = v.logged ++ new ∧ new.toFinset.card ≤ MAXOPBLOCKS := by
  rw [writei] at done
  split at done
  · cases done
    exact ⟨[], by simp, by simp⟩
  split at done
  · cases done
    exact ⟨[], by simp, by simp⟩
  split at done
  · cases done
    exact ⟨[], by simp, by simp⟩
  obtain ⟨⟨o, jp, w⟩, loop, rest⟩ := Runs.bind_eq_ok done
  obtain ⟨new, A, logged, card, each⟩ := chunk_logs boot full inside chunk loop
  dsimp only at logged each rest
  -- all blocks but the inode's are in A or belong to the block of addresses
  have cover : new.toFinset ⊆ A ∪ {jp.addrs NDIRECT, BBLOCK (jp.addrs NDIRECT) v.sb} := by
    intro x member
    rw [List.mem_toFinset] at member
    rcases each x member with inA | ⟨-, same⟩
    · exact Finset.mem_union_left _ inA
    · exact Finset.mem_union_right _ (by simpa using same)
  have nine : new.toFinset.card ≤ 9 := by
    have pair : ({jp.addrs NDIRECT, BBLOCK (jp.addrs NDIRECT) v.sb} : Finset Nat).card ≤ 2 := Finset.card_le_two
    have sub := Finset.card_le_card cover
    have union := Finset.card_union_le A {jp.addrs NDIRECT, BBLOCK (jp.addrs NDIRECT) v.sb}
    omega
  split at rest
  · cases rest
    refine ⟨new ++ [IBLOCK inum w.sb], by simp [iupdate, setDinode, log_write, logged], ?_⟩
    rw [List.toFinset_append]
    have union := Finset.card_union_le new.toFinset [IBLOCK inum w.sb].toFinset
    have one : [IBLOCK inum w.sb].toFinset.card = 1 := rfl
    rw [MAXOPBLOCKS]
    omega
  · cases rest
    exact ⟨new, logged, Nat.le_trans nine (by decide)⟩

/-- The first write to an empty file logs three blocks: the bitmap, the new block, the inode. -/
theorem chunk_fits_first : ∃ r, Store.blank.vol.writei 1 ⟨.file, 0, fun _ => 0⟩ 0 [7] = .ok r ∧
    r.2.2.logged = [58, 59, 59, 32] ∧ ∃ new : List Nat, r.2.2.logged = Store.blank.vol.logged ++ new ∧
      new.toFinset.card ≤ MAXOPBLOCKS := by
  have run : (Store.blank.vol.writei 1 ⟨.file, 0, fun _ => 0⟩ 0 [7]).toOption.map (fun r => r.2.2.logged) =
      some [58, 59, 59, 32] := by decide +kernel
  obtain ⟨r, done, logged⟩ := Runs.observed run
  exact ⟨r, done, logged, chunk_fits _ (by decide) 1 _ (fun bn low => absurd low (by decide +revert)) 0 (by decide) [7]
    (by decide) r done⟩

end Volume
end Fs
end Xv6
