import Xv6.Lib.Returns
import Xv6.Fs.Paths
import Mathlib.Data.List.Nodup

/-!
Path resolution. A call works on the inode cache it finds together with the references it
has taken and the locks it holds; `Holds` says which. On a directory tree namex returns
what following the components gives, and keeps no reference but the one on its result.
-/
namespace Xv6
namespace Fs

open Runs

namespace Inodes

variable {s t : Inodes} {c : Nat → Inode} {H L : List Nat} {e i : Nat}

@[simp] theorem setInode_icache (s : Inodes) (e : Nat) (x : Inode) (k : Nat) :
    (s.setInode e x).icache k = if k = e then x else s.icache k := Function.update_apply ..

@[simp] theorem setInode_dinode (s : Inodes) (e : Nat) (x : Inode) : (s.setInode e x).dinode = s.dinode := rfl

@[simp] theorem setInode_dir (s : Inodes) (e : Nat) (x : Inode) : (s.setInode e x).dir = s.dir := rfl

@[simp] theorem setDinode_icache (s : Inodes) (i : Nat) (d : Dinode) : (s.setDinode i d).icache = s.icache := rfl

@[simp] theorem setDinode_dir (s : Inodes) (i : Nat) (d : Dinode) : (s.setDinode i d).dir = s.dir := rfl

@[simp] theorem setDinode_dinode (s : Inodes) (i : Nat) (d : Dinode) (k : Nat) :
    (s.setDinode i d).dinode k = if k = i then d else s.dinode k := Function.update_apply ..

@[simp] theorem setDir_icache (s : Inodes) (i : Nat) (l : List Dirent) : (s.setDir i l).icache = s.icache := rfl

@[simp] theorem setDir_dinode (s : Inodes) (i : Nat) (l : List Dirent) : (s.setDir i l).dinode = s.dinode := rfl

@[simp] theorem setDir_dir (s : Inodes) (i : Nat) (l : List Dirent) (k : Nat) :
    (s.setDir i l).dir k = if k = i then l else s.dir k := Function.update_apply ..

/-- The cache is c with references to the entries in H taken and the entries in L locked. -/
structure Holds (c : Nat → Inode) (H L : List Nat) (s : Inodes) : Prop where
  ref : ∀ e, (s.icache e).ref = (c e).ref + H.count e
  same : ∀ e, 0 < (c e).ref → (s.icache e).inum = (c e).inum
  inside : ∀ e ∈ H, e < NINODE
  dev : ∀ e, 0 < (s.icache e).ref → (s.icache e).dev = ROOTDEV
  distinct : ∀ e k, e < NINODE → k < NINODE → 0 < (s.icache e).ref → 0 < (s.icache k).ref →
    (s.icache e).inum = (s.icache k).inum → e = k
  locks : ∀ e, (s.icache e).locked = decide (e ∈ L)

/-- Between two calls: one entry for each inode, all on the root device, and no lock held. -/
structure Idle (s : Inodes) : Prop where
  dev : ∀ e, 0 < (s.icache e).ref → (s.icache e).dev = ROOTDEV
  distinct : ∀ e k, e < NINODE → k < NINODE → 0 < (s.icache e).ref → 0 < (s.icache k).ref →
    (s.icache e).inum = (s.icache k).inum → e = k
  unlocked : ∀ e, (s.icache e).locked = false

theorem Idle.holds (idle : Idle s) : Holds s.icache [] [] s where
  ref e := by simp
  same _ _ := rfl
  inside _ member := by cases member
  dev := idle.dev
  distinct := idle.distinct
  locks e := by simp [idle.unlocked e]

def room (c : Nat → Inode) : Nat := ((List.range NINODE).filter fun e => (c e).ref = 0).length

structure Keeps (s t : Inodes) : Prop where
  dinode : t.dinode = s.dinode
  dir : t.dir = s.dir
  inum : ∀ e, 0 < (s.icache e).ref → (t.icache e).inum = (s.icache e).inum

theorem Holds.live (holds : Holds c H L s) (member : e ∈ H) : 0 < (s.icache e).ref := by
  have count := List.count_pos_iff.mpr member
  rw [holds.ref e]
  omega

theorem Holds.unused (holds : Holds c H L s) (free : H.length < room c) :
    ∃ e < NINODE, (s.icache e).ref = 0 := by
  by_contra none
  push Not at none
  have taken : ((List.range NINODE).filter fun e => (c e).ref = 0) ⊆ H := by
    intro e member
    obtain ⟨inside, zero⟩ := List.mem_filter.mp member
    have used := none e (List.mem_range.mp inside)
    rw [holds.ref e, of_decide_eq_true zero] at used
    exact List.count_pos_iff.mp (by omega)
  have few := (List.nodup_range.filter _).length_le_of_subset taken
  rw [room] at free
  omega

theorem Holds.setInode {H' L' : List Nat} (holds : Holds c H L s) (inside : e < NINODE) (x : Inode)
    (ref : x.ref = (c e).ref + H'.count e) (count : ∀ k, k ≠ e → H'.count k = H.count k)
    (same : 0 < (c e).ref → x.inum = (c e).inum) (dev : 0 < x.ref → x.dev = ROOTDEV)
    (alone : 0 < x.ref → ∀ k < NINODE, k ≠ e → 0 < (s.icache k).ref → (s.icache k).inum ≠ x.inum)
    (locked : x.locked = decide (e ∈ L')) (locks : ∀ k, k ≠ e → (k ∈ L' ↔ k ∈ L)) :
    Holds c H' L' (s.setInode e x) where
  ref k := by
    by_cases here : k = e
    · subst here
      simpa using ref
    · simp [here, count k here, holds.ref k]
  same k live := by
    by_cases here : k = e
    · subst here
      simpa using same live
    · simpa [here] using holds.same k live
  inside k member := by
    by_cases here : k = e
    · exact here ▸ inside
    · have taken := List.count_pos_iff.mpr member
      rw [count k here] at taken
      exact holds.inside k (List.count_pos_iff.mp taken)
  dev k live := by
    by_cases here : k = e
    · subst here
      simp only [setInode_icache, if_true] at live ⊢
      exact dev live
    · simp only [setInode_icache, if_neg here] at live ⊢
      exact holds.dev k live
  distinct k j below below' live live' equal := by
    simp only [setInode_icache] at live live' equal
    by_cases here : k = e <;> by_cases here' : j = e <;> simp only [here, here', if_true, if_false] at live live' equal
    · rw [here, here']
    · exact absurd equal.symm (alone live j below' here' live')
    · exact absurd equal (alone live' k below here live)
    · exact holds.distinct k j below below' live live' equal
  locks k := by
    by_cases here : k = e
    · subst here
      simpa using locked
    · simpa [here, locks k here] using holds.locks k

theorem Holds.adjust {H' L' : List Nat} (holds : Holds c H L s) (inside : e < NINODE)
    (used : 0 < (s.icache e).ref) (ref : Nat) (valid locked : Bool) (exact_ : ref = (c e).ref + H'.count e)
    (count : ∀ k, k ≠ e → H'.count k = H.count k) (here : locked = decide (e ∈ L'))
    (locks : ∀ k, k ≠ e → (k ∈ L' ↔ k ∈ L)) :
    Holds c H' L' (s.setInode e ⟨(s.icache e).dev, (s.icache e).inum, ref, valid, locked⟩) :=
  holds.setInode inside _ exact_ count (holds.same e) (fun _ => holds.dev e used)
    (fun _ k below other live equal => other (holds.distinct k e below inside live used equal)) here locks

theorem Holds.iget (holds : Holds c H L s) (free : H.length < room c) (i : Nat) :
    Returns (s.iget ROOTDEV i) fun r =>
      Holds c (r.1 :: H) L r.2 ∧ (r.2.icache r.1).inum = i ∧ Keeps s r.2 := by
  rw [Inodes.iget]
  split
  · rename_i e found
    have inside := List.mem_range.mp (List.mem_of_find?_eq_some found)
    obtain ⟨⟨used, -⟩, inum⟩ : ((0 < (s.icache e).ref) ∧ (s.icache e).dev = ROOTDEV) ∧ (s.icache e).inum = i := by
      simpa using List.find?_some found
    refine Returns.ok ⟨?_, by simpa using inum, rfl, rfl, ?_⟩
    · refine holds.adjust inside used _ _ _ ?_ (fun k other => List.count_cons_of_ne (Ne.symm other)) (holds.locks e)
        (fun k _ => Iff.rfl)
      rw [holds.ref e, List.count_cons_self]
      omega
    · intro k _
      by_cases here : k = e <;> simp [here]
  · rename_i absent
    rw [List.find?_eq_none] at absent
    split
    · rename_i e found
      have inside := List.mem_range.mp (List.mem_of_find?_eq_some found)
      have zero : (s.icache e).ref = 0 := by simpa using List.find?_some found
      have unused : (c e).ref = 0 ∧ H.count e = 0 := by
        have total := holds.ref e
        omega
      refine Returns.ok ⟨?_, by simp, rfl, rfl, ?_⟩
      · refine holds.setInode inside _ ?_ (fun k other => List.count_cons_of_ne (Ne.symm other))
          (fun live => absurd live (by omega)) (fun _ => rfl) ?_ (holds.locks e) (fun k _ => Iff.rfl)
        · rw [List.count_cons_self, unused.1, unused.2]
        · intro _ k below _ live equal
          have other := absent k (List.mem_range.mpr below)
          simp [live, holds.dev k live, equal] at other
      · intro k live
        have other : k ≠ e := by
          rintro rfl
          omega
        simp [other]
    · rename_i full
      obtain ⟨e, inside, zero⟩ := holds.unused free
      rw [List.find?_eq_none] at full
      exact absurd (by simpa using zero) (full e (List.mem_range.mpr inside))

theorem Holds.idup (holds : Holds c H L s) (inside : e < NINODE) (live : 0 < (c e).ref) :
    Holds c (e :: H) L (s.idup e) ∧ Keeps s (s.idup e) := by
  have total := holds.ref e
  refine ⟨?_, rfl, rfl, ?_⟩
  · refine holds.adjust inside (by omega) _ _ _ ?_ (fun k other => List.count_cons_of_ne (Ne.symm other))
      (holds.locks e) (fun k _ => Iff.rfl)
    rw [List.count_cons_self]
    omega
  · intro k _
    by_cases here : k = e <;> simp [Inodes.idup, here]

theorem Holds.ilock (holds : Holds c H L s) (member : e ∈ H) (unlocked : e ∉ L)
    (allocated : (s.node e).type ≠ .free) : Returns (s.ilock e) fun t => Holds c H (e :: L) t ∧ Keeps s t := by
  have used := holds.live member
  have free : (s.icache e).locked = false := by simp [holds.locks e, unlocked]
  rw [Inodes.ilock, if_neg (by omega), if_neg (by simp [free]), if_neg (by simp [allocated])]
  refine Returns.ok ⟨?_, rfl, rfl, ?_⟩
  · exact holds.adjust (holds.inside e member) used _ _ _ (holds.ref e) (fun _ _ => rfl) (by simp)
      (fun k other => by simp [other])
  · intro k _
    by_cases here : k = e <;> simp [here]

theorem Holds.iunlock (holds : Holds c H (e :: L) s) (member : e ∈ H) (once : e ∉ L) :
    Returns (s.iunlock e) fun t => Holds c H L t ∧ Keeps s t := by
  have used := holds.live member
  have taken : (s.icache e).locked = true := by simp [holds.locks e]
  rw [Inodes.iunlock, if_neg (by simp [taken]; omega)]
  refine Returns.ok ⟨?_, rfl, rfl, ?_⟩
  · exact holds.adjust (holds.inside e member) used _ _ _ (holds.ref e) (fun _ _ => rfl) (by simp [once])
      (fun k other => by simp [other])
  · intro k _
    by_cases here : k = e <;> simp [here]

/-- A reference that is not the last one, or one to an inode with links, is dropped
    without an effect on the disk. -/
theorem Holds.iput (holds : Holds c (e :: H) L s) (unlocked : e ∉ L)
    (stays : (s.node e).nlink ≠ 0 ∨ 0 < (c e).ref ∨ e ∈ H) :
    Returns (s.iput e) fun t => Holds c H L t ∧ Keeps s t := by
  have used := holds.live List.mem_cons_self
  have free : (s.icache e).locked = false := by simp [holds.locks e, unlocked]
  have total := holds.ref e
  rw [List.count_cons_self] at total
  have stay : ¬ ((s.icache e).valid && (s.node e).nlink = 0 && (s.icache e).ref = 1) = true := by
    rcases stays with links | base | member
    · simp [links]
    · simp
      omega
    · have taken := List.count_pos_iff.mpr member
      simp
      omega
  rw [Inodes.iput, if_neg (by simp [free]), if_neg stay]
  refine Returns.ok ⟨?_, rfl, rfl, ?_⟩
  · refine holds.adjust (holds.inside e List.mem_cons_self) used _ _ _ ?_
      (fun k other => (List.count_cons_of_ne (Ne.symm other)).symm) (holds.locks e) (fun k _ => Iff.rfl)
    omega
  · intro k _
    by_cases here : k = e <;> simp [here]

theorem Holds.perm {H' : List Nat} (holds : Holds c H L s) (perm : H.Perm H') : Holds c H' L s where
  ref e := by rw [holds.ref e, perm.count_eq]
  same := holds.same
  inside e member := holds.inside e (perm.mem_iff.mpr member)
  dev := holds.dev
  distinct := holds.distinct
  locks := holds.locks

theorem Holds.trans {H' L' : List Nat} (holds : Holds c H L s) (more : Holds s.icache H' L' t) :
    Holds c (H' ++ H) L' t where
  ref e := by
    rw [more.ref e, holds.ref e, List.count_append]
    omega
  same e live := by
    have used : 0 < (s.icache e).ref := by
      rw [holds.ref e]
      omega
    rw [more.same e used, holds.same e live]
  inside e member := (List.mem_append.mp member).elim (more.inside e) (holds.inside e)
  dev := more.dev
  distinct := more.distinct
  locks := more.locks

theorem Holds.idle (holds : Holds c H [] s) : Idle s where
  dev := holds.dev
  distinct := holds.distinct
  unlocked e := by simp [holds.locks e]

theorem Holds.room (holds : Holds c H L s) : Inodes.room c ≤ Inodes.room s.icache + H.length := by
  have cover : ((List.range NINODE).filter fun e => (c e).ref = 0) ⊆
      ((List.range NINODE).filter fun e => (s.icache e).ref = 0) ++ H := by
    intro e member
    obtain ⟨inside, zero⟩ := List.mem_filter.mp member
    have total := holds.ref e
    rw [of_decide_eq_true zero] at total
    by_cases taken : e ∈ H
    · exact List.mem_append_right _ taken
    · rw [List.count_eq_zero_of_not_mem taken] at total
      exact List.mem_append_left _ (List.mem_filter.mpr ⟨inside, by simpa using total⟩)
  have few := (List.nodup_range.filter _).length_le_of_subset cover
  rwa [List.length_append] at few

theorem Holds.iunlockput (holds : Holds c (e :: H) (e :: L) s) (once : e ∉ L)
    (stays : (s.node e).nlink ≠ 0 ∨ 0 < (c e).ref ∨ e ∈ H) :
    Returns (s.iunlockput e) fun t => Holds c H L t ∧ Keeps s t := by
  refine Returns.bind (holds.iunlock List.mem_cons_self once) ?_
  rintro t ⟨unlocked, keeps⟩
  have node : t.node e = s.node e := by
    rw [node, node, keeps.dinode, keeps.inum e (holds.live List.mem_cons_self)]
  refine (unlocked.iput once (node ▸ stays)).mono ?_
  rintro u ⟨dropped, keeps'⟩
  refine ⟨dropped, keeps'.dinode.trans keeps.dinode, keeps'.dir.trans keeps.dir, ?_⟩
  intro k live
  rw [keeps'.inum k (by rwa [unlocked.ref k, ← holds.ref k]), keeps.inum k live]

theorem Holds.dirlookup (holds : Holds c H L s) (free : H.length < Inodes.room c) (member : e ∈ H)
    (dir : (s.node e).type = .dir) (name : Name) : Returns (s.dirlookup e name) fun r =>
      (r = (none, s) ∧ slotOf (s.entries e) name = none) ∨
      ∃ next k, r.1 = some (next, k) ∧ Holds c (next :: H) L r.2 ∧ Keeps s r.2 ∧
        slotOf (s.entries e) name = some k ∧ lookup (s.entries e) name = some (r.2.icache next).inum := by
  simp only [Inodes.dirlookup, dir, ne_eq, not_true_eq_false, if_false]
  cases found : slotOf (s.entries e) name with
  | none => exact Returns.ok (Or.inl ⟨rfl, rfl⟩)
  | some k =>
    obtain ⟨de, entry, -, value⟩ := slotOf_some found
    rw [holds.dev e (holds.live member)]
    refine Returns.bind (holds.iget free _) ?_
    rintro ⟨next, t⟩ ⟨taken, inum, keeps⟩
    refine Returns.ok (Or.inr ⟨next, k, rfl, taken, keeps, rfl, ?_⟩)
    rw [value, inum, entry]
    rfl

def follow (s : Inodes) : Nat → List Name → Option Nat
  | i, [] => some i
  | i, name :: names =>
    if (s.dinode i).type = .dir then (lookup (s.dir i) name).bind fun j => s.follow j names else none

/-- The directory that all names but the last lead to, and the last one. -/
def followParent (s : Inodes) (i : Nat) (names : List Name) : Option (Nat × Name) :=
  names.getLast?.bind fun name => (s.follow i names.dropLast).bind fun d =>
    if (s.dinode d).type = .dir then some (d, name) else none

theorem followParent_cons (s : Inodes) (i : Nat) (name : Name) (names : List Name) :
    s.followParent i (name :: names) =
      if (s.dinode i).type = .dir then
        if names = [] then some (i, name) else (lookup (s.dir i) name).bind fun j => s.followParent j names
      else none := by
  cases names with
  | nil => simp [followParent, follow]
  | cons other names =>
    by_cases dir : (s.dinode i).type = .dir
    · simp only [followParent, List.dropLast_cons_cons, follow, dir, if_true, reduceCtorEq, if_false,
        List.getLast?_cons_cons]
      cases lookup (s.dir i) name <;> simp
    · simp [followParent, follow, dir]

/-- Allocated, and with links or in use: no call that drops a reference frees it. -/
def Safe (s : Inodes) (i : Nat) : Prop :=
  (s.dinode i).type ≠ .free ∧
    ((s.dinode i).nlink ≠ 0 ∨ ∃ e < NINODE, 0 < (s.icache e).ref ∧ (s.icache e).inum = i)

/-- Live entries name allocated inodes, and so does the kernel's root. -/
structure Tree (s : Inodes) : Prop where
  root : s.Safe ROOTINO
  entry : ∀ d, (s.dinode d).type = .dir → ∀ de ∈ s.dir d, de.inum ≠ 0 → s.Safe de.inum

variable {b : Inodes}

theorem Safe.held (safe : b.Safe i) (holds : Holds b.icache H L s) (member : e ∈ H)
    (inum : (s.icache e).inum = i) : (b.dinode i).nlink ≠ 0 ∨ 0 < (b.icache e).ref := by
  refine safe.2.imp_right ?_
  rintro ⟨k, below, live, same⟩
  have used : 0 < (s.icache k).ref := by
    rw [holds.ref k]
    omega
  have equal : e = k := holds.distinct e k (holds.inside e member) below (holds.live member) used
    (by rw [inum, holds.same k live, same])
  rwa [equal]

theorem Safe.stays (safe : b.Safe i) (holds : Holds b.icache H L s) (member : e ∈ H)
    (inum : (s.icache e).inum = i) (disk : s.dinode = b.dinode) :
    (s.node e).nlink ≠ 0 ∨ 0 < (b.icache e).ref := by
  rw [node, disk, inum]
  exact safe.held holds member inum

theorem Tree.lookup (tree : Tree b) {d : Nat} {name : Name} (dir : (b.dinode d).type = .dir)
    (found : lookup (b.dir d) name = some i) : b.Safe i := by
  rw [Fs.lookup, Option.map_eq_some_iff] at found
  obtain ⟨de, found, rfl⟩ := found
  have named : de.Named name := by simpa using List.find?_some found
  exact tree.entry d dir de (List.mem_of_find?_eq_some found) named.1

/-- What namex returns for the components, with one reference on it and no other effect. -/
def Found (b : Inodes) (answer : Option (Nat × Name)) (r : Option (Nat × Name) × Inodes) : Prop :=
  r.2.dinode = b.dinode ∧ r.2.dir = b.dir ∧ Holds b.icache (r.1.toList.map Prod.fst) [] r.2 ∧
    r.1.map (fun found => ((r.2.icache found.1).inum, found.2)) = answer

theorem namexFrom_returns (tree : Tree b) (free : 2 ≤ room b.icache) (nameiparent : Bool) (names : List Name) :
    ∀ (s : Inodes) (ip : Nat), Holds b.icache [ip] [] s → s.dinode = b.dinode → s.dir = b.dir →
      b.Safe (s.icache ip).inum → Returns (namexFrom nameiparent names s ip)
        (Found b (if nameiparent then b.followParent (s.icache ip).inum names
          else (b.follow (s.icache ip).inum names).map fun i => (i, []))) := by
  induction names with
  | nil =>
    intro s ip holds dinode dir safe
    have stays := safe.stays holds List.mem_cons_self rfl dinode
    cases nameiparent with
    | true =>
      refine Returns.bind (holds.iput (by simp) (stays.imp_right Or.inl)) ?_
      rintro t ⟨dropped, keeps⟩
      exact Returns.ok ⟨keeps.dinode.trans dinode, keeps.dir.trans dir, dropped, rfl⟩
    | false => exact Returns.ok ⟨dinode, dir, holds, rfl⟩
  | cons name names ih =>
    intro s ip holds dinode dir safe
    have typed : (s.node ip).type = (b.dinode (s.icache ip).inum).type := by rw [node, dinode]
    rw [namexFrom]
    refine Returns.bind (holds.ilock List.mem_cons_self (by simp) (by rw [typed]; exact safe.1)) ?_
    rintro t ⟨locked, keeps⟩
    have inum := keeps.inum ip (holds.live List.mem_cons_self)
    have disk : t.dinode = b.dinode := keeps.dinode.trans dinode
    have disk' : t.dir = b.dir := keeps.dir.trans dir
    have stays := safe.stays locked List.mem_cons_self inum disk
    have typed' : (t.node ip).type = (b.dinode (s.icache ip).inum).type := by rw [node, disk, inum]
    split
    · rename_i other
      rw [typed'] at other
      refine Returns.bind (locked.iunlockput (by simp) (stays.imp_right Or.inl)) ?_
      rintro u ⟨dropped, keeps'⟩
      refine Returns.ok ⟨keeps'.dinode.trans disk, keeps'.dir.trans disk', dropped, ?_⟩
      cases nameiparent <;> simp [followParent_cons, follow, other]
    · rename_i isDir
      rw [not_not] at isDir
      split
      · rename_i last
        simp only [Bool.and_eq_true, decide_eq_true_eq] at last
        obtain ⟨rfl, rfl⟩ := last
        refine Returns.bind (locked.iunlock List.mem_cons_self (by simp)) ?_
        rintro u ⟨unlocked, keeps'⟩
        refine Returns.ok ⟨keeps'.dinode.trans disk, keeps'.dir.trans disk', unlocked, ?_⟩
        have inum' := keeps'.inum ip (locked.live List.mem_cons_self)
        simp [followParent_cons, ← typed', isDir, inum', inum]
      · rename_i further
        refine Returns.bind (locked.dirlookup (by simp; omega) List.mem_cons_self isDir name) ?_
        have entries : t.entries ip = b.dir (s.icache ip).inum := by rw [Inodes.entries, disk', inum]
        rintro ⟨r, u⟩ (⟨same, absent⟩ | ⟨next, k, rfl, taken, keeps', -, value⟩)
        · cases same
          refine Returns.bind (locked.iunlockput (by simp) (stays.imp_right Or.inl)) ?_
          rintro u ⟨dropped, keeps'⟩
          refine Returns.ok ⟨keeps'.dinode.trans disk, keeps'.dir.trans disk', dropped, ?_⟩
          rw [entries] at absent
          have nothing := lookup_none absent
          cases nameiparent with
          | true =>
            have more : names ≠ [] := by simpa using further
            simp [followParent_cons, more, nothing]
          | false => simp [follow, nothing]
        · have live := locked.live (e := ip) List.mem_cons_self
          have taken' : Holds b.icache [ip, next] [ip] u := taken.perm (List.Perm.swap ..)
          have stays' := safe.stays taken' List.mem_cons_self ((keeps'.inum ip live).trans inum)
            (keeps'.dinode.trans disk)
          refine Returns.bind (taken'.iunlockput (by simp) (stays'.imp_right Or.inl)) ?_
          rintro v ⟨dropped, keeps''⟩
          have goal : (v.icache next).inum = (u.icache next).inum :=
            keeps''.inum next (taken.live List.mem_cons_self)
          rw [entries, ← goal] at value
          rw [typed'] at isDir
          refine (ih v next dropped (keeps''.dinode.trans (keeps'.dinode.trans disk))
            (keeps''.dir.trans (keeps'.dir.trans disk')) (tree.lookup isDir value)).mono ?_
          intro r found
          cases nameiparent with
          | true =>
            have more : names ≠ [] := by simpa using further
            simpa [followParent_cons, isDir, more, value] using found
          | false => simpa [follow, isDir, value] using found

def start (s : Inodes) (cwd : Nat) (path : List UInt8) : Nat :=
  if path.head? = some slash then ROOTINO else (s.icache cwd).inum

/-- A cache entry with a reference, as the current directory of a process is. -/
structure Current (s : Inodes) (cwd : Nat) : Prop where
  inside : cwd < NINODE
  live : 0 < (s.icache cwd).ref
  allocated : (s.dinode (s.icache cwd).inum).type ≠ .free

theorem namex_returns (tree : Tree b) (idle : Idle b) (free : 2 ≤ room b.icache) {cwd : Nat}
    (current : Current b cwd) (path : List UInt8) (nameiparent : Bool) :
    Returns (b.namex cwd path nameiparent)
      (Found b (if nameiparent then b.followParent (b.start cwd path) (components path)
        else (b.follow (b.start cwd path) (components path)).map fun i => (i, []))) := by
  rw [namex, elems_eq_components, Inodes.start]
  split
  · refine Returns.bind (idle.holds.iget (by simp; omega) ROOTINO) ?_
    rintro ⟨ip, t⟩ ⟨taken, inum, keeps⟩
    have loop := namexFrom_returns tree free nameiparent (components path) t ip taken keeps.dinode keeps.dir
      (inum ▸ tree.root)
    rwa [inum] at loop
  · obtain ⟨taken, keeps⟩ := idle.holds.idup current.inside current.live
    have inum := keeps.inum cwd current.live
    have safe : b.Safe (b.icache cwd).inum :=
      ⟨current.allocated, Or.inr ⟨cwd, current.inside, current.live, rfl⟩⟩
    have loop := namexFrom_returns tree free nameiparent (components path) (b.idup cwd) cwd taken keeps.dinode
      keeps.dir (inum ▸ safe)
    rwa [inum] at loop

/-- The disk and the cache are the same but for one reference on the entry, if there is one. -/
structure OneMore (s : Inodes) (entry : Option Nat) (t : Inodes) : Prop where
  dinode : t.dinode = s.dinode
  dir : t.dir = s.dir
  ref : ∀ e, (t.icache e).ref = (s.icache e).ref + if entry = some e then 1 else 0
  inum : ∀ e, 0 < (s.icache e).ref → (t.icache e).inum = (s.icache e).inum
  idle : Idle t

theorem Found.oneMore {answer : Option (Nat × Name)} {r : Option (Nat × Name) × Inodes} (found : Found b answer r) :
    OneMore b (r.1.map Prod.fst) r.2 where
  dinode := found.1
  dir := found.2.1
  ref e := by
    rw [found.2.2.1.ref e]
    cases r.1 with
    | none => simp
    | some f => by_cases same : f.1 = e <;> simp [same]
  inum := found.2.2.1.same
  idle := found.2.2.1.idle

inductive Entered : Inodes → Inodes → Prop where
  | dirlink {s t : Inodes} (dp : Nat) (name : Name) (inum : Nat) (made : Bool)
      (done : s.dirlink dp name inum = .ok (made, t)) : Entered s t
  | remove (s : Inodes) (d k : Nat) : Entered s (s.setDir d ((s.dir d).set k ⟨0, List.replicate DIRSIZ 0⟩))

theorem iget_dir {dev : Nat} {r : Nat × Inodes} (done : s.iget dev i = .ok r) : r.2.dir = s.dir := by
  rw [Inodes.iget] at done
  split at done
  · cases done
    rfl
  · split at done
    · cases done
      rfl
    · cases done

theorem iput_distinct (distinct : ∀ d, Distinct (s.dir d)) (done : s.iput e = .ok t) (d : Nat) :
    Distinct (t.dir d) := by
  rw [Inodes.iput] at done
  split at done
  · cases done
  · split at done
    · cases done
      simp only [setInode_dir, setDir_dir, setDinode_dir]
      split
      · intro j k x y at_j
        simp at at_j
      · exact distinct d
    · cases done
      exact distinct d

theorem dirlookup_cases {dp : Nat} {name : Name} {r : Option (Nat × Nat)}
    (done : s.dirlookup dp name = .ok (r, t)) : (s.node dp).type = .dir ∧
      ((r = none ∧ t = s ∧ slotOf (s.entries dp) name = none) ∨
        ∃ next k de, r = some (next, k) ∧ slotOf (s.entries dp) name = some k ∧ (s.entries dp)[k]? = some de ∧
          de.Named name ∧ s.iget (s.icache dp).dev de.inum = .ok (next, t)) := by
  by_cases dir : (s.node dp).type = .dir
  · refine ⟨dir, ?_⟩
    simp only [Inodes.dirlookup, dir, ne_eq, not_true_eq_false, if_false] at done
    cases found : slotOf (s.entries dp) name with
    | none =>
      rw [found] at done
      cases done
      exact Or.inl ⟨rfl, rfl, rfl⟩
    | some k =>
      obtain ⟨de, entry, named, -⟩ := slotOf_some found
      rw [found] at done
      obtain ⟨⟨next, u⟩, taken, rest⟩ := Runs.bind_eq_ok done
      cases rest
      rw [entry] at taken
      exact Or.inr ⟨next, k, de, rfl, rfl, entry, named, taken⟩
  · simp only [Inodes.dirlookup, ne_eq, dir, not_false_eq_true, if_true] at done
    cases done

theorem dirlink_distinct {dp inum : Nat} {name : Name} {made : Bool} (distinct : ∀ d, Distinct (s.dir d))
    (done : s.dirlink dp name inum = .ok (made, t)) (d : Nat) : Distinct (t.dir d) := by
  obtain ⟨⟨r, u⟩, looked, rest⟩ := Runs.bind_eq_ok done
  obtain ⟨-, ⟨rfl, rfl, absent⟩ | ⟨next, k, de, rfl, -, -, -, taken⟩⟩ := dirlookup_cases looked
  · dsimp only at rest
    cases written : u.writeEntry dp (freeSlot (u.entries dp)) ⟨inum, strncpy name DIRSIZ⟩ with
    | none =>
      rw [written] at rest
      cases rest
    | some v =>
      rw [written] at rest
      cases rest
      rw [writeEntry] at written
      split at written
      · cases written
      · cases written
        rw [setDir_dir]
        split
        · exact (distinct _).setSlot (freeSlot_le _) absent
        · exact distinct d
  · obtain ⟨v, dropped, last⟩ := Runs.bind_eq_ok rest
    cases last
    exact iput_distinct (fun d => by rw [iget_dir taken]; exact distinct d) dropped d

theorem Entered.distinct (entered : Entered s t) (distinct : ∀ d, Distinct (s.dir d)) (d : Nat) :
    Distinct (t.dir d) := by
  cases entered with
  | dirlink dp name inum made done => exact dirlink_distinct distinct done d
  | remove i k =>
    rw [setDir_dir]
    split
    · exact (distinct i).remove k _
    · exact distinct d

theorem entered_distinct (run : Relation.ReflTransGen Entered s t) (distinct : ∀ d, Distinct (s.dir d)) (d : Nat) :
    Distinct (t.dir d) := by
  induction run generalizing d with
  | refl => exact distinct d
  | tail _ last ih => exact last.distinct ih d

theorem dirlookup_eq {dp k : Nat} {de : Dirent} {name : Name} (dir : (s.node dp).type = .dir)
    (distinct : Distinct (s.entries dp)) (entry : (s.entries dp)[k]? = some de) (named : de.Named name) :
    s.dirlookup dp name = (s.iget (s.icache dp).dev de.inum).map fun r => (some (r.1, k), r.2) := by
  simp only [Inodes.dirlookup, dir, ne_eq, not_true_eq_false, if_false, distinct.slotOf entry named, entry,
    Option.map_some, Option.getD_some]
  cases s.iget (s.icache dp).dev de.inum <;> rfl

theorem dirlookup_absent {dp : Nat} {name : Name} (dir : (s.node dp).type = .dir)
    (absent : ∀ de ∈ s.entries dp, ¬ de.Named name) : s.dirlookup dp name = .ok (none, s) := by
  simp only [Inodes.dirlookup, dir, ne_eq, not_true_eq_false, if_false, slotOf_none.mpr absent]
  rfl

/-- On a directory tree, with two unused cache entries, a path resolves to what its
    components lead to; and directories stay finite maps. -/
theorem path_resolution (s : Inodes) (tree : Tree s) (idle : Idle s) (free : 2 ≤ room s.icache) (cwd : Nat)
    (current : Current s cwd) (path : List UInt8) :
    (∃ r t, s.namei cwd path = .ok (r, t) ∧ OneMore s r t ∧
      r.map (fun ip => (t.icache ip).inum) = s.follow (s.start cwd path) (components path)) ∧
    (∃ r t, s.nameiparent cwd path = .ok (r, t) ∧ OneMore s (r.map Prod.fst) t ∧
      r.map (fun found => ((t.icache found.1).inum, found.2)) =
        s.followParent (s.start cwd path) (components path)) ∧
    ∀ t, (∀ d, Distinct (s.dir d)) → Relation.ReflTransGen Entered s t →
      (∀ d, Distinct (t.dir d)) ∧ ∀ dp name, (t.node dp).type = .dir →
        (∀ k de, (t.entries dp)[k]? = some de → de.Named name →
          t.dirlookup dp name = (t.iget (t.icache dp).dev de.inum).map fun r => (some (r.1, k), r.2)) ∧
        ((∀ de ∈ t.entries dp, ¬ de.Named name) → t.dirlookup dp name = .ok (none, t)) := by
  refine ⟨?_, ?_, ?_⟩
  · obtain ⟨⟨r, t⟩, done, found⟩ := namex_returns tree idle free current path false
    refine ⟨r.map Prod.fst, t, by rw [namei, done]; rfl, found.oneMore, ?_⟩
    have answer := congrArg (Option.map Prod.fst) found.2.2.2
    simpa [Function.comp_def] using answer
  · obtain ⟨⟨r, t⟩, done, found⟩ := namex_returns tree idle free current path true
    exact ⟨r, t, done, found.oneMore, found.2.2.2⟩
  · intro t distinct run
    have still := entered_distinct run distinct
    exact ⟨still, fun dp name dir => ⟨fun k de entry named => dirlookup_eq dir (still _) entry named,
      dirlookup_absent dir⟩⟩

/-- A root directory with one file, a, and a free inode; the cache entries used tells are in use. -/
def small (used : Nat → Bool) : Inodes where
  dinode i := ⟨if i = ROOTINO then .dir else if i = 100 then .free else .file, 0, 0, 1⟩
  dir i := if i = ROOTINO then
      [⟨ROOTINO, strncpy dot DIRSIZ⟩, ⟨ROOTINO, strncpy dotdot DIRSIZ⟩, ⟨60, strncpy [97] DIRSIZ⟩] else []
  icache e := ⟨ROOTDEV, e + 1, if used e then 1 else 0, false, false⟩

theorem small_tree (used : Nat → Bool) : Tree (small used) where
  root := ⟨by simp [small], Or.inl (by simp [small])⟩
  entry d _ de member _ := by
    refine ⟨?_, Or.inl (by simp [small])⟩
    simp only [small] at member ⊢
    split at member
    · simp only [List.mem_cons, List.not_mem_nil, or_false] at member
      rcases member with rfl | rfl | rfl <;> simp [ROOTINO]
    · cases member

theorem small_idle (used : Nat → Bool) : Idle (small used) where
  dev _ _ := rfl
  distinct e k _ _ _ _ same := by simpa [small] using same
  unlocked _ := rfl

theorem path_resolution_small :
    (∃ r t, (small (· = 0)).namei 0 [97] = .ok (r, t) ∧ OneMore (small (· = 0)) r t ∧
      r.map (fun ip => (t.icache ip).inum) = some 60) := by
  have resolved := (path_resolution (small (· = 0)) (small_tree _) (small_idle _) (by decide +kernel) 0
    ⟨by decide, by decide, by decide⟩ [97]).1
  have value : (small (· = 0)).follow ((small (· = 0)).start 0 [97]) (components [97]) = some 60 := by decide +kernel
  rwa [value] at resolved

/-- With every entry of the cache in use, looking up a file that is not among them panics. -/
theorem namei_full_cache : Tree (small fun _ => true) ∧ Idle (small fun _ => true) ∧ Current (small fun _ => true) 0 ∧
    (small fun _ => true).follow ROOTINO (components [97]) = some 60 ∧
    (small fun _ => true).namei 0 [97] = .error .igetNoInodes :=
  ⟨small_tree _, small_idle _, ⟨by decide, by decide, by decide⟩, by decide +kernel, eq_error (by decide +kernel)⟩

end Inodes
end Fs
end Xv6
