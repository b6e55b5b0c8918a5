import Xv6.Fs.Lookup

/-!
create and sys_link. On a directory tree, with room in the directory, a free inode and
unused cache entries, both add one name and nothing else or fail without a trace. Without
room dirlink panics, and sys_link with a name of the directory itself waits for its own lock.
-/
namespace Xv6
namespace Fs
namespace Inodes

open Runs

variable {s t b : Inodes} {c : Nat → Inode} {H L : List Nat} {e i d ip dp : Nat} {name : Name} {names : List Name}

theorem Holds.disk (holds : Holds c H L s) (same : t.icache = s.icache) : Holds c H L t where
  ref e := by rw [same, holds.ref e]
  same e live := by rw [same, holds.same e live]
  inside := holds.inside
  dev e live := by
    rw [same] at live ⊢
    exact holds.dev e live
  distinct e k below below' live live' equal := by
    rw [same] at live live' equal
    exact holds.distinct e k below below' live live' equal
  locks e := by rw [same, holds.locks e]

theorem follow_safe (tree : Tree b) (safe : b.Safe i) (found : b.follow i names = some d) : b.Safe d := by
  induction names generalizing i with
  | nil =>
    cases found
    exact safe
  | cons name names ih =>
    rw [follow] at found
    split at found
    · rename_i dir
      obtain ⟨j, entry, rest⟩ := Option.bind_eq_some_iff.mp found
      exact ih (tree.lookup dir entry) rest
    · cases found

theorem followParent_some (found : b.followParent i names = some (d, name)) :
    (b.dinode d).type = .dir ∧ b.follow i names.dropLast = some d := by
  obtain ⟨last, -, found⟩ := Option.bind_eq_some_iff.mp found
  obtain ⟨k, reached, found⟩ := Option.bind_eq_some_iff.mp found
  split at found
  · rename_i dir
    cases found
    exact ⟨dir, reached⟩
  · cases found

theorem follow_congr (types : ∀ k, (s.dinode k).type = (t.dinode k).type) (dirs : s.dir = t.dir) (i : Nat)
    (names : List Name) : s.follow i names = t.follow i names := by
  induction names generalizing i with
  | nil => rfl
  | cons name names ih => simp only [follow, types, dirs, ih]

theorem followParent_congr (types : ∀ k, (s.dinode k).type = (t.dinode k).type) (dirs : s.dir = t.dir) (i : Nat)
    (names : List Name) : s.followParent i names = t.followParent i names := by
  simp only [followParent, follow_congr types dirs, types]

theorem Current.safe {cwd : Nat} (current : Current b cwd) : b.Safe (b.icache cwd).inum :=
  ⟨current.allocated, Or.inr ⟨cwd, current.inside, current.live, rfl⟩⟩

theorem Tree.start (tree : Tree b) {cwd : Nat} (current : Current b cwd) (path : List UInt8) :
    b.Safe (b.start cwd path) := by
  rw [Inodes.start]
  split
  · exact tree.root
  · exact current.safe

def Fits (l : List Dirent) : Prop := 16 * (freeSlot l + 1) ≤ MAXFILE * BSIZE

instance (l : List Dirent) : Decidable (Fits l) := inferInstanceAs (Decidable (_ ≤ _))

def entered (l : List Dirent) (name : Name) (inum : Nat) : List Dirent :=
  setSlot l (freeSlot l) ⟨inum, strncpy name DIRSIZ⟩

theorem dirlink_absent (name : Name) (inum : Nat) (dir : (s.node dp).type = .dir)
    (absent : slotOf (s.entries dp) name = none) (fits : Fits (s.entries dp)) :
    s.dirlink dp name inum = .ok (true, s.setDir (s.icache dp).inum (entered (s.entries dp) name inum)) := by
  rw [Inodes.dirlink, dirlookup_absent dir (slotOf_none.mp absent)]
  simp only [bind, Except.bind, writeEntry, if_neg (not_lt.mpr fits)]
  rfl

theorem Holds.dirlink_present {inum : Nat} (holds : Holds b.icache H L s) (free : H.length < Inodes.room b.icache)
    (member : dp ∈ H) (dir : (s.node dp).type = .dir) (found : lookup (s.entries dp) name = some i)
    (safe : b.Safe i) (disk : s.dinode = b.dinode) (unlocked : ∀ e ∈ L, (s.icache e).inum ≠ i)
    (live : ∀ e ∈ L, 0 < (s.icache e).ref) :
    Returns (s.dirlink dp name inum) fun r => r.1 = false ∧ Holds b.icache H L r.2 ∧ Keeps s r.2 := by
  refine Returns.bind (holds.dirlookup free member dir name) ?_
  rintro ⟨r, t⟩ (⟨same, absent⟩ | ⟨next, k, rfl, taken, keeps, -, value⟩)
  · rw [lookup_none absent] at found
    cases found
  · rw [found] at value
    have inum : (t.icache next).inum = i := (Option.some.inj value).symm
    have outside : next ∉ L := by
      intro locked
      exact unlocked next locked ((keeps.inum next (live next locked)).symm.trans inum)
    have stays := safe.stays taken List.mem_cons_self inum (keeps.dinode.trans disk)
    refine Returns.bind (taken.iput outside (stays.imp_right Or.inl)) ?_
    rintro u ⟨dropped, keeps'⟩
    refine Returns.ok ⟨rfl, dropped, keeps'.dinode.trans keeps.dinode, keeps'.dir.trans keeps.dir, ?_⟩
    intro k used
    have still : 0 < (t.icache k).ref := by
      rw [taken.ref k, List.count_cons]
      rw [holds.ref k] at used
      omega
    exact (keeps'.inum k still).trans (keeps.inum k used)

theorem Holds.ialloc (holds : Holds c H L s) (free : H.length < Inodes.room c) (type : Itype)
    (inode : ∃ i, 1 ≤ i ∧ i < NINODES ∧ (s.dinode i).type = .free) :
    Returns (s.ialloc ROOTDEV type) fun r => ∃ i, 1 ≤ i ∧ i < NINODES ∧ (s.dinode i).type = .free ∧
      Holds c (r.1 :: H) L r.2 ∧ (r.2.icache r.1).inum = i ∧
      Keeps ((s.setDinode i ⟨type, 0, 0, 0⟩).setDir i []) r.2 := by
  rw [Inodes.ialloc]
  split
  · rename_i i found
    have here : 1 ≤ i ∧ (s.dinode i).type = .free := by simpa using List.find?_some found
    have below := List.mem_range.mp (List.mem_of_find?_eq_some found)
    refine ((holds.disk (t := (s.setDinode i ⟨type, 0, 0, 0⟩).setDir i []) rfl).iget free i).mono ?_
    rintro ⟨e, t⟩ ⟨taken, inum, keeps⟩
    exact ⟨i, here.1, below, here.2, taken, inum, keeps⟩
  · rename_i absent
    obtain ⟨i, positive, below, unused⟩ := inode
    rw [List.find?_eq_none] at absent
    exact absurd (by simp [positive, unused]) (absent i (List.mem_range.mpr below))

def createdInodes (b : Inodes) (d i : Nat) (new : Dinode) (k : Nat) : Dinode :=
  if k = i then new
  else if k = d ∧ new.type = .dir then { b.dinode d with nlink := short ((b.dinode d).nlink + 1) }
  else b.dinode k

def createdDirs (b : Inodes) (d i : Nat) (name : Name) (new : Dinode) (k : Nat) : List Dirent :=
  if k = d then entered (b.dir d) name i
  else if k = i then
    if new.type = .dir then [⟨i, strncpy dot DIRSIZ⟩, ⟨d, strncpy dotdot DIRSIZ⟩] else []
  else b.dir k

theorem createDots_returns (type : Itype) (new : (s.node ip).type = type) (empty : s.entries ip = [])
    (positive : (s.icache ip).inum ≠ 0) (other : (s.icache ip).inum ≠ (s.icache dp).inum) :
    Returns (s.createDots dp ip type) fun t => t.icache = s.icache ∧
      (∀ k, t.dinode k = if k = (s.icache dp).inum ∧ type = .dir then
        { s.node dp with nlink := short ((s.node dp).nlink + 1) } else s.dinode k) ∧
      (∀ k, t.dir k = if k = (s.icache ip).inum ∧ type = .dir then
        [⟨(s.icache ip).inum, strncpy dot DIRSIZ⟩, ⟨(s.icache dp).inum, strncpy dotdot DIRSIZ⟩] else s.dir k) := by
  rw [createDots]
  split
  · rename_i dir
    subst dir
    have typed : ((s.setNlink dp ((s.node dp).nlink + 1)).node ip).type = .dir := by
      rw [← new]
      simp [setNlink, node, other]
    have before : (s.setNlink dp ((s.node dp).nlink + 1)).entries ip = [] := empty
    have first := dirlink_absent dot (s.icache ip).inum typed (by rw [before]; rfl)
      (by rw [before]; decide)
    rw [before] at first
    refine Returns.bind ⟨_, first, rfl⟩ ?_
    rintro ⟨made, u⟩ same
    cases same
    have entries : ((s.setNlink dp ((s.node dp).nlink + 1)).setDir (s.icache ip).inum
        (entered [] dot (s.icache ip).inum)).entries ip = [⟨(s.icache ip).inum, strncpy dot DIRSIZ⟩] := by
      rw [Inodes.entries]
      simp [setNlink, entered, setSlot]
    have absent : slotOf [⟨(s.icache ip).inum, strncpy dot DIRSIZ⟩] dotdot = none := by
      rw [slotOf_none]
      intro de member named
      rw [List.mem_singleton.mp member] at named
      have differ : cut (strncpy dot DIRSIZ) ≠ cut dotdot := by decide
      exact differ named.2
    have slot : freeSlot [⟨(s.icache ip).inum, strncpy dot DIRSIZ⟩] = 1 := by simp [freeSlot, positive]
    have second := dirlink_absent dotdot (s.icache dp).inum
      (s := (s.setNlink dp ((s.node dp).nlink + 1)).setDir (s.icache ip).inum (entered [] dot (s.icache ip).inum))
      typed (by rw [entries]; exact absent) (by rw [entries, Fits, slot]; decide)
    rw [entries] at second
    refine Returns.bind ⟨_, second, rfl⟩ ?_
    rintro ⟨made, v⟩ same
    cases same
    refine Returns.ok ⟨rfl, ?_, ?_⟩
    · intro k
      simp [setNlink]
    · intro k
      by_cases here : k = (s.icache ip).inum <;> simp [setNlink, here, entered, slot, setSlot]
  · rename_i other
    refine Returns.ok ⟨rfl, ?_, ?_⟩ <;> intro k <;> simp [other]

/-- What create may leave: nothing, a reference on an existing file, or one new name. -/
inductive Created (b : Inodes) (parent : Option (Nat × Name)) (new : Dinode) : Option Nat × Inodes → Prop where
  | failed {t : Inodes} (same : OneMore b none t) : Created b parent new (none, t)
  | existing {t : Inodes} {ip d i : Nat} {name : Name} (at_ : parent = some (d, name))
      (entry : lookup (b.dir d) name = some i) (wanted : new.type = .file) (regular : (b.dinode i).type = .file)
      (inum : (t.icache ip).inum = i) (dinode : t.dinode = b.dinode) (dir : t.dir = b.dir)
      (holds : Holds b.icache [ip] [ip] t) : Created b parent new (some ip, t)
  | made {t : Inodes} {ip d i : Nat} {name : Name} (at_ : parent = some (d, name))
      (absent : lookup (b.dir d) name = none) (unused : (b.dinode i).type = .free) (below : i < NINODES)
      (inum : (t.icache ip).inum = i) (dinode : t.dinode = b.createdInodes d i new)
      (dir : t.dir = b.createdDirs d i name new) (holds : Holds b.icache [ip] [ip] t) :
      Created b parent new (some ip, t)

theorem Holds.oneMore (holds : Holds b.icache [] [] t) (dinode : t.dinode = b.dinode) (dir : t.dir = b.dir) :
    OneMore b none t where
  dinode := dinode
  dir := dir
  ref e := by simpa using holds.ref e
  inum := holds.same
  idle := holds.idle

theorem lookup_slotOf {l : List Dirent} (absent : lookup l name = none) : slotOf l name = none := by
  cases found : slotOf l name with
  | none => rfl
  | some k =>
    obtain ⟨de, -, -, value⟩ := slotOf_some found
    rw [absent] at value
    cases value

theorem Holds.swap {a k : Nat} (holds : Holds c H (a :: k :: L) s) : Holds c H (k :: a :: L) s where
  ref := holds.ref
  same := holds.same
  inside := holds.inside
  dev := holds.dev
  distinct := holds.distinct
  locks e := by
    rw [holds.locks e]
    simp [or_left_comm]

/-- Link counts are shorts, and none of them has overflowed. -/
def Counted (s : Inodes) : Prop := ∀ i, 0 ≤ (s.dinode i).nlink ∧ (s.dinode i).nlink < 32768

theorem short_succ {n : Int} (small : 0 ≤ n ∧ n < 32768) : short (n + 1) ≠ 0 ∧ short (short (n + 1) - 1) = n := by
  simp only [short, Int.bmod]
  omega

theorem Holds.createInode (holds : Holds b.icache [dp] [dp] s) (dinode : s.dinode = b.dinode) (dir : s.dir = b.dir)
    (free : 2 ≤ Inodes.room b.icache) (inode : ∃ i, 1 ≤ i ∧ i < NINODES ∧ (b.dinode i).type = .free)
    (inumDp : (s.icache dp).inum = d) (parent : (b.dinode d).type = .dir) {type : Itype} (real : type ≠ .free)
    (major minor : Int) :
    Returns (s.createInode dp type major minor) fun r => ∃ i, (b.dinode i).type = .free ∧ i < NINODES ∧ i ≠ d ∧
      r.1 ≠ dp ∧ Holds b.icache [dp, r.1] [dp, r.1] r.2 ∧ (r.2.icache r.1).inum = i ∧ (r.2.icache dp).inum = d ∧
      r.2.dinode = b.createdInodes d i ⟨type, short major, short minor, 1⟩ ∧
      ∀ k, r.2.dir k = if k = i then
        if type = .dir then [⟨i, strncpy dot DIRSIZ⟩, ⟨d, strncpy dotdot DIRSIZ⟩] else [] else b.dir k := by
  have used := holds.live (e := dp) List.mem_cons_self
  rw [Inodes.createInode, holds.dev dp used]
  refine Returns.bind (holds.ialloc (by simp; omega) type (dinode ▸ inode)) ?_
  rintro ⟨ip, t⟩ ⟨i, positive, below, unused, taken, inum, keeps⟩
  dsimp only at taken inum keeps
  rw [dinode] at unused
  have other : i ≠ d := by
    rintro rfl
    rw [unused] at parent
    cases parent
  have outside : ip ≠ dp := by
    rintro rfl
    exact other (inum.symm.trans ((keeps.inum ip used).trans inumDp))
  have dinode₁ : ∀ k, t.dinode k = if k = i then ⟨type, 0, 0, 0⟩ else b.dinode k := by
    intro k
    simp [keeps.dinode, dinode]
  have dir₁ : ∀ k, t.dir k = if k = i then [] else b.dir k := by
    intro k
    simp [keeps.dir, dir]
  refine Returns.bind (taken.ilock List.mem_cons_self (by simpa using outside) (by simp [node, inum, dinode₁, real])) ?_
  rintro u ⟨locked, keeps'⟩
  have inum' : (u.icache ip).inum = i := (keeps'.inum ip (taken.live List.mem_cons_self)).trans inum
  have inumDp' : (u.icache dp).inum = d :=
    (keeps'.inum dp (taken.live (by simp))).trans ((keeps.inum dp used).trans inumDp)
  refine Returns.bind (createDots_returns type ?_ ?_ ?_ ?_) ?_
  · simp [node, inum', keeps'.dinode, dinode₁]
  · simp [Inodes.entries, inum', keeps'.dir, dir₁]
  · simp [inum']
    omega
  · simpa [inum', inumDp'] using other
  rintro v ⟨cache, dinode₂, dir₂⟩
  simp only [setDinode_icache, inum', inumDp'] at cache dinode₂ dir₂
  refine Returns.ok ⟨i, unused, below, other, outside, ((locked.disk cache).perm (List.Perm.swap ..)).swap,
    by rw [cache, inum'], by rw [cache, inumDp'], ?_, ?_⟩
  · funext k
    simp only [dinode₂, setDinode_dinode, keeps'.dinode, dinode₁, createdInodes, node, inum', if_true]
    by_cases here : k = i
    · simp [here, other]
    · by_cases there : k = d <;> simp [here, there, inumDp', Ne.symm other]
  · intro k
    simp only [dir₂, setDinode_dir, keeps'.dir, dir₁]
    by_cases here : k = i <;> simp [here]

theorem Holds.createNew (holds : Holds b.icache [dp] [dp] s) (dinode : s.dinode = b.dinode) (dir : s.dir = b.dir)
    (free : 2 ≤ Inodes.room b.icache) (inode : ∃ i, 1 ≤ i ∧ i < NINODES ∧ (b.dinode i).type = .free)
    (counted : Counted b) (inumDp : (s.icache dp).inum = d) (parent : (b.dinode d).type = .dir) (safe : b.Safe d)
    (absent : lookup (b.dir d) name = none) (fits : Fits (b.dir d)) {type : Itype} (real : type ≠ .free)
    (major minor : Int) :
    Returns (s.createNew dp name type major minor)
      (Created b (some (d, name)) ⟨type, short major, short minor, 1⟩) := by
  refine Returns.bind (holds.createInode dinode dir free inode inumDp parent real major minor) ?_
  rintro ⟨ip, t⟩ ⟨i, unused, below, other, outside, both, inum, inumDp', dinode', dir'⟩
  dsimp only at outside both inum inumDp' dinode' dir'
  have entries : t.entries dp = b.dir d := by simp [Inodes.entries, inumDp', dir', Ne.symm other]
  have links : (t.node dp).nlink ≠ 0 ∨ 0 < (b.icache dp).ref := by
    refine (safe.held both List.mem_cons_self inumDp').imp_left ?_
    intro links
    simp only [node, inumDp', dinode', createdInodes, if_neg (Ne.symm other), true_and]
    split
    · exact (short_succ (counted d)).1
    · exact links
  have typed : (t.node dp).type = .dir := by
    simp only [node, inumDp', dinode', createdInodes, if_neg (Ne.symm other), true_and]
    split <;> exact parent
  have last := dirlink_absent name i typed (by rw [entries]; exact lookup_slotOf absent)
    (by rw [entries]; exact fits)
  dsimp only
  rw [inum]
  refine Returns.bind ⟨_, last, rfl⟩ ?_
  rintro ⟨made, u⟩ same
  cases same
  have written : Holds b.icache [dp, ip] [dp, ip] (t.setDir (t.icache dp).inum (entered (t.entries dp) name i)) :=
    both.disk rfl
  refine Returns.bind (written.iunlockput (by simpa using Ne.symm outside) (links.imp_right Or.inl)) ?_
  rintro u ⟨dropped, keeps⟩
  refine Returns.ok (Created.made rfl absent unused below ?_ (keeps.dinode.trans dinode') ?_ dropped)
  · rw [keeps.inum ip (written.live (by simp)), setDir_icache, inum]
  · funext k
    simp only [keeps.dir, setDir_dir, dir', createdDirs, entries, inumDp']

/-- A directory tree between two calls, with what a naming call may need: a free inode
    and three unused cache entries. -/
structure Ready (b : Inodes) (cwd : Nat) : Prop where
  tree : Tree b
  idle : Idle b
  counted : Counted b
  room : 3 ≤ Inodes.room b.icache
  current : Current b cwd
  inode : ∃ i, 1 ≤ i ∧ i < NINODES ∧ (b.dinode i).type = .free

def parent (b : Inodes) (cwd : Nat) (path : List UInt8) : Option (Nat × Name) :=
  b.followParent (b.start cwd path) (components path)

def HasRoom (b : Inodes) (parent : Option (Nat × Name)) : Prop :=
  ∀ d name, parent = some (d, name) → lookup (b.dir d) name = none → Fits (b.dir d)

theorem create_enters {cwd : Nat} (ready : Ready b cwd) {path : List UInt8} (at_ : b.parent cwd path = some (d, name))
    (type : Itype) (major minor : Int) :
    (b.dinode d).type = .dir ∧ b.Safe d ∧ ∃ dp s, Holds b.icache [dp] [dp] s ∧ s.dinode = b.dinode ∧ s.dir = b.dir ∧
      (s.icache dp).inum = d ∧
      b.create cwd path type major minor = s.createIn dp name type major minor := by
  obtain ⟨isDir, reached⟩ := followParent_some at_
  have safe := follow_safe ready.tree (ready.tree.start ready.current path) reached
  refine ⟨isDir, safe, ?_⟩
  obtain ⟨⟨r, t⟩, found, dinode, dir, holds, answer⟩ :=
    namex_returns ready.tree ready.idle (Nat.le_of_succ_le ready.room) ready.current path true
  rw [if_pos rfl] at answer
  rw [← parent, at_] at answer
  obtain ⟨⟨dp, last⟩, rfl, same⟩ := Option.map_eq_some_iff.mp answer
  cases same
  obtain ⟨u, locking, locked, keeps⟩ :=
    holds.ilock (e := dp) List.mem_cons_self (by simp) (by rw [node, dinode]; exact safe.1)
  refine ⟨dp, u, locked, keeps.dinode.trans dinode, keeps.dir.trans dir, keeps.inum dp (holds.live List.mem_cons_self), ?_⟩
  rw [create, nameiparent, found]
  simp only [bind, Except.bind, locking]

theorem create_returns {cwd : Nat} (ready : Ready b cwd) (path : List UInt8) {type : Itype} (real : type ≠ .free)
    (major minor : Int) (fits : HasRoom b (b.parent cwd path)) :
    Returns (b.create cwd path type major minor)
      (Created b (b.parent cwd path) ⟨type, short major, short minor, 1⟩) := by
  have free : 2 ≤ Inodes.room b.icache := Nat.le_of_succ_le ready.room
  cases at_ : b.parent cwd path with
  | none =>
    refine Returns.bind (namex_returns ready.tree ready.idle free ready.current path true) ?_
    rintro ⟨r, t⟩ found
    have answer := found.2.2.2
    rw [if_pos rfl, ← parent, at_] at answer
    obtain rfl : r = none := Option.map_eq_none_iff.mp answer
    exact Returns.ok (Created.failed found.oneMore)
  | some place =>
    obtain ⟨d, name⟩ := place
    obtain ⟨isDir, safe, dp, s, locked, dinode, dir, inum, same⟩ := create_enters ready at_ type major minor
    rw [same]
    have typed : (s.node dp).type = .dir := by rw [node, dinode, inum, isDir]
    refine Returns.bind (locked.dirlookup (by simp; omega) List.mem_cons_self typed name) ?_
    have entries : s.entries dp = b.dir d := by rw [Inodes.entries, dir, inum]
    rw [entries]
    rintro ⟨r, v⟩ (⟨same, absent⟩ | ⟨ip, k, rfl, taken, keeps, -, value⟩)
    · cases same
      exact locked.createNew dinode dir free ready.inode ready.counted inum isDir safe (lookup_none absent)
        (fits _ _ at_ (lookup_none absent)) real major minor
    · have both : Holds b.icache [dp, ip] [dp] v := taken.perm (List.Perm.swap ..)
      have stays := safe.stays both List.mem_cons_self
        ((keeps.inum dp (locked.live List.mem_cons_self)).trans inum) (keeps.dinode.trans dinode)
      refine Returns.bind (both.iunlockput (by simp) (stays.imp_right Or.inl)) ?_
      rintro w ⟨dropped, keeps'⟩
      have dinode' : w.dinode = b.dinode := keeps'.dinode.trans (keeps.dinode.trans dinode)
      have dir' : w.dir = b.dir := keeps'.dir.trans (keeps.dir.trans dir)
      have inumIp : (w.icache ip).inum = (v.icache ip).inum := keeps'.inum ip (taken.live List.mem_cons_self)
      have safe' : b.Safe (w.icache ip).inum := ready.tree.lookup isDir (inumIp ▸ value)
      refine Returns.bind (dropped.ilock List.mem_cons_self (by simp) (by rw [node, dinode']; exact safe'.1)) ?_
      rintro x ⟨locked', keeps''⟩
      have inumX := keeps''.inum ip (dropped.live List.mem_cons_self)
      have dinodeX : x.dinode = b.dinode := keeps''.dinode.trans dinode'
      have dirX : x.dir = b.dir := keeps''.dir.trans dir'
      split
      · rename_i regular
        refine Returns.ok (Created.existing rfl value regular.1 ?_ (inumX.trans inumIp) dinodeX dirX locked')
        rw [← regular.2, node, dinodeX, inumX, inumIp]
      · have stays' := safe'.stays locked' List.mem_cons_self inumX dinodeX
        refine Returns.bind (locked'.iunlockput (by simp) (stays'.imp_right Or.inl)) ?_
        rintro y ⟨dropped', last⟩
        exact Returns.ok (Created.failed (dropped'.oneMore (last.dinode.trans dinodeX) (last.dir.trans dirX)))

theorem create_panics {cwd : Nat} (ready : Ready b cwd) {path : List UInt8} (at_ : b.parent cwd path = some (d, name))
    (absent : lookup (b.dir d) name = none) (full : ¬ Fits (b.dir d)) {type : Itype} (real : type ≠ .free)
    (major minor : Int) : b.create cwd path type major minor = .error .dirlink := by
  obtain ⟨isDir, -, dp, s, locked, dinode, dir, inum, same⟩ := create_enters ready at_ type major minor
  have typed : (s.node dp).type = .dir := by rw [node, dinode, inum, isDir]
  have entries : s.entries dp = b.dir d := by rw [Inodes.entries, dir, inum]
  rw [same, createIn, dirlookup_absent typed (slotOf_none.mp (by rw [entries]; exact lookup_slotOf absent))]
  change s.createNew dp name type major minor = .error .dirlink
  refine Returns.bind_error (locked.createInode dinode dir (Nat.le_of_succ_le ready.room) ready.inode inum isDir real
    major minor) ?_
  rintro ⟨ip, t⟩ ⟨i, -, -, other, -, -, -, inumDp, dinode', dir'⟩
  dsimp only at inumDp dinode' dir'
  have typed' : (t.node dp).type = .dir := by
    simp only [node, inumDp, dinode', createdInodes, if_neg (Ne.symm other), true_and]
    split <;> exact isDir
  have entries' : t.entries dp = b.dir d := by simp [Inodes.entries, inumDp, dir', Ne.symm other]
  simp only [Inodes.dirlink, dirlookup_absent typed' (slotOf_none.mp (entries' ▸ lookup_slotOf absent)), bind,
    Except.bind, writeEntry, entries', if_pos (not_le.mp full)]
  rfl

def raised (b : Inodes) (i k : Nat) : Dinode :=
  if k = i then { b.dinode i with nlink := short ((b.dinode i).nlink + 1) } else b.dinode k

/-- What sys_link may leave: nothing, or one new name of the old inode. -/
inductive Linked (b : Inodes) (old : Option Nat) (parent : Option (Nat × Name)) : Bool × Inodes → Prop where
  | failed {t : Inodes} (same : OneMore b none t) : Linked b old parent (false, t)
  | made {t : Inodes} {d i : Nat} {name : Name} (target : old = some i) (plain : (b.dinode i).type ≠ .dir)
      (at_ : parent = some (d, name)) (absent : lookup (b.dir d) name = none) (dinode : t.dinode = b.raised i)
      (dir : ∀ k, t.dir k = if k = d then entered (b.dir d) name i else b.dir k)
      (holds : Holds b.icache [] [] t) : Linked b old parent (true, t)

theorem Holds.linkBad (holds : Holds b.icache [ip] [] s) (safe : b.Safe (s.icache ip).inum) (counted : Counted b)
    (dinode : s.dinode = b.raised (s.icache ip).inum) (dir : s.dir = b.dir) :
    Returns (s.linkBad ip) fun r => r.1 = false ∧ OneMore b none r.2 := by
  refine Returns.bind (holds.ilock List.mem_cons_self (by simp) (by simpa [node, dinode, raised] using safe.1)) ?_
  rintro t ⟨locked, keeps⟩
  have inum := keeps.inum ip (holds.live List.mem_cons_self)
  have back : (t.setNlink ip ((t.node ip).nlink - 1)).dinode = b.dinode := by
    funext k
    simp only [setNlink, node, setDinode_dinode, keeps.dinode, dinode, inum, raised, if_true]
    split
    · rename_i here
      rw [(short_succ (counted _)).2, here]
    · rfl
  have same : Holds b.icache [ip] [ip] (t.setNlink ip ((t.node ip).nlink - 1)) := locked.disk rfl
  have stays := safe.stays same List.mem_cons_self inum back
  refine Returns.bind (same.iunlockput (by simp) (stays.imp_right Or.inl)) ?_
  rintro u ⟨dropped, keeps'⟩
  exact Returns.ok ⟨rfl, dropped.oneMore (keeps'.dinode.trans back) (keeps'.dir.trans (keeps.dir.trans dir))⟩

theorem Tree.raised (tree : Tree b) (counted : Counted b) (holds : Holds b.icache H L t)
    (dinode : t.dinode = b.raised i) (dir : t.dir = b.dir) : Tree t := by
  have types : ∀ k, (t.dinode k).type = (b.dinode k).type := by
    intro k
    rw [dinode, Inodes.raised]
    split
    · rename_i here
      rw [here]
    · rfl
  have safe : ∀ k, b.Safe k → t.Safe k := by
    rintro k ⟨allocated, links | ⟨e, inside, live, same⟩⟩
    · refine ⟨types k ▸ allocated, Or.inl ?_⟩
      rw [dinode, Inodes.raised]
      split
      · exact (short_succ (counted i)).1
      · exact links
    · refine ⟨types k ▸ allocated, Or.inr ⟨e, inside, ?_, (holds.same e live).trans same⟩⟩
      rw [holds.ref e]
      omega
  refine ⟨safe _ tree.root, ?_⟩
  intro d isDir de member used
  rw [types] at isDir
  rw [dir] at member
  exact safe _ (tree.entry d isDir de member used)

theorem raised_type (b : Inodes) (i k : Nat) : (b.raised i k).type = (b.dinode k).type := by
  rw [raised]
  split
  · rename_i here
    rw [here]
  · rfl

theorem linkNew_returns {cwd : Nat} (ready : Ready b cwd) (new : List UInt8) (fits : HasRoom b (b.parent cwd new))
    (apart : ∀ d name, b.parent cwd new = some (d, name) → lookup (b.dir d) name ≠ some d)
    (holds : Holds b.icache [ip] [] s) (inum : (s.icache ip).inum = i) (plain : (b.dinode i).type ≠ .dir)
    (safe : b.Safe i) (dinode : s.dinode = b.raised i) (dir : s.dir = b.dir) :
    Returns (s.linkNew cwd ip new) (Linked b (some i) (b.parent cwd new)) := by
  have tree : Tree s := ready.tree.raised ready.counted holds dinode dir
  have room : 2 ≤ Inodes.room s.icache := by
    have before := ready.room
    have taken := holds.room
    simp only [List.length_singleton] at taken
    omega
  have types : ∀ k, (s.dinode k).type = (b.dinode k).type := fun k => by rw [dinode, raised_type]
  have inumCwd := holds.same cwd ready.current.live
  have current : Current s cwd := by
    refine ⟨ready.current.inside, ?_, ?_⟩
    · have live := ready.current.live
      rw [holds.ref cwd]
      omega
    · rw [types, inumCwd]
      exact ready.current.allocated
  have used := holds.live (e := ip) List.mem_cons_self
  have same : s.parent cwd new = b.parent cwd new := by
    rw [parent, parent, followParent_congr types dir, Inodes.start, Inodes.start, inumCwd]
  -- after a failure only the reference on ip and its link are left
  have bad : ∀ t, Holds s.icache [] [] t → t.dinode = s.dinode → t.dir = s.dir →
      Returns (t.linkBad ip) (Linked b (some i) (b.parent cwd new)) := by
    intro t more dinode' dir'
    have inum' : (t.icache ip).inum = i := (more.same ip used).trans inum
    refine ((holds.trans more).linkBad (inum'.symm ▸ safe) ready.counted ?_ (dir'.trans dir)).mono ?_
    · rw [dinode', dinode, inum']
    · rintro ⟨made, u⟩ ⟨rfl, unchanged⟩
      exact Linked.failed unchanged
  refine Returns.bind (namex_returns tree holds.idle room current new true) ?_
  rintro ⟨r, t⟩ found
  cases r with
  | none => exact bad t found.2.2.1 found.1 found.2.1
  | some at_ =>
    obtain ⟨dp, name⟩ := at_
    obtain ⟨dinode₁, dir₁, taken, answer⟩ := found
    have answer : s.parent cwd new = some ((t.icache dp).inum, name) := answer.symm
    obtain ⟨isDir, reached⟩ := followParent_some answer
    rw [same] at answer
    have safeDp : s.Safe (t.icache dp).inum := follow_safe tree (tree.start current new) reached
    refine Returns.bind (taken.ilock List.mem_cons_self (by simp) (by rw [node, dinode₁]; exact safeDp.1)) ?_
    rintro u ⟨locked, keeps⟩
    have inumDp : (u.icache dp).inum = (t.icache dp).inum := keeps.inum dp (taken.live List.mem_cons_self)
    have dinode₂ : u.dinode = s.dinode := keeps.dinode.trans dinode₁
    have dir₂ : u.dir = s.dir := keeps.dir.trans dir₁
    have usedIp : 0 < (u.icache ip).ref := by
      rw [locked.ref ip]
      omega
    rw [if_neg (by simp [locked.dev dp (locked.live List.mem_cons_self), locked.dev ip usedIp])]
    have typed : (u.node dp).type = .dir := by rw [node, dinode₂, inumDp, isDir]
    have entries : u.entries dp = b.dir (t.icache dp).inum := by rw [Inodes.entries, dir₂, inumDp, dir]
    have inumIp : (u.icache ip).inum = i := (locked.same ip used).trans inum
    cases entry : lookup (b.dir (t.icache dp).inum) name with
    | some j =>
      have there : lookup (s.dir (t.icache dp).inum) name = some j := by rw [dir, entry]
      have safeJ : s.Safe j := tree.lookup isDir there
      have distinct : (u.icache dp).inum ≠ j := by
        rw [inumDp]
        rintro rfl
        exact apart _ _ answer entry
      refine Returns.bind (locked.dirlink_present (by simp; omega) List.mem_cons_self typed (by rw [entries, entry]) safeJ
        dinode₂ (by simpa using distinct) (by simpa using locked.live (e := dp) List.mem_cons_self)) ?_
      rintro ⟨made, v⟩ ⟨rfl, kept, keeps'⟩
      have inumV := (keeps'.inum dp (locked.live List.mem_cons_self)).trans inumDp
      have stays := safeDp.stays kept List.mem_cons_self inumV (keeps'.dinode.trans dinode₂)
      refine Returns.bind (kept.iunlockput (by simp) (stays.imp_right Or.inl)) ?_
      rintro w ⟨dropped, keeps''⟩
      exact bad w dropped (keeps''.dinode.trans (keeps'.dinode.trans dinode₂))
        (keeps''.dir.trans (keeps'.dir.trans dir₂))
    | none =>
      have last := dirlink_absent name i typed (by rw [entries]; exact lookup_slotOf entry)
        (by rw [entries]; exact fits _ _ answer entry)
      rw [inumIp]
      refine Returns.bind ⟨_, last, rfl⟩ ?_
      rintro ⟨made, v⟩ equal
      cases equal
      have written : Holds s.icache [dp] [dp] (u.setDir (u.icache dp).inum (entered (u.entries dp) name i)) :=
        locked.disk rfl
      have stays := safeDp.stays written List.mem_cons_self inumDp dinode₂
      refine Returns.bind (written.iunlockput (by simp) (stays.imp_right Or.inl)) ?_
      rintro w ⟨dropped, keeps'⟩
      have dinode₃ : w.dinode = b.raised i := keeps'.dinode.trans (dinode₂.trans dinode)
      have links : (w.node ip).nlink ≠ 0 := by
        rw [node, dinode₃, (dropped.same ip used).trans inum]
        simpa [raised] using (short_succ (ready.counted i)).1
      refine Returns.bind ((holds.trans dropped).iput (by simp) (Or.inl links)) ?_
      rintro x ⟨done, keeps''⟩
      refine Returns.ok (Linked.made rfl plain answer entry (keeps''.dinode.trans dinode₃) ?_ done)
      intro k
      simp only [keeps''.dir, keeps'.dir, setDir_dir, inumDp, entries, dir₂, dir]

theorem namei_returns (tree : Tree b) (idle : Idle b) (free : 2 ≤ Inodes.room b.icache) {cwd : Nat}
    (current : Current b cwd) (path : List UInt8) : Returns (b.namei cwd path) fun r =>
      r.2.dinode = b.dinode ∧ r.2.dir = b.dir ∧ Holds b.icache r.1.toList [] r.2 ∧
        r.1.map (fun ip => (r.2.icache ip).inum) = b.follow (b.start cwd path) (components path) := by
  refine Returns.bind (namex_returns tree idle free current path false) ?_
  rintro ⟨r, t⟩ ⟨dinode, dir, holds, answer⟩
  refine Returns.ok ⟨dinode, dir, ?_, ?_⟩
  · cases r with
    | none => exact holds
    | some found => exact holds
  · have first := congrArg (Option.map Prod.fst) answer
    simpa [Function.comp_def] using first

theorem sys_link_returns {cwd : Nat} (ready : Ready b cwd) (old new : List UInt8)
    (fits : HasRoom b (b.parent cwd new))
    (apart : ∀ d name, b.parent cwd new = some (d, name) → lookup (b.dir d) name ≠ some d) :
    Returns (b.sys_link cwd old new)
      (Linked b (b.follow (b.start cwd old) (components old)) (b.parent cwd new)) := by
  refine Returns.bind (namei_returns ready.tree ready.idle (Nat.le_of_succ_le ready.room) ready.current old) ?_
  rintro ⟨r, t⟩ ⟨dinode, dir, holds, answer⟩
  cases r with
  | none => exact Returns.ok (Linked.failed (holds.oneMore dinode dir))
  | some ip =>
    have answer : b.follow (b.start cwd old) (components old) = some (t.icache ip).inum := answer.symm
    have safe := follow_safe ready.tree (ready.tree.start ready.current old) answer
    rw [answer]
    refine Returns.bind (holds.ilock (e := ip) (by simp) (by simp) (by rw [node, dinode]; exact safe.1)) ?_
    rintro u ⟨locked, keeps⟩
    have inum : (u.icache ip).inum = (t.icache ip).inum := keeps.inum ip (holds.live (by simp))
    have dinode' : u.dinode = b.dinode := keeps.dinode.trans dinode
    have dir' : u.dir = b.dir := keeps.dir.trans dir
    have stays := safe.stays locked List.mem_cons_self inum dinode'
    split
    · refine Returns.bind (locked.iunlockput (by simp) (stays.imp_right Or.inl)) ?_
      rintro v ⟨dropped, keeps'⟩
      exact Returns.ok (Linked.failed (dropped.oneMore (keeps'.dinode.trans dinode') (keeps'.dir.trans dir')))
    · rename_i plain
      have raise : Holds b.icache [ip] [ip] (u.setNlink ip ((u.node ip).nlink + 1)) := locked.disk rfl
      refine Returns.bind (raise.iunlock List.mem_cons_self (by simp)) ?_
      rintro v ⟨unlocked, keeps'⟩
      have inum' : (v.icache ip).inum = (t.icache ip).inum :=
        (keeps'.inum ip (raise.live List.mem_cons_self)).trans inum
      refine linkNew_returns ready new fits apart unlocked inum' ?_ safe ?_ (keeps'.dir.trans dir')
      · rwa [node, dinode', inum] at plain
      · rw [keeps'.dinode]
        funext k
        simp [setNlink, node, dinode', inum, raised]

theorem small_ready : Ready (small (· = 0)) 0 where
  tree := small_tree _
  idle := small_idle _
  counted i := by simp [small]
  room := by decide +kernel
  current := ⟨by decide, by decide, by decide⟩
  inode := ⟨100, by decide⟩

/-- A root directory with as many entries as a file can hold, all but two of them for one file. -/
def crowded : Inodes where
  dinode i := ⟨if i = ROOTINO then .dir else if i = 100 then .free else .file, 0, 0, if i = 60 then 4478 else 1⟩
  dir i := if i = ROOTINO then
      ⟨ROOTINO, strncpy dot DIRSIZ⟩ :: ⟨ROOTINO, strncpy dotdot DIRSIZ⟩ ::
        (List.range 4478).map fun k => ⟨60, strncpy [.ofNat (k / 64 + 65), .ofNat (k % 64 + 65)] DIRSIZ⟩ else []
  icache e := ⟨ROOTDEV, e + 1, if e = 0 then 1 else 0, false, false⟩

theorem crowded_dir : crowded.dir ROOTINO =
    ⟨ROOTINO, strncpy dot DIRSIZ⟩ :: ⟨ROOTINO, strncpy dotdot DIRSIZ⟩ ::
      (List.range 4478).map fun k => ⟨60, strncpy [.ofNat (k / 64 + 65), .ofNat (k % 64 + 65)] DIRSIZ⟩ := by
  simp only [crowded, if_true]

theorem crowded_entry {de : Dirent} (member : de ∈ crowded.dir ROOTINO) :
    (de.inum = ROOTINO ∨ de.inum = 60) ∧ ¬ de.Named [200] := by
  rw [crowded_dir] at member
  simp only [List.mem_cons, List.mem_map, List.mem_range] at member
  rcases member with rfl | rfl | ⟨k, below, rfl⟩
  · exact ⟨by simp, by decide⟩
  · exact ⟨by simp, by decide⟩
  · refine ⟨by simp, fun named => ?_⟩
    have first : UInt8.ofNat (k / 64 + 65) ≠ 0 ∧ UInt8.ofNat (k / 64 + 65) ≠ 200 := by
      refine ⟨fun same => ?_, fun same => ?_⟩ <;>
        · have value := congrArg UInt8.toNat same
          simp at value
          omega
    have same := named.2
    rw [cut_strncpy] at same
    generalize UInt8.ofNat (k / 64 + 65) = x at first same
    simp [cut, DIRSIZ, first.1] at same
    exact first.2 same.1

theorem crowded_ready : Ready crowded 0 where
  tree := by
    refine ⟨⟨by decide, Or.inl (by decide)⟩, ?_⟩
    intro d _ de member _
    have named : de.inum = ROOTINO ∨ de.inum = 60 := by
      by_cases root : d = ROOTINO
      · exact (crowded_entry (root ▸ member)).1
      · simp [crowded, root] at member
    refine ⟨?_, Or.inl ?_⟩ <;> rcases named with same | same <;> rw [same] <;> decide
  idle := ⟨fun _ _ => rfl, fun e k _ _ _ _ same => by simpa [crowded] using same, fun _ => rfl⟩
  counted i := by
    simp only [crowded]
    split <;> decide
  room := by decide +kernel
  current := ⟨by decide, by decide, by decide⟩
  inode := ⟨100, by decide⟩

end Inodes
end Fs
end Xv6
