import Xv6.Fs.Lookup

/-!
References to inodes along the calls of fs.c and sysfile.c, whether they succeed or fail.
A property of the inode cache that depends on the references a call has taken, and that
iget, idup, ilock, iunlock and iput carry along, holds after every path lookup; if it does
not depend on the disk it holds after every call.
-/
namespace Xv6
namespace Fs

open Runs

namespace Inodes

/-- A property of the cache and of the references H that a call holds. -/
structure Carried (P : List Nat → Inodes → Prop) : Prop where
  perm : ∀ {H H' s}, P H s → H.Perm H' → P H' s
  iget : ∀ {H s dev inum}, P H s → Ensures (s.iget dev inum) fun r => P (r.1 :: H) r.2
  idup : ∀ {H s e}, P H s → 0 < (s.icache e).ref → P (e :: H) (s.idup e)
  ilock : ∀ {H s e}, P H s → Ensures (s.ilock e) (P H)
  iunlock : ∀ {H s e}, P H s → Ensures (s.iunlock e) (P H)
  iput : ∀ {H s e}, P (e :: H) s → Ensures (s.iput e) (P H)

def Pins (P : List Nat → Inodes → Prop) (e : Nat) : Prop := ∀ {H s}, P H s → 0 < (s.icache e).ref

variable {P : List Nat → Inodes → Prop} {s : Inodes} {H : List Nat} {e cwd : Nat}

namespace Carried

theorem iunlockput (carried : Carried P) (holds : P (e :: H) s) : Ensures (s.iunlockput e) (P H) :=
  Ensures.bind (carried.iunlock holds) fun _ next => carried.iput next

theorem dirlookup (carried : Carried P) (holds : P H s) (dp : Nat) (name : Name) :
    Ensures (s.dirlookup dp name) fun r => P ((r.1.map Prod.fst).toList ++ H) r.2 := by
  rw [Inodes.dirlookup]
  split
  · exact Ensures.error
  cases slotOf (s.entries dp) name with
  | none => exact Ensures.ok holds
  | some k => exact Ensures.bind (carried.iget holds) fun r next => Ensures.ok next

theorem namexFrom (carried : Carried P) (parent : Bool) (names : List Name) (holds : P (e :: H) s) :
    Ensures (Inodes.namexFrom parent names s e) fun r => P ((r.1.map Prod.fst).toList ++ H) r.2 := by
  induction names generalizing s e with
  | nil =>
    rw [Inodes.namexFrom]
    split
    · exact Ensures.bind (carried.iput holds) fun _ next => Ensures.ok next
    · exact Ensures.ok holds
  | cons name rest ih =>
    rw [Inodes.namexFrom]
    refine Ensures.bind (carried.ilock holds) fun s₁ locked => ?_
    split
    · exact Ensures.bind (carried.iunlockput locked) fun _ next => Ensures.ok next
    split
    · exact Ensures.bind (carried.iunlock locked) fun _ next => Ensures.ok next
    refine Ensures.bind (carried.dirlookup locked e name) ?_
    rintro ⟨_ | ⟨next, k⟩, s₂⟩ found
    · exact Ensures.bind (carried.iunlockput found) fun _ next => Ensures.ok next
    · have swapped := carried.perm found (List.Perm.swap e next H)
      exact Ensures.bind (carried.iunlockput swapped) fun _ dropped => ih dropped

theorem namex (carried : Carried P) (holds : P H s) (used : Pins P cwd) (path : List UInt8)
    (parent : Bool) : Ensures (s.namex cwd path parent) fun r => P ((r.1.map Prod.fst).toList ++ H) r.2 := by
  rw [Inodes.namex]
  split
  · exact Ensures.bind (carried.iget holds) fun r next => carried.namexFrom parent (elems path) next
  · exact carried.namexFrom parent (elems path) (carried.idup holds (used holds))

theorem namei (carried : Carried P) (holds : P H s) (used : Pins P cwd) (path : List UInt8) :
    Ensures (s.namei cwd path) fun r => P (r.1.toList ++ H) r.2 :=
  Ensures.bind (carried.namex holds used path false) fun _ next => Ensures.ok next

theorem dirlink (carried : Carried P) (disk : ∀ {H s i l}, P H s → P H (s.setDir i l)) (holds : P H s) (dp : Nat)
    (name : Name) (inum : Nat) : Ensures (s.dirlink dp name inum) fun r => P H r.2 := by
  rw [Inodes.dirlink]
  refine Ensures.bind (carried.dirlookup holds dp name) ?_
  rintro ⟨_ | ⟨next, k⟩, s₁⟩ found
  · dsimp only
    by_cases large : 16 * (freeSlot (s₁.entries dp) + 1) > MAXFILE * BSIZE
    · rw [writeEntry, if_pos large]
      exact Ensures.error
    · rw [writeEntry, if_neg large]
      exact Ensures.ok (disk found)
  · exact Ensures.bind (carried.iput found) fun _ next => Ensures.ok next

end Carried

structure Cached (P : List Nat → Inodes → Prop) : Prop extends Carried P where
  setDinode : ∀ {H s i d}, P H s → P H (s.setDinode i d)
  setDir : ∀ {H s i l}, P H s → P H (s.setDir i l)

namespace Cached

theorem ialloc (cached : Cached P) (holds : P H s) (dev : Nat) (type : Itype) :
    Ensures (s.ialloc dev type) fun r => P (r.1 :: H) r.2 := by
  rw [Inodes.ialloc]
  split
  · exact cached.iget (cached.setDir (cached.setDinode holds))
  · exact Ensures.error

theorem createDots (cached : Cached P) (holds : P H s) (dp ip : Nat) (type : Itype) :
    Ensures (s.createDots dp ip type) (P H) := by
  rw [Inodes.createDots]
  split
  · refine Ensures.bind (cached.dirlink cached.setDir (cached.setDinode holds) ip dot _) ?_
    rintro ⟨_ | _, s₁⟩ first
    · exact Ensures.error
    refine Ensures.bind (cached.dirlink cached.setDir first ip dotdot _) ?_
    rintro ⟨_ | _, s₂⟩ second
    · exact Ensures.error
    · exact Ensures.ok second
  · exact Ensures.ok holds

theorem createNew (cached : Cached P) {dp : Nat} (holds : P (dp :: H) s) (name : Name) (type : Itype)
    (major minor : Int) : Ensures (s.createNew dp name type major minor) fun r => P (r.1.toList ++ H) r.2 := by
  have made : Ensures (s.createInode dp type major minor) fun r => P (r.1 :: dp :: H) r.2 := by
    refine Ensures.bind (cached.ialloc holds _ type) ?_
    rintro ⟨ip, s₁⟩ taken
    refine Ensures.bind (cached.ilock taken) fun s₂ locked => ?_
    refine Ensures.bind (cached.createDots (cached.setDinode locked) dp ip type) fun s₃ filled => ?_
    exact Ensures.ok filled
  refine Ensures.bind made ?_
  rintro ⟨ip, s₁⟩ taken
  refine Ensures.bind (cached.dirlink cached.setDir taken dp name _) ?_
  rintro ⟨_ | _, s₂⟩ linked
  · exact Ensures.error
  refine Ensures.bind (cached.iunlockput (cached.perm linked (List.Perm.swap dp ip H))) fun s₃ dropped => ?_
  exact Ensures.ok dropped

theorem create (cached : Cached P) (holds : P H s) (used : Pins P cwd) (path : List UInt8) (type : Itype)
    (major minor : Int) : Ensures (s.create cwd path type major minor) fun r => P (r.1.toList ++ H) r.2 := by
  rw [Inodes.create]
  refine Ensures.bind (cached.namex holds used path true) ?_
  rintro ⟨_ | ⟨dp, name⟩, s₁⟩ found
  · exact Ensures.ok found
  refine Ensures.bind (cached.ilock found) fun s₂ locked => ?_
  rw [Inodes.createIn]
  refine Ensures.bind (cached.dirlookup locked dp name) ?_
  rintro ⟨_ | ⟨ip, k⟩, s₃⟩ there
  · exact cached.createNew there name type major minor
  refine Ensures.bind (cached.iunlockput (cached.perm there (List.Perm.swap dp ip H))) fun s₄ dropped => ?_
  refine Ensures.bind (cached.ilock dropped) fun s₅ locked' => ?_
  split
  · exact Ensures.ok locked'
  · exact Ensures.bind (cached.iunlockput locked') fun _ next => Ensures.ok next

theorem linkBad (cached : Cached P) {ip : Nat} (holds : P (ip :: H) s) :
    Ensures (s.linkBad ip) fun r => P H r.2 := by
  refine Ensures.bind (cached.ilock holds) fun s₁ locked => ?_
  exact Ensures.bind (cached.iunlockput (cached.setDinode locked)) fun _ next => Ensures.ok next

theorem linkNew (cached : Cached P) {ip : Nat} (holds : P (ip :: H) s) (used : Pins P cwd)
    (new : List UInt8) : Ensures (s.linkNew cwd ip new) fun r => P H r.2 := by
  rw [Inodes.linkNew]
  refine Ensures.bind (cached.namex holds used new true) ?_
  rintro ⟨_ | ⟨dp, name⟩, s₁⟩ found
  · exact cached.linkBad found
  refine Ensures.bind (cached.ilock found) fun s₂ locked => ?_
  split
  · exact Ensures.bind (cached.iunlockput locked) fun _ next => cached.linkBad next
  refine Ensures.bind (cached.dirlink cached.setDir locked dp name _) ?_
  rintro ⟨_ | _, s₃⟩ linked
  · exact Ensures.bind (cached.iunlockput linked) fun _ next => cached.linkBad next
  · refine Ensures.bind (cached.iunlockput linked) fun s₄ dropped => ?_
    exact Ensures.bind (cached.iput dropped) fun _ next => Ensures.ok next

theorem sys_link (cached : Cached P) (holds : P H s) (used : Pins P cwd) (old new : List UInt8) :
    Ensures (s.sys_link cwd old new) fun r => P H r.2 := by
  rw [Inodes.sys_link]
  refine Ensures.bind (cached.namei holds used old) ?_
  rintro ⟨_ | ip, s₁⟩ found
  · exact Ensures.ok found
  refine Ensures.bind (cached.ilock found) fun s₂ locked => ?_
  split
  · exact Ensures.bind (cached.iunlockput locked) fun _ next => Ensures.ok next
  · exact Ensures.bind (cached.iunlock (cached.setDinode locked)) fun _ next => cached.linkNew next used new

theorem sys_unlink (cached : Cached P) (holds : P H s) (used : Pins P cwd) (path : List UInt8) :
    Ensures (s.sys_unlink cwd path) fun r => P H r.2 := by
  rw [Inodes.sys_unlink]
  refine Ensures.bind (cached.namex holds used path true) ?_
  rintro ⟨_ | ⟨dp, name⟩, s₁⟩ found
  · exact Ensures.ok found
  refine Ensures.bind (cached.ilock found) fun s₂ locked => ?_
  split
  · exact Ensures.bind (cached.iunlockput locked) fun _ next => Ensures.ok next
  refine Ensures.bind (cached.dirlookup locked dp name) ?_
  rintro ⟨_ | ⟨ip, k⟩, s₃⟩ there
  · exact Ensures.bind (cached.iunlockput there) fun _ next => Ensures.ok next
  refine Ensures.bind (cached.ilock there) fun s₄ locked' => ?_
  by_cases stale : (s₄.node ip).nlink < 1
  · simp only [if_pos stale]
    split <;> exact Ensures.error
  simp only [if_neg stale]
  split
  · refine Ensures.bind (cached.iunlockput locked') fun s₅ dropped => ?_
    exact Ensures.bind (cached.iunlockput dropped) fun _ next => Ensures.ok next
  · have cleared : P (dp :: ip :: H)
        (s₄.setDir (s₄.icache dp).inum ((s₄.entries dp).set k ⟨0, List.replicate DIRSIZ 0⟩)) :=
      cached.setDir (cached.perm locked' (List.Perm.swap dp ip H))
    refine Ensures.bind (cached.iunlockput (H := ip :: H) ?_) fun s₅ dropped => ?_
    · split
      · exact cached.setDinode cleared
      · exact cleared
    · exact Ensures.bind (cached.iunlockput (cached.setDinode dropped)) fun _ next => Ensures.ok next

end Cached

/-- Each entry has the references in base and those in H, and no inode has two entries. -/
structure Held (base : Nat → Nat) (H : List Nat) (s : Inodes) : Prop where
  ref : ∀ e, (s.icache e).ref = base e + H.count e
  inside : ∀ e, 0 < (s.icache e).ref → e < NINODE
  distinct : ∀ e k, 0 < (s.icache e).ref → 0 < (s.icache k).ref → (s.icache e).dev = (s.icache k).dev →
    (s.icache e).inum = (s.icache k).inum → e = k

section
variable {base : Nat → Nat} {H' : List Nat}

theorem Held.move {base' : Nat → Nat} (held : Held base H s) (same : ∀ e, base' e + H'.count e = base e + H.count e) :
    Held base' H' s where
  ref e := by rw [same, held.ref]
  inside := held.inside
  distinct := held.distinct

theorem Held.disk {s' : Inodes} (held : Held base H s) (same : s'.icache = s.icache) : Held base H s' where
  ref := by rw [same]; exact held.ref
  inside := by rw [same]; exact held.inside
  distinct := by rw [same]; exact held.distinct

theorem Held.setInode (held : Held base H s) (inside : e < NINODE) {x : Inode} (ref : x.ref = base e + H'.count e)
    (count : ∀ k, k ≠ e → H'.count k = H.count k)
    (alone : ∀ k, k ≠ e → 0 < (s.icache k).ref → (s.icache k).dev = x.dev → (s.icache k).inum ≠ x.inum) :
    Held base H' (s.setInode e x) where
  ref k := by
    by_cases here : k = e
    · subst here
      rw [setInode_icache, if_pos rfl, ref]
    · rw [setInode_icache, if_neg here, held.ref, count k here]
  inside k used := by
    by_cases here : k = e
    · exact here ▸ inside
    · rw [setInode_icache, if_neg here] at used
      exact held.inside k used
  distinct k j used used' dev inum := by
    by_cases here : k = e <;> by_cases there : j = e
    · rw [here, there]
    · subst here
      rw [setInode_icache, setInode_icache, if_neg there, if_pos rfl] at dev inum
      rw [setInode_icache, if_neg there] at used'
      exact absurd inum.symm (alone j there used' dev.symm)
    · subst there
      rw [setInode_icache, setInode_icache, if_neg here, if_pos rfl] at dev inum
      rw [setInode_icache, if_neg here] at used
      exact absurd inum (alone k here used dev)
    · rw [setInode_icache, setInode_icache, if_neg here, if_neg there] at dev inum
      rw [setInode_icache, if_neg here] at used
      rw [setInode_icache, if_neg there] at used'
      exact held.distinct k j used used' dev inum

theorem Held.adjust (held : Held base H s) (used : 0 < (s.icache e).ref) {x : Inode}
    (ref : x.ref = base e + H'.count e) (count : ∀ k, k ≠ e → H'.count k = H.count k) (dev : x.dev = (s.icache e).dev)
    (inum : x.inum = (s.icache e).inum) : Held base H' (s.setInode e x) :=
  held.setInode (held.inside e used) ref count fun k other live dev' inum' =>
    other (held.distinct k e live used (dev'.trans dev) (inum'.trans inum))

theorem Held.iget (held : Held base H s) (dev inum : Nat) :
    Ensures (s.iget dev inum) fun r => Held base (r.1 :: H) r.2 := by
  have count : ∀ e k, k ≠ e → (e :: H).count k = H.count k := fun e k other => List.count_cons_of_ne (Ne.symm other)
  rw [Inodes.iget]
  split
  · rename_i e found
    have there := List.find?_some found
    simp only [Bool.and_eq_true, decide_eq_true_eq] at there
    refine Ensures.ok (held.adjust there.1.1 ?_ (count e) rfl rfl)
    rw [List.count_cons_self, ← Nat.add_assoc, ← held.ref]
  · rename_i absent
    split
    · rename_i e found
      have inside := List.mem_range.mp (List.mem_of_find?_eq_some found)
      have zero := List.find?_some found
      simp only [decide_eq_true_eq] at zero
      have total := held.ref e
      refine Ensures.ok (held.setInode inside ?_ (count e) ?_)
      · rw [List.count_cons_self]
        dsimp only
        omega
      · intro k other live dev' inum'
        have away := List.find?_eq_none.mp absent k (List.mem_range.mpr (held.inside k live))
        simp only [Bool.and_eq_true, decide_eq_true_eq, not_and] at away
        exact away ⟨live, dev'⟩ inum'
    · exact Ensures.error

theorem Held.iput (held : Held base (e :: H) s) : Ensures (s.iput e) (Held base H) := by
  have total := held.ref e
  rw [List.count_cons_self] at total
  have count : ∀ k, k ≠ e → H.count k = (e :: H).count k :=
    fun k other => (List.count_cons_of_ne (Ne.symm other)).symm
  rw [Inodes.iput]
  split
  · exact Ensures.error
  split
  · have freed : Held base (e :: H)
        ((s.setDinode (s.icache e).inum { s.node e with type := .free }).setDir (s.icache e).inum []) := held.disk rfl
    have used : 0 < (((s.setDinode (s.icache e).inum { s.node e with type := .free }).setDir
        (s.icache e).inum []).icache e).ref := by
      rw [setDir_icache, setDinode_icache]
      omega
    refine Ensures.ok (freed.adjust used ?_ count rfl rfl)
    dsimp only
    omega
  · refine Ensures.ok (held.adjust (by omega) ?_ count rfl rfl)
    dsimp only
    omega

theorem Held.cached (base : Nat → Nat) : Cached (Held base) where
  perm held perm := held.move fun e => by rw [perm.count_eq]
  iget held := held.iget _ _
  idup held used := by
    refine held.adjust used ?_ (fun k other => List.count_cons_of_ne (Ne.symm other)) rfl rfl
    rw [List.count_cons_self, ← Nat.add_assoc, ← held.ref]
  ilock {H s e} held := by
    rw [Inodes.ilock]
    split
    · exact Ensures.error
    split
    · exact Ensures.error
    split
    · exact Ensures.error
    · exact Ensures.ok (held.adjust (by omega) (held.ref e) (fun _ _ => rfl) rfl rfl)
  iunlock {H s e} held := by
    rw [Inodes.iunlock]
    split
    · exact Ensures.error
    · rename_i fine
      simp only [Bool.or_eq_true, Bool.not_eq_true', decide_eq_true_eq, not_or] at fine
      exact Ensures.ok (held.adjust (by omega) (held.ref e) (fun _ _ => rfl) rfl rfl)
  iput held := held.iput
  setDinode held := held.disk rfl
  setDir held := held.disk rfl

theorem Held.pins {cwd : Nat} (used : 0 < base cwd) : Pins (Held base) cwd := by
  intro H s held
  rw [held.ref]
  omega

end
end Inodes
end Fs
end Xv6
