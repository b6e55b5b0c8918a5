import Xv6.Lib.Runs
import Xv6.Memory.Frames
import Mathlib.Logic.Function.Basic

/-!
Inodes, directories and path names, fs.c. System calls are taken one after the other, so a
sleeplock that is taken is held by the call itself. The inode cache is write-through: each
change of ip->type or ip->nlink is followed by iupdate, so both are read from the disk
inode once the entry is valid. A directory's contents are its entries; what files hold is
left out.
-/
namespace Xv6

def ROOTDEV : Nat := 1

def NINODE : Nat := 50

def NINODES : Nat := 200

def DIRSIZ : Nat := 14

def BSIZE : Nat := 512

def NDIRECT : Nat := 12

def NINDIRECT : Nat := BSIZE / 4

def MAXFILE : Nat := NDIRECT + NINDIRECT

namespace Fs

/-- A call that does not return: a panic, or a sleep on a lock that the call holds. -/
inductive Stop where
  | ballocOutOfBlocks
  | freeingFreeBlock
  | bmapOutOfRange
  | igetNoInodes
  | iallocNoInodes
  | ilock
  | ilockNoType
  | iunlock
  | dirlookupNotDir
  | dirlink
  | createDots
  | createDirlink
  | unlinkNlink
  | filedup
  | fileclose
  | initExiting
  | deadlock
  deriving DecidableEq, Repr

/-- The bytes of a string: a read after the last of them gives NUL. -/
abbrev Name := List UInt8

def dot : Name := [46]

def dotdot : Name := [46, 46]

def slash : UInt8 := 47

/-- The next path element and the rest of the path. -/
def skipelem (path : List UInt8) : Option (Name × List UInt8) :=
  match path.dropWhile (· = slash) with
  | [] => none
  | c :: s =>
    some (((c :: s).takeWhile (· ≠ slash)).take DIRSIZ,
      ((c :: s).dropWhile (· ≠ slash)).dropWhile (· = slash))

/-- The elements skipelem returns until it fails, at most n of them. -/
def elemsUpto : Nat → List UInt8 → List Name
  | 0, _ => []
  | n + 1, path =>
    match skipelem path with
    | none => []
    | some (name, rest) => name :: elemsUpto n rest

def elems (path : List UInt8) : List Name := elemsUpto path.length path

def strncmp : List UInt8 → List UInt8 → Nat → Int
  | _, _, 0 => 0
  | p, q, n + 1 =>
    if p.headD 0 ≠ 0 ∧ p.headD 0 = q.headD 0 then strncmp p.tail q.tail n
    else (p.headD 0).toNat - (q.headD 0).toNat

def strncpy : List UInt8 → Nat → List UInt8
  | _, 0 => []
  | t, n + 1 => if t.headD 0 = 0 then List.replicate (n + 1) 0 else t.headD 0 :: strncpy t.tail n

def namecmp (s t : Name) : Int := strncmp s t DIRSIZ

inductive Itype where
  | free
  | dir
  | file
  | dev
  deriving DecidableEq, Repr

structure Dinode where
  type : Itype
  major : Int
  minor : Int
  nlink : Int
  deriving DecidableEq, Repr

structure Dirent where
  inum : Nat
  /-- the DIRSIZ bytes of the field -/
  name : Name
  deriving DecidableEq, Repr

/-- A cache entry, without the copy of the disk inode. -/
structure Inode where
  dev : Nat
  inum : Nat
  ref : Nat
  valid : Bool
  locked : Bool
  deriving DecidableEq, Repr

structure Inodes where
  dinode : Nat → Dinode
  /-- the entries of a directory -/
  dir : Nat → List Dirent
  icache : Nat → Inode

/-- Conversion to short. -/
def short (n : Int) : Int := Int.bmod n 65536

namespace Inodes

def setInode (s : Inodes) (e : Nat) (i : Inode) : Inodes := { s with icache := Function.update s.icache e i }

def setDinode (s : Inodes) (inum : Nat) (d : Dinode) : Inodes := { s with dinode := Function.update s.dinode inum d }

def setDir (s : Inodes) (inum : Nat) (l : List Dirent) : Inodes := { s with dir := Function.update s.dir inum l }

def node (s : Inodes) (e : Nat) : Dinode := s.dinode (s.icache e).inum

def entries (s : Inodes) (e : Nat) : List Dirent := s.dir (s.icache e).inum

def setNlink (s : Inodes) (e : Nat) (n : Int) : Inodes :=
  s.setDinode (s.icache e).inum { s.node e with nlink := short n }

def iget (s : Inodes) (dev inum : Nat) : Except Stop (Nat × Inodes) :=
  match (List.range NINODE).find? fun e =>
      0 < (s.icache e).ref && (s.icache e).dev = dev && (s.icache e).inum = inum with
  | some e => .ok (e, s.setInode e { s.icache e with ref := (s.icache e).ref + 1 })
  | none =>
    match (List.range NINODE).find? fun e => (s.icache e).ref = 0 with
    | some e => .ok (e, s.setInode e { s.icache e with dev := dev, inum := inum, ref := 1, valid := false })
    | none => .error .igetNoInodes

def idup (s : Inodes) (e : Nat) : Inodes := s.setInode e { s.icache e with ref := (s.icache e).ref + 1 }

def ilock (s : Inodes) (e : Nat) : Except Stop Inodes :=
  if (s.icache e).ref < 1 then .error .ilock
  else if (s.icache e).locked then .error .deadlock
  else if !(s.icache e).valid && (s.node e).type = .free then .error .ilockNoType
  else .ok (s.setInode e { s.icache e with locked := true, valid := true })

def iunlock (s : Inodes) (e : Nat) : Except Stop Inodes :=
  if !(s.icache e).locked || (s.icache e).ref < 1 then .error .iunlock
  else .ok (s.setInode e { s.icache e with locked := false })

/-- Without links or other references the inode is freed, contents and all. -/
def iput (s : Inodes) (e : Nat) : Except Stop Inodes :=
  if (s.icache e).locked then .error .deadlock
  else if (s.icache e).valid && (s.node e).nlink = 0 && (s.icache e).ref = 1 then
    .ok (((s.setDinode (s.icache e).inum { s.node e with type := .free }).setDir (s.icache e).inum []).setInode e
      { s.icache e with valid := false, ref := (s.icache e).ref - 1 })
  else .ok (s.setInode e { s.icache e with ref := (s.icache e).ref - 1 })

def iunlockput (s : Inodes) (e : Nat) : Except Stop Inodes := do
  let s ← s.iunlock e
  s.iput e

def ialloc (s : Inodes) (dev : Nat) (type : Itype) : Except Stop (Nat × Inodes) :=
  match (List.range NINODES).find? fun inum => 1 ≤ inum && (s.dinode inum).type = .free with
  | some inum => ((s.setDinode inum ⟨type, 0, 0, 0⟩).setDir inum []).iget dev inum
  | none => .error .iallocNoInodes

def slotOf (l : List Dirent) (name : Name) : Option Nat :=
  l.findIdx? fun de => de.inum ≠ 0 && namecmp name de.name = 0

/-- The inode with this name in directory dp, and the slot of the entry. -/
def dirlookup (s : Inodes) (dp : Nat) (name : Name) : Except Stop (Option (Nat × Nat) × Inodes) := do
  if (s.node dp).type ≠ .dir then throw .dirlookupNotDir
  match slotOf (s.entries dp) name with
  | some k =>
    let (e, s) ← s.iget (s.icache dp).dev (((s.entries dp)[k]?.map Dirent.inum).getD 0)
    return (some (e, k), s)
  | none => return (none, s)

/-- An entry after the last one makes the directory longer. -/
def setSlot (l : List Dirent) (k : Nat) (de : Dirent) : List Dirent :=
  if k < l.length then l.set k de else l ++ [de]

def writeEntry (s : Inodes) (dp k : Nat) (de : Dirent) : Option Inodes :=
  if 16 * (k + 1) > MAXFILE * BSIZE then none
  else some (s.setDir (s.icache dp).inum (setSlot (s.entries dp) k de))

def freeSlot (l : List Dirent) : Nat := l.findIdx fun de => de.inum = 0

def dirlink (s : Inodes) (dp : Nat) (name : Name) (inum : Nat) : Except Stop (Bool × Inodes) := do
  match ← s.dirlookup dp name with
  | (some (e, _), s) =>
    let s ← s.iput e
    return (false, s)
  | (none, s) =>
    match s.writeEntry dp (freeSlot (s.entries dp)) ⟨inum, strncpy name DIRSIZ⟩ with
    | some s => return (true, s)
    | none => throw .dirlink

/-- The loop of namex. -/
def namexFrom (nameiparent : Bool) : List Name → Inodes → Nat → Except Stop (Option (Nat × Name) × Inodes)
  | [], s, ip =>
    if nameiparent then do
      let s ← s.iput ip
      return (none, s)
    else return (some (ip, []), s)
  | name :: rest, s, ip => do
    let s ← s.ilock ip
    if (s.node ip).type ≠ .dir then
      let s ← s.iunlockput ip
      return (none, s)
    else if nameiparent && rest = [] then
      let s ← s.iunlock ip
      return (some (ip, name), s)
    else
      match ← s.dirlookup ip name with
      | (none, s) =>
        let s ← s.iunlockput ip
        return (none, s)
      | (some (next, _), s) =>
        let s ← s.iunlockput ip
        namexFrom nameiparent rest s next

/-- The inode of a path, or of its parent together with the last element. -/
def namex (s : Inodes) (cwd : Nat) (path : List UInt8) (nameiparent : Bool) :
    Except Stop (Option (Nat × Name) × Inodes) := do
  if path.head? = some slash then
    let (ip, s) ← s.iget ROOTDEV ROOTINO
    namexFrom nameiparent (elems path) s ip
  else namexFrom nameiparent (elems path) (s.idup cwd) cwd

def namei (s : Inodes) (cwd : Nat) (path : List UInt8) : Except Stop (Option Nat × Inodes) := do
  let (found, s) ← s.namex cwd path false
  return (found.map Prod.fst, s)

def nameiparent (s : Inodes) (cwd : Nat) (path : List UInt8) : Except Stop (Option (Nat × Name) × Inodes) :=
  s.namex cwd path true

/-- The entries of a new directory, and the parent's link for "..". -/
def createDots (s : Inodes) (dp ip : Nat) (type : Itype) : Except Stop Inodes :=
  if type = .dir then do
    let s := s.setNlink dp ((s.node dp).nlink + 1)
    match ← s.dirlink ip dot (s.icache ip).inum with
    | (false, _) => throw .createDots
    | (true, s) =>
      match ← s.dirlink ip dotdot (s.icache dp).inum with
      | (false, _) => throw .createDots
      | (true, s) => return s
  else return s

/-- The inode that create makes, locked; its parent dp is locked too. -/
def createInode (s : Inodes) (dp : Nat) (type : Itype) (major minor : Int) : Except Stop (Nat × Inodes) := do
  let (ip, s) ← s.ialloc (s.icache dp).dev type
  let s ← s.ilock ip
  let s := s.setDinode (s.icache ip).inum { s.node ip with major := short major, minor := short minor, nlink := 1 }
  let s ← s.createDots dp ip type
  return (ip, s)

def createNew (s : Inodes) (dp : Nat) (name : Name) (type : Itype) (major minor : Int) :
    Except Stop (Option Nat × Inodes) := do
  let (ip, s) ← s.createInode dp type major minor
  match ← s.dirlink dp name (s.icache ip).inum with
  | (false, _) => throw .createDirlink
  | (true, s) =>
    let s ← s.iunlockput dp
    return (some ip, s)

def createIn (s : Inodes) (dp : Nat) (name : Name) (type : Itype) (major minor : Int) :
    Except Stop (Option Nat × Inodes) := do
  match ← s.dirlookup dp name with
  | (some (ip, _), s) =>
    let s ← s.iunlockput dp
    let s ← s.ilock ip
    if type = .file ∧ (s.node ip).type = .file then return (some ip, s)
    else
      let s ← s.iunlockput ip
      return (none, s)
  | (none, s) => s.createNew dp name type major minor

def create (s : Inodes) (cwd : Nat) (path : List UInt8) (type : Itype) (major minor : Int) :
    Except Stop (Option Nat × Inodes) := do
  match ← s.nameiparent cwd path with
  | (none, s) => return (none, s)
  | (some (dp, name), s) =>
    let s ← s.ilock dp
    s.createIn dp name type major minor

/-- The label bad of sys_link. -/
def linkBad (s : Inodes) (ip : Nat) : Except Stop (Bool × Inodes) := do
  let s ← s.ilock ip
  let s := s.setNlink ip ((s.node ip).nlink - 1)
  let s ← s.iunlockput ip
  return (false, s)

/-- sys_link once ip has its new link. -/
def linkNew (s : Inodes) (cwd ip : Nat) (new : List UInt8) : Except Stop (Bool × Inodes) := do
  match ← s.nameiparent cwd new with
  | (none, s) => s.linkBad ip
  | (some (dp, name), s) =>
    let s ← s.ilock dp
    if (s.icache dp).dev ≠ (s.icache ip).dev then
      let s ← s.iunlockput dp
      s.linkBad ip
    else
      match ← s.dirlink dp name (s.icache ip).inum with
      | (false, s) =>
        let s ← s.iunlockput dp
        s.linkBad ip
      | (true, s) =>
        let s ← s.iunlockput dp
        let s ← s.iput ip
        return (true, s)

/-- sys_link with its arguments; false is a result of -1. -/
def sys_link (s : Inodes) (cwd : Nat) (old new : List UInt8) : Except Stop (Bool × Inodes) := do
  match ← s.namei cwd old with
  | (none, s) => return (false, s)
  | (some ip, s) =>
    let s ← s.ilock ip
    if (s.node ip).type = .dir then
      let s ← s.iunlockput ip
      return (false, s)
    else
      let s := s.setNlink ip ((s.node ip).nlink + 1)
      let s ← s.iunlock ip
      s.linkNew cwd ip new

def isdirempty (l : List Dirent) : Bool := (l.drop 2).all fun de => de.inum = 0

def sys_unlink (s : Inodes) (cwd : Nat) (path : List UInt8) : Except Stop (Bool × Inodes) := do
  match ← s.nameiparent cwd path with
  | (none, s) => return (false, s)
  | (some (dp, name), s) =>
    let s ← s.ilock dp
    if namecmp name dot = 0 ∨ namecmp name dotdot = 0 then
      let s ← s.iunlockput dp
      return (false, s)
    else
      match ← s.dirlookup dp name with
      | (none, s) =>
        let s ← s.iunlockput dp
        return (false, s)
      | (some (ip, k), s) =>
        let s ← s.ilock ip
        if (s.node ip).nlink < 1 then throw .unlinkNlink
        if (s.node ip).type = .dir ∧ isdirempty (s.entries ip) = false then
          let s ← s.iunlockput ip
          let s ← s.iunlockput dp
          return (false, s)
        else
          let s := s.setDir (s.icache dp).inum ((s.entries dp).set k ⟨0, List.replicate DIRSIZ 0⟩)
          let s := if (s.node ip).type = .dir then s.setNlink dp ((s.node dp).nlink - 1) else s
          let s ← s.iunlockput dp
          let s := s.setNlink ip ((s.node ip).nlink - 1)
          let s ← s.iunlockput ip
          return (true, s)

end Inodes
end Fs
end Xv6
