import Mathlib
import Xv6.Fs.Inodes

/-!
Blocks of the disk: the bitmap, the inodes and what files hold, fs.c. Blocks are read and
written through the buffer cache, so a block has one content; the bitmap and the inode
blocks are kept apart from it. `logged` are the blocks passed to log_write, in order.
-/
namespace Xv6

def BPB : Nat := BSIZE * 8

def IPB : Nat := BSIZE / 64

namespace Fs

structure Superblock where
  size : Nat
  ninodes : Nat
  inodestart : Nat
  bmapstart : Nat
  deriving DecidableEq, Repr

def BBLOCK (b : Nat) (sb : Superblock) : Nat := b / BPB + sb.bmapstart

def IBLOCK (i : Nat) (sb : Superblock) : Nat := i / IPB + sb.inodestart

/-- The part of an inode that says what it holds; addrs has NDIRECT + 1 cells. -/
structure Dnode where
  type : Itype
  size : Nat
  addrs : Nat → Nat

def Dnode.setAddr (ip : Dnode) (k b : Nat) : Dnode := { ip with addrs := Function.update ip.addrs k b }

structure Volume where
  sb : Superblock
  /-- the bits of the bitmap -/
  used : Nat → Bool
  /-- the bytes of the blocks -/
  data : Nat → Nat → UInt8
  dinode : Nat → Dnode
  logged : List Nat

/-- The uint at index j of a block, little endian. -/
def word (c : Nat → UInt8) (j : Nat) : Nat :=
  (c (4 * j)).toNat + 256 * (c (4 * j + 1)).toNat + 65536 * (c (4 * j + 2)).toNat + 16777216 * (c (4 * j + 3)).toNat

def setWord (c : Nat → UInt8) (j v : Nat) (k : Nat) : UInt8 :=
  if k / 4 = j then UInt8.ofNat (v / 256 ^ (k % 4)) else c k

def overlay (c : Nat → UInt8) (o : Nat) (bytes : List UInt8) (k : Nat) : UInt8 :=
  if o ≤ k then bytes[k - o]?.getD (c k) else c k

namespace Volume

def log_write (v : Volume) (b : Nat) : Volume := { v with logged := v.logged ++ [b] }

def setUsed (v : Volume) (b : Nat) (bit : Bool) : Volume := { v with used := Function.update v.used b bit }

def setData (v : Volume) (b : Nat) (c : Nat → UInt8) : Volume := { v with data := Function.update v.data b c }

def setDinode (v : Volume) (i : Nat) (d : Dnode) : Volume := { v with dinode := Function.update v.dinode i d }

def bzero (v : Volume) (b : Nat) : Volume := (v.setData b fun _ => 0).log_write b

def balloc (v : Volume) : Except Stop (Nat × Volume) :=
  match (List.range v.sb.size).find? fun b => v.used b = false with
  | some b => .ok (b, ((v.setUsed b true).log_write (BBLOCK b v.sb)).bzero b)
  | none => .error .ballocOutOfBlocks

def bfree (v : Volume) (b : Nat) : Except Stop Volume :=
  if v.used b = false then .error .freeingFreeBlock
  else .ok ((v.setUsed b false).log_write (BBLOCK b v.sb))

/-- The block of addresses, allocated if necessary. -/
def loadIndirect (v : Volume) (ip : Dnode) : Except Stop (Dnode × Volume) :=
  if ip.addrs NDIRECT = 0 then do
    let (b, v) ← v.balloc
    return (ip.setAddr NDIRECT b, v)
  else return (ip, v)

def bmapIndirect (v : Volume) (ip : Dnode) (j : Nat) : Except Stop (Nat × Dnode × Volume) :=
  let a := ip.addrs NDIRECT
  if word (v.data a) j = 0 then do
    let (b, v) ← v.balloc
    return (b, ip, (v.setData a (setWord (v.data a) j b)).log_write a)
  else return (word (v.data a) j, ip, v)

def bmap (v : Volume) (ip : Dnode) (bn : Nat) : Except Stop (Nat × Dnode × Volume) :=
  if bn < NDIRECT then
    if ip.addrs bn = 0 then do
      let (b, v) ← v.balloc
      return (b, ip.setAddr bn b, v)
    else return (ip.addrs bn, ip, v)
  else if bn - NDIRECT < NINDIRECT then do
    let (ip, v) ← v.loadIndirect ip
    v.bmapIndirect ip (bn - NDIRECT)
  else .error .bmapOutOfRange

def iupdate (v : Volume) (inum : Nat) (ip : Dnode) : Volume := (v.setDinode inum ip).log_write (IBLOCK inum v.sb)

/-- The first loop of itrunc. -/
def freeDirect : List Nat → Volume → Dnode → Except Stop (Dnode × Volume)
  | [], v, ip => .ok (ip, v)
  | i :: is, v, ip =>
    if ip.addrs i = 0 then freeDirect is v ip
    else do
      let v ← v.bfree (ip.addrs i)
      freeDirect is v (ip.setAddr i 0)

/-- The second loop of itrunc; a is the block of addresses. -/
def freeEntries (a : Nat → UInt8) : List Nat → Volume → Except Stop Volume
  | [], v => .ok v
  | j :: js, v =>
    if word a j = 0 then freeEntries a js v
    else do
      let v ← v.bfree (word a j)
      freeEntries a js v

def freeIndirect (v : Volume) (ip : Dnode) : Except Stop (Dnode × Volume) :=
  if ip.addrs NDIRECT = 0 then return (ip, v)
  else do
    let v ← freeEntries (v.data (ip.addrs NDIRECT)) (List.range NINDIRECT) v
    let v ← v.bfree (ip.addrs NDIRECT)
    return (ip.setAddr NDIRECT 0, v)

def itrunc (v : Volume) (inum : Nat) (ip : Dnode) : Except Stop (Dnode × Volume) := do
  let (ip, v) ← freeDirect (List.range NDIRECT) v ip
  let (ip, v) ← v.freeIndirect ip
  let ip := { ip with size := 0 }
  return (ip, v.iupdate inum ip)

/-- The loop of readi with rest bytes to go; each round reads at least one. -/
def readLoop : Nat → Volume → Dnode → Nat → Nat → Except Stop (List UInt8 × Dnode × Volume)
  | 0, v, ip, _, _ => .ok ([], ip, v)
  | n + 1, v, ip, off, rest =>
    if rest = 0 then .ok ([], ip, v)
    else do
      let (b, ip, v) ← v.bmap ip (off / BSIZE)
      let m := min rest (BSIZE - off % BSIZE)
      let bytes := (List.range m).map fun k => v.data b (off % BSIZE + k)
      let (more, ip, v) ← readLoop n v ip (off + m) (rest - m)
      return (bytes ++ more, ip, v)

/-- The bytes read, or nothing for a result of -1; off and n are uints. What a device
    returns is left out. -/
def readi (v : Volume) (ip : Dnode) (off n : Nat) : Except Stop (Option (List UInt8) × Dnode × Volume) :=
  if ip.type = .dev then return (none, ip, v)
  else if off > ip.size ∨ (off + n) % 2 ^ 32 < off then return (none, ip, v)
  else do
    let n := if (off + n) % 2 ^ 32 > ip.size then ip.size - off else n
    let (bytes, ip, v) ← readLoop n v ip off n
    return (some bytes, ip, v)

/-- The loop of writei; each round writes at least one byte. -/
def writeLoop : Nat → Volume → Dnode → Nat → List UInt8 → Except Stop (Nat × Dnode × Volume)
  | 0, v, ip, off, _ => .ok (off, ip, v)
  | n + 1, v, ip, off, src =>
    if src = [] then .ok (off, ip, v)
    else do
      let (b, ip, v) ← v.bmap ip (off / BSIZE)
      let m := min src.length (BSIZE - off % BSIZE)
      let v := (v.setData b (overlay (v.data b) (off % BSIZE) (src.take m))).log_write b
      writeLoop n v ip (off + m) (src.drop m)

def writei (v : Volume) (inum : Nat) (ip : Dnode) (off : Nat) (src : List UInt8) :
    Except Stop (Bool × Dnode × Volume) :=
  if ip.type = .dev then return (false, ip, v)
  else if off > ip.size ∨ (off + src.length) % 2 ^ 32 < off then return (false, ip, v)
  else if (off + src.length) % 2 ^ 32 > MAXFILE * BSIZE then return (false, ip, v)
  else do
    let (off, ip, v) ← writeLoop src.length v ip off src
    if 0 < src.length ∧ off > ip.size then
      let ip := { ip with size := off }
      return (true, ip, v.iupdate inum ip)
    else return (true, ip, v)

end Volume

/-- The volume and the copies of inodes that are valid in the cache. -/
structure Store where
  vol : Volume
  icache : Nat → Option Dnode

namespace Store

inductive Act where
  /-- ialloc, and ilock of the new inode -/
  | create (type : Itype)
  | ilock (inum : Nat)
  | write (inum off : Nat) (src : List UInt8)
  | read (inum off n : Nat)
  /-- the last iput of an inode without links -/
  | free (inum : Nat)
  /-- the cache entry is used for another inode -/
  | recycle (inum : Nat)

def setInode (s : Store) (inum : Nat) (ip : Dnode) : Store :=
  { s with icache := Function.update s.icache inum (some ip) }

/-- The cached inode, read from the disk if it is not valid. -/
def ilock (s : Store) (inum : Nat) : Except Stop (Dnode × Store) :=
  match s.icache inum with
  | some ip => .ok (ip, s)
  | none =>
    if (s.vol.dinode inum).type = .free then .error .ilockNoType
    else .ok (s.vol.dinode inum, s.setInode inum (s.vol.dinode inum))

def create (s : Store) (type : Itype) : Except Stop (Dnode × Store) :=
  match (List.range s.vol.sb.ninodes).find? fun inum => 1 ≤ inum && (s.vol.dinode inum).type = .free with
  | some inum =>
    Store.ilock ⟨(s.vol.setDinode inum ⟨type, 0, fun _ => 0⟩).log_write (IBLOCK inum s.vol.sb), s.icache⟩ inum
  | none => .error .iallocNoInodes

def iput (s : Store) (inum : Nat) : Except Stop Store :=
  match s.icache inum with
  | none => .ok s
  | some ip => do
    let (ip, vol) ← s.vol.itrunc inum ip
    return ⟨vol.iupdate inum { ip with type := .free }, Function.update s.icache inum none⟩

def write (s : Store) (inum off : Nat) (src : List UInt8) : Except Stop (Bool × Store) := do
  let (ip, s) ← s.ilock inum
  let (written, ip, vol) ← s.vol.writei inum ip off src
  return (written, Store.setInode ⟨vol, s.icache⟩ inum ip)

def read (s : Store) (inum off n : Nat) : Except Stop (Option (List UInt8) × Store) := do
  let (ip, s) ← s.ilock inum
  let (bytes, ip, vol) ← s.vol.readi ip off n
  return (bytes, Store.setInode ⟨vol, s.icache⟩ inum ip)

def step (s : Store) : Act → Except Stop Store
  | .create type => do
    let (_, s) ← s.create type
    return s
  | .ilock inum => do
    let (_, s) ← s.ilock inum
    return s
  | .write inum off src => do
    let (_, s) ← s.write inum off src
    return s
  | .read inum off n => do
    let (_, s) ← s.read inum off n
    return s
  | .free inum => s.iput inum
  | .recycle inum => .ok ⟨s.vol, Function.update s.icache inum none⟩

end Store
end Fs
end Xv6
