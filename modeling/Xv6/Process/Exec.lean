import Xv6.Fs.Descriptors
import Xv6.Memory.Boot
import Xv6.Memory.Strings

/-!
exec as a whole: the lookup of the file, the new image, and the commit or the cleanup at
the label bad. The path and the argument strings lie in the memory of the caller, so
reading them may fault pages in. A file is the list of its bytes, and any bytes will do.
-/
namespace Xv6
open RefCount Phys Runs

/-- Where exec stands after the program headers: bad, with the directory if there is one,
    or the directory, the size and the entry point. -/
inductive Loading where
  | bad (pgdir : Option Nat)
  | done (pgdir sz entry : Nat)
  deriving DecidableEq, Repr

namespace Phys
variable [layout : Layout]

def loadImage (s : Phys) (ip : List UInt8) : Except Panic (Loading × Phys) :=
  let (r, bs) := readi ip 0 ELFHDR
  if r ≠ ELFHDR then .ok (.bad none, s)
  else
    let elf := Elfhdr.decode bs
    if elf.magic ≠ ELF_MAGIC then .ok (.bad none, s)
    else do
      match ← s.setupkvm with
      | (none, s) => .ok (.bad none, s)
      | (some pgdir, s) =>
        match ← loadSegments pgdir ip elf.phnum elf.phoff 0 s with
        | (none, s) => .ok (.bad (some pgdir), s)
        | (some sz, s) => .ok (.done pgdir sz elf.entry, s)

/-- Push the strings at these addresses of the old image; none is the jump to bad. -/
def pushStrings (space : Space) (pgdir : Nat) :
    List Nat → Nat → List Nat → Phys → Except Panic (Option (Nat × List Nat) × Phys)
  | [], sp, ustack, s => .ok (some (sp, ustack), s)
  | va :: argv, sp, ustack, s =>
    if ustack.length ≥ MAXARG then .ok (none, s)
    else do
      let (arg, s) ← s.string space va
      let sp := (sp + 4294967296 - (arg.length + 1) % 4294967296) % 4294967296 / 4 * 4
      match s.copyout pgdir sp (arg ++ [0]) with
      | (r, s) => if r < 0 then .ok (none, s) else pushStrings space pgdir argv sp (ustack ++ [sp]) s

/-- exec after the inode is released, up to the commit. -/
def makeStack (s : Phys) (space : Space) (pgdir sz entry : Nat) (argv : List Nat) :
    Except Panic (Option Image × Phys) := do
  let (sz, s) ← s.allocuvm pgdir (pgroundup sz) ((pgroundup sz + 2 * PGSIZE) % 4294967296)
  if sz = 0 then .ok (none, s)
  else
    let s ← s.clearpteu pgdir (sz - 2 * PGSIZE)
    match ← pushStrings space pgdir argv sz [] s with
    | (none, s) => .ok (none, s)
    | (some (sp, args), s) =>
      let argc := args.length
      let ustack := [0xffffffff, argc, (sp + 4294967296 - (argc + 1) * 4) % 4294967296] ++ args ++ [0]
      let sp := (sp + 4294967296 - (3 + argc + 1) * 4) % 4294967296
      match s.copyout pgdir sp (ustack.flatMap word) with
      | (r, s) => if r < 0 then .ok (none, s) else .ok (some ⟨pgdir, sz, entry, sp⟩, s)

end Phys

structure Trapframe where
  eip : Nat
  esp : Nat
  deriving DecidableEq, Repr

structure Kernel where
  mem : Mem
  fs : Fs.Inodes
  /-- the bytes of an inode -/
  data : Nat → List UInt8
  tf : Nat → Trapframe
  name : Nat → List UInt8
  /-- calls of begin_op and of end_op -/
  begun : Nat
  ended : Nat

inductive Halt where
  | mem (p : Panic)
  | fs (p : Fs.Stop)
  deriving DecidableEq, Repr

namespace Kernel

def begin_op (k : Kernel) : Kernel := { k with begun := k.begun + 1 }
def end_op (k : Kernel) : Kernel := { k with ended := k.ended + 1 }
def setPhys (k : Kernel) (s : Phys) : Kernel := { k with mem := { k.mem with phys := s } }
def setFs (k : Kernel) (fs : Fs.Inodes) : Kernel := { k with fs := fs }

def lastName (path : List UInt8) : List UInt8 :=
  ((path.reverse.takeWhile (· ≠ Fs.slash)).reverse).take 15

variable [layout : Layout]

def freeBad (s : Phys) : Option Nat → Except Panic Phys
  | none => .ok s
  | some pgdir => s.freevm pgdir

/-- exec by the process in slot p; the result is 0 or -1. -/
def exec (k : Kernel) (p : Nat) (t : Tenant) (cwd path : Nat) (argv : List Nat) : Except Halt (Int × Kernel) :=
  if k.mem.pgdirUsers t.space.pgdir > 1 then .ok (-1, k)
  else do
    let k := k.begin_op
    let (name, s) ← (k.mem.phys.string t.space path).mapError Halt.mem
    match ← (k.fs.namei cwd name).mapError Halt.fs with
    | (none, fs) => .ok (-1, ((k.setPhys s).setFs fs).end_op)
    | (some ip, fs) =>
      let fs ← (fs.ilock ip).mapError Halt.fs
      match ← (s.loadImage (k.data (fs.icache ip).inum)).mapError Halt.mem with
      | (.bad pgdir, s) =>
        let s ← (freeBad s pgdir).mapError Halt.mem
        let fs ← (fs.iunlockput ip).mapError Halt.fs
        .ok (-1, ((k.setPhys s).setFs fs).end_op)
      | (.done pgdir sz entry, s) =>
        let fs ← (fs.iunlockput ip).mapError Halt.fs
        let k := (k.setFs fs).end_op
        match ← (s.makeStack t.space pgdir sz entry argv).mapError Halt.mem with
        | (none, s) =>
          let s ← (s.freevm pgdir).mapError Halt.mem
          .ok (-1, k.setPhys s)
        | (some image, s) =>
          let s ← (s.freevm t.space.pgdir).mapError Halt.mem
          .ok (0, { k.setPhys s with
            mem := { k.mem with phys := s }.setSlot p (some { t with space := ⟨image.pgdir, image.sz⟩ })
            tf := Function.update k.tf p ⟨image.entry, image.esp⟩
            name := Function.update k.name p (lastName name) })

end Kernel

section
variable [Layout] {live own : Finset Nat} {x : Nat → Nat} {o d : Nat} {s s1 s2 : Phys}

/-- The directory d is being made, beside those of the processes. -/
structure Building (live own : Finset Nat) (x : Nat → Nat) (o d : Nat) (s s1 : Phys) : Prop where
  fresh : d ∉ live
  inv : FrameInv (insert d live) own x s1
  lazily : Lazily live o s s1

namespace Building

theorem apart (ho : o ∈ live) (b : Building live own x o d s s1) (a : Apart (insert d live) own x d s1 s2) :
    Building live own x o d s s2 := by
  have keeps : KeepsOff live (fun _ _ => False) s1 s2 := by
    refine (a.keeps.subset (Finset.subset_insert d live)).mono ?_
    intro d' hd' _ same
    exact b.fresh (same ▸ hd')
  have tables := a.others
  rw [Finset.erase_insert b.fresh] at tables
  exact ⟨b.fresh, a.inv, b.lazily.trans ho (Lazily.of_same ho keeps tables)⟩

theorem reading (ho : o ∈ live) (b : Building live own x o d s s1) (r : Reading (insert d live) own x o s1 s2) :
    Building live own x o d s s2 :=
  ⟨b.fresh, r.inv, b.lazily.trans ho (r.lazily.subset (Finset.subset_insert d live))⟩

theorem freevm (ho : o ∈ live) (b : Building live own x o d s s1) :
    ∃ s', s1.freevm d = .ok s' ∧ Reading live own x o s s' := by
  obtain ⟨s', run, inv, keeps, -, tables⟩ := freevm_spec b.inv (Finset.mem_insert_self d live)
  rw [Finset.erase_insert b.fresh] at inv keeps tables
  exact ⟨s', run, inv, b.lazily.trans ho (Lazily.of_same ho keeps tables)⟩

end Building

theorem Reading.image {n : Nat} (r : Reading live own x o s s1) (hd : d ∈ live) (other : d ≠ o)
    (image : ImageInv s d n) : ImageInv s1 d n := by
  have same : ∀ vp < 1048576, s1.pte d vp = s.pte d vp :=
    fun vp hv => r.lazily.keeps.pte d hd vp hv fun here => other here.1
  constructor
  · intro vp hv low
    rw [same vp (Nat.lt_of_lt_of_le hv pages_lt)]
    exact image.full vp hv low
  · intro vp hv high
    rw [same vp (Nat.lt_of_lt_of_le hv pages_lt)]
    exact image.rest vp hv high
  · intro vp hv high
    rw [same vp hv]
    exact image.kernel vp hv high

def Loading.Ok (live own : Finset Nat) (x : Nat → Nat) (o : Nat) (s : Phys) : Loading → Phys → Prop
  | .bad none, s1 => Reading live own x o s s1
  | .bad (some d), s1 => Building live own x o d s s1
  | .done d sz _, s1 => Building live own x o d s s1 ∧ sz ≤ KERNBASE ∧ ImageInv s1 d ((sz + 4095) / 4096)

theorem loadImage_spec (ho : o ∈ live) (read : Reading live own x o s s1) (ip : List UInt8) :
    ∃ r s2, s1.loadImage ip = .ok (r, s2) ∧ Loading.Ok live own x o s r s2 := by
  rw [Phys.loadImage]
  simp only
  by_cases short : (readi ip 0 ELFHDR).1 ≠ (ELFHDR : Int)
  · rw [if_pos short]
    exact ⟨.bad none, s1, rfl, read⟩
  rw [if_neg short]
  generalize Elfhdr.decode (readi ip 0 ELFHDR).2 = elf
  by_cases magic : elf.magic ≠ ELF_MAGIC
  · rw [if_pos magic]
    exact ⟨.bad none, s1, rfl, read⟩
  rw [if_neg magic]
  obtain ⟨r, s2, setup, outcome⟩ := setupkvm_spec read.inv
  rw [setup, ok_bind]
  cases outcome with
  | failed _ inv2 keeps _ _ tables =>
    exact ⟨.bad none, s2, rfl, inv2, read.lazily.trans ho (Lazily.of_same ho keeps tables)⟩
  | made d _ fresh new free inv2 empty kernel keeps calm _ tables =>
    have hd := Finset.mem_insert_self d live
    have start : Building live own x o d s s2 :=
      ⟨fresh, inv2, read.lazily.trans ho (Lazily.of_same ho keeps tables)⟩
    have blank : ImageInv s2 d 0 :=
      ⟨fun vp _ low => absurd low (Nat.not_lt_zero vp), fun vp hv _ => empty vp hv, fun vp hv _ => kernel vp hv⟩
    obtain ⟨r, s3, load, apart, loaded⟩ := loadSegments_spec hd ip elf.phnum elf.phoff 0 s2 inv2 (Nat.zero_le _) blank
    simp only
    rw [load, ok_bind]
    cases r with
    | none => exact ⟨.bad (some d), s3, rfl, start.apart ho apart⟩
    | some sz => exact ⟨.done d sz elf.entry, s3, rfl, start.apart ho apart, loaded sz rfl⟩

theorem pushStrings_spec {n : Nat} (ho : o ∈ live) (sz : Nat) (argv : List Nat) (sp : Nat) (ustack : List Nat)
    (s1 : Phys) (b : Building live own x o d s s1) (image : ImageInv s1 d n) :
    Meets (Phys.pushStrings ⟨o, sz⟩ d argv sp ustack s1)
      (fun r => Building live own x o d s r.2 ∧ ImageInv r.2 d n) (· = .kernelPageFault) := by
  have hd := Finset.mem_insert_self d live
  have other : d ≠ o := fun same => b.fresh (same ▸ ho)
  induction argv generalizing sp ustack s1 with
  | nil => exact ⟨b, image⟩
  | cons va argv ih =>
    rw [Phys.pushStrings]
    by_cases full : ustack.length ≥ MAXARG
    · rw [if_pos full]
      exact ⟨b, image⟩
    rw [if_neg full]
    refine Meets.bind (string_reading b.inv (Finset.mem_insert_of_mem ho) sz va) ?_
    intro ⟨arg, s2⟩ read
    simp only at read ⊢
    generalize (sp + 4294967296 - (arg.length + 1) % 4294967296) % 4294967296 / 4 * 4 = sp'
    have b2 := b.reading ho read
    have image2 := read.image hd other image
    have filled : Filled (insert d live) own x d s2 (s2.copyout d sp' (arg ++ [0])).2 :=
      copyoutLoop_spec hd _ _ _ s2 b2.inv image2
    have b3 := b2.apart ho (Apart.of_filled filled)
    have image3 := filled.image hd image2
    by_cases failed : (s2.copyout d sp' (arg ++ [0])).1 < 0
    · rw [if_pos failed]
      exact ⟨b3, image3⟩
    · rw [if_neg failed]
      exact ih sp' (ustack ++ [sp']) _ b3 image3

theorem makeStack_spec {oldsz sz entry : Nat} {argv : List Nat} {result : Except Panic (Option Image × Phys)}
    (ho : o ∈ live) (b : Building live own x o d s s1) (top : sz ≤ KERNBASE)
    (image : ImageInv s1 d ((sz + 4095) / 4096)) (run : s1.makeStack ⟨o, oldsz⟩ d sz entry argv = result) :
    Meets result (fun r => Building live own x o d s r.2) (· = .kernelPageFault) := by
  have hd := Finset.mem_insert_self d live
  obtain ⟨r, s2, grow, apart2, grown⟩ := image.stack hd b.inv top
  rw [Phys.makeStack, grow, ok_bind] at run
  simp only at run
  by_cases zero : r = 0
  · rw [if_pos zero] at run
    rw [← run]
    exact b.apart ho apart2
  rw [if_neg zero] at run
  obtain ⟨-, -, s3, guard, apart3, image3, -⟩ := grown zero
  rw [guard, ok_bind] at run
  rw [← run]
  refine Meets.bind (pushStrings_spec ho oldsz argv r [] s3 (b.apart ho apart3) image3) ?_
  intro ⟨pushed, s4⟩ ⟨b4, image4⟩
  cases pushed with
  | none => exact b4
  | some stack =>
    obtain ⟨sp, args⟩ := stack
    simp only at b4 image4 ⊢
    generalize ([0xffffffff, args.length, (sp + 4294967296 - (args.length + 1) * 4) % 4294967296] ++
      args ++ [0]).flatMap word = block
    generalize (sp + 4294967296 - (3 + args.length + 1) * 4) % 4294967296 = sp'
    have filled : Filled (insert d live) own x d s4 (s4.copyout d sp' block).2 :=
      copyoutLoop_spec hd _ _ _ s4 b4.inv image4
    have b5 := b4.apart ho (Apart.of_filled filled)
    by_cases failed : (s4.copyout d sp' block).1 < 0
    · rw [if_pos failed]
      exact b5
    · rw [if_neg failed]
      exact b5

end

/-- What exec leaves when it fails: the process as it was, no reference to an inode, as
    many calls of end_op as of begin_op, and of the memory it took only what the old image
    on directory d has got by page faults. -/
structure Traceless [Layout] (k : Kernel) (d : Nat) (k' : Kernel) : Prop where
  slot : k'.mem.slot = k.mem.slot
  tf : k'.tf = k.tf
  name : k'.name = k.name
  inodes : ∀ e, (k'.fs.icache e).ref = (k.fs.icache e).ref
  ops : k'.begun + k.ended = k.begun + k'.ended
  frames : FrameInv k.mem.dirs k.mem.own (fun _ => 0) k'.mem.phys
  freed : ∀ f ∈ k'.mem.phys.freelist, f ∈ k.mem.phys.freelist
  taken : ∀ f ∈ k.mem.phys.freelist, f ∉ k'.mem.phys.freelist →
    (∃ vp < NUPAGES, (k.mem.phys.pte d vp).p = false ∧ k'.mem.phys.userTarget d vp = some f) ∨
      ∃ i < NPDENTRIES, k.mem.phys.tableTarget d i = none ∧ k'.mem.phys.tableTarget d i = some f
  count : (∀ vp < NUPAGES, k'.mem.phys.userTarget d vp = k.mem.phys.userTarget d vp) →
    (∀ i < NPDENTRIES, k'.mem.phys.tableTarget d i = k.mem.phys.tableTarget d i) →
    k'.mem.phys.freelist.length = k.mem.phys.freelist.length
  content : ∀ d' ∈ k.mem.dirs, ∀ vp < NUPAGES, k'.mem.phys.content d' vp = k.mem.phys.content d' vp

/-- Neither the contents of a file nor the arguments stop the kernel in loaduvm, clearpteu
    or mappages: it stops in the file system, or at a string that is not there. -/
def Halt.Outside : Halt → Prop
  | .mem p => p = .kernelPageFault
  | .fs _ => True

section
variable [Layout] {k : Kernel} {p cwd : Nat} {t : Tenant} {refs : Nat → Nat}

theorem Traceless.of_reading {d : Nat} (inv : MemInv k.mem) (hd : d ∈ k.mem.dirs) {s : Phys} {fs : Fs.Inodes}
    (read : Reading k.mem.dirs k.mem.own (fun _ => 0) d k.mem.phys s) (before : Fs.Inodes.Held refs [] k.fs)
    (after : Fs.Inodes.Held refs [] fs) (n : Nat) :
    Traceless k d { k with mem := { k.mem with phys := s }, fs := fs, begun := k.begun + n, ended := k.ended + n } := by
  have freed : ∀ f ∈ s.freelist, f ∈ k.mem.phys.freelist := fun f => read.lazily.freed hd inv.frames read.inv
  have taken := fun f => read.lazily.taken inv.frames read.inv (f := f)
  refine ⟨rfl, rfl, rfl, fun e => ?_, ?_, read.inv, freed, taken, ?_, read.lazily.content⟩
  · rw [after.ref, before.ref]
  · simp only
    omega
  · intro pages tables
    have all : ∀ f ∈ k.mem.phys.freelist, f ∈ s.freelist := by
      intro f free
      by_contra gone
      rcases taken f free gone with ⟨vp, hv, absent, mapped⟩ | ⟨i, hi, none, there⟩
      · rw [show s.userTarget d vp = k.mem.phys.userTarget d vp from pages vp hv] at mapped
        rw [(target_some.mp mapped).1] at absent
        cases absent
      · rw [show s.tableTarget d i = k.mem.phys.tableTarget d i from tables i hi, none] at there
        cases there
    exact ((List.perm_ext_iff_of_nodup read.inv.nodup inv.frames.nodup).mpr
      fun f => ⟨freed f, all f⟩).length_eq

theorem exec_meets (inv : MemInv k.mem) (used : k.mem.slot p = some t) (held : Fs.Inodes.Held refs [] k.fs)
    (pins : Fs.Inodes.Pins (Fs.Inodes.Held refs) cwd) (path : Nat) (argv : List Nat) :
    Meets (k.exec p t cwd path argv) (fun r => r.1 = -1 → Traceless k t.space.pgdir r.2) Halt.Outside := by
  have cached := Fs.Inodes.Held.cached refs
  have hd := inv.tidy.dir_mem used
  have fromMem : ∀ e, e = Panic.kernelPageFault → Halt.Outside (.mem e) := fun e outside => outside
  have fromFs : ∀ e : Fs.Stop, True → Halt.Outside (.fs e) := fun e outside => outside
  rw [Kernel.exec]
  by_cases many : k.mem.pgdirUsers t.space.pgdir > 1
  · rw [if_pos many]
    intro _
    exact Traceless.of_reading inv hd (Reading.refl inv.frames hd) held held 0
  rw [if_neg many]
  refine Meets.bind ((string_reading inv.frames hd t.space.sz path).mapError fromMem) ?_
  intro ⟨name, s1⟩ read1
  refine Meets.bind ((Meets.of_ensures (cached.namei held pins name)).mapError fromFs) ?_
  intro ⟨found, fs1⟩ held1
  cases found with
  | none =>
    intro _
    exact Traceless.of_reading inv hd read1 held held1 1
  | some ip =>
    refine Meets.bind ((Meets.of_ensures (cached.ilock held1)).mapError fromFs) ?_
    intro fs2 held2
    have loads : Returns (s1.loadImage (k.data (fs2.icache ip).inum)) fun r =>
        Loading.Ok k.mem.dirs k.mem.own (fun _ => 0) t.space.pgdir k.mem.phys r.1 r.2 := by
      obtain ⟨r, s2, load, loading⟩ := loadImage_spec hd read1 (k.data (fs2.icache ip).inum)
      exact ⟨(r, s2), load, loading⟩
    refine Meets.bind (loads.meets.mapError fun _ never => never.elim) ?_
    intro ⟨r, s2⟩ loading
    cases r with
    | bad pgdir =>
      have cleans : Returns (Kernel.freeBad s2 pgdir)
          (Reading k.mem.dirs k.mem.own (fun _ => 0) t.space.pgdir k.mem.phys) := by
        cases pgdir with
        | none => exact Returns.ok loading
        | some d => exact Building.freevm hd loading
      refine Meets.bind (cleans.meets.mapError fun _ never => never.elim) ?_
      intro s3 read3
      refine Meets.bind ((Meets.of_ensures (cached.iunlockput held2)).mapError fromFs) ?_
      intro fs3 held3 _
      exact Traceless.of_reading inv hd read3 held held3 1
    | done d sz entry =>
      obtain ⟨building, top, image⟩ := loading
      simp only
      generalize run : s2.makeStack t.space d sz entry argv = result
      have stack := makeStack_spec hd building top image run
      refine Meets.bind ((Meets.of_ensures (cached.iunlockput held2)).mapError fromFs) ?_
      intro fs3 held3
      refine Meets.bind (stack.mapError fromMem) ?_
      intro ⟨made, s3⟩ building3
      cases made with
      | none =>
        refine Meets.bind ((Returns.meets (Building.freevm hd building3)).mapError fun _ never => never.elim) ?_
        intro s4 read4 _
        exact Traceless.of_reading inv hd read4 held held3 1
      | some image =>
        have gone := freevm_spec building3.inv (Finset.mem_insert_of_mem hd)
        refine Meets.bind ((Returns.meets gone).mapError fun _ never => never.elim) ?_
        intro s4 _ failed
        exact absurd failed (show (0 : Int) ≠ -1 by decide)

/-- A call of exec that returns -1 leaves no trace, whatever the file holds and wherever
    memory runs out. -/
theorem failed_exec_traceless (reach : k.mem.Reachable) (used : k.mem.slot p = some t) {sys : Fs.Sys}
    (files : sys.Reachable fun _ _ => True) (fs : k.fs = sys.fs) {task : Fs.Task} (caller : sys.proc p = some task)
    (dir : task.cwd = some cwd) (path : Nat) (argv : List Nat) :
    (∀ e, k.exec p t cwd path argv = .error e → e.Outside) ∧
      ∀ k', k.exec p t cwd path argv = .ok (-1, k') → Traceless k t.space.pgdir k' := by
  have exact_ := Fs.Sys.Reachable.exact_ files
  have held := exact_.inodes
  rw [← fs] at held
  have meets := exec_meets reach.inv used held (exact_.pins caller dir) path argv
  constructor
  · intro e stops
    rw [stops] at meets
    exact meets
  · intro k' fails
    rw [fails] at meets
    exact meets rfl

end

/-- The kernel right after userinit, with a disk that has the root directory. -/
def Fs.Sys.formatted : Fs.Sys :=
  { booted with fs := { booted.fs with dinode := fun i => if i = 1 then ⟨.dir, 0, 0, 1⟩ else ⟨.free, 0, 0, 0⟩ } }

theorem Fs.Sys.formatted_start : Start formatted := by
  obtain ⟨init, procs, files, root, icache, pipes⟩ := booted_start
  exact ⟨init, procs, files, root, icache, pipes⟩

theorem string_absent [Layout] {live own : Finset Nat} {x : Nat → Nat} {s : Phys} {o : Nat} {sz vp : Nat}
    (inv : FrameInv live own x s) (ho : o ∈ live) (absent : (s.pte o vp).p = false) (below : vp * 4096 < sz)
    (user : vp * 4096 < KERNBASE) (memory : 2 ≤ s.freelist.length) :
    ∃ s', s.string ⟨o, sz⟩ (vp * 4096) = .ok ([], s') ∧ (s'.pte o vp).p = true := by
  have page : vp * 4096 / 4096 = vp := Nat.mul_div_cancel vp (by decide)
  obtain ⟨r, s', run, outcome⟩ := lazyalloc_spec inv ho user (by rw [page]; exact absent)
  rw [page] at outcome
  cases outcome with
  | failed _ _ _ short _ =>
    have need : s.needsTable o (vp * PGSIZE) ≤ 1 := by
      unfold Phys.needsTable
      split <;> omega
    omega
  | mapped _ f _ entry zero =>
    have fault : s.touch ⟨o, sz⟩ (vp * 4096) false false = .ok (true, s') := by
      have refuse : ¬ (s.pte o vp).permits false false = true := by simp [Pte.permits, absent]
      have resolve : s.pagefault (some ⟨o, sz⟩) (vp * 4096) ((s.pte o vp).faultCode false false) = .ok (0, s') := by
        simp [Phys.pagefault, found_eq_pte, page, absent, run, Nat.not_le.mpr user, Nat.not_le.mpr below]
      rw [Phys.touch]
      simp only [found_eq_pte, page]
      rw [if_neg refuse, resolve, ok_bind, entry]
      rfl
    have fetch : s.fetch ⟨o, sz⟩ (vp * 4096) = .ok (0, s') := by
      rw [Phys.fetch, fault, ok_bind]
      simp only [found_eq_pte, page, entry, zero]
      rfl
    obtain ⟨n, more⟩ : ∃ n, KERNBASE - vp * 4096 = n + 1 := ⟨KERNBASE - vp * 4096 - 1, by omega⟩
    refine ⟨s', ?_, by rw [entry]⟩
    rw [Phys.string, more, Phys.stringUpto, fetch, ok_bind]
    rfl

/-- init calls exec with an empty path that it has never touched: the file is a directory
    without bytes, exec fails, and the page of the path stays. -/
theorem failed_exec_traceless_empty : ∃ _ : Layout, ∃ (k : Kernel) (t : Tenant) (k' : Kernel), k.mem.Reachable ∧
    k.mem.slot 0 = some t ∧ k.exec 0 t 0 8192 [] = .ok (-1, k') ∧ (k.mem.phys.pte t.space.pgdir 2).p = false ∧
    (k'.mem.phys.pte t.space.pgdir 2).p = true ∧ Traceless k t.space.pgdir k' := by
  let _ := Layout.small
  obtain ⟨m, t, reach, used, -, size, -, absent, small⟩ := Mem.grown_exists (by decide)
  have inv := reach.inv
  have hd := inv.tidy.dir_mem used
  have room := small.room inv
  rw [Finset.card_singleton, show NFRAMES = 57344 by decide] at room
  have memory : 2 ≤ m.phys.freelist.length := by
    have kend : Layout.small.kend ≤ 300 := by decide
    omega
  obtain ⟨s, string, present⟩ := string_absent inv.frames hd absent (show 2 * 4096 < t.space.sz by rw [size]; decide)
    (by decide) memory
  replace string : m.phys.string t.space 8192 = .ok ([], s) := string
  generalize start : (⟨m, Fs.Sys.formatted.fs, fun _ => [], fun _ => ⟨0, 0⟩, fun _ => [], 0, 0⟩ : Kernel) = k
  have single : ¬ k.mem.pgdirUsers t.space.pgdir > 1 := by
    rw [← start]
    exact Nat.not_lt.mpr (small.single _)
  have run : ∃ k', k.exec 0 t 0 8192 [] = .ok (-1, k') ∧ k'.mem.phys = s := by
    rw [Kernel.exec, if_neg single, ← start]
    simp only [Kernel.begin_op, string]
    exact ⟨_, rfl, rfl⟩
  obtain ⟨k', run, phys⟩ := run
  subst start
  refine ⟨Layout.small, _, t, k', reach, used, run, absent, by rw [phys]; exact present, ?_⟩
  exact (failed_exec_traceless reach used (Runs.Reachable.start Fs.Sys.formatted_start) rfl rfl rfl 8192 []).2 k' run

end Xv6
