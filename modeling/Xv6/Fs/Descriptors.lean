import Xv6.Lib.RefCount
import Xv6.Fs.References
import Xv6.Fs.Tables

/-!
The reference counts of the file table and of the inode cache. They are compared with a
process table P and with the references that a call holds itself: F to files, H to
inodes. Between two calls both lists are empty and P is the table of the system.
-/
namespace Xv6
namespace Fs

open Runs RefCount

def File.inode (ff : File) : Option Nat :=
  match ff.type with
  | .inode e => if 0 < ff.ref then some e else none
  | _ => none

def PipeEnds.isOpen (e : PipeEnds) (writable : Bool) : Bool := if writable then e.writeopen else e.readopen

def PipeEnds.close (ends : PipeEnds) (writable : Bool) : PipeEnds :=
  let ends := if writable then { ends with writeopen := false } else { ends with readopen := false }
  if ends.readopen = false ∧ ends.writeopen = false then { ends with freed := ends.freed + 1 } else ends

theorem PipeEnds.close_isOpen (ends : PipeEnds) (w w' : Bool) :
    (ends.close w).isOpen w' = if w' = w then false else ends.isOpen w' := by
  obtain ⟨r, o, n⟩ := ends
  cases w <;> cases w' <;> cases r <;> cases o <;> rfl

theorem PipeEnds.close_freed {ends : PipeEnds} {w : Bool} (was : ends.isOpen w = true)
    (count : ends.freed = if ends.isOpen false = false ∧ ends.isOpen true = false then 1 else 0) :
    (ends.close w).freed =
      if (ends.close w).isOpen false = false ∧ (ends.close w).isOpen true = false then 1 else 0 := by
  obtain ⟨r, o, n⟩ := ends
  cases w <;> cases r <;> cases o <;> simp_all [PipeEnds.close, PipeEnds.isOpen]

theorem File.inode_ref {ff gg : File} (type : gg.type = ff.type) (used : 0 < ff.ref) (used' : 0 < gg.ref) :
    gg.inode = ff.inode := by
  rw [File.inode, File.inode, type]
  simp only [if_pos used, if_pos used']

namespace Sys

def slots (P : Nat → Option Task) (f : Nat) : Nat :=
  refsTo (Finset.range NPROC) (Finset.range NOFILE) (fun i fd => (P i).bind fun t => t.ofile fd) f

def cwds (P : Nat → Option Task) (e : Nat) : Nat :=
  refsTo (Finset.range NPROC) {()} (fun i _ => (P i).bind Task.cwd) e

def opens (file : Nat → File) (e : Nat) : Nat :=
  refsTo (Finset.range NFILE) {()} (fun f _ => (file f).inode) e

structure Orderly (P : Nat → Option Task) : Prop where
  inside : ∀ i t, P i = some t → i < NPROC
  fds : ∀ i t fd f, P i = some t → t.ofile fd = some f → fd < NOFILE
  gone : ∀ i t, P i = some t → t.zombie = true → t.ofile = (fun _ => none) ∧ t.cwd = none

/-- An end of a pipe is open as long as it has a file, and the page is freed once, with
    the second end. -/
structure Piped (file : Nat → File) (pipe : Nat → PipeEnds) (npipes : Nat) : Prop where
  made : ∀ f p, (file f).type = .pipe p → p < npipes
  once : ∀ f g p, (file f).type = .pipe p → (file g).type = .pipe p → (file f).writable = (file g).writable → f = g
  ends : ∀ p < npipes, ∀ w, (pipe p).isOpen w = true ↔ ∃ f, (file f).type = .pipe p ∧ (file f).writable = w
  freed : ∀ p < npipes, (pipe p).freed = if (pipe p).isOpen false = false ∧ (pipe p).isOpen true = false then 1 else 0

structure Refs (s : Sys) (P : Nat → Option Task) (F H : List Nat) : Prop where
  orderly : Orderly P
  ref : ∀ f, (s.file f).ref = slots P f + F.count f
  inside : ∀ f, 0 < (s.file f).ref → f < NFILE
  bare : ∀ f, (s.file f).ref = 0 → (s.file f).type = .none
  inodes : Inodes.Held (fun e => opens s.file e + cwds P e) H s.fs
  pipes : Piped s.file s.pipe s.npipes

section
variable {s : Sys} {P : Nat → Option Task} {F H F' H' : List Nat} {i f e fd cwd : Nat} {t : Task} {v : File}

theorem count_filterMap (n : Nat) (g : Nat → Option Nat) (f : Nat) :
    ((List.range n).filterMap g).count f = ((Finset.range n).filter fun k => g k = some f).card := by
  induction n with
  | zero => rfl
  | succ n ih =>
    rw [List.range_succ, List.filterMap_append, List.count_append, ih, Finset.range_add_one, Finset.filter_insert]
    cases last : g n with
    | none => simp [last]
    | some k =>
      by_cases same : k = f
      · simp [last, same]
      · simp [last, same]

theorem slots_update (P : Nat → Option Task) (inside : i < NPROC) (o : Option Task) (f : Nat) :
    slots (Function.update P i o) f + ((P i).elim [] files).count f = slots P f + (o.elim [] files).count f := by
  have row : ∀ o : Option Task, ((Finset.range NOFILE).filter fun fd => (o.bind fun t => t.ofile fd) = some f).card =
      (o.elim [] files).count f := by
    rintro (_ | t)
    · simp
    · exact (count_filterMap NOFILE t.ofile f).symm
  have moved := refs_row (R := Finset.range NOFILE) (Finset.mem_range.mpr inside)
    (fun j _ other fd _ => congrArg (Option.bind · fun t => t.ofile fd) (Function.update_of_ne other o P)) f
  rw [row, row, Function.update_self] at moved
  exact moved

theorem slots_setFd (inside : i < NPROC) (used : P i = some t) (range : fd < NOFILE) (x : Option Nat) (f : Nat) :
    slots (Function.update P i (some (setFd t fd x))) f + (if t.ofile fd = some f then 1 else 0) =
      slots P f + (if x = some f then 1 else 0) := by
  have same : ∀ j ∈ Finset.range NPROC, ∀ fd' ∈ Finset.range NOFILE, (j ≠ i ∨ fd' ≠ fd) →
      (Function.update P i (some (setFd t fd x)) j).bind (fun t => t.ofile fd') = (P j).bind fun t => t.ofile fd' := by
    intro j _ fd' _ other
    by_cases here : j = i
    · subst here
      have away : fd' ≠ fd := other.resolve_left fun away => away rfl
      rw [Function.update_self, used]
      exact Function.update_of_ne away x t.ofile
    · rw [Function.update_of_ne here]
  have moved := refs_update (Finset.mem_range.mpr inside) (Finset.mem_range.mpr range) same f
  rw [Function.update_self, used, Option.bind_some, Option.bind_some] at moved
  simp only [setFd, Function.update_self] at moved
  exact moved

theorem cwds_update (P : Nat → Option Task) (inside : i < NPROC) (o : Option Task) (e : Nat) :
    cwds (Function.update P i o) e + (if (P i).bind Task.cwd = some e then 1 else 0) =
      cwds P e + (if o.bind Task.cwd = some e then 1 else 0) := by
  have same : ∀ j ∈ Finset.range NPROC, ∀ u ∈ ({()} : Finset Unit), (j ≠ i ∨ u ≠ ()) →
      (Function.update P i o j).bind Task.cwd = (P j).bind Task.cwd := by
    intro j _ _ _ other
    rw [Function.update_of_ne (other.resolve_right fun away => away rfl)]
  have moved := refs_update (Finset.mem_range.mpr inside) (Finset.mem_singleton_self ()) same e
  rw [Function.update_self] at moved
  exact moved

theorem opens_update (file : Nat → File) (inside : f < NFILE) (v : File) (e : Nat) :
    opens (Function.update file f v) e + (if (file f).inode = some e then 1 else 0) =
      opens file e + (if v.inode = some e then 1 else 0) := by
  have same : ∀ g ∈ Finset.range NFILE, ∀ u ∈ ({()} : Finset Unit), (g ≠ f ∨ u ≠ ()) →
      (Function.update file f v g).inode = (file g).inode := by
    intro g _ _ _ other
    rw [Function.update_of_ne (other.resolve_right fun away => away rfl)]
  have moved := refs_update (Finset.mem_range.mpr inside) (Finset.mem_singleton_self ()) same e
  rw [Function.update_self] at moved
  exact moved

namespace Piped
variable {file : Nat → File} {pipe : Nat → PipeEnds} {npipes : Nat}

theorem setFile (piped : Piped file pipe npipes)
    (same : ∀ p, v.type = .pipe p ↔ (file f).type = .pipe p)
    (way : ∀ p, (file f).type = .pipe p → v.writable = (file f).writable) :
    Piped (Function.update file f v) pipe npipes := by
  have type : ∀ g p, (Function.update file f v g).type = .pipe p ↔ (file g).type = .pipe p := by
    intro g p
    by_cases here : g = f
    · subst here
      rw [Function.update_self]
      exact same p
    · rw [Function.update_of_ne here]
  have writable : ∀ g p, (file g).type = .pipe p → (Function.update file f v g).writable = (file g).writable := by
    intro g p end_
    by_cases here : g = f
    · subst here
      rw [Function.update_self]
      exact way p end_
    · rw [Function.update_of_ne here]
  refine ⟨fun g p end_ => piped.made g p ((type g p).mp end_), fun g h p first second equal => ?_,
    fun p less w => (piped.ends p less w).trans ⟨?_, ?_⟩, piped.freed⟩
  · have first' := (type g p).mp first
    have second' := (type h p).mp second
    rw [writable g p first', writable h p second'] at equal
    exact piped.once g h p first' second' equal
  · rintro ⟨g, end_, way'⟩
    exact ⟨g, (type g p).mpr end_, (writable g p end_).trans way'⟩
  · rintro ⟨g, end_, way'⟩
    have end' := (type g p).mp end_
    exact ⟨g, end', (writable g p end').symm.trans way'⟩

theorem close {p : Nat} (piped : Piped file pipe npipes) (type : (file f).type = .pipe p) (none : v.type = .none) :
    Piped (Function.update file f v) (Function.update pipe p ((pipe p).close (file f).writable)) npipes := by
  have less := piped.made f p type
  have open' : (pipe p).isOpen (file f).writable = true := (piped.ends p less _).mpr ⟨f, type, rfl⟩
  have old : ∀ g q, (Function.update file f v g).type = .pipe q → g ≠ f ∧ (file g).type = .pipe q := by
    intro g q end_
    by_cases here : g = f
    · subst here
      rw [Function.update_self, none] at end_
      cases end_
    · rw [Function.update_of_ne here] at end_
      exact ⟨here, end_⟩
  refine ⟨fun g q end_ => piped.made g q (old g q end_).2, fun g h q first second equal => ?_, fun q below w => ?_,
    fun q below => ?_⟩
  · obtain ⟨other, first'⟩ := old g q first
    obtain ⟨other', second'⟩ := old h q second
    rw [Function.update_of_ne other, Function.update_of_ne other'] at equal
    exact piped.once g h q first' second' equal
  · have files : (∃ g, (Function.update file f v g).type = .pipe q ∧ (Function.update file f v g).writable = w) ↔
        ∃ g, g ≠ f ∧ (file g).type = .pipe q ∧ (file g).writable = w := by
      constructor
      · rintro ⟨g, end_, way⟩
        obtain ⟨other, end'⟩ := old g q end_
        rw [Function.update_of_ne other] at way
        exact ⟨g, other, end', way⟩
      · rintro ⟨g, other, end_, way⟩
        refine ⟨g, ?_⟩
        rw [Function.update_of_ne other]
        exact ⟨end_, way⟩
    rw [files]
    by_cases here : q = p
    · subst here
      rw [Function.update_self, PipeEnds.close_isOpen]
      by_cases mine : w = (file f).writable
      · rw [if_pos mine]
        refine ⟨nofun, ?_⟩
        rintro ⟨g, other, end_, way⟩
        exact absurd (piped.once g f q end_ type (way.trans mine)) other
      · rw [if_neg mine, piped.ends q below w]
        refine exists_congr fun g => ⟨fun both => ⟨?_, both⟩, And.right⟩
        rintro rfl
        exact mine both.2.symm
    · rw [Function.update_of_ne here, piped.ends q below w]
      refine exists_congr fun g => ⟨fun both => ⟨?_, both⟩, And.right⟩
      rintro rfl
      rw [type] at both
      cases both.1
      exact here rfl
  · by_cases here : q = p
    · subst here
      rw [Function.update_self, PipeEnds.close_freed open' (piped.freed q below)]
    · rw [Function.update_of_ne here]
      exact piped.freed q below

theorem open_ {p n : Nat} {pipe' : Nat → PipeEnds} (piped : Piped file pipe npipes) (bare : (file f).type = .none)
    (type : v.type = .pipe p) (known : ∀ q, q < n ↔ q < npipes ∨ q = p) (others : ∀ q, q ≠ p → pipe' q = pipe q)
    (closed : p < npipes → (pipe p).isOpen v.writable = false)
    (mine : ∀ w, (pipe' p).isOpen w = true ↔ w = v.writable ∨ p < npipes ∧ (pipe p).isOpen w = true)
    (fresh : (pipe' p).freed = 0) : Piped (Function.update file f v) pipe' n := by
  have types : ∀ g q, (Function.update file f v g).type = .pipe q ↔
      (g = f ∧ q = p) ∨ (g ≠ f ∧ (file g).type = .pipe q) := by
    intro g q
    by_cases here : g = f
    · subst here
      rw [Function.update_self, type]
      simp [eq_comm]
    · rw [Function.update_of_ne here]
      simp [here]
  have apart : ∀ g, g ≠ f → (file g).type = .pipe p → (file g).writable ≠ v.writable := by
    intro g _ end_ same
    have less := piped.made g p end_
    have open' := (piped.ends p less v.writable).mpr ⟨g, end_, same⟩
    rw [closed less] at open'
    cases open'
  have way : ∀ g, g ≠ f → (Function.update file f v g).writable = (file g).writable := by
    intro g other
    rw [Function.update_of_ne other]
  have own : (Function.update file f v f).writable = v.writable := by rw [Function.update_self]
  refine ⟨fun g q end_ => ?_, fun g h q first second equal => ?_, fun q below w => ?_, fun q below => ?_⟩
  · rcases (types g q).mp end_ with ⟨-, rfl⟩ | ⟨-, old⟩
    · exact (known q).mpr (Or.inr rfl)
    · exact (known q).mpr (Or.inl (piped.made g q old))
  · rcases (types g q).mp first with ⟨rfl, rfl⟩ | ⟨other, old⟩ <;>
      rcases (types h q).mp second with ⟨rfl, same⟩ | ⟨other', old'⟩
    · rfl
    · rw [own, way h other'] at equal
      exact absurd equal.symm (apart h other' old')
    · rw [own, way g other] at equal
      exact absurd equal (apart g other (same ▸ old))
    · rw [way g other, way h other'] at equal
      exact piped.once g h q old old' equal
  · by_cases here : q = p
    · subst here
      rw [mine w]
      constructor
      · rintro (rfl | ⟨less, open'⟩)
        · exact ⟨f, (types f q).mpr (Or.inl ⟨rfl, rfl⟩), own⟩
        · obtain ⟨g, end_, same⟩ := (piped.ends q less w).mp open'
          have other : g ≠ f := by
            rintro rfl
            rw [bare] at end_
            cases end_
          exact ⟨g, (types g q).mpr (Or.inr ⟨other, end_⟩), (way g other).trans same⟩
      · rintro ⟨g, end_, same⟩
        rcases (types g q).mp end_ with ⟨rfl, -⟩ | ⟨other, old⟩
        · exact Or.inl (same.symm.trans own)
        · have less := piped.made g q old
          exact Or.inr ⟨less, (piped.ends q less w).mpr ⟨g, old, (way g other).symm.trans same⟩⟩
    · have less : q < npipes := ((known q).mp below).resolve_right here
      rw [others q here, piped.ends q less w]
      constructor
      · rintro ⟨g, end_, same⟩
        have other : g ≠ f := by
          rintro rfl
          rw [bare] at end_
          cases end_
        exact ⟨g, (types g q).mpr (Or.inr ⟨other, end_⟩), (way g other).trans same⟩
      · rintro ⟨g, end_, same⟩
        rcases (types g q).mp end_ with ⟨-, rfl⟩ | ⟨other, old⟩
        · exact absurd rfl here
        · exact ⟨g, old, (way g other).symm.trans same⟩
  · by_cases here : q = p
    · subst here
      have open' := (mine v.writable).mpr (Or.inl rfl)
      rw [fresh, if_neg]
      rintro ⟨reader, writer⟩
      cases side : v.writable with
      | false =>
        rw [side, reader] at open'
        cases open'
      | true =>
        rw [side, writer] at open'
        cases open'
    · rw [others q here]
      exact piped.freed q (((known q).mp below).resolve_right here)

end Piped

namespace Refs

theorem move {P' : Nat → Option Task} (refs : Refs s P F H) (orderly : Orderly P')
    (files : ∀ f, slots P' f + F'.count f = slots P f + F.count f)
    (dirs : ∀ e, cwds P' e + H'.count e = cwds P e + H.count e) : Refs s P' F' H' where
  orderly := orderly
  ref f := by rw [files, refs.ref]
  inside := refs.inside
  bare := refs.bare
  inodes := refs.inodes.move fun e => by
    have := dirs e
    omega
  pipes := refs.pipes

theorem setFs (refs : Refs s P F H) {fs : Inodes}
    (held : Inodes.Held (fun e => opens s.file e + cwds P e) H' fs) : Refs { s with fs := fs } P F H' where
  orderly := refs.orderly
  ref := refs.ref
  inside := refs.inside
  bare := refs.bare
  inodes := held
  pipes := refs.pipes

theorem setFile {pipe : Nat → PipeEnds} {n : Nat} (refs : Refs s P F H) (inside : f < NFILE) (ref : v.ref = slots P f + F'.count f)
    (count : ∀ g, g ≠ f → F'.count g = F.count g) (bare : v.ref = 0 → v.type = .none)
    (inode : ∀ e, H'.count e + (if v.inode = some e then 1 else 0) =
      H.count e + (if (s.file f).inode = some e then 1 else 0))
    (pipes : Piped (Function.update s.file f v) pipe n) : Refs { s.setFile f v with pipe := pipe, npipes := n } P F' H' where
  orderly := refs.orderly
  ref g := by
    by_cases here : g = f
    · subst here
      simp only [Sys.setFile, Function.update_self]
      exact ref
    · simp only [Sys.setFile, Function.update_of_ne here]
      rw [refs.ref, count g here]
  inside g used := by
    by_cases here : g = f
    · exact here ▸ inside
    · simp only [Sys.setFile, Function.update_of_ne here] at used
      exact refs.inside g used
  bare g unused := by
    by_cases here : g = f
    · subst here
      simp only [Sys.setFile, Function.update_self] at unused ⊢
      exact bare unused
    · simp only [Sys.setFile, Function.update_of_ne here] at unused ⊢
      exact refs.bare g unused
  inodes := by
    refine refs.inodes.move fun e => ?_
    have moved := opens_update s.file inside v e
    have same := inode e
    change opens (Function.update s.file f v) e + _ + _ = _
    omega
  pipes := pipes

theorem setRef (refs : Refs s P F H) (used : 0 < (s.file f).ref) {n : Nat} (some : 0 < n)
    (ref : n = slots P f + F'.count f) (count : ∀ g, g ≠ f → F'.count g = F.count g) :
    Refs (s.setFile f { s.file f with ref := n }) P F' H := by
  have same : File.inode { s.file f with ref := n } = (s.file f).inode := File.inode_ref rfl used some
  exact refs.setFile (refs.inside f used) ref count (fun zero => absurd zero (Nat.ne_of_gt some))
    (fun e => by rw [same]) (refs.pipes.setFile (fun p => Iff.rfl) fun _ _ => rfl)

theorem filealloc (refs : Refs s P F H) {s' : Sys} (done : s.filealloc = some (f, s')) :
    Refs s' P (f :: F) H ∧ (s'.file f).type = .none ∧ s'.proc = s.proc ∧
      ∀ g ∈ F, g ≠ f ∧ (s'.file g).type = (s.file g).type := by
  obtain ⟨g, found, same⟩ := Option.map_eq_some_iff.mp done
  cases same
  have inside := List.mem_range.mp (List.mem_of_find?_eq_some found)
  have zero := List.find?_some found
  simp only [decide_eq_true_eq] at zero
  have total := refs.ref f
  have bare := refs.bare f zero
  have none : ∀ n, File.inode { s.file f with ref := n } = Option.none := by
    intro n
    rw [File.inode]
    simp only [bare]
  have absent : (s.file f).inode = Option.none := none (s.file f).ref
  refine ⟨refs.setFile inside ?_ (fun g other => List.count_cons_of_ne (Ne.symm other)) nofun
    (fun e => by rw [none, absent]) (refs.pipes.setFile (fun p => Iff.rfl) fun _ _ => rfl), ?_, rfl, fun g member => ?_⟩
  · rw [List.count_cons_self]
    dsimp only
    omega
  · simp only [Sys.setFile, Function.update_self]
    exact bare
  · have other : g ≠ f := by
      rintro rfl
      have := List.count_pos_iff.mpr member
      omega
    refine ⟨other, ?_⟩
    simp only [Sys.setFile, Function.update_of_ne other]

theorem filedup (refs : Refs s P F H) (f : Nat) :
    Ensures (s.filedup f) fun s' => Refs s' P (f :: F) H ∧ s'.proc = s.proc ∧ s'.fs = s.fs := by
  rw [Sys.filedup]
  split
  · exact Ensures.error
  · have total := refs.ref f
    refine Ensures.ok ⟨refs.setRef (by omega) (Nat.succ_pos _) ?_
      (fun g other => List.count_cons_of_ne (Ne.symm other)), rfl, rfl⟩
    rw [List.count_cons_self]
    omega

/-- fileclose gives up one reference to the file, and the file's own with the last one. -/
theorem fileclose (refs : Refs s P (f :: F) H) :
    Ensures (s.fileclose f) fun s' => Refs s' P F H ∧ s'.proc = s.proc := by
  have total := refs.ref f
  rw [List.count_cons_self] at total
  have count : ∀ g, g ≠ f → F.count g = (f :: F).count g := fun g other => (List.count_cons_of_ne (Ne.symm other)).symm
  have inside := refs.inside f (by omega)
  rw [Sys.fileclose]
  dsimp only
  split
  · exact Ensures.error
  split
  · exact Ensures.ok ⟨refs.setRef (by omega) (by omega) (by omega) count, rfl⟩
  have last : 0 = slots P f + F.count f := by omega
  have none : File.inode { s.file f with ref := 0, type := .none } = Option.none := rfl
  split
  · rename_i type
    have absent : (s.file f).inode = Option.none := by
      rw [File.inode]
      simp only [type]
    refine Ensures.ok ⟨refs.setFile inside last count (fun _ => rfl) (fun e => by rw [none, absent])
      (refs.pipes.setFile (fun p => ?_) fun _ _ => rfl), rfl⟩
    rw [type]
  · rename_i p type
    have absent : (s.file f).inode = Option.none := by
      rw [File.inode]
      simp only [type]
    refine Ensures.ok ⟨?_, rfl⟩
    have same : (s.setFile f { s.file f with ref := 0, type := .none }).pipeclose p (s.file f).writable =
        { s.setFile f { s.file f with ref := 0, type := .none } with
          pipe := Function.update s.pipe p ((s.pipe p).close (s.file f).writable), npipes := s.npipes } := rfl
    rw [same]
    exact refs.setFile inside last count (fun _ => rfl) (fun e => by rw [none, absent]) (refs.pipes.close type rfl)
  · rename_i e type
    have there : (s.file f).inode = some e := by
      rw [File.inode]
      simp only [type]
      rw [if_pos (by omega)]
    have cleared : Refs (s.setFile f { s.file f with ref := 0, type := .none }) P F (e :: H) := by
      refine refs.setFile inside last count (fun _ => rfl) (fun e' => ?_) (refs.pipes.setFile (fun p => ?_) fun _ _ => rfl)
      · rw [none, there, List.count_cons]
        by_cases same : e = e' <;> simp [same]
      · rw [type]
        simp only [reduceCtorEq]
    refine Ensures.bind cleared.inodes.iput fun fs held => ?_
    exact Ensures.ok ⟨cleared.setFs held, rfl⟩

theorem setProc (refs : Refs s P F H) (o : Option Task) : Refs (s.setProc i o) P F H := { refs with }

theorem closeAll (refs : Refs s P (F' ++ F) H) :
    Ensures (Sys.closeAll F' s) fun s' => Refs s' P F H ∧ s'.proc = s.proc := by
  induction F' generalizing s with
  | nil => exact Ensures.ok ⟨refs, rfl⟩
  | cons f F' ih =>
    refine Ensures.bind refs.fileclose ?_
    rintro s₁ ⟨closed, proc⟩
    exact (ih closed).mono fun s₂ next => ⟨next.1, next.2.trans proc⟩

theorem dupAll (refs : Refs s P F H) (fs : List Nat) :
    Ensures (Sys.dupAll fs s) fun s' => Refs s' P (fs ++ F) H ∧ s'.proc = s.proc ∧ s'.fs = s.fs := by
  induction fs generalizing s F with
  | nil => exact Ensures.ok ⟨refs, rfl, rfl⟩
  | cons f fs ih =>
    refine Ensures.bind (refs.filedup f) ?_
    rintro s₁ ⟨dup, proc, same⟩
    refine (ih dup).mono fun s₂ next => ⟨next.1.move dup.orderly (fun g => ?_) (fun _ => rfl), next.2.1.trans proc,
      next.2.2.trans same⟩
    rw [List.perm_middle.count_eq, List.cons_append]

end Refs

theorem Orderly.update (orderly : Orderly P) (inside : i < NPROC) (fds : ∀ fd f, t.ofile fd = some f → fd < NOFILE)
    (gone : t.zombie = true → t.ofile = (fun _ => none) ∧ t.cwd = none) :
    Orderly (Function.update P i (some t)) := by
  have cases_ : ∀ j u, Function.update P i (some t) j = some u → (j = i ∧ u = t) ∨ P j = some u := by
    intro j u is
    by_cases here : j = i
    · subst here
      rw [Function.update_self] at is
      exact Or.inl ⟨rfl, (Option.some.inj is).symm⟩
    · rw [Function.update_of_ne here] at is
      exact Or.inr is
  refine ⟨fun j u is => ?_, fun j u fd f is has => ?_, fun j u is => ?_⟩
  · rcases cases_ j u is with ⟨rfl, -⟩ | old
    · exact inside
    · exact orderly.inside j u old
  · rcases cases_ j u is with ⟨-, rfl⟩ | old
    · exact fds fd f has
    · exact orderly.fds j u fd f old has
  · rcases cases_ j u is with ⟨-, rfl⟩ | old
    · exact gone
    · exact orderly.gone j u old

theorem Orderly.setFd (orderly : Orderly P) (used : P i = some t) (live : t.zombie = false) (range : fd < NOFILE)
    (x : Option Nat) : Orderly (Function.update P i (some (setFd t fd x))) := by
  refine orderly.update (orderly.inside i t used) (fun fd' f has => ?_) (fun gone => ?_)
  · by_cases here : fd' = fd
    · exact here ▸ range
    · simp only [Sys.setFd, Function.update_of_ne here] at has
      exact orderly.fds i t fd' f used has
  · rw [show t.zombie = true from gone] at live
    cases live

theorem fdalloc_eq {fd : Nat} (found : fdalloc t = some fd) : fd < NOFILE ∧ t.ofile fd = none := by
  refine ⟨List.mem_range.mp (List.mem_of_find?_eq_some found), ?_⟩
  have free := List.find?_some found
  simpa using free

def Exact (s : Sys) : Prop := Refs s s.proc [] []

namespace Refs

theorem exact_ (refs : Refs s P [] []) (proc : s.proc = P) : s.Exact := by
  rw [Exact, proc]
  exact refs

theorem setFd (refs : Refs s P F H) (used : P i = some t) (live : t.zombie = false) (range : fd < NOFILE)
    (x : Option Nat) (same : ∀ g, F'.count g + (if x = some g then 1 else 0) =
      F.count g + (if t.ofile fd = some g then 1 else 0)) :
    Refs s (Function.update P i (some (Sys.setFd t fd x))) F' H := by
  have inside := refs.orderly.inside i t used
  refine refs.move (refs.orderly.setFd used live range x) (fun g => ?_) (fun e => ?_)
  · have moved := slots_setFd inside used range x g
    have := same g
    omega
  · have moved := cwds_update P inside (some (Sys.setFd t fd x)) e
    rw [used] at moved
    rw [Nat.add_right_cancel moved]

theorem store (refs : Refs s P (f :: F) H) (used : P i = some t) (live : t.zombie = false) (range : fd < NOFILE)
    (free : t.ofile fd = none) : Refs s (Function.update P i (some (Sys.setFd t fd (some f)))) F H :=
  refs.setFd used live range _ fun g => by simp [free, List.count_cons]

theorem take (refs : Refs s P F H) (used : P i = some t) (live : t.zombie = false) (range : fd < NOFILE)
    (held : t.ofile fd = some f) : Refs s (Function.update P i (some (Sys.setFd t fd none))) (f :: F) H :=
  refs.setFd used live range _ fun g => by simp [held, List.count_cons]

theorem setType (refs : Refs s P (f :: F) H) (type : (s.file f).type = .none)
    (inode : ∀ e, H'.count e + (if v.inode = some e then 1 else 0) = H.count e) {pipe : Nat → PipeEnds} {n : Nat}
    (ref : v.ref = (s.file f).ref) (pipes : Piped (Function.update s.file f v) pipe n) :
    Refs { s.setFile f v with pipe := pipe, npipes := n } P (f :: F) H' := by
  have total := refs.ref f
  rw [List.count_cons_self] at total
  have absent : (s.file f).inode = none := by
    rw [File.inode]
    simp only [type]
  refine refs.setFile (refs.inside f (by omega)) (ref.trans (refs.ref f)) (fun _ _ => rfl) (fun zero => ?_)
    (fun e => ?_) pipes
  · omega
  · simp only [absent, reduceCtorEq, if_false, Nat.add_zero]
    exact inode e

theorem makePipe {rf wf : Nat} (refs : Refs s P [rf, wf] H) (reader : (s.file rf).type = .none)
    (writer : (s.file wf).type = .none) (other : rf ≠ wf) :
    let p := s.npipes
    let s := { s with npipes := p + 1, pipe := Function.update s.pipe p ⟨true, true, 0⟩ }
    let s := s.setFile rf { s.file rf with type := .pipe p, readable := true, writable := false }
    Refs (s.setFile wf { s.file wf with type := .pipe p, readable := false, writable := true }) P [rf, wf] H := by
  intro p
  -- the read end alone, and then the write end
  have first : Refs { s.setFile rf { s.file rf with type := .pipe p, readable := true, writable := false } with
      pipe := Function.update s.pipe p ⟨true, false, 0⟩, npipes := p + 1 } P [rf, wf] H := by
    refine refs.setType reader (fun e => ?_) rfl (refs.pipes.open_ reader rfl (fun q => ?_) (fun q away => ?_) (fun less => ?_)
      (fun w => ?_) ?_)
    · rfl
    · omega
    · exact Function.update_of_ne away _ _
    · exact absurd less (Nat.lt_irrefl p)
    · rw [Function.update_self]
      cases w <;> simp [PipeEnds.isOpen, p]
    · rw [Function.update_self]
  generalize state : ({ s.setFile rf { s.file rf with type := .pipe p, readable := true, writable := false } with
    pipe := Function.update s.pipe p ⟨true, false, 0⟩, npipes := p + 1 } : Sys) = s₁ at first
  have writer₁ : (s₁.file wf).type = .none := by
    rw [← state]
    simp only [Sys.setFile, Function.update_of_ne (Ne.symm other)]
    exact writer
  have pipe₁ : s₁.pipe p = ⟨true, false, 0⟩ := by
    rw [← state]
    exact Function.update_self ..
  have count : s₁.npipes = p + 1 := by rw [← state]
  have swapped : Refs s₁ P [wf, rf] H :=
    first.move first.orderly (fun g => (List.Perm.swap rf wf []).count_eq g ▸ rfl) (fun _ => rfl)
  have second : Refs { s₁.setFile wf { s₁.file wf with type := .pipe p, readable := false, writable := true } with
      pipe := Function.update s.pipe p ⟨true, true, 0⟩, npipes := p + 1 } P [wf, rf] H := by
    refine swapped.setType writer₁ (fun e => ?_) rfl (swapped.pipes.open_ writer₁ rfl (fun q => ?_) (fun q away => ?_)
      (fun _ => ?_) (fun w => ?_) ?_)
    · rfl
    · rw [count]
      omega
    · rw [← state, Function.update_of_ne away]
      exact (Function.update_of_ne away _ _).symm
    · rw [pipe₁]
      rfl
    · rw [Function.update_self, pipe₁, count]
      cases w <;> simp [PipeEnds.isOpen]
    · rw [Function.update_self]
  subst state
  exact second.move second.orderly (fun g => (List.Perm.swap wf rf []).count_eq g ▸ rfl) (fun _ => rfl)

end Refs

namespace Exact

theorem pins (exact_ : s.Exact) (used : s.proc i = some t) (dir : t.cwd = some cwd) :
    Inodes.Pins (Inodes.Held fun e => opens s.file e + cwds s.proc e) cwd := by
  refine Inodes.Held.pins ?_
  have inside := exact_.orderly.inside i t used
  have here : 0 < cwds s.proc cwd := by
    refine refs_pos (Finset.mem_range.mpr inside) (Finset.mem_singleton_self ()) ?_
    rw [used]
    exact dir
  omega

theorem quiet (exact_ : s.Exact) {fs : Inodes}
    (held : Inodes.Held (fun e => opens s.file e + cwds s.proc e) [] fs) : ({ s with fs := fs } : Sys).Exact :=
  exact_.setFs held

theorem openInode {P : List Nat → Inodes → Prop} (cached : Inodes.Cached P) {fs : Inodes} (holds : P H fs)
    (pins : Inodes.Pins P cwd) (path : List UInt8) (omode : Nat) :
    Ensures (Sys.openInode fs cwd path omode) fun r => P (r.1.toList ++ H) r.2 := by
  rw [Sys.openInode]
  split
  · exact cached.create holds pins path .file 0 0
  refine Ensures.bind (cached.namei holds pins path) ?_
  rintro ⟨_ | ip, fs₁⟩ found
  · exact Ensures.ok found
  refine Ensures.bind (cached.ilock found) fun fs₂ locked => ?_
  split
  · exact Ensures.bind (cached.iunlockput locked) fun _ next => Ensures.ok next
  · exact Ensures.ok locked

theorem sys_open (exact_ : s.Exact) (used : s.proc i = some t) (live : t.zombie = false) (dir : t.cwd = some cwd)
    (path : List UInt8) (omode : Nat) : Ensures (s.sys_open i t cwd path omode) Exact := by
  have cached := Inodes.Held.cached fun e => opens s.file e + cwds s.proc e
  rw [Sys.sys_open]
  refine Ensures.bind (openInode cached exact_.inodes (exact_.pins used dir) path omode) ?_
  rintro ⟨_ | ip, fs⟩ held
  · exact Ensures.ok (exact_.quiet held)
  have opened : Refs { s with fs := fs } s.proc [] [ip] := exact_.setFs held
  dsimp only
  cases alloc : ({ s with fs := fs } : Sys).filealloc with
  | none =>
    refine Ensures.bind (cached.iunlockput opened.inodes) fun fs₁ dropped => ?_
    exact Ensures.ok (opened.setFs dropped)
  | some pair =>
    obtain ⟨f, s₁⟩ := pair
    obtain ⟨refs₁, type, proc, -⟩ := opened.filealloc alloc
    dsimp only
    have cached₁ := Inodes.Held.cached fun e => opens s₁.file e + cwds s.proc e
    cases free : fdalloc t with
    | none =>
      refine Ensures.bind refs₁.fileclose ?_
      rintro s₂ ⟨refs₂, proc₂⟩
      refine Ensures.bind ((Inodes.Held.cached _).iunlockput refs₂.inodes) fun fs₂ dropped => ?_
      exact Ensures.ok ((refs₂.setFs dropped).exact_ (proc₂.trans proc))
    | some fd =>
      obtain ⟨range, empty⟩ := fdalloc_eq free
      refine Ensures.bind (cached₁.iunlock refs₁.inodes) fun fs₂ unlocked => ?_
      have total := refs₁.ref f
      rw [List.count_cons_self] at total
      generalize shape : ({ s₁.file f with
        type := .inode ip
        readable := omode &&& O_WRONLY = 0
        writable := omode &&& O_WRONLY ≠ 0 ∨ omode &&& O_RDWR ≠ 0 } : File) = v
      have held₂ : v.inode = some ip := by
        rw [← shape, File.inode]
        exact if_pos (by dsimp only; omega)
      have typed : Refs (({ s₁ with fs := fs₂ } : Sys).setFile f v) s.proc [f] [] := by
        refine (refs₁.setFs unlocked).setType type (fun e => ?_) (by rw [← shape]) (refs₁.pipes.setFile (fun p => ?_) ?_)
        · rw [held₂]
          simp [List.count_cons]
        · rw [type, ← shape]
          exact ⟨nofun, nofun⟩
        · intro p end_
          rw [type] at end_
          cases end_
      refine Ensures.ok (((typed.store used live range empty).setProc _).exact_ ?_)
      rw [← proc]
      rfl

theorem sys_close (exact_ : s.Exact) (used : s.proc i = some t) (live : t.zombie = false) (fd : Nat) :
    Ensures (s.sys_close i t fd) Exact := by
  rw [Sys.sys_close, argfd]
  by_cases range : fd < NOFILE
  · rw [if_pos range]
    cases held : t.ofile fd with
    | none => exact Ensures.ok exact_
    | some f =>
      refine ((exact_.take used live range held).setProc _).fileclose.mono ?_
      rintro s₁ ⟨refs₁, proc⟩
      exact refs₁.exact_ proc
  · rw [if_neg range]
    exact Ensures.ok exact_

theorem sys_dup (exact_ : s.Exact) (used : s.proc i = some t) (live : t.zombie = false) (fd : Nat) :
    Ensures (s.sys_dup i t fd) Exact := by
  rw [Sys.sys_dup]
  cases held : argfd t fd with
  | none => exact Ensures.ok exact_
  | some f =>
    cases free : fdalloc t with
    | none => exact Ensures.ok exact_
    | some fd' =>
      obtain ⟨range, empty⟩ := fdalloc_eq free
      have refs : Refs (s.setProc i (some (setFd t fd' (some f)))) s.proc [] [] := Refs.setProc exact_ _
      refine (refs.filedup f).mono ?_
      rintro s₁ ⟨refs₁, proc, -⟩
      exact (refs₁.store used live range empty).exact_ proc

theorem pipealloc (exact_ : s.Exact) (memory : Bool) : Ensures (s.pipealloc memory) fun r =>
    Refs r.2 s.proc (match r.1 with | none => [] | some (rf, wf) => [rf, wf]) [] ∧ r.2.proc = s.proc := by
  rw [Sys.pipealloc]
  cases first : s.filealloc with
  | none => exact Ensures.ok ⟨exact_, rfl⟩
  | some pair =>
    obtain ⟨f0, s₁⟩ := pair
    obtain ⟨refs₁, type₁, proc₁, -⟩ := exact_.filealloc first
    dsimp only
    cases second : s₁.filealloc with
    | none =>
      refine Ensures.bind refs₁.fileclose ?_
      rintro s₂ ⟨refs₂, proc₂⟩
      exact Ensures.ok ⟨refs₂, proc₂.trans proc₁⟩
    | some pair =>
      obtain ⟨f1, s₂⟩ := pair
      obtain ⟨refs₂, type₂, proc₂, old⟩ := refs₁.filealloc second
      obtain ⟨other, same⟩ := old f0 List.mem_cons_self
      have swapped : Refs s₂ s.proc [f0, f1] [] :=
        refs₂.move refs₂.orderly (fun g => (List.Perm.swap f0 f1 []).count_eq g ▸ rfl) (fun _ => rfl)
      have type₀ : (s₂.file f0).type = .none := same.trans type₁
      dsimp only
      cases memory with
      | false =>
        refine Ensures.bind (swapped.closeAll (F := [])) ?_
        rintro s₃ ⟨refs₃, proc₃⟩
        exact Ensures.ok ⟨refs₃, proc₃.trans (proc₂.trans proc₁)⟩
      | true =>
        refine Ensures.ok ⟨?_, proc₂.trans proc₁⟩
        exact swapped.makePipe type₀ type₂ other

theorem sys_pipe (exact_ : s.Exact) (used : s.proc i = some t) (live : t.zombie = false) (memory : Bool) :
    Ensures (s.sys_pipe i t memory) Exact := by
  rw [Sys.sys_pipe]
  refine Ensures.bind (exact_.pipealloc memory) ?_
  rintro ⟨_ | ⟨rf, wf⟩, s₁⟩ ⟨refs, proc⟩
  · exact Ensures.ok (refs.exact_ proc)
  dsimp only at refs proc ⊢
  cases free : fdalloc t with
  | none =>
    refine (refs.closeAll (F := [])).mono ?_
    rintro s₂ ⟨refs₂, proc₂⟩
    exact refs₂.exact_ (proc₂.trans proc)
  | some fd0 =>
    obtain ⟨range, empty⟩ := fdalloc_eq free
    dsimp only
    cases free' : fdalloc (setFd t fd0 (some rf)) with
    | none =>
      -- the descriptor taken first is free again
      have back : setFd (setFd t fd0 (some rf)) fd0 none = t := by
        simp only [setFd, Function.update_idem]
        rw [← empty, Function.update_eq_self]
      rw [back]
      refine ((refs.setProc (some t)).closeAll (F := [])).mono ?_
      rintro s₂ ⟨refs₂, proc₂⟩
      refine refs₂.exact_ (proc₂.trans ?_)
      rw [Sys.setProc, proc]
      dsimp only
      rw [← used, Function.update_eq_self]
    | some fd1 =>
      obtain ⟨range', empty'⟩ := fdalloc_eq free'
      have stored := refs.store used live range empty
      have stored' := stored.store (Function.update_self ..) live range' empty'
      rw [Function.update_idem] at stored'
      refine Ensures.ok ((stored'.setProc _).exact_ ?_)
      rw [Sys.setProc, proc]

theorem sys_chdir (exact_ : s.Exact) (used : s.proc i = some t) (live : t.zombie = false) (dir : t.cwd = some cwd)
    (path : List UInt8) : Ensures (s.sys_chdir i t cwd path) Exact := by
  have cached := Inodes.Held.cached fun e => opens s.file e + cwds s.proc e
  rw [Sys.sys_chdir]
  refine Ensures.bind (cached.namei exact_.inodes (exact_.pins used dir) path) ?_
  rintro ⟨_ | ip, fs⟩ found
  · exact Ensures.ok (exact_.quiet found)
  refine Ensures.bind (cached.ilock found) fun fs₁ locked => ?_
  split
  · exact Ensures.bind (cached.iunlockput locked) fun _ next => Ensures.ok (exact_.quiet next)
  refine Ensures.bind (cached.iunlock locked) fun fs₂ unlocked => ?_
  have inside := exact_.orderly.inside i t used
  have moved : Refs { s with fs := fs₂ } (Function.update s.proc i (some { t with cwd := some ip })) [] [cwd] := by
    refine (Refs.setFs exact_ unlocked).move (exact_.orderly.update inside (fun fd f => exact_.orderly.fds i t fd f used)
      fun gone => ?_) (fun f => ?_) (fun e => ?_)
    · rw [show t.zombie = true from gone] at live
      cases live
    · have row := slots_update s.proc inside (some { t with cwd := some ip }) f
      rw [used] at row
      rw [Nat.add_right_cancel row]
    · have one := cwds_update s.proc inside (some { t with cwd := some ip }) e
      rw [used] at one
      simpa [dir, List.count_cons] using one
  refine Ensures.bind moved.inodes.iput fun fs₃ dropped => ?_
  exact Ensures.ok (((moved.setFs dropped).setProc _).exact_ rfl)

theorem make (exact_ : s.Exact) (used : s.proc i = some t) (dir : t.cwd = some cwd) (path : List UInt8) (type : Itype)
    (major minor : Int) : Ensures (s.make cwd path type major minor) Exact := by
  have cached := Inodes.Held.cached fun e => opens s.file e + cwds s.proc e
  refine Ensures.bind (cached.create exact_.inodes (exact_.pins used dir) path type major minor) ?_
  rintro ⟨_ | ip, fs⟩ made
  · exact Ensures.ok (exact_.quiet made)
  · exact Ensures.bind (cached.iunlockput made) fun _ next => Ensures.ok (exact_.quiet next)

theorem copy (exact_ : s.Exact) (used : s.proc i = some t) (dir : t.cwd = some cwd) {j : Nat}
    (inside : j < NPROC) (free : s.proc j = none) (pgdir : Nat) : Ensures (s.copy j t cwd pgdir) Exact := by
  refine Ensures.bind (Refs.dupAll exact_ (files t)) ?_
  rintro s₁ ⟨refs₁, proc, -⟩
  have pinned : 0 < (s₁.fs.icache cwd).ref := by
    have here : 0 < cwds s.proc cwd := by
      refine refs_pos (Finset.mem_range.mpr (exact_.orderly.inside i t used)) (Finset.mem_singleton_self ()) ?_
      rw [used]
      exact dir
    rw [refs₁.inodes.ref]
    omega
  have dup := refs₁.setFs ((Inodes.Held.cached _).idup refs₁.inodes pinned)
  refine Ensures.ok (((dup.move ?_ (fun f => ?_) (fun e => ?_)).setProc _).exact_ (by rw [Sys.setProc, proc]))
  · exact exact_.orderly.update inside (fun fd f => exact_.orderly.fds i t fd f used) nofun
  · have row := slots_update s.proc inside (some ⟨pgdir, t.ofile, some cwd, false⟩) f
    rw [free] at row
    simpa [files] using row
  · have one := cwds_update s.proc inside (some ⟨pgdir, t.ofile, some cwd, false⟩) e
    rw [free] at one
    simpa [List.count_cons] using one

theorem exec (exact_ : s.Exact) (used : s.proc i = some t) (live : t.zombie = false) (dir : t.cwd = some cwd)
    (path : List UInt8) (good : Bool) : Ensures (s.exec i t cwd path good) Exact := by
  have cached := Inodes.Held.cached fun e => opens s.file e + cwds s.proc e
  rw [Sys.exec]
  split
  · exact Ensures.ok exact_
  refine Ensures.bind (cached.namei exact_.inodes (exact_.pins used dir) path) ?_
  rintro ⟨_ | ip, fs⟩ found
  · exact Ensures.ok (exact_.quiet found)
  refine Ensures.bind (cached.ilock found) fun fs₁ locked => ?_
  refine Ensures.bind (cached.iunlockput locked) fun fs₂ dropped => ?_
  have refs : Refs { s with fs := fs₂ } s.proc [] [] := exact_.quiet dropped
  cases good with
  | false => exact Ensures.ok refs
  | true =>
    have inside := exact_.orderly.inside i t used
    have moved : Refs { s with fs := fs₂ } (Function.update s.proc i (some { t with pgdir := s.npgdirs })) [] [] := by
      refine refs.move (exact_.orderly.update inside (fun fd f => exact_.orderly.fds i t fd f used) fun gone => ?_)
        (fun f => ?_) (fun e => ?_)
      · rw [show t.zombie = true from gone] at live
        cases live
      · have row := slots_update s.proc inside (some { t with pgdir := s.npgdirs }) f
        rw [used] at row
        rw [Nat.add_right_cancel row]
      · have one := cwds_update s.proc inside (some { t with pgdir := s.npgdirs }) e
        rw [used] at one
        rw [Nat.add_right_cancel one]
    exact Ensures.ok (Refs.exact_ { moved with } rfl)

theorem exit (exact_ : s.Exact) (used : s.proc i = some t) (dir : t.cwd = some cwd) :
    Ensures (s.exit i t cwd) Exact := by
  rw [Sys.exit]
  split
  · exact Ensures.error
  have inside := exact_.orderly.inside i t used
  -- what the process held is held by the call
  have moved : Refs s (Function.update s.proc i (some { t with ofile := fun _ => none, cwd := none, zombie := true }))
      (files t ++ []) [cwd] := by
    refine Refs.move exact_ (exact_.orderly.update inside nofun fun _ => ⟨rfl, rfl⟩) (fun f => ?_) (fun e => ?_)
    · have row := slots_update s.proc inside (some { t with ofile := fun _ => none, cwd := none, zombie := true }) f
      rw [used] at row
      simpa [files] using row
    · have one := cwds_update s.proc inside (some { t with ofile := fun _ => none, cwd := none, zombie := true }) e
      rw [used] at one
      simpa [dir, List.count_cons] using one
  refine Ensures.bind moved.closeAll ?_
  rintro s₁ ⟨refs₁, proc⟩
  refine Ensures.bind refs₁.inodes.iput fun fs dropped => ?_
  exact Ensures.ok (((refs₁.setFs dropped).setProc _).exact_ (by rw [Sys.setProc, proc]))

theorem reap (exact_ : s.Exact) {j : Nat} (used : s.proc j = some t) (gone : t.zombie = true) :
    (s.setProc j none).Exact := by
  have inside := exact_.orderly.inside j t used
  obtain ⟨files, dir⟩ := exact_.orderly.gone j t used gone
  have fewer : ∀ k u, Function.update s.proc j none k = some u → s.proc k = some u := by
    intro k u is
    by_cases here : k = j
    · subst here
      rw [Function.update_self] at is
      cases is
    · rwa [Function.update_of_ne here] at is
  have orderly : Orderly (Function.update s.proc j none) := by
    constructor
    · intro k u is
      exact exact_.orderly.inside k u (fewer k u is)
    · intro k u fd f is
      exact exact_.orderly.fds k u fd f (fewer k u is)
    · intro k u is
      exact exact_.orderly.gone k u (fewer k u is)
  refine ((Refs.move exact_ orderly (fun f => ?_) (fun e => ?_)).setProc _).exact_ rfl
  · have row := slots_update s.proc inside none f
    rw [used] at row
    simpa [Sys.files, files] using row
  · have one := cwds_update s.proc inside none e
    rw [used] at one
    simpa [dir] using one

theorem start (first : Start s) : s.Exact := by
  obtain ⟨t, used, -, bare, dir, live⟩ := first.init
  have one : ∀ k u, s.proc k = some u → k = 0 ∧ u = t := by
    intro k u is
    by_cases here : k = 0
    · subst here
      rw [used] at is
      exact ⟨rfl, (Option.some.inj is).symm⟩
    · rw [first.procs k here] at is
      cases is
  have slot : ∀ k fd, ((s.proc k).bind fun t => t.ofile fd) = none := by
    intro k fd
    cases is : s.proc k with
    | none => rfl
    | some u =>
      rw [(one k u is).2]
      exact congrFun bare fd
  have closed : ∀ f, (s.file f).inode = none := by
    intro f
    rw [File.inode, (first.files f).2]
  have opens_ : ∀ e, opens s.file e = 0 := fun e => refs_eq_zero.mpr fun f _ _ _ => by rw [closed f]; nofun
  have table : s.proc = Function.update (fun _ => none) 0 (some t) := by
    funext k
    by_cases here : k = 0
    · rw [here, used, Function.update_self]
    · rw [first.procs k here, Function.update_of_ne here]
  have refs : ∀ e, (s.fs.icache e).ref = cwds s.proc e := by
    intro e
    have empty : cwds (fun _ => none) e = 0 := refs_eq_zero.mpr nofun
    have one := cwds_update (fun _ => none) (show 0 < NPROC by decide) (some t) e
    rw [empty, ← table] at one
    simp only [Option.bind_none, Option.bind_some, dir, reduceCtorEq, if_false, Nat.add_zero, Nat.zero_add] at one
    rw [one]
    by_cases root : e = 0
    · rw [root, first.root, if_pos rfl]
    · rw [(first.icache e root).1, if_neg fun same => root (Option.some.inj same).symm]
  have zero : ∀ e, 0 < (s.fs.icache e).ref → e = 0 := by
    intro e live
    by_contra other
    rw [(first.icache e other).1] at live
    cases live
  refine ⟨⟨fun k u is => ?_, fun k u fd f is has => ?_, fun k u is gone => ?_⟩, fun f => ?_, fun f used => ?_, fun f _ => ?_,
    ⟨fun e => ?_, fun e live => ?_, fun e k live live' _ _ => ?_⟩, ⟨fun f p end_ => ?_, fun f g p end_ => ?_, ?_, ?_⟩⟩
  · rw [(one k u is).1]
    decide
  · rw [(one k u is).2, bare] at has
    cases has
  · rw [(one k u is).2, live] at gone
    cases gone
  · rw [(first.files f).1, List.count_nil, slots, refs_eq_zero.mpr fun k _ fd _ => by rw [slot k fd]; nofun]
  · rw [(first.files f).1] at used
    cases used
  · exact (first.files f).2
  · rw [refs, opens_, List.count_nil]
    omega
  · rw [zero e live]
    decide
  · rw [zero e live, zero k live']
  · rw [(first.files f).2] at end_
    cases end_
  · rw [(first.files f).2] at end_
    cases end_
  · rw [first.pipes]
    nofun
  · rw [first.pipes]
    nofun

end Exact

theorem Exact.next (exact_ : s.Exact) {a : Act} : Ensures (s.step a) Exact := by
  intro s' done
  cases a with
  | openFile i path omode =>
    obtain rfl | ⟨t, cwd, used, live, dir, done⟩ := step_call done
    · exact exact_
    · exact exact_.sys_open used live dir path omode _ done
  | close i fd =>
    obtain rfl | ⟨t, cwd, used, live, dir, done⟩ := step_call done
    · exact exact_
    · exact exact_.sys_close used live fd _ done
  | dup i fd =>
    obtain rfl | ⟨t, cwd, used, live, dir, done⟩ := step_call done
    · exact exact_
    · exact exact_.sys_dup used live fd _ done
  | pipe i memory =>
    obtain rfl | ⟨t, cwd, used, live, dir, done⟩ := step_call done
    · exact exact_
    · exact exact_.sys_pipe used live memory _ done
  | chdir i path =>
    obtain rfl | ⟨t, cwd, used, live, dir, done⟩ := step_call done
    · exact exact_
    · exact exact_.sys_chdir used live dir path _ done
  | link i old new =>
    obtain rfl | ⟨t, cwd, used, live, dir, done⟩ := step_call done
    · exact exact_
    · have call := (Inodes.Held.cached _).sys_link exact_.inodes (exact_.pins used dir) old new
      exact Ensures.bind call (fun _ next => Ensures.ok (exact_.quiet next)) _ done
  | unlink i path =>
    obtain rfl | ⟨t, cwd, used, live, dir, done⟩ := step_call done
    · exact exact_
    · have call := (Inodes.Held.cached _).sys_unlink exact_.inodes (exact_.pins used dir) path
      exact Ensures.bind call (fun _ next => Ensures.ok (exact_.quiet next)) _ done
  | mkdir i path =>
    obtain rfl | ⟨t, cwd, used, live, dir, done⟩ := step_call done
    · exact exact_
    · exact exact_.make used dir path .dir 0 0 _ done
  | mknod i path major minor =>
    obtain rfl | ⟨t, cwd, used, live, dir, done⟩ := step_call done
    · exact exact_
    · exact exact_.make used dir path .dev major minor _ done
  | fork i j =>
    obtain rfl | ⟨t, cwd, used, live, dir, done⟩ := step_call done
    · exact exact_
    split at done
    · cases done
      exact exact_
    · rename_i fine
      push Not at fine
      obtain ⟨-, inside, free⟩ := fine
      have same : ({ s with npgdirs := s.npgdirs + 1 } : Sys).Exact := { exact_ with }
      exact same.copy used dir inside (Option.isNone_iff_eq_none.mp free) s.npgdirs _ done
  | clone i j =>
    obtain rfl | ⟨t, cwd, used, live, dir, done⟩ := step_call done
    · exact exact_
    split at done
    · cases done
      exact exact_
    · rename_i fine
      push Not at fine
      exact exact_.copy used dir fine.1 (Option.isNone_iff_eq_none.mp fine.2) t.pgdir _ done
  | exec i path good =>
    obtain rfl | ⟨t, cwd, used, live, dir, done⟩ := step_call done
    · exact exact_
    · exact exact_.exec used live dir path good _ done
  | exit i =>
    obtain rfl | ⟨t, cwd, used, live, dir, done⟩ := step_call done
    · exact exact_
    · exact exact_.exit used dir _ done
  | reap i j =>
    obtain rfl | ⟨t, cwd, used, live, dir, done⟩ := step_call done
    · exact exact_
    split at done
    · rename_i u used'
      split at done
      · rename_i gone
        cases done
        exact exact_.reap used' gone
      · cases done
        exact exact_
    · cases done
      exact exact_

theorem Reachable.exact_ {cond : Sys → Act → Prop} (reach : s.Reachable cond) : s.Exact :=
  Runs.Reachable.invariant (fun _ first => Exact.start first) (fun _ _ _ exact_ _ done => exact_.next _ done) reach

/-- Between two calls every count is the number of references there are, a pipe is freed
    once, when neither of its ends has a file, and no inode is cached twice. -/
theorem reference_counts (reach : s.Reachable fun _ _ => True) :
    (∀ f, (s.file f).ref = slots s.proc f) ∧
    (∀ e, (s.fs.icache e).ref = opens s.file e + cwds s.proc e) ∧
    (∀ p < s.npipes, (s.pipe p).freed ≤ 1 ∧
      ((s.pipe p).freed = 1 ↔ ∀ f, 0 < (s.file f).ref → (s.file f).type ≠ .pipe p)) ∧
    (∀ e k, 0 < (s.fs.icache e).ref → 0 < (s.fs.icache k).ref → (s.fs.icache e).dev = (s.fs.icache k).dev →
      (s.fs.icache e).inum = (s.fs.icache k).inum → e = k) := by
  have refs : Refs s s.proc [] [] := reach.exact_
  refine ⟨fun f => ?_, fun e => ?_, fun p less => ?_, refs.inodes.distinct⟩
  · rw [refs.ref, List.count_nil, Nat.add_zero]
  · rw [refs.inodes.ref, List.count_nil, Nat.add_zero]
  have none : ((s.pipe p).isOpen false = false ∧ (s.pipe p).isOpen true = false) ↔
      ∀ f, 0 < (s.file f).ref → (s.file f).type ≠ .pipe p := by
    rw [← Bool.not_eq_true, ← Bool.not_eq_true, refs.pipes.ends p less, refs.pipes.ends p less]
    constructor
    · rintro ⟨reader, writer⟩ f - end_
      cases way : (s.file f).writable with
      | false => exact reader ⟨f, end_, way⟩
      | true => exact writer ⟨f, end_, way⟩
    · intro closed
      have absent : ∀ w, ¬ ∃ f, (s.file f).type = .pipe p ∧ (s.file f).writable = w := by
        rintro w ⟨f, end_, -⟩
        rcases Nat.eq_zero_or_pos (s.file f).ref with unused | used
        · rw [refs.bare f unused] at end_
          cases end_
        · exact closed f used end_
      exact ⟨absent false, absent true⟩
  rw [refs.pipes.freed p less, ← none]
  split
  · rename_i both
    exact ⟨Nat.le_refl 1, fun _ => both, fun _ => rfl⟩
  · rename_i open'
    exact ⟨Nat.zero_le 1, nofun, fun both => absurd both open'⟩

end

/-- init makes a pipe and a child, and closes its own read end. -/
theorem reference_counts_pipe : ∃ s : Sys, s.Reachable (fun _ _ => True) ∧ slots s.proc 0 = 1 ∧ slots s.proc 1 = 2 ∧
    opens s.file 0 + cwds s.proc 0 = 2 ∧ opens s.file 1 + cwds s.proc 1 = 0 := by
  have ends : (Runs.run step booted [.pipe 0 true, .fork 0 1, .close 0 0]).toOption.map
      (fun s => [(s.file 0).ref, (s.file 1).ref, (s.fs.icache 0).ref, (s.fs.icache 1).ref]) = some [1, 2, 2, 0] := by
    decide +kernel
  obtain ⟨s, done, seen⟩ := Runs.observed ends
  simp only [List.cons.injEq] at seen
  obtain ⟨reader, writer, root, free, -⟩ := seen
  have reach : s.Reachable fun _ _ => True := (Runs.Reachable.start booted_start).run (fun _ _ _ => trivial) done
  obtain ⟨files, inodes, -⟩ := reference_counts reach
  exact ⟨s, reach, (files 0).symm.trans reader, (files 1).symm.trans writer, (inodes 0).symm.trans root,
    (inodes 1).symm.trans free⟩

end Sys
end Fs
end Xv6
