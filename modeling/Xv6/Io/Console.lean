import Xv6.Lib.Ring
import Xv6.Lib.Runs

/-!
Console input, console.c. Readers share one ring of characters: those between r and w are
committed, those between w and e can still be edited. A reader that has emptied the ring
in the middle of a line sleeps with what it has, and other readers may run meanwhile.
-/
namespace Xv6
open Ring (UINT)

def INPUT_BUF : Nat := 128

namespace Console

/-- Control-x. -/
def C (x : Char) : UInt8 := x.toUInt8 - '@'.toUInt8

def newline : UInt8 := '\n'.toUInt8

def eof : UInt8 := C 'D'

structure Input where
  buf : Nat → UInt8
  r : Nat
  w : Nat
  e : Nat

namespace Input

def dec (i : Nat) : Nat := (i + UINT - 1) % UINT

/-- The loop of kill line; the first argument is the distance from w to e. -/
def killLine : Nat → Input → Input
  | 0, s => s
  | k + 1, s =>
    if s.e ≠ s.w ∧ s.buf (dec s.e % INPUT_BUF) ≠ newline then killLine k { s with e := dec s.e } else s

def key (s : Input) (c : UInt8) : Input :=
  if c = C 'P' then s
  else if c = C 'U' then killLine ((s.e + UINT - s.w) % UINT) s
  else if c = C 'H' ∨ c = 0x7f then if s.e ≠ s.w then { s with e := dec s.e } else s
  else if c ≠ 0 ∧ (s.e + UINT - s.r) % UINT < INPUT_BUF then
    let c := if c = '\r'.toUInt8 then newline else c
    let s := { s with buf := Function.update s.buf (s.e % INPUT_BUF) c, e := (s.e + 1) % UINT }
    if c = newline ∨ c = eof ∨ s.e = (s.r + INPUT_BUF) % UINT then { s with w := s.e } else s
  else s

/-- How consoleread leaves its loop. -/
inductive Stop where
  | returned
  | failed
  | asleep
  deriving DecidableEq, Repr

/-- The loop of consoleread with n bytes to go, and the characters it takes. -/
def readLoop (killed : Bool) (target : Nat) : Nat → Input → Stop × List UInt8 × Input
  | 0, s => (.returned, [], s)
  | n + 1, s =>
    if s.r = s.w then (if killed then .failed else .asleep, [], s)
    else
      let c := s.buf (s.r % INPUT_BUF)
      let s := { s with r := (s.r + 1) % UINT }
      if c = eof then
        -- a ^D after other characters is put back for the next read
        if n + 1 < target then (.returned, [], { s with r := dec s.r }) else (.returned, [c], s)
      else if c = newline then (.returned, [c], s)
      else
        let (stop, taken, s) := readLoop killed target n s
        (stop, c :: taken, s)

def slice (s : Input) (a b : Nat) : List UInt8 :=
  (List.range ((b + UINT - a) % UINT)).map fun k => s.buf ((a + k) % UINT % INPUT_BUF)

/-- The characters that have been stored and neither read nor erased. -/
def unread (s : Input) : List UInt8 := s.slice s.r s.e

def ready (s : Input) : Nat := (s.w + UINT - s.r) % UINT

end Input

structure Read where
  id : Nat
  target : Nat
  got : List UInt8
  deriving DecidableEq, Repr

structure Readers where
  input : Input
  call : Nat → Option Read
  asleep : Nat → Bool
  killed : Nat → Bool
  /-- the number of calls so far -/
  calls : Nat
  /-- the characters w has passed -/
  committed : List UInt8
  /-- the characters r has passed, each with the call that took it -/
  taken : List (Nat × UInt8)
  /-- the calls that have returned, with their bytes -/
  results : List (Nat × List UInt8)

namespace Readers
open Input

inductive Act where
  | intr (cs : List UInt8)
  | read (i n : Nat)
  | resume (i : Nat)
  | kill (i : Nat)
  deriving Repr

def key (s : Readers) (c : UInt8) : Readers :=
  let input := s.input.key c
  { s with
    input := input
    committed := s.committed ++ input.slice s.input.w input.w
    asleep := if input.w = s.input.w then s.asleep else fun _ => false }

def consoleintr (s : Readers) (cs : List UInt8) : Readers := cs.foldl key s

/-- consoleread from the acquire or the end of a sleep on. -/
def consoleread (s : Readers) (i : Nat) (c : Read) : Readers :=
  match readLoop (s.killed i) c.target (c.target - c.got.length) s.input with
  | (stop, taken, input) =>
    let got := c.got ++ taken.filter (· ≠ eof)
    let s := { s with input := input, taken := s.taken ++ taken.map (c.id, ·) }
    match stop with
    | .returned =>
      { s with call := Function.update s.call i none, results := s.results ++ [(c.id, got)] }
    | .failed => { s with call := Function.update s.call i none }
    | .asleep =>
      { s with
        call := Function.update s.call i (some { c with got := got })
        asleep := Function.update s.asleep i true }

def act (s : Readers) : Act → Readers
  | .intr cs => s.consoleintr cs
  | .read i n =>
    match s.call i with
    | none => { s with calls := s.calls + 1 }.consoleread i ⟨s.calls, n, []⟩
    | some _ => s
  | .resume i =>
    match s.call i with
    | some c => if s.asleep i then s else s.consoleread i c
    | none => s
  | .kill i => { s with killed := Function.update s.killed i true, asleep := Function.update s.asleep i false }

structure Start (s : Readers) : Prop where
  indices : s.input.r = 0 ∧ s.input.w = 0 ∧ s.input.e = 0
  idle : ∀ i, s.call i = none
  alive : ∀ i, s.killed i = false
  new : s.calls = 0 ∧ s.committed = [] ∧ s.taken = [] ∧ s.results = []

/-- Reads ask for at least one byte, and no reader is killed. -/
def Fair (_ : Readers) : Act → Prop
  | .read _ n => 0 < n
  | .kill _ => False
  | _ => True

def Reachable (s : Readers) : Prop :=
  Runs.Reachable Start (fun s a => (Except.ok (s.act a) : Except Empty Readers)) Fair s

def takenBy (id : Nat) (taken : List (Nat × UInt8)) : List UInt8 := (taken.filter (·.1 = id)).map (·.2)

end Readers

def LineEnd (c : UInt8) : Prop := c = newline ∨ c = eof

namespace Input
variable {s : Input} {q : List UInt8} {k : Nat}

structure Held (s : Input) (q : List UInt8) (k : Nat) : Prop where
  holds : Ring.Holds INPUT_BUF UINT s.buf s.r q
  low : s.r < UINT
  room : q.length ≤ INPUT_BUF
  edit : s.e = (s.r + q.length) % UINT
  mark : k ≤ q.length
  write : s.w = (s.r + k) % UINT

theorem small {n : Nat} (room : n ≤ INPUT_BUF) : n < UINT := Nat.lt_of_le_of_lt room (by decide)

theorem slice_eq {a m n : Nat} (holds : Ring.Holds INPUT_BUF UINT s.buf s.r q)
    (from_ : a = (s.r + m) % UINT) (order : m ≤ n) (within : n ≤ q.length) (room : q.length ≤ INPUT_BUF) :
    s.slice a ((s.r + n) % UINT) = (q.take n).drop m := by
  have fits : ∀ {j}, j ≤ q.length → j < UINT := fun le => small (le.trans room)
  have start : a < UINT := by
    rw [from_]
    exact Nat.mod_lt _ (by decide)
  have stop : (s.r + n) % UINT = (a + (n - m)) % UINT := by
    rw [from_, Nat.mod_add_mod]
    congr 1
    omega
  rw [slice, stop, Ring.distance start (fits (by omega))]
  apply List.ext_getElem?
  intro j
  by_cases inside : j < n - m
  · obtain ⟨x, item⟩ : ∃ x, q[m + j]? = some x := ⟨q[m + j], List.getElem?_eq_getElem (by omega)⟩
    have cell := holds (m + j) x item
    rw [List.getElem?_map, List.getElem?_range inside, List.getElem?_drop, List.getElem?_take_of_lt (by omega), item,
      Option.map_some, from_, Nat.mod_add_mod, Nat.add_assoc, cell]
  · rw [List.getElem?_eq_none (by simp only [List.length_map, List.length_range]; omega),
      List.getElem?_eq_none (by simp only [List.length_drop, List.length_take]; omega)]

namespace Held

theorem unread (held : Held s q k) : s.unread = q := by
  have whole := slice_eq held.holds (a := s.r) (m := 0) (by rw [Nat.add_zero, Nat.mod_eq_of_lt held.low])
    (Nat.zero_le _) (Nat.le_refl _) held.room
  rw [Input.unread, held.edit, whole, List.take_length, List.drop_zero]

theorem ready (held : Held s q k) : s.ready = k := by
  rw [Input.ready, held.write, Ring.distance held.low (small (held.mark.trans held.room))]

theorem length (held : Held s q k) : (s.e + UINT - s.r) % UINT = q.length := by
  rw [held.edit, Ring.distance held.low (small held.room)]

theorem dec_e (held : Held s q k) (more : 0 < q.length) : dec s.e = (s.r + (q.length - 1)) % UINT := by
  rw [dec, held.edit]
  have low := held.low
  have room := held.room
  simp only [UINT, INPUT_BUF] at *
  omega

theorem erase (held : Held s q k) (more : k < q.length) : Held { s with e := dec s.e } (q.take (q.length - 1)) k := by
  refine ⟨held.holds.take _, held.low, ?_, ?_, ?_, held.write⟩
  · rw [List.length_take]
    exact (Nat.min_le_right _ _).trans held.room
  · rw [List.length_take, Nat.min_eq_left (by omega)]
    exact held.dec_e (by omega)
  · rw [List.length_take]
    omega

theorem edited (held : Held s q k) : s.e ≠ s.w ↔ k < q.length := by
  rw [held.edit, held.write]
  have fits := small held.room
  have mark := held.mark
  constructor
  · intro ne
    refine Nat.lt_of_le_of_ne mark fun same => ne ?_
    rw [same]
  · intro less same
    have := Ring.index_inj held.low fits (small (held.mark.trans held.room)) same
    omega

theorem killLine (n : Nat) (held : Held s q k) : ∃ j, k ≤ j ∧ Held (killLine n s) (q.take j) k ∧
    (Input.killLine n s).r = s.r ∧ (Input.killLine n s).w = s.w := by
  induction n generalizing s q with
  | zero => exact ⟨q.length, held.mark, by rw [List.take_length]; exact held, rfl, rfl⟩
  | succ n ih =>
    rw [Input.killLine]
    split
    · rename_i go
      have more := held.edited.mp go.1
      obtain ⟨j, keep, held', r, w⟩ := ih (held.erase more)
      refine ⟨min j (q.length - 1), ?_, ?_, r, w⟩
      · omega
      · rwa [List.take_take] at held'
    · exact ⟨q.length, held.mark, by rw [List.take_length]; exact held, rfl, rfl⟩

theorem put (held : Held s q k) (room : q.length < INPUT_BUF) (c : UInt8) :
    Held { s with buf := Function.update s.buf (s.e % INPUT_BUF) c, e := (s.e + 1) % UINT } (q ++ [c]) k := by
  refine ⟨?_, held.low, ?_, ?_, ?_, held.write⟩
  · simp only [held.edit]
    exact held.holds.push (by decide) room c
  · rw [List.length_append, List.length_singleton]
    exact room
  · simp only [held.edit, Nat.mod_add_mod, List.length_append, List.length_singleton, Nat.add_assoc]
  · rw [List.length_append]
    exact held.mark.trans (Nat.le_add_right _ _)

theorem commit (held : Held s q k) : Held { s with w := s.e } q q.length :=
  ⟨held.holds, held.low, held.room, held.edit, Nat.le_refl _, held.edit⟩

theorem key (held : Held s q k) (c : UInt8) : ∃ q' k', Held (s.key c) q' k' ∧ (s.key c).r = s.r ∧ k ≤ k' ∧
    q'.take k = q.take k ∧
    ((∃ j, k ≤ j ∧ q' = q.take j) ∧ k' = k ∨ ∃ c', q' = q ++ [c']) := by
  have still : ∃ q' k', Held s q' k' ∧ s.r = s.r ∧ k ≤ k' ∧ q'.take k = q.take k ∧
      ((∃ j, k ≤ j ∧ q' = q.take j) ∧ k' = k ∨ ∃ c', q' = q ++ [c']) :=
    ⟨q, k, held, rfl, Nat.le_refl _, rfl, Or.inl ⟨⟨q.length, held.mark, List.take_length.symm⟩, rfl⟩⟩
  have shorter : ∀ {j}, k ≤ j → (q.take j).take k = q.take k := by
    intro j le
    rw [List.take_take, Nat.min_eq_left le]
  unfold Input.key
  split
  · exact still
  split
  · obtain ⟨j, keep, held', r, -⟩ := held.killLine ((s.e + UINT - s.w) % UINT)
    exact ⟨q.take j, k, held', r, Nat.le_refl _, shorter keep, Or.inl ⟨⟨j, keep, rfl⟩, rfl⟩⟩
  split
  · split
    · rename_i more
      have more := held.edited.mp more
      exact ⟨_, k, held.erase more, rfl, Nat.le_refl _, shorter (by omega), Or.inl ⟨⟨_, by omega, rfl⟩, rfl⟩⟩
    · exact still
  split
  · rename_i able
    rw [held.length] at able
    have longer : ∀ c', (q ++ [c']).take k = q.take k := fun c' => List.take_append_of_le_length held.mark
    simp only
    generalize (if c = '\r'.toUInt8 then newline else c) = c'
    split
    · exact ⟨_, _, (held.put able.2 _).commit, rfl, by rw [List.length_append]; exact held.mark.trans (Nat.le_add_right _ _),
        longer _, Or.inr ⟨_, rfl⟩⟩
    · exact ⟨_, k, held.put able.2 _, rfl, Nat.le_refl _, longer _, Or.inr ⟨_, rfl⟩⟩
  · exact still

theorem take {c : UInt8} (held : Held s (c :: q) (k + 1)) : s.buf (s.r % INPUT_BUF) = c ∧
    Held { s with r := (s.r + 1) % UINT } q k := by
  have room := held.room
  have mark := held.mark
  rw [List.length_cons] at room mark
  refine ⟨?_, held.holds.tail, Nat.mod_lt _ (by decide), Nat.le_of_succ_le room, ?_, Nat.le_of_succ_le_succ mark, ?_⟩
  · have head := held.holds.head
    rwa [Nat.mod_eq_of_lt held.low] at head
  · simp only [held.edit, List.length_cons, Nat.mod_add_mod]
    congr 1
    omega
  · simp only [held.write, Nat.mod_add_mod]
    congr 1
    omega

theorem empty_iff (held : Held s q k) : s.r = s.w ↔ k = 0 := by
  rw [held.write]
  have low := held.low
  constructor
  · intro same
    refine Ring.index_inj low (small (held.mark.trans held.room)) (by decide) ?_
    rw [← same, Nat.add_zero, Nat.mod_eq_of_lt low]
  · rintro rfl
    rw [Nat.add_zero, Nat.mod_eq_of_lt low]

end Held

theorem dec_succ {i : Nat} (low : i < UINT) : dec ((i + 1) % UINT) = i := by
  simp only [dec, UINT] at *
  omega

/-- What the loop of consoleread takes: whole characters up to the first line end, or a
    single ^D if the read has nothing else. -/
theorem readLoop_spec (target n : Nat) (held : Held s q k) (positive : 0 < target) (left : n ≤ target) :
    ∃ stop taken s' q' k', s.readLoop false target n = (stop, taken, s') ∧ q = taken ++ q' ∧
      k = taken.length + k' ∧ Held s' q' k' ∧ s'.w = s.w ∧
      (stop = .asleep ∧ (∀ c ∈ taken, ¬ LineEnd c) ∧ taken.length < n ∨
        stop = .returned ∧ (∀ c ∈ taken, ¬ LineEnd c) ∧ (n < target ∨ taken ≠ []) ∨
        stop = .returned ∧ (∃ before, taken = before ++ [newline] ∧ ∀ c ∈ before, ¬ LineEnd c) ∨
        stop = .returned ∧ taken = [eof] ∧ n = target) := by
  induction n generalizing s q k with
  | zero =>
    exact ⟨.returned, [], s, q, k, rfl, rfl, (Nat.zero_add k).symm, held, rfl,
      Or.inr (Or.inl ⟨rfl, by simp, Or.inl positive⟩)⟩
  | succ n ih =>
    rw [readLoop]
    cases k with
    | zero =>
      rw [if_pos (held.empty_iff.mpr rfl)]
      exact ⟨.asleep, [], s, q, 0, rfl, rfl, rfl, held, rfl, Or.inl ⟨rfl, by simp, Nat.succ_pos n⟩⟩
    | succ k =>
      rw [if_neg fun same => Nat.succ_ne_zero k (held.empty_iff.mp same)]
      cases q with
      | nil => exact absurd held.mark (by simp)
      | cons c q =>
        obtain ⟨value, held'⟩ := held.take
        simp only [value]
        by_cases end_ : c = eof
        · rw [if_pos end_]
          by_cases some : n + 1 < target
          · rw [if_pos some]
            have back : ({ s with r := dec ((s.r + 1) % UINT) } : Input) = s := by
              rw [dec_succ held.low]
            exact ⟨.returned, [], s, c :: q, k + 1, by rw [back], rfl, (Nat.zero_add _).symm, held, rfl,
              Or.inr (Or.inl ⟨rfl, by simp, Or.inl some⟩)⟩
          · rw [if_neg some]
            exact ⟨.returned, [c], _, q, k, rfl, rfl, Nat.add_comm k 1, held', rfl,
              Or.inr (Or.inr (Or.inr ⟨rfl, by rw [end_], by omega⟩))⟩
        · rw [if_neg end_]
          by_cases line : c = newline
          · rw [if_pos line]
            exact ⟨.returned, [c], _, q, k, rfl, rfl, Nat.add_comm k 1, held', rfl,
              Or.inr (Or.inr (Or.inl ⟨rfl, [], by rw [line]; rfl, by simp⟩))⟩
          · rw [if_neg line]
            have plain : ¬ LineEnd c := fun e => e.elim line end_
            obtain ⟨stop, taken, s', q', k', run, items, count, held'', w, how⟩ := ih held' (by omega)
            rw [run]
            refine ⟨stop, c :: taken, s', q', k', rfl, by rw [items]; rfl, by rw [count, List.length_cons]; omega,
              held'', w, ?_⟩
            have clean : (∀ x ∈ taken, ¬ LineEnd x) → ∀ x ∈ c :: taken, ¬ LineEnd x := by
              intro rest x member
              rcases List.mem_cons.mp member with rfl | member
              · exact plain
              · exact rest x member
            rcases how with ⟨rfl, rest, less⟩ | ⟨rfl, rest, -⟩ | ⟨rfl, before, rfl, rest⟩ | ⟨rfl, rfl, same⟩
            · exact Or.inl ⟨rfl, clean rest, by rw [List.length_cons]; omega⟩
            · exact Or.inr (Or.inl ⟨rfl, clean rest, Or.inr (List.cons_ne_nil _ _)⟩)
            · refine Or.inr (Or.inr (Or.inl ⟨rfl, c :: before, rfl, fun x member => ?_⟩))
              rcases List.mem_cons.mp member with rfl | member
              · exact plain
              · exact rest x member
            · omega

end Input
namespace Readers
open Input

structure Inv (s : Readers) : Prop where
  ring : ∃ q k, Held s.input q k ∧ s.committed = s.taken.map (·.2) ++ q.take k
  alive : ∀ i, s.killed i = false
  active : ∀ i c, s.call i = some c → c.id < s.calls ∧ c.got.length < c.target ∧ c.got = takenBy c.id s.taken ∧
    ∀ x ∈ c.got, ¬ LineEnd x
  apart : ∀ i j c c', s.call i = some c → s.call j = some c' → c.id = c'.id → i = j
  done : ∀ id bs, (id, bs) ∈ s.results → id < s.calls ∧ bs = (takenBy id s.taken).filter (· ≠ eof) ∧
    ∀ i c, s.call i = some c → c.id ≠ id
  fresh : ∀ id, s.calls ≤ id → takenBy id s.taken = []
  lines : ∀ id before x after, takenBy id s.taken = before ++ x :: after → LineEnd x → after = []
  marks : (s.results.filter (·.2 = [])).map (·.1) = (s.taken.filter (·.2 = eof)).map (·.1)
  once : (s.results.map (·.1)).Nodup

theorem takenBy_append (id : Nat) (xs ys : List (Nat × UInt8)) :
    takenBy id (xs ++ ys) = takenBy id xs ++ takenBy id ys := by
  simp [takenBy]

theorem takenBy_map (id id' : Nat) (cs : List UInt8) :
    takenBy id (cs.map (id', ·)) = if id' = id then cs else [] := by
  induction cs with
  | nil => simp [takenBy]
  | cons c cs ih =>
    by_cases same : id' = id
    · simp only [takenBy, if_pos same] at ih ⊢
      simpa [same] using ih
    · simp only [takenBy, if_neg same] at ih ⊢
      simp [same] at ih ⊢

theorem line_last {clean last before after : List UInt8} {x : UInt8} (plain : ∀ c ∈ clean, ¬ LineEnd c)
    (short : last = [] ∨ ∃ y, last = [y]) (split : clean ++ last = before ++ x :: after) (line : LineEnd x) :
    after = [] := by
  rcases List.eq_nil_or_concat after with none | ⟨after', z, rfl⟩
  · exact none
  · exfalso
    rcases short with rfl | ⟨y, rfl⟩
    · rw [List.append_nil] at split
      exact plain x (split ▸ by simp) line
    · have same : clean ++ [y] = (before ++ x :: after') ++ [z] := by simpa using split
      exact plain x ((List.append_inj_left' same rfl) ▸ by simp) line

theorem clean_filter {cs : List UInt8} (plain : ∀ c ∈ cs, ¬ LineEnd c) : cs.filter (· ≠ eof) = cs := by
  refine List.filter_eq_self.mpr fun c member => ?_
  simpa using fun same => plain c member (Or.inr same)

namespace Inv
variable {s : Readers}

theorem key (inv : Inv s) (c : UInt8) : Inv (s.key c) := by
  obtain ⟨q, k, held, log⟩ := inv.ring
  obtain ⟨q', k', held', r, more, same, -⟩ := held.key c
  refine ⟨⟨q', k', held', ?_⟩, inv.alive, inv.active, inv.apart, inv.done, inv.fresh, inv.lines, inv.marks, inv.once⟩
  have new := slice_eq held'.holds (a := s.input.w) (by rw [r]; exact held.write) more held'.mark held'.room
  rw [← held'.write] at new
  simp only [Readers.key, new, log, List.append_assoc, ← same]
  have whole := List.take_append_drop k (q'.take k')
  rw [List.take_take, Nat.min_eq_left more] at whole
  rw [whole]

theorem consoleintr (inv : Inv s) (cs : List UInt8) : Inv (s.consoleintr cs) := by
  induction cs generalizing s with
  | nil => exact inv
  | cons c cs ih => exact ih (inv.key c)

theorem consoleread (inv : Inv s) {i : Nat} {c : Read} (known : c.id < s.calls)
    (room : c.got.length < c.target) (mine : c.got = takenBy c.id s.taken) (plain : ∀ x ∈ c.got, ¬ LineEnd x)
    (only : ∀ j c', s.call j = some c' → c'.id = c.id → j = i) (open_ : ∀ bs, (c.id, bs) ∉ s.results) :
    Inv (s.consoleread i c) := by
  obtain ⟨q, k, held, log⟩ := inv.ring
  obtain ⟨stop, taken, input, q', k', run, items, count, held', -, how⟩ :=
    readLoop_spec c.target (c.target - c.got.length) held (by omega) (Nat.sub_le _ _)
  have by_id : ∀ id, takenBy id (s.taken ++ taken.map (c.id, ·)) =
      takenBy id s.taken ++ if c.id = id then taken else [] := by
    intro id
    rw [takenBy_append, takenBy_map]
  have here : takenBy c.id (s.taken ++ taken.map (c.id, ·)) = c.got ++ taken := by
    rw [by_id, if_pos rfl, ← mine]
  have away : ∀ id, id ≠ c.id → takenBy id (s.taken ++ taken.map (c.id, ·)) = takenBy id s.taken := by
    intro id ne
    rw [by_id, if_neg ne.symm, List.append_nil]
  have ring : ∃ q k, Held input q k ∧ s.committed = (s.taken ++ taken.map (c.id, ·)).map (·.2) ++ q.take k := by
    refine ⟨q', k', held', ?_⟩
    rw [log, items, count, List.take_length_add_append, List.map_append, List.append_assoc, List.map_map]
    simp [Function.comp_def]
  have fresh : ∀ id, s.calls ≤ id → takenBy id (s.taken ++ taken.map (c.id, ·)) = [] := by
    intro id new
    rw [away id (by omega)]
    exact inv.fresh id new
  -- what the call has taken is plain, except perhaps for the last character
  have lines : (∃ clean last, c.got ++ taken = clean ++ last ∧ (∀ x ∈ clean, ¬ LineEnd x) ∧
      (last = [] ∨ ∃ y, last = [y])) → ∀ id before x after,
      takenBy id (s.taken ++ taken.map (c.id, ·)) = before ++ x :: after → LineEnd x → after = [] := by
    rintro ⟨clean, last, shape, clear, short⟩ id before x after split line
    by_cases same : id = c.id
    · subst same
      rw [here, shape] at split
      exact line_last clear short split line
    · rw [away id same] at split
      exact inv.lines id before x after split line
  have both : ∀ {ys}, (∀ x ∈ ys, ¬ LineEnd x) → ∀ x ∈ c.got ++ ys, ¬ LineEnd x := by
    intro ys clear x member
    rcases List.mem_append.mp member with old | new
    · exact plain x old
    · exact clear x new
  have others : ∀ j c', Function.update s.call i none j = some c' → s.call j = some c' ∧ j ≠ i := by
    intro j c' at_
    rw [Function.update_apply] at at_
    split at at_
    · cases at_
    · rename_i ne
      exact ⟨at_, ne⟩
  have doneOld : ∀ id bs, (id, bs) ∈ s.results → id ≠ c.id ∧ id < s.calls ∧
      bs = (takenBy id (s.taken ++ taken.map (c.id, ·))).filter (· ≠ eof) := by
    intro id bs member
    have ne : id ≠ c.id := by
      rintro rfl
      exact open_ bs member
    obtain ⟨less, value, -⟩ := inv.done id bs member
    exact ⟨ne, less, by rw [away id ne]; exact value⟩
  -- the call returns bs
  have finish : ∀ bs : List UInt8, bs = c.got ++ taken.filter (· ≠ eof) →
      (∃ clean last, c.got ++ taken = clean ++ last ∧ (∀ x ∈ clean, ¬ LineEnd x) ∧ (last = [] ∨ ∃ y, last = [y])) →
      (bs = [] ∧ taken = [eof] ∨ bs ≠ [] ∧ eof ∉ taken) →
      Inv { s with
        input := input
        taken := s.taken ++ taken.map (c.id, ·)
        call := Function.update s.call i none
        results := s.results ++ [(c.id, bs)] } := by
    intro bs value shape kind
    refine ⟨ring, inv.alive, fun j c' at_ => ?_, fun j l c' c'' at1 at2 => ?_, fun id bs' member => ?_, fresh, lines shape,
      ?_, ?_⟩
    · obtain ⟨was, ne⟩ := others j c' at_
      obtain ⟨less, fits, got, clear⟩ := inv.active j c' was
      exact ⟨less, fits, by rw [away c'.id fun same => ne (only j c' was same)]; exact got, clear⟩
    · exact inv.apart j l c' c'' (others j c' at1).1 (others l c'' at2).1
    · rcases List.mem_append.mp member with old | new
      · obtain ⟨ne, less, bytes⟩ := doneOld id bs' old
        refine ⟨less, bytes, fun j c' at_ same => ?_⟩
        exact (inv.done id bs' old).2.2 j c' (others j c' at_).1 same
      · cases List.mem_singleton.mp new
        refine ⟨known, ?_, fun j c' at_ same => ?_⟩
        · rw [here, value, List.filter_append, clean_filter plain]
        · obtain ⟨was, ne⟩ := others j c' at_
          exact ne (only j c' was same)
    · rw [List.filter_append, List.map_append, inv.marks, List.filter_append, List.map_append]
      congr 1
      rcases kind with ⟨none, rfl⟩ | ⟨some, clear⟩
      · simp [none]
      · have nothing : (taken.map (c.id, ·)).filter (·.2 = eof) = [] := by
          refine List.filter_eq_nil_iff.mpr fun x member => ?_
          obtain ⟨y, item, rfl⟩ := List.mem_map.mp member
          have ne : y ≠ eof := fun same => clear (same ▸ item)
          simpa using ne
        simp [some, nothing]
    · rw [List.map_append]
      refine List.nodup_append.mpr ⟨inv.once, by simp, ?_⟩
      rintro id old _ new rfl
      obtain ⟨⟨_, bs'⟩, member, rfl⟩ := List.mem_map.mp old
      cases List.mem_singleton.mp new
      exact open_ bs' member
  unfold Readers.consoleread
  rw [inv.alive, run]
  rcases how with ⟨rfl, clear, less⟩ | ⟨rfl, clear, some⟩ | ⟨rfl, before, rfl, clear⟩ | ⟨rfl, rfl, whole⟩
  · -- it sleeps with what it has
    simp only
    rw [clean_filter clear]
    have now : ∀ j c', Function.update s.call i (some { c with got := c.got ++ taken }) j = some c' →
        j = i ∧ c' = { c with got := c.got ++ taken } ∨ j ≠ i ∧ s.call j = some c' := by
      intro j c' at_
      rw [Function.update_apply] at at_
      split at at_
      · rename_i same
        exact Or.inl ⟨same, (Option.some.inj at_).symm⟩
      · rename_i ne
        exact Or.inr ⟨ne, at_⟩
    refine ⟨ring, inv.alive, fun j c' at_ => ?_, fun j l c' c'' at1 at2 same => ?_, fun id bs member => ?_, fresh,
      lines ⟨_, [], (List.append_nil _).symm, both clear, Or.inl rfl⟩, ?_, inv.once⟩
    · rcases now j c' at_ with ⟨rfl, rfl⟩ | ⟨ne, was⟩
      · refine ⟨known, ?_, here.symm, both clear⟩
        change (c.got ++ taken).length < c.target
        rw [List.length_append]
        omega
      · obtain ⟨less, fits, got, clear'⟩ := inv.active j c' was
        exact ⟨less, fits, by rw [away c'.id fun same => ne (only j c' was same)]; exact got, clear'⟩
    · rcases now j c' at1 with ⟨rfl, rfl⟩ | ⟨ne1, was1⟩ <;> rcases now l c'' at2 with ⟨rfl, rfl⟩ | ⟨ne2, was2⟩
      · rfl
      · exact (ne2 (only l c'' was2 same.symm)).elim
      · exact (ne1 (only j c' was1 same)).elim
      · exact inv.apart j l c' c'' was1 was2 same
    · obtain ⟨ne, less, bytes⟩ := doneOld id bs member
      refine ⟨less, bytes, fun j c' at_ same => ?_⟩
      rcases now j c' at_ with ⟨rfl, rfl⟩ | ⟨-, was⟩
      · exact ne same.symm
      · exact (inv.done id bs member).2.2 j c' was same
    · have nothing : (taken.map (c.id, ·)).filter (·.2 = eof) = [] := by
        refine List.filter_eq_nil_iff.mpr fun x member => ?_
        obtain ⟨y, item, rfl⟩ := List.mem_map.mp member
        have ne : y ≠ eof := fun same => clear y item (Or.inr same)
        simpa using ne
      rw [inv.marks, List.filter_append, nothing, List.append_nil]
  · refine finish _ rfl ⟨_, [], (List.append_nil _).symm, both clear, Or.inl rfl⟩ (Or.inr ⟨?_, fun member => ?_⟩)
    · rw [clean_filter clear]
      rcases some with fewer | some
      · refine fun none => ?_
        have : c.got.length = 0 := by rw [(List.append_eq_nil_iff.mp none).1, List.length_nil]
        omega
      · exact fun none => some (List.append_eq_nil_iff.mp none).2
    · exact clear eof member (Or.inr rfl)
  · have apart : newline ≠ eof := by decide
    refine finish _ rfl ⟨c.got ++ before, [newline], (List.append_assoc _ _ _).symm, both clear,
      Or.inr ⟨_, rfl⟩⟩ (Or.inr ⟨?_, fun member => ?_⟩)
    · simp [apart]
    · rcases List.mem_append.mp member with old | new
      · exact clear eof old (Or.inr rfl)
      · exact apart (List.mem_singleton.mp new).symm
  · have nothing : c.got = [] := List.eq_nil_of_length_eq_zero (by omega)
    refine finish _ rfl ⟨c.got, [eof], rfl, plain, Or.inr ⟨_, rfl⟩⟩ (Or.inl ⟨?_, rfl⟩)
    simp [nothing]

theorem act (inv : Inv s) {a : Act} (fair : s.Fair a) : Inv (s.act a) := by
  cases a with
  | intr cs => exact inv.consoleintr cs
  | read i n =>
    simp only [Readers.act]
    cases at_ : s.call i with
    | some c => exact inv
    | none =>
      -- the new call's number has not been used before
      have inv' : Inv { s with calls := s.calls + 1 } := by
        refine ⟨inv.ring, inv.alive, fun j c at' => ?_, inv.apart, fun id bs member => ?_, fun id new => ?_, inv.lines,
          inv.marks, inv.once⟩
        · obtain ⟨less, rest⟩ := inv.active j c at'
          exact ⟨Nat.lt_succ_of_lt less, rest⟩
        · obtain ⟨less, rest⟩ := inv.done id bs member
          exact ⟨Nat.lt_succ_of_lt less, rest⟩
        · exact inv.fresh id (Nat.le_of_succ_le new)
      refine inv'.consoleread (Nat.lt_succ_self _) fair (inv.fresh _ (Nat.le_refl _)).symm (by simp)
        (fun j c' at' same => ?_) fun bs member => ?_
      · exact absurd (inv.active j c' at').1 (by rw [show c'.id = s.calls from same]; exact Nat.lt_irrefl _)
      · exact absurd (inv.done _ bs member).1 (Nat.lt_irrefl _)
  | resume i =>
    simp only [Readers.act]
    cases at_ : s.call i with
    | none => exact inv
    | some c =>
      simp only
      split
      · exact inv
      · obtain ⟨less, fits, got, clear⟩ := inv.active i c at_
        exact inv.consoleread less fits got clear (fun j c' at' same => inv.apart j i c' c at' at_ same)
          fun bs member => (inv.done _ bs member).2.2 i c at_ rfl
  | kill i => exact fair.elim

end Inv

theorem Start.inv {s : Readers} (start : Start s) : Inv s := by
  obtain ⟨⟨r, w, e⟩, idle, alive, calls, committed, taken, results⟩ := start
  refine ⟨⟨[], 0, ⟨Ring.Holds.nil, ?_, Nat.zero_le _, ?_, Nat.le_refl _, ?_⟩, ?_⟩, alive, fun i c at_ => ?_,
    fun i j c c' at_ => ?_, fun id bs member => ?_, fun id _ => ?_, fun id before x after split => ?_, ?_, ?_⟩
  · rw [r]
    decide
  · rw [r, e]
    rfl
  · rw [r, w]
    rfl
  · rw [committed, taken]
    rfl
  · rw [idle] at at_
    cases at_
  · rw [idle] at at_
    cases at_
  · rw [results] at member
    cases member
  · rw [taken]
    rfl
  · rw [taken] at split
    simp [takenBy] at split
  · rw [results, taken]
    rfl
  · rw [results]
    exact List.nodup_nil

theorem Reachable.inv {s : Readers} (reach : Reachable s) : Inv s := by
  refine Runs.Reachable.invariant (fun _ start => start.inv) ?_ reach
  intro s a s' inv fair done
  cases done
  exact inv.act fair

end Readers

open Readers in
/-- The console ring: the indices keep their order, a key erases only what is not committed
    and overwrites nothing; the readers get the committed characters in order, a read ends
    with the first newline or ^D it takes, and the reads that return 0 are those that took
    the ^D marks, one for each. -/
theorem input_ring (s : Readers) (reach : s.Reachable) :
    (s.input.ready ≤ (s.input.e + UINT - s.input.r) % UINT ∧ (s.input.e + UINT - s.input.r) % UINT ≤ INPUT_BUF) ∧
    (∀ c, (∃ j, s.input.ready ≤ j ∧ (s.input.key c).unread = s.input.unread.take j) ∨
      ∃ c', (s.input.key c).unread = s.input.unread ++ [c']) ∧
    (s.taken.map (·.2)).filter (· ≠ eof) <+: s.committed.filter (· ≠ eof) ∧
    (∀ id bs, (id, bs) ∈ s.results → bs = (takenBy id s.taken).filter (· ≠ eof)) ∧
    (∀ id before x after, takenBy id s.taken = before ++ x :: after → LineEnd x → after = []) ∧
    (s.results.filter (·.2 = [])).map (·.1) = (s.taken.filter (·.2 = eof)).map (·.1) ∧
    (s.results.map (·.1)).Nodup := by
  have inv := reach.inv
  obtain ⟨q, k, held, log⟩ := inv.ring
  refine ⟨?_, fun c => ?_, ?_, fun id bs member => (inv.done id bs member).2.1, inv.lines, inv.marks, inv.once⟩
  · rw [held.ready, held.length]
    exact ⟨held.mark, held.room⟩
  · obtain ⟨q', k', held', -, -, -, ⟨⟨j, keep, rfl⟩, -⟩ | ⟨c', rfl⟩⟩ := held.key c
    · exact Or.inl ⟨j, by rw [held.ready]; exact keep, by rw [held'.unread, held.unread]⟩
    · exact Or.inr ⟨c', by rw [held'.unread, held.unread]⟩
  · rw [log, List.filter_append]
    exact List.prefix_append _ _

namespace Readers

def quiet : Readers := ⟨⟨fun _ => 0, 0, 0, 0⟩, fun _ => none, fun _ => false, fun _ => false, 0, [], [], []⟩

theorem quiet_reachable : quiet.Reachable :=
  Runs.Reachable.start ⟨⟨rfl, rfl, rfl⟩, fun _ => rfl, fun _ => rfl, rfl, rfl, rfl, rfl⟩

theorem Reachable.acts {s : Readers} (reach : s.Reachable) (as : List Act) (fair : ∀ s, ∀ a ∈ as, Fair s a) :
    (as.foldl act s).Reachable := by
  induction as generalizing s with
  | nil => exact reach
  | cons a as ih =>
    exact ih (reach.next a (fair s a List.mem_cons_self) rfl) fun s b member => fair s b (List.mem_cons_of_mem a member)

end Readers

open Readers in
/-- A reader gets a line and then the end of the file. -/
theorem input_ring_line : ∃ s : Readers, s.Reachable ∧ s.results = [(0, ['a'.toUInt8, newline]), (1, [])] ∧
    (s.taken.map (·.2)).filter (· ≠ eof) <+: s.committed.filter (· ≠ eof) := by
  have reach := quiet_reachable.acts [.intr ['a'.toUInt8, newline, eof], .read 0 5, .read 0 5] (by
    intro s a member
    simp only [List.mem_cons, List.not_mem_nil, or_false] at member
    rcases member with rfl | rfl | rfl
    · trivial
    · exact Nat.succ_pos 4
    · exact Nat.succ_pos 4)
  exact ⟨_, reach, by decide, (input_ring _ reach).2.2.1⟩

set_option maxRecDepth 10000 in
open Readers in
/-- Reader 0 has emptied a full ring without a newline and sleeps. Reader 1 takes the rest of
    the line, and reader 0 goes on with the next line: its bytes lie on both sides of the
    newline that reader 1 took. -/
theorem read_spans_newline : ∃ s : Readers, s.Reachable ∧ ∃ (id other i j k : Nat) (x y : UInt8),
    id ∈ s.results.map (·.1) ∧ i < j ∧ j < k ∧ s.taken[i]? = some (id, x) ∧ x ≠ eof ∧
    s.taken[j]? = some (other, newline) ∧ s.taken[k]? = some (id, y) ∧ y ≠ eof := by
  have reach := quiet_reachable.acts [.read 0 200, .intr (List.replicate 128 'a'.toUInt8), .resume 0, .read 1 10,
    .intr ['b'.toUInt8, newline], .resume 1, .intr ['c'.toUInt8, newline], .resume 0] (by
    intro s a member
    simp only [List.mem_cons, List.not_mem_nil, or_false] at member
    rcases member with rfl | rfl | rfl | rfl | rfl | rfl | rfl | rfl
    · exact Nat.succ_pos 199
    · trivial
    · trivial
    · exact Nat.succ_pos 9
    · trivial
    · trivial
    · trivial
    · trivial)
  refine ⟨_, reach, 0, 1, 0, 129, 130, 'a'.toUInt8, 'c'.toUInt8, ?_⟩
  decide +kernel

end Console
end Xv6
