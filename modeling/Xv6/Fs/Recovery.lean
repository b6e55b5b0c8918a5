import Xv6.Fs.Log

/-!
Crash atomicity. What counts is what the disk stands for: it changes only when commit
writes a header, and then by exactly the log_writes of the group.
-/
namespace Xv6
namespace Fs
namespace Log
variable {D : Type}

def updates (us : List (Update D)) : List (Nat × D) := us.map fun u => (u.block, u.data)

/-- The home blocks after all log_writes of saved operations and no others. -/
def durable (origin : Nat → D) (s : Log D) : Nat → D :=
  RedoLog.apply (updates ((s.past ++ s.group).filter fun u => u.op ∈ s.saved)) origin

structure Grouped (s : Log D) : Prop where
  group : ∀ u ∈ s.group, u.op ∈ s.members
  past : ∀ u ∈ s.past, u.op ∉ s.members
  open_ : ∀ id ∈ s.members, id ∉ s.saved
  known : (∀ id ∈ s.members, id < s.opers) ∧ (∀ id ∈ s.saved, id < s.opers) ∧ ∀ u ∈ s.past, u.op < s.opers
  oper : ∀ i o, s.oper i = some o → o.id ∈ s.members

/-- Where commit and recovery stand; d is what the disk stands for. -/
def Stands (s : Log D) (d : Nat → D) : Prop :=
  match s.phase with
  | .boot => s.group = []
  | .recover tail =>
    s.group = [] ∧ s.lh = s.disk.head ∧ ∀ k < tail, ∀ b, s.lh[k]? = some b → s.disk.home b = d b
  | .running => s.disk.head = [] ∧ s.view = RedoLog.apply (updates s.group) d ∧ ∀ u ∈ s.group, u.block ∈ s.lh
  | .writeLog tail =>
    s.disk.head = [] ∧ s.view = RedoLog.apply (updates s.group) d ∧ (∀ u ∈ s.group, u.block ∈ s.lh) ∧
      ∀ k < tail, ∀ b, s.lh[k]? = some b → s.disk.slot k = s.view b
  | .install tail =>
    s.group = [] ∧ s.view = d ∧ s.lh = s.disk.head ∧ ∀ k < tail, ∀ b, s.lh[k]? = some b → s.disk.home b = d b
  | .release => s.group = [] ∧ s.view = d ∧ s.disk.head = [] ∧ s.lh = []

structure Recoverable (origin : Nat → D) (s : Log D) : Prop where
  active : s.Active
  grouped : s.Grouped
  means : RedoLog.Means s.disk (s.durable origin)
  stands : s.Stands (s.durable origin)

section
variable {origin : Nat → D} {s s' : Log D} {a : Act D}

theorem Grouped.commit (grouped : s.Grouped) (origin : Nat → D) :
    RedoLog.apply (updates ((s.past ++ s.group ++ []).filter fun u => u.op ∈ s.saved ++ s.members)) origin =
      RedoLog.apply (updates s.group) (s.durable origin) := by
  have none : (s.group.filter fun u => u.op ∈ s.saved) = [] := by
    refine List.filter_eq_nil_iff.mpr fun u member => ?_
    simpa using fun saved => grouped.open_ _ (grouped.group u member) saved
  have old : (s.past.filter fun u => u.op ∈ s.saved ++ s.members) = s.past.filter fun u => u.op ∈ s.saved := by
    refine List.filter_congr fun u member => ?_
    have := grouped.past u member
    simp [this]
  have new : (s.group.filter fun u => u.op ∈ s.saved ++ s.members) = s.group := by
    refine List.filter_eq_self.mpr fun u member => ?_
    have := grouped.group u member
    simp [this]
  rw [List.append_nil, List.filter_append, old, new, durable, List.filter_append, none, List.append_nil]
  rw [updates, List.map_append, RedoLog.apply_append]
  rfl

theorem Grouped.durable_append (grouped : s.Grouped) (origin : Nat → D) {u : Update D} (mine : u.op ∈ s.members)
    (same : s'.past = s.past ∧ s'.saved = s.saved) (group : s'.group = s.group ++ [u]) :
    s'.durable origin = s.durable origin := by
  have out : ([u].filter fun u => u.op ∈ s.saved) = [] := by
    simpa using grouped.open_ u.op mine
  rw [durable, durable, same.1, same.2, group, ← List.append_assoc, List.filter_append, out, List.append_nil]

theorem apply_none {d : Nat → D} (none : s.group = []) : RedoLog.apply (updates s.group) d = d := by
  rw [none]
  rfl

theorem Grouped.oper_update (grouped : s.Grouped) {i : Nat} {o : Oper D} (at_ : s.oper i = some o)
    (new : Option (Oper D)) (same : ∀ o', new = some o' → o'.id = o.id) :
    ∀ j o', Function.update s.oper i new j = some o' → o'.id ∈ s.members := by
  intro j o' at'
  rw [Function.update_apply] at at'
  split at at'
  · rw [same o' at']
    exact grouped.oper i o at_
  · exact grouped.oper j o' at'

theorem Grouped.next (grouped : s.Grouped) (active : s.Active) (settled : s.phase = .release → s.group = [])
    (moved : Moved s a s') : s'.Grouped := by
  obtain ⟨below, savedBelow, pastBelow⟩ := grouped.known
  have pastAll : ∀ u ∈ s.past ++ s.group, u.op < s.opers := by
    intro u member
    rcases List.mem_append.mp member with old | new
    · exact pastBelow u old
    · exact below _ (grouped.group u new)
  cases moved with
  | stay => exact grouped
  | began i free up idle room =>
    have fresh : ∀ id, id ∈ s.members ++ [s.opers] → id ∈ s.members ∨ id = s.opers := by simp
    refine ⟨fun u member => List.mem_append_left _ (grouped.group u member), fun u member now => ?_,
      fun id now saved => ?_, ⟨fun id now => ?_, fun id saved => ?_, fun u member => ?_⟩, fun j o at_ => ?_⟩
    · rcases fresh _ now with old | new
      · exact grouped.past u member old
      · exact Nat.ne_of_lt (pastBelow u member) new
    · rcases fresh _ now with old | rfl
      · exact grouped.open_ id old saved
      · exact Nat.lt_irrefl _ (savedBelow _ saved)
    · rcases fresh _ now with old | rfl
      · exact Nat.lt_succ_of_lt (below id old)
      · exact Nat.lt_succ_self _
    · exact Nat.lt_succ_of_lt (savedBelow id saved)
    · exact Nat.lt_succ_of_lt (pastBelow u member)
    · change Function.update s.oper i _ j = some o at at_
      rw [Function.update_apply] at at_
      split at at_
      · cases at_
        exact List.mem_append_right _ List.mem_cons_self
      · exact List.mem_append_left _ (grouped.oper j o at_)
  | checked i b d id logged at_ =>
    exact ⟨grouped.group, grouped.past, grouped.open_, grouped.known,
      grouped.oper_update at_ _ fun o' same => by cases same; rfl⟩
  | appended i b d id logged at_ =>
    refine ⟨fun u member => ?_, grouped.past, grouped.open_, grouped.known,
      grouped.oper_update at_ _ fun o' same => by cases same; rfl⟩
    rcases List.mem_append.mp member with old | new
    · exact grouped.group u old
    · rw [List.mem_singleton.mp new]
      exact grouped.oper i _ at_
  | left i id logged at_ others =>
    exact ⟨grouped.group, grouped.past, grouped.open_, grouped.known, grouped.oper_update at_ _ nofun⟩
  | last i id logged at_ alone =>
    exact ⟨grouped.group, grouped.past, grouped.open_, grouped.known, grouped.oper_update at_ _ nofun⟩
  | booted | recovering | recovered | wrote | installed | erased =>
    exact ⟨grouped.group, grouped.past, grouped.open_, grouped.known, grouped.oper⟩
  | committed tail phase =>
    refine ⟨nofun, nofun, nofun, ⟨nofun, fun id saved => ?_, pastAll⟩, fun i o at_ => ?_⟩
    · rcases List.mem_append.mp saved with old | new
      · exact savedBelow id old
      · exact below id new
    · cases (active.idle (by simp [phase]) i).symm.trans at_
  | released phase =>
    refine ⟨fun u member => ?_, nofun, nofun, ⟨nofun, savedBelow, pastBelow⟩, fun i o at_ => ?_⟩
    · change u ∈ s.group at member
      rw [settled phase] at member
      cases member
    · cases (active.idle (by simp [phase]) i).symm.trans at_
  | crashed => exact ⟨nofun, nofun, nofun, ⟨nofun, savedBelow, pastAll⟩, nofun⟩

/-- A slot is installed: its home block holds what the disk stands for, and the others stay. -/
theorem installed_below {disk : RedoLog.Disk Nat D} {d : Nat → D} (means : RedoLog.Means disk d) {tail b : Nat}
    (entry : disk.head[tail]? = some b) (below : ∀ k < tail, ∀ b, disk.head[k]? = some b → disk.home b = d b) :
    ∀ k < tail + 1, ∀ b', disk.head[k]? = some b' → Function.update disk.home b (disk.slot tail) b' = d b' := by
  intro k less b' entry'
  by_cases same : b' = b
  · subst same
    rw [Function.update_self]
    exact means.logged tail b' entry
  · rw [Function.update_of_ne same]
    refine below k (Nat.lt_of_le_of_ne (Nat.le_of_lt_succ less) fun last => same ?_) b' entry'
    subst last
    exact Option.some.inj (entry'.symm.trans entry)

theorem all_below {P : Nat → Nat → Prop} {bs : List Nat} {tail : Nat} (done : bs[tail]? = none)
    (below : ∀ k < tail, ∀ b, bs[k]? = some b → P k b) (k b : Nat) (entry : bs[k]? = some b) : P k b := by
  refine below k ?_ b entry
  have inside := (List.getElem?_eq_some_iff.mp entry).1
  exact Nat.lt_of_lt_of_le inside (List.getElem?_eq_none_iff.mp done)

namespace Recoverable

theorem start {size : Nat} (first : Start size origin s) : Recoverable origin s := by
  obtain ⟨-, -, -, phase, oper⟩ := first.memory
  obtain ⟨opers, past, group, members, saved⟩ := first.new
  have durable : s.durable origin = origin := by
    rw [Log.durable, past, group]
    rfl
  refine ⟨Active.start first, ⟨?_, ?_, ?_, ⟨?_, ?_, ?_⟩, fun i o at_ => ?_⟩, ⟨fun b _ => ?_, fun k b entry => ?_⟩, ?_⟩
  · simp [group]
  · simp [past]
  · simp [members]
  · simp [members]
  · simp [saved]
  · simp [past]
  · rw [oper] at at_
    cases at_
  · rw [durable, first.disk.1]
  · rw [first.disk.2] at entry
    cases entry
  · rw [Stands, phase]
    exact group

theorem append (inv : Recoverable origin s) {u : Update D} (mine : u.op ∈ s.members) (running : s.phase = .running)
    (active : s'.Active) (grouped : s'.Grouped) (disk : s'.disk = s.disk) (phase : s'.phase = s.phase)
    (same : s'.past = s.past ∧ s'.saved = s.saved) (group : s'.group = s.group ++ [u])
    (view : s'.view = Function.update s.view u.block u.data)
    (lh : ∀ b, b ∈ s'.lh ↔ b ∈ s.lh ∨ b = u.block) : Recoverable origin s' := by
  have unchanged := inv.grouped.durable_append origin mine same group
  have stands := inv.stands
  rw [Stands, running] at stands
  obtain ⟨empty, was, blocks⟩ := stands
  refine ⟨active, grouped, ?_, ?_⟩
  · rw [disk, unchanged]
    exact inv.means
  rw [Stands, phase, running, disk, unchanged]
  refine ⟨empty, ?_, fun v member => (lh v.block).mpr ?_⟩
  · rw [view, group, updates, List.map_append, RedoLog.apply_append, was]
    rfl
  · rw [group, List.mem_append, List.mem_singleton] at member
    rcases member with old | rfl
    · exact Or.inl (blocks v old)
    · exact Or.inr rfl

theorem next (inv : Recoverable origin s) (moved : Moved s a s') : Recoverable origin s' := by
  have active := inv.active.next moved
  have means := inv.means
  have stands := inv.stands
  have settled : s.phase = .release → s.group = [] := by
    intro phase
    rw [Stands, phase] at stands
    exact stands.1
  have grouped := inv.grouped.next inv.active settled moved
  cases moved with
  | stay => exact inv
  | began | checked => exact ⟨active, grouped, means, stands⟩
  | appended i b d id logged at_ =>
    refine inv.append (inv.grouped.oper i _ at_) (inv.active.busy i _ at_) active grouped rfl rfl ⟨rfl, rfl⟩ rfl rfl
      fun block => ?_
    change block ∈ (if b ∈ s.lh then s.lh else s.lh ++ [b]) ↔ block ∈ s.lh ∨ block = b
    split
    · rename_i there
      refine ⟨Or.inl, ?_⟩
      rintro (old | rfl)
      · exact old
      · exact there
    · rw [List.mem_append, List.mem_singleton]
  | left => exact ⟨active, grouped, means, stands⟩
  | last i id logged at_ alone =>
    refine ⟨active, grouped, means, ?_⟩
    rw [Stands, inv.active.busy i _ at_] at stands
    obtain ⟨empty, view, blocks⟩ := stands
    change Stands { s with phase := if s.lh = [] then .release else .writeLog 0 } (s.durable origin)
    split
    · rename_i none
      have group : s.group = [] := List.eq_nil_iff_forall_not_mem.mpr fun u member => by
        have := blocks u member
        rw [none] at this
        cases this
      exact ⟨group, view.trans (apply_none group), empty, none⟩
    · exact ⟨empty, view, blocks, nofun⟩
  | booted phase =>
    rw [Stands, phase] at stands
    exact ⟨active, grouped, means, stands, rfl, nofun⟩
  | recovering tail b phase entry =>
    rw [Stands, phase] at stands
    obtain ⟨group, lh, below⟩ := stands
    rw [lh] at entry below
    refine ⟨active, grouped, means.install entry, group, lh, ?_⟩
    simp only [lh]
    exact installed_below means entry below
  | recovered tail phase entry =>
    rw [Stands, phase] at stands
    obtain ⟨group, lh, below⟩ := stands
    rw [lh] at entry below
    have clean := means.settle fun k b => all_below entry below k b
    exact ⟨active, grouped, clean, rfl, (clean.clean rfl).trans (apply_none group).symm, by simp [group]⟩
  | wrote tail b phase entry =>
    rw [Stands, phase] at stands
    obtain ⟨empty, view, blocks, below⟩ := stands
    refine ⟨active, grouped, means.stage empty tail _, empty, view, blocks, fun k less b' entry' => ?_⟩
    change Function.update s.disk.slot tail (s.view b) k = s.view b'
    rw [Function.update_apply]
    split
    · rename_i here
      subst here
      cases entry.symm.trans entry'
      rfl
    · rename_i ne
      exact below k (Nat.lt_of_le_of_ne (Nat.le_of_lt_succ less) ne) b' entry'
  | committed tail phase entry =>
    rw [Stands, phase] at stands
    obtain ⟨empty, view, blocks, below⟩ := stands
    have meaning := inv.grouped.commit origin
    rw [← view] at meaning
    refine ⟨active, grouped, ?_, rfl, meaning.symm, rfl, nofun⟩
    have rest : ∀ b, b ∉ s.lh → s.view b = s.durable origin b := by
      intro b away
      rw [view]
      refine RedoLog.apply_other _ fun u member same => away ?_
      obtain ⟨w, logged, rfl⟩ := List.mem_map.mp member
      rw [← same]
      exact blocks w logged
    have written := means.commit empty (fun k b => all_below entry below k b) rest
    rw [← meaning] at written
    exact written
  | installed tail b phase entry =>
    rw [Stands, phase] at stands
    obtain ⟨group, view, lh, below⟩ := stands
    rw [lh] at entry below
    refine ⟨active, grouped, means.install entry, group, view, lh, ?_⟩
    simp only [lh]
    exact installed_below means entry below
  | erased tail phase entry =>
    rw [Stands, phase] at stands
    obtain ⟨group, view, lh, below⟩ := stands
    rw [lh] at entry below
    exact ⟨active, grouped, means.settle fun k b => all_below entry below k b, group, view, rfl, rfl⟩
  | released phase =>
    rw [Stands, phase] at stands
    obtain ⟨group, view, empty, lh⟩ := stands
    exact ⟨active, grouped, means, empty, view.trans (apply_none group).symm, by simp [group]⟩
  | crashed =>
    have same : s.crash.durable origin = s.durable origin := by
      change RedoLog.apply (updates ((s.past ++ s.group ++ []).filter fun u => u.op ∈ s.saved)) origin = _
      rw [List.append_nil]
      rfl
    refine ⟨active, grouped, ?_, rfl⟩
    rw [same]
    exact means

theorem clean (inv : Recoverable origin s) (running : s.phase = .running) :
    s.disk.head = [] ∧ ∀ b, s.disk.home b = s.durable origin b := by
  have stands := inv.stands
  rw [Stands, running] at stands
  exact ⟨stands.1, congrFun (inv.means.clean stands.1)⟩

theorem recover_done {tail : Nat} (inv : Recoverable origin s) (left : Nat) (phase : s.phase = .recover tail)
    (rest : s.lh.length = tail + left) : ∃ n, (tick^[n] s).phase = .running ∧ Recoverable origin (tick^[n] s) ∧
      (tick^[n] s).durable origin = s.durable origin := by
  induction left generalizing s tail with
  | zero =>
    have entry : s.lh[tail]? = none := List.getElem?_eq_none_iff.mpr (Nat.le_of_eq rest)
    have now : s.tick = { s with disk := { s.disk with head := [] }, lh := [], view := s.disk.home, phase := .running } := by
      simp only [tick, phase, entry]
    refine ⟨1, ?_, inv.next (tick_moved s), ?_⟩
    · rw [Function.iterate_one, now]
    · rw [Function.iterate_one, now]
      rfl
  | succ left ih =>
    obtain ⟨b, entry⟩ : ∃ b, s.lh[tail]? = some b := ⟨_, List.getElem?_eq_getElem (by omega)⟩
    have now : s.tick = { s with
        disk := { s.disk with home := Function.update s.disk.home b (s.disk.slot tail) }
        phase := .recover (tail + 1) } := by
      simp only [tick, phase, entry]
    have after : s.tick.phase = .recover (tail + 1) := by rw [now]
    have length : s.tick.lh.length = tail + 1 + left := by
      rw [now]
      exact rest.trans (by omega)
    obtain ⟨n, done, inv', same⟩ := ih (inv.next (tick_moved s)) after length
    refine ⟨n + 1, ?_⟩
    rw [Function.iterate_succ_apply]
    refine ⟨done, inv', same.trans ?_⟩
    rw [now]
    rfl

end Recoverable
end

/-- The header never names more blocks than the log has. -/
def Within (s : Log D) : Act D → Prop
  | .append i => (s.logAppend i).lh.length ≤ s.size - 1
  | _ => True

instance (s : Log D) : (a : Act D) → Decidable (Within s a)
  | .append i => inferInstanceAs (Decidable ((s.logAppend i).lh.length ≤ s.size - 1))
  | .begin _ | .check .. | .finish _ | .tick | .crash => inferInstanceAs (Decidable True)

def Reachable (size : Nat) (origin : Nat → D) (s : Log D) : Prop := Runs.Reachable (Start size origin) step Within s

theorem Reachable.recoverable {size : Nat} {origin : Nat → D} {s : Log D} (reach : Reachable size origin s) :
    Recoverable origin s :=
  Runs.Reachable.invariant (fun _ first => Recoverable.start first)
    (fun _ _ _ inv _ done => inv.next (step_moved done)) reach

/-- When recovery is complete the home blocks hold the log_writes of the operations whose
    header was written, and nothing else; and after a crash recovery can be completed. -/
theorem crash_atomic {size : Nat} {origin : Nat → D} {s : Log D} (reach : Reachable size origin s) :
    (s.phase = .running → s.disk.head = [] ∧ ∀ b, s.disk.home b = s.durable origin b) ∧
    ∃ n, (tick^[n] s.crash).phase = .running ∧ (tick^[n] s.crash).disk.head = [] ∧
      ∀ b, (tick^[n] s.crash).disk.home b = s.durable origin b := by
  have inv := reach.recoverable
  refine ⟨inv.clean, ?_⟩
  have crashed := inv.next Moved.crashed
  have booted := crashed.next (tick_moved _)
  obtain ⟨n, running, after, same⟩ := booted.recover_done s.disk.head.length rfl (Nat.zero_add _).symm
  have kept : s.crash.tick.durable origin = s.durable origin := by
    change RedoLog.apply (updates ((s.past ++ s.group ++ []).filter fun u => u.op ∈ s.saved)) origin = _
    rw [List.append_nil]
    rfl
  obtain ⟨empty, home⟩ := after.clean running
  refine ⟨n + 1, ?_⟩
  rw [Function.iterate_succ_apply]
  refine ⟨running, empty, fun b => ?_⟩
  rw [home b, same, kept]

/-- One block is logged and committed; the crash comes right after the header is written. -/
theorem crash_atomic_header : ∃ s : Log Nat, Reachable LOGSIZE (fun _ => 0) s ∧ s.phase = .running ∧
    s.disk.head = [] ∧ s.disk.home 5 = 7 ∧ s.disk.home 6 = 0 := by
  let start : Log Nat :=
    { disk := ⟨fun _ => 0, fun _ => 0, []⟩, view := fun _ => 0, size := LOGSIZE, lh := [], outstanding := 0,
      committing := false, phase := .boot, oper := fun _ => none, opers := 0, past := [], group := [], members := [],
      saved := [] }
  have first : Reachable LOGSIZE (fun _ => 0) start :=
    Runs.Reachable.start ⟨⟨rfl, rfl⟩, rfl, ⟨rfl, rfl, rfl, rfl, rfl⟩, rfl, rfl, rfl, rfl, rfl⟩
  let acts : List (Act Nat) := [.tick, .tick, .begin 0, .check 0 5 7, .append 0, .finish 0, .tick, .tick, .crash,
    .tick, .tick, .tick]
  have ends : (Runs.walk step (fun s a => decide (Within s a)) start acts).map
      (fun s => (s.phase, s.durable (fun _ => 0) 5, s.durable (fun _ => 0) 6)) = some (.running, 7, 0) := by
    decide +kernel
  obtain ⟨s, done, seen⟩ := Option.map_eq_some_iff.mp ends
  obtain ⟨running, logged, other⟩ : s.phase = .running ∧ s.durable (fun _ => 0) 5 = 7 ∧ s.durable (fun _ => 0) 6 = 0 := by
    simpa using seen
  have reach : Reachable LOGSIZE (fun _ => 0) s := first.walk (fun _ _ => of_decide_eq_true) done
  obtain ⟨empty, home⟩ := (crash_atomic reach).1 running
  exact ⟨s, reach, running, empty, (home 5).trans logged, (home 6).trans other⟩

end Log
end Fs
end Xv6
