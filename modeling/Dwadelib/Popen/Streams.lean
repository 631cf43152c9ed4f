import Dwadelib.Popen.Ends
import Mathlib.Data.List.Nodup

namespace Dwadelib.Popen

/-! # Streams and their children

What `childpid[]` says is true in every state that is reached: behind each stream is one child that has not
been waited for, and nobody but the parent holds the parent's end of its pipe.
-/

open Descriptors

variable {config : Config} {state after : State} {event : Event} {held : Description}
  {process changed same other : Process} {start : Start} {table : Table} {fd fp pid : Nat} {childpid : List Pid}

/-- It is no longer on its way to the command. -/
def Process.started (process : Process) : Bool :=
  match process.life with
  | .starting _ => false
  | _ => true

structure Process.Sound (group : Pid) (pipes : Nat) (process : Process) : Prop where
  ancestor : 1 < process.ancestor ∧ process.ancestor ≠ group
  first : process.started = false → process.pid = process.ancestor
  below : process.table.Below pipes

/-- It is the same process, whatever has become of it. -/
structure Kept (process same : Process) : Prop where
  pid : same.pid = process.pid
  mine : same.mine = process.mine
  ancestor : same.ancestor = process.ancestor

/-- The stream is the parent's end of the pipe to its child, and the only one. -/
structure StreamAt (state : State) (fd : Nat) (process : Process) : Prop where
  member : process ∈ state.processes
  pid : process.pid = state.pidAt fd
  ancestor : process.ancestor = process.pid
  here : state.table fd = some process.mine.opposite
  only : ∀ other, state.table other = some process.mine.opposite → other = fd
  guarded : Guarded process.mine.opposite state

structure Sound (state : State) : Prop where
  streams : ∀ fd, state.pidAt fd ≠ 0 → ∃ process, StreamAt state fd process
  apart : ∀ fd other, state.pidAt fd ≠ 0 → state.pidAt other = state.pidAt fd → other = fd
  waited : ∀ pid, state.waiting = some pid → ∀ fd, state.pidAt fd ≠ pid
  distinct : (state.processes.map Process.pid).Nodup
  below : state.table.Below state.pipes
  processes : ∀ process ∈ state.processes, process.Sound state.group state.pipes

theorem kept_refl (process : Process) : Kept process process := ⟨rfl, rfl, rfl⟩

theorem Acts.kept (acts : Acts state event process changed) : Kept process changed := by
  cases acts with
  | starts starting => exact ⟨rfl, rfl, rfl⟩
  | rewires running rewired => exact ⟨rfl, rfl, rfl⟩
  | regroups told running joins => exact ⟨rfl, rfl, rfl⟩
  | ends own => exact ⟨rfl, rfl, rfl⟩

theorem Process.Sound.mono {group : Pid} {pipes more : Nat} (sound : process.Sound group pipes) (le : pipes ≤ more) :
    process.Sound group more := ⟨sound.ancestor, sound.first, sound.below.mono le⟩

theorem below_wire {pipes : Nat} (below : table.Below pipes) (start : Start) : (start.wire table).Below pipes := by
  rw [Start.wire, closeStreams_eq]
  have wired : (if start.kept ≠ start.stdio then
      ((table.close start.dropped).dup2 start.kept start.stdio).close start.kept
        else table.close start.dropped).Below pipes := by
    split
    · exact ((below.close _).dup2 _ _).close _
    · exact below.close _
  intro fd description number holds
  exact wired fd description number (Option.ite_none_left_eq_some.mp holds).2

theorem Acts.sound {group : Pid} {pipes : Nat} (acts : Acts state event process changed)
    (sound : process.Sound group pipes) : changed.Sound group pipes := by
  cases acts with
  | starts starting => exact ⟨sound.ancestor, fun going => by contradiction, below_wire sound.below _⟩
  | rewires running rewired => exact ⟨sound.ancestor, sound.first, rewired.below pipes sound.below⟩
  | regroups told running joins => exact ⟨sound.ancestor, sound.first, sound.below⟩
  | ends own => exact ⟨sound.ancestor, fun going => by contradiction, fun fd description number holds => nomatch holds⟩

theorem kill_kept (pid : Pid) (process : Process) :
    Kept process (if process.group = pid ∧ process.alive then { process with stopped := true } else process) := by
  split
  · exact ⟨rfl, rfl, rfl⟩
  · exact kept_refl process

/-- What a step leaves of a stream that it does not close. -/
theorem StreamAt.kept (stream : StreamAt state fd process)
    (guarded : ∀ held, Guarded held state → Guarded held after) (named : after.pidAt fd = state.pidAt fd)
    (here : after.table fd = state.table fd)
    (others : ∀ other, after.table other = some process.mine.opposite → state.table other = some process.mine.opposite)
    (member : same ∈ after.processes) (kept : Kept process same) : StreamAt after fd same := by
  constructor
  · exact member
  · rw [kept.pid, stream.pid, named]
  · rw [kept.ancestor, kept.pid, stream.ancestor]
  · rw [kept.mine, here, stream.here]
  · rw [kept.mine]
    exact fun other holds => stream.only other (others other holds)
  · rw [kept.mine]
    exact guarded _ stream.guarded

/-- A process that changes itself is the same one. -/
theorem alike_acted (sound : Sound state) (member : process ∈ state.processes)
    (acts : Acts state event process changed) (inside : other ∈ state.processes) :
    Kept other (if other.pid = process.pid then changed else other) := by
  split
  · rename_i samePid
    have equal : other = process := List.inj_on_of_nodup_map sound.distinct inside member samePid
    exact equal ▸ acts.kept
  · exact kept_refl other

theorem Sound.acted (sound : Sound state) (member : process ∈ state.processes)
    (acts : Acts state event process changed) (acted : after = { state with
      processes := state.processes.map fun other => if other.pid = process.pid then changed else other })
    (guarded : ∀ held, Guarded held state → Guarded held after) : Sound after := by
  subst acted
  constructor
  · intro fd known
    obtain ⟨child, stream⟩ := sound.streams fd known
    exact ⟨_, stream.kept guarded rfl rfl (fun _ holds => holds)
      (List.mem_map_of_mem stream.member) (alike_acted sound member acts stream.member)⟩
  · exact sound.apart
  · exact sound.waited
  · have pids : (state.processes.map fun other => if other.pid = process.pid then changed else other).map Process.pid =
        state.processes.map Process.pid := by
      rw [List.map_map]
      exact List.map_congr_left fun other inside => (alike_acted sound member acts inside).pid
    exact pids ▸ sound.distinct
  · exact sound.below
  · intro other inside
    rcases mem_acted inside with rfl | before
    · exact acts.sound (sound.processes process member)
    · exact sound.processes other before

theorem fresh_apart (fresh : state.fresh pid) (member : process ∈ state.processes) :
    process.pid ≠ pid ∧ process.group ≠ pid ∧ process.ancestor ≠ pid := by
  obtain ⟨-, -, all⟩ := of_decide_eq_true fresh
  exact of_decide_eq_true (List.all_eq_true.mp all process member)

/-- Nothing that a stream consists of has changed. -/
theorem Sound.unchanged (sound : Sound state) (quiet : Quiet state after) : Sound after := by
  constructor
  · intro fd known
    rw [quiet.pidAt] at known
    obtain ⟨process, stream⟩ := sound.streams fd known
    exact ⟨process, stream.kept (fun _ guarded => guarded.unchanged quiet) (quiet.pidAt fd) (by rw [quiet.table])
      (fun other holds => quiet.table ▸ holds) (quiet.processes ▸ stream.member) (kept_refl process)⟩
  · intro fd other
    rw [quiet.pidAt, quiet.pidAt]
    exact sound.apart fd other
  · intro pid waits fd
    rw [quiet.waiting] at waits
    rw [quiet.pidAt]
    exact sound.waited pid waits fd
  · rw [quiet.processes]
    exact sound.distinct
  · rw [quiet.table, quiet.pipes]
    exact sound.below
  · rw [quiet.processes, quiet.group, quiet.pipes]
    exact sound.processes

section Opened

variable {type : List Char} {prepared : State} {piped : Piped}

theorem Start.ends (start : Start) :
    start.dropped = start.pfd0 ∧ start.kept = start.pfd1 ∧ start.reads = true ∨
      start.dropped = start.pfd1 ∧ start.kept = start.pfd0 ∧ start.reads = false := by
  unfold Start.dropped Start.kept
  cases start.reads
  · exact .inr ⟨rfl, rfl, rfl⟩
  · exact .inl ⟨rfl, rfl, rfl⟩

/-- The parent's end of the pipe. -/
def Start.end (start : Start) (number : Nat) : Description :=
  if start.reads then .reading number else .writing number

theorem Start.end_pipe (start : Start) (number : Nat) : (start.end number).pipe = some number := by
  unfold Start.end
  split <;> rfl

theorem Start.mine_opposite (start : Start) (number : Nat) : (start.mine number).opposite = start.end number := by
  unfold Start.end Start.mine
  split <;> rfl

/-- Where the two ends are, and that nothing else is open for the parent's one. -/
theorem new_ends (opens : Opens config.limit state.pipes state.table piped) (below : state.table.Below state.pipes)
    (pfd0 : start.pfd0 = piped.pfd0) (pfd1 : start.pfd1 = piped.pfd1) :
    start.kept ≠ start.dropped ∧ state.table start.dropped = none ∧ state.table start.kept = none ∧
      piped.table start.dropped = some (start.end state.pipes) ∧ start.dropped < config.limit ∧
      ∀ fd, piped.table fd = some (start.end state.pipes) → fd = start.dropped := by
  have only : ∀ fd description, piped.table fd = some description → description.pipe = some state.pipes →
      fd = piped.pfd0 ∧ description = .reading state.pipes ∨ fd = piped.pfd1 ∧ description = .writing state.pipes := by
    intro fd description holds isPipe
    by_cases first : fd = piped.pfd0
    · exact .inl ⟨first, Option.some.inj (holds.symm.trans (first ▸ opens.reading))⟩
    · by_cases second : fd = piped.pfd1
      · exact .inr ⟨second, Option.some.inj (holds.symm.trans (second ▸ opens.writing))⟩
      · rw [opens.kept fd first second] at holds
        exact absurd (below fd description state.pipes holds isPipe) (Nat.lt_irrefl _)
  rcases start.ends with ⟨isDropped, isKept, reads⟩ | ⟨isDropped, isKept, reads⟩
  · rw [isDropped, isKept, pfd0, pfd1, Start.end, if_pos reads]
    refine ⟨opens.apart.symm, opens.free0, opens.free1, opens.reading, opens.within0, fun fd holds => ?_⟩
    rcases only fd _ holds rfl with ⟨place, -⟩ | ⟨-, differs⟩
    · exact place
    · contradiction
  · rw [isDropped, isKept, pfd0, pfd1, Start.end, reads]
    refine ⟨opens.apart, opens.free1, opens.free0, opens.writing, opens.within1, fun fd holds => ?_⟩
    rcases only fd _ holds rfl with ⟨-, differs⟩ | ⟨place, -⟩
    · contradiction
    · exact place

/-- Streams stay what they are when a pipe is made for another one. -/
theorem StreamAt.beside (stream : StreamAt state fd process)
    (guarded : ∀ held, Guarded held state → Guarded held after)
    (opens : Opens config.limit state.pipes state.table piped)
    (fewer : ∀ other held, after.table other = some held → piped.table other = some held)
    (here : ∀ held, piped.table fd = some held → after.table fd = some held) (named : after.pidAt fd = state.pidAt fd)
    (member : process ∈ after.processes) : StreamAt after fd process := by
  have free : fd ≠ piped.pfd0 ∧ fd ≠ piped.pfd1 := by
    constructor
    · rintro rfl
      cases opens.free0.symm.trans stream.here
    · rintro rfl
      cases opens.free1.symm.trans stream.here
  refine stream.kept guarded named ?_ (fun other holds => ?_) member (kept_refl process)
  · rw [stream.here]
    exact here _ ((opens.kept fd free.1 free.2).trans stream.here)
  · exact (old_kept opens stream.guarded.old (fewer other _ holds)).2.2

theorem Sound.piping (sound : Sound state) (same : Quiet state prepared)
    (opens : Opens config.limit state.pipes state.table piped) :
    Sound { prepared with table := piped.table, pipes := prepared.pipes + 1 } := by
  have opened : Opened config [] 1 state { prepared with table := piped.table, pipes := prepared.pipes + 1 } none :=
    .piped same opens
  have guarded : ∀ held, Guarded held state →
      Guarded held { prepared with table := piped.table, pipes := prepared.pipes + 1 } := fun held guarded =>
    guarded.opened Nat.one_pos opened
  constructor
  · intro fd known
    have named := same.pidAt fd
    obtain ⟨process, stream⟩ := sound.streams fd (named ▸ known)
    exact ⟨process, stream.beside guarded opens (fun _ _ holds => holds) (fun _ holds => holds)
      named (same.processes ▸ stream.member)⟩
  · exact (sound.unchanged same).apart
  · exact (sound.unchanged same).waited
  · exact (sound.unchanged same).distinct
  · show piped.table.Below (prepared.pipes + 1)
    rw [same.pipes]
    exact opens.below sound.below
  · exact fun process member => ((sound.unchanged same).processes process member).mono (Nat.le_succ _)

/-- The child, of which the parent knows nothing yet. -/
theorem Sound.forked (sound : Sound state) (fresh : state.fresh pid) (same : Quiet state prepared)
    (opens : Opens config.limit state.pipes state.table piped) (pfd0 : start.pfd0 = piped.pfd0)
    (pfd1 : start.pfd1 = piped.pfd1) (copied : prepared.childpid = some start.childpid) :
    Sound (prepared.forked start pid piped.table) := by
  have below : piped.table.Below (state.pipes + 1) := opens.below sound.below
  obtain ⟨-, -, free, -, -, -⟩ := new_ends opens sound.below pfd0 pfd1
  have earlier := sound.unchanged same
  constructor
  · intro fd known
    have named := same.pidAt fd
    obtain ⟨process, stream⟩ := sound.streams fd (named ▸ known)
    have differs : fd ≠ start.kept := by
      rintro rfl
      cases free.symm.trans stream.here
    exact ⟨process, stream.beside (fun _ guarded => guarded.forked same opens pfd0 pfd1 copied) opens
      (fun other held holds => (close_eq_some.mp holds).2) (fun held holds => close_eq_some.mpr ⟨differs, holds⟩) named
      (List.mem_cons_of_mem _ (same.processes ▸ stream.member))⟩
  · exact earlier.apart
  · exact earlier.waited
  · refine List.nodup_cons.mpr ⟨fun member => ?_, earlier.distinct⟩
    obtain ⟨process, inside, isPid⟩ := List.mem_map.mp member
    rw [same.processes] at inside
    exact (fresh_apart fresh inside).1 isPid
  · show (piped.table.close start.kept).Below (prepared.pipes + 1)
    rw [same.pipes]
    exact below.close _
  · intro process member
    rcases List.mem_cons.mp member with rfl | old
    · have notGroup : pid ≠ state.group := (of_decide_eq_true fresh).2.1
      refine ⟨⟨fresh_lt fresh, ?_⟩, fun _ => rfl, ?_⟩
      · show pid ≠ prepared.group
        rw [same.group]
        exact notGroup
      · show piped.table.Below (prepared.pipes + 1)
        rw [same.pipes]
        exact below
    · exact (earlier.processes process old).mono (Nat.le_succ _)

/-- What the parent remembers of a stream that was opened for this child. -/
theorem stream_opened (sound : Sound state) (fresh : state.fresh pid) (same : Quiet state prepared)
    (opens : Opens config.limit state.pipes state.table piped) (pfd0 : start.pfd0 = piped.pfd0)
    (pfd1 : start.pfd1 = piped.pfd1) (copied : prepared.childpid = some start.childpid)
    (inside : start.dropped < start.childpid.length)
    (opened : after = { prepared.forked start pid piped.table with
      childpid := some (start.childpid.set start.dropped pid) }) :
    ∃ child, child.life = .starting start ∧ child.pid = pid ∧ child.mine = start.mine state.pipes ∧
      StreamAt after start.dropped child := by
  subst opened
  obtain ⟨ends, free, -, holds, -, only⟩ := new_ends opens sound.below pfd0 pfd1
  have unheld : ∀ fd, state.table fd ≠ some (start.end state.pipes) := fun fd holds =>
    absurd (sound.below fd _ state.pipes holds (start.end_pipe _)) (Nat.lt_irrefl _)
  have mine : (start.mine prepared.pipes).opposite = start.end state.pipes := by
    rw [start.mine_opposite, same.pipes]
  have guarded : Guarded (start.end state.pipes) { prepared.forked start pid piped.table with
      childpid := some (start.childpid.set start.dropped pid) } := by
    constructor
    · intro fd holds
      obtain rfl := only fd (close_eq_some.mp holds).2
      rw [pidAt_set copied inside rfl, if_pos rfl]
      exact fresh_pos fresh
    · intro process member
      rcases List.mem_cons.mp member with rfl | earlier
      · exact ⟨fun holds => ends (only _ holds), fun fd holds => .inl (only fd holds)⟩
      · refine apart_without fun fd holds => ?_
        have sounds := sound.processes process (same.processes ▸ earlier)
        exact absurd (sounds.below fd _ state.pipes holds (start.end_pipe _)) (Nat.lt_irrefl _)
    · exact ⟨state.pipes, start.end_pipe _, same.pipes ▸ Nat.lt_succ_self _⟩
  refine ⟨_, rfl, rfl, congrArg start.mine same.pipes, List.mem_cons_self, ?_, rfl, ?_, ?_, ?_⟩
  · rw [pidAt_set copied inside rfl, if_pos rfl]
  · rw [mine]
    exact close_eq_some.mpr ⟨ends.symm, holds⟩
  · rw [mine]
    exact fun other holds => only other (close_eq_some.mp holds).2
  · rw [mine]
    exact guarded

theorem Sound.opened {result : Option Nat} (sound : Sound state) (fresh : state.fresh pid)
    (waits : state.waiting = none) (opened : Opened config type pid state after result) : Sound after := by
  cases opened with
  | nothing same => exact sound.unchanged same
  | piped same opens => exact sound.piping same opens
  | forked same opens pfd0 pfd1 copied => exact sound.forked fresh same opens pfd0 pfd1 copied
  | stream same opens pfd0 pfd1 copied inside reads allowed =>
      rename_i prepared piped start
      have forked := sound.forked fresh same opens pfd0 pfd1 copied
      have unused : ∀ fd, state.pidAt fd ≠ pid := by
        intro fd equal
        have known : state.pidAt fd ≠ 0 := equal ▸ Nat.ne_of_gt (fresh_pos fresh)
        obtain ⟨process, stream⟩ := sound.streams fd known
        exact (fresh_apart fresh stream.member).1 (stream.pid.trans equal)
      have named : ∀ fd, State.pidAt { prepared.forked start pid piped.table with
          childpid := some (start.childpid.set start.dropped pid) } fd =
            if fd = start.dropped then pid else state.pidAt fd := by
        intro fd
        rw [pidAt_set copied inside rfl, same.pidAt]
      constructor
      · intro fd known
        by_cases new : fd = start.dropped
        · subst new
          obtain ⟨child, -, -, -, stream⟩ := stream_opened sound fresh same opens pfd0 pfd1 copied inside rfl
          exact ⟨child, stream⟩
        · rw [named, if_neg new] at known
          obtain ⟨process, stream⟩ := forked.streams fd (same.pidAt fd ▸ known)
          refine ⟨process, stream.kept (fun held guarded => ?_) ?_ rfl (fun _ holds => holds) stream.member
            (kept_refl process)⟩
          · refine ⟨fun other holds => ?_, guarded.away, guarded.old⟩
            rw [named]
            split
            · exact fresh_pos fresh
            · exact same.pidAt other ▸ guarded.here other holds
          · rw [named, if_neg new]
            exact (same.pidAt fd).symm
      · intro fd other known equal
        rw [named, named] at equal
        rw [named] at known
        split at equal
        · rename_i isOther
          split at equal
          · rename_i isFd
            exact isOther.trans isFd.symm
          · exact absurd equal.symm (unused fd)
        · split at equal
          · exact absurd equal (unused other)
          · rename_i differs
            rw [if_neg differs] at known
            exact sound.apart fd other known equal
      · intro pid' waiting
        cases (same.waiting.trans waits).symm.trans waiting
      · exact forked.distinct
      · exact forked.below
      · exact forked.processes

end Opened

theorem initial_sound (initial : Initial state) : Sound state := by
  have unknown : ∀ fd, state.pidAt fd = 0 := by
    intro fd
    rw [State.pidAt, initial.never]
    rfl
  constructor
  · exact fun fd known => absurd (unknown fd) known
  · exact fun fd other known => absurd (unknown fd) known
  · intro pid waits
    cases initial.idle.symm.trans waits
  · rw [initial.alone]
    exact List.nodup_nil
  · exact initial.below
  · rw [initial.alone]
    exact fun process member => absurd member List.not_mem_nil

/-- The stream is forgotten; the parent may wait for its child now. -/
theorem Sound.pclosed (sound : Sound state) {waiting : Option Pid} (guarded : ∀ held, Guarded held state → Guarded held after)
    (given : state.childpid = some childpid) (found : childpid[fp]? = some pid) (known : pid ≠ 0)
    (closed : after = { state with
      childpid := some (childpid.set fp 0), table := state.table.close fp, waiting := waiting })
    (waits : waiting = none ∨ waiting = some pid) : Sound after := by
  subst closed
  have inside : fp < childpid.length := (List.getElem?_eq_some_iff.mp found).1
  have here : state.pidAt fp = pid := by
    rw [State.pidAt, given, Option.getD_some, found]
    rfl
  have named : ∀ fd, State.pidAt { state with
      childpid := some (childpid.set fp 0), table := state.table.close fp, waiting := waiting } fd =
        if fd = fp then 0 else state.pidAt fd := fun fd => pidAt_set given inside rfl
  constructor
  · intro fd open_
    rw [named] at open_
    split at open_
    · contradiction
    · rename_i differs
      obtain ⟨process, stream⟩ := sound.streams fd open_
      refine ⟨process, stream.kept guarded ?_ ?_ (fun other holds => ?_) stream.member
        (kept_refl process)⟩
      · rw [named, if_neg differs]
      · exact Function.update_of_ne differs none state.table
      · exact (close_eq_some.mp holds).2
  · intro fd other open_ equal
    rw [named] at open_
    rw [named, named] at equal
    split at open_
    · contradiction
    · rename_i differs
      rw [if_neg differs] at equal
      split at equal
      · exact absurd equal.symm open_
      · exact sound.apart fd other open_ equal
  · intro other waited fd equal
    rw [named] at equal
    rcases waits with rfl | rfl
    · contradiction
    · cases waited
      split at equal
      · exact known equal.symm
      · rename_i differs
        exact differs (sound.apart fp fd (here ▸ known) (equal.trans here.symm))
  · exact sound.distinct
  · exact sound.below.close fp
  · exact sound.processes

theorem Sound.killed (sound : Sound state) (guarded : ∀ held, Guarded held state → Guarded held after)
    (killed : after = { state with processes := killGroup pid state.processes }) : Sound after := by
  subst killed
  constructor
  · intro fd known
    obtain ⟨process, stream⟩ := sound.streams fd known
    exact ⟨_, stream.kept guarded rfl rfl (fun _ holds => holds)
      (List.mem_map_of_mem stream.member) (kill_kept pid process)⟩
  · exact sound.apart
  · exact sound.waited
  · have pids : (killGroup pid state.processes).map Process.pid = state.processes.map Process.pid := by
      rw [killGroup, List.map_map]
      exact List.map_congr_left fun process inside => (kill_kept pid process).pid
    exact pids ▸ sound.distinct
  · exact sound.below
  · intro process member
    obtain ⟨earlier, before, rfl⟩ := List.mem_map.mp member
    have sounds := sound.processes earlier before
    split
    · exact ⟨sounds.ancestor, sounds.first, sounds.below⟩
    · exact sounds

theorem Sound.gaveUp (sound : Sound state) (gaveUp : after = { state with waiting := none })
    (guarded : ∀ held, Guarded held state → Guarded held after) : Sound after := by
  subst gaveUp
  refine ⟨fun fd known => ?_, sound.apart, fun other waits => by contradiction, sound.distinct, sound.below,
    sound.processes⟩
  obtain ⟨child, stream⟩ := sound.streams fd known
  exact ⟨child, stream.kept guarded rfl rfl (fun _ holds => holds) stream.member (kept_refl child)⟩

/-- Nobody has a stream of the child that has been waited for. -/
theorem Sound.collected (sound : Sound state) (waits : state.waiting = some pid)
    (collected : after = { state with
      waiting := none, processes := state.processes.filter fun process => process.pid ≠ pid })
    (guarded : ∀ held, Guarded held state → Guarded held after) : Sound after := by
  subst collected
  constructor
  · intro fd known
    obtain ⟨child, stream⟩ := sound.streams fd known
    have differs : child.pid ≠ pid := stream.pid ▸ sound.waited pid waits fd
    exact ⟨child, stream.kept guarded rfl rfl (fun _ holds => holds)
      (List.mem_filter.mpr ⟨stream.member, decide_eq_true differs⟩) (kept_refl child)⟩
  · exact sound.apart
  · intro other waits
    contradiction
  · exact sound.distinct.sublist (List.filter_sublist.map _)
  · exact sound.below
  · exact fun other member => sound.processes other (List.mem_filter.mp member).1

theorem Sound.assigned {name : Nat} (sound : Sound state) (free : state.table fd = none)
    (assigned : after = { state with table := state.table.assign fd (.other name) })
    (guarded : ∀ held, Guarded held state → Guarded held after) : Sound after := by
  subst assigned
  refine ⟨fun place known => ?_, sound.apart, sound.waited, sound.distinct, sound.below.assign fd, sound.processes⟩
  obtain ⟨process, stream⟩ := sound.streams place known
  have differs : place ≠ fd := by
    rintro rfl
    cases free.symm.trans stream.here
  refine ⟨process, stream.kept guarded rfl ?_ (fun other holds => ?_) stream.member (kept_refl process)⟩
  · exact Function.update_of_ne differs (some (.other name)) state.table
  · obtain ⟨number, isPipe, -⟩ := stream.guarded.old
    rcases assign_eq_some.mp holds with ⟨-, same⟩ | ⟨-, holds⟩
    · rw [← same] at isPipe
      contradiction
    · exact holds

theorem Sound.dropped (sound : Sound state) (unknown : state.pidAt fd = 0)
    (dropped : after = { state with table := state.table.close fd })
    (guarded : ∀ held, Guarded held state → Guarded held after) : Sound after := by
  subst dropped
  refine ⟨fun place known => ?_, sound.apart, sound.waited, sound.distinct, sound.below.close fd, sound.processes⟩
  obtain ⟨process, stream⟩ := sound.streams place known
  have differs : place ≠ fd := fun equal => known (equal ▸ unknown)
  refine ⟨process, stream.kept guarded rfl ?_ (fun other holds => ?_) stream.member (kept_refl process)⟩
  · exact Function.update_of_ne differs none state.table
  · exact (close_eq_some.mp holds).2

/-- A process that a command forks has what that one has. -/
theorem Sound.divided (sound : Sound state) (member : process ∈ state.processes) (running : process.life = .running)
    (fresh : state.fresh pid) (divided : after = { state with
      processes := { process with pid := pid, stopped := false } :: state.processes })
    (guarded : ∀ held, Guarded held state → Guarded held after) : Sound after := by
  subst divided
  refine ⟨fun fd known => ?_, sound.apart, sound.waited, ?_, sound.below, fun other inside => ?_⟩
  · obtain ⟨child, stream⟩ := sound.streams fd known
    exact ⟨child, stream.kept guarded rfl rfl (fun _ holds => holds)
      (List.mem_cons_of_mem _ stream.member) (kept_refl child)⟩
  · refine List.nodup_cons.mpr ⟨fun inside => ?_, sound.distinct⟩
    obtain ⟨other, known, isPid⟩ := List.mem_map.mp inside
    exact (fresh_apart fresh known).1 isPid
  · rcases List.mem_cons.mp inside with rfl | earlier
    · have sounds := sound.processes process member
      have started : process.started = true := by rw [Process.started, running]
      refine ⟨sounds.ancestor, fun going => ?_, sounds.below⟩
      exact absurd (started.symm.trans going) Bool.true_eq_false.mp
    · exact sound.processes other earlier

/-- One step, of the parent or of any other process. -/
theorem step_sound (sound : Sound state) (taken : step config state event = some after) : Sound after := by
  have guarded : ∀ held, Guarded held state → Guarded held after := fun held guarded => step_guarded guarded taken
  cases step_effect taken with
  | same => exact sound
  | opened idle fresh returned => exact sound.opened fresh idle (mPopen_opened returned)
  | closed fp idle given found known waits => exact sound.pclosed guarded given found known rfl waits
  | gaveUp told lasting => exact sound.gaveUp rfl guarded
  | collected pid told waits => exact sound.collected waits rfl guarded
  | signalled pid idle => exact sound.killed guarded rfl
  | assigned fd name idle lowest => exact sound.assigned (lowest_free lowest).2 rfl guarded
  | dropped fd idle unknown => exact sound.dropped unknown rfl guarded
  | acted process member acts => exact sound.acted member acts rfl guarded
  | forked parent pid member running fresh => exact sound.divided member running fresh rfl guarded

theorem run_sound {events : List Event} (initial : Initial state)
    (reached : Run.run (step config) state events = some after) : Sound after :=
  Run.invariant_of_run (fun _ _ _ => step_sound) (initial_sound initial) reached

end Dwadelib.Popen
