import Dwadelib.Popen.Commands

namespace Dwadelib.Popen

/-! # The command's end of the pipe

A child begins with its end of the pipe in one place and moves it to its standard input or output. Nobody else
has it but what comes from the child, so the parent reads to the end when these are gone.
-/

open Descriptors

variable {config : Config} {begun state after : State} {event : Event} {held : Description}
  {process changed : Process} {start : Start} {table : Table} {pid : Nat} {events : List Event}

/-- A child that is going to run its command has its end of the pipe, at one descriptor. -/
def Process.Ready (process : Process) : Prop :=
  match process.life with
  | .starting start => start.kept ≠ start.dropped ∧ process.table start.kept = some process.mine ∧
      ∀ fd, process.table fd = some process.mine → fd = start.kept
  | _ => True

structure Wired (state : State) : Prop where
  old : ∀ process ∈ state.processes, ∃ number, process.mine.pipe = some number ∧ number < state.pipes
  here : ∀ process ∈ state.processes, state.table.Without process.mine
  others : ∀ process ∈ state.processes, ∀ other ∈ state.processes, other.mine ≠ process.mine →
    other.table.Without process.mine
  ancestors : ∀ process ∈ state.processes, ∀ other ∈ state.processes, other.mine = process.mine →
    other.ancestor = process.ancestor
  ready : ∀ process ∈ state.processes, process.Ready

theorem wire_kept_without (without : table.Without held) (start : Start) : (start.wire table).Without held := by
  refine wire_without (fun fd holds => ?_) (without _)
  exact absurd holds (without fd)

theorem ready_started (started : process.started = true) : process.Ready := by
  unfold Process.started at started
  unfold Process.Ready
  split
  · rename_i start starting
    rw [starting] at started
    contradiction
  · trivial

/-- A process is what an earlier one has become. -/
structure Stems (earlier process : Process) : Prop where
  mine : process.mine = earlier.mine
  ancestor : process.ancestor = earlier.ancestor
  ready : earlier.Ready → process.Ready
  without : ∀ held, (∃ number, held.pipe = some number) → earlier.table.Without held → process.table.Without held

theorem stems_refl (process : Process) : Stems process process := ⟨rfl, rfl, fun ready => ready, fun _ _ without => without⟩

/-- What a process does to itself gets it no end, and it is not about to start any more. -/
theorem Acts.stems (acts : Acts state event process changed) : Stems process changed := by
  have kept := acts.kept
  refine ⟨kept.mine, kept.ancestor, fun _ => ready_started ?_, fun held isEnd without => ?_⟩
  · cases acts with
    | starts starting => rfl
    | rewires running rewired => rw [Process.started, running]
    | regroups told running joins => rw [Process.started, running]
    | ends own => rfl
  · cases acts with
    | starts starting => exact wire_kept_without without _
    | rewires running rewired => exact rewired.without held isEnd without
    | regroups told running joins => exact without
    | ends own => exact fun fd holds => absurd holds.symm (Option.some_ne_none held)

/-- No process is really new, and the parent has got no end. -/
theorem Wired.stem (wired : Wired state) (here : ∀ process ∈ state.processes, after.table.Without process.mine)
    (stems : ∀ process ∈ after.processes, ∃ earlier ∈ state.processes, Stems earlier process)
    (pipes : state.pipes ≤ after.pipes) : Wired after := by
  constructor
  · intro process member
    obtain ⟨earlier, before, stem⟩ := stems process member
    exact stem.mine ▸ old_mono (wired.old earlier before) pipes
  · intro process member
    obtain ⟨earlier, before, stem⟩ := stems process member
    exact stem.mine ▸ here earlier before
  · intro process member other inside differs
    obtain ⟨earlier, before, stem⟩ := stems process member
    obtain ⟨second, known, stemOther⟩ := stems other inside
    obtain ⟨number, isPipe, -⟩ := wired.old earlier before
    rw [stem.mine, stemOther.mine] at differs
    rw [stem.mine]
    exact stemOther.without _ ⟨number, isPipe⟩ (wired.others earlier before second known differs)
  · intro process member other inside equal
    obtain ⟨earlier, before, stem⟩ := stems process member
    obtain ⟨second, known, stemOther⟩ := stems other inside
    rw [stem.mine, stemOther.mine] at equal
    rw [stem.ancestor, stemOther.ancestor]
    exact wired.ancestors earlier before second known equal
  · intro process member
    obtain ⟨earlier, before, stem⟩ := stems process member
    exact stem.ready (wired.ready earlier before)

section Opened

variable {type : List Char} {prepared : State} {piped : Piped}

theorem Start.mine_pipe (start : Start) (number : Nat) : (start.mine number).pipe = some number := by
  unfold Start.mine
  split <;> rfl

/-- The child's end is at one descriptor. -/
theorem new_mine (opens : Opens config.limit state.pipes state.table piped) (below : state.table.Below state.pipes)
    (pfd0 : start.pfd0 = piped.pfd0) (pfd1 : start.pfd1 = piped.pfd1) :
    piped.table start.kept = some (start.mine state.pipes) ∧
      ∀ fd, piped.table fd = some (start.mine state.pipes) → fd = start.kept := by
  have only : ∀ fd, piped.table fd = some (start.mine state.pipes) → fd = piped.pfd0 ∨ fd = piped.pfd1 := by
    intro fd holds
    by_contra neither
    obtain ⟨first, second⟩ := not_or.mp neither
    rw [opens.kept fd first second] at holds
    exact absurd (below fd _ state.pipes holds (start.mine_pipe _)) (Nat.lt_irrefl _)
  rcases start.ends with ⟨-, isKept, reads⟩ | ⟨-, isKept, reads⟩
  · rw [Start.mine, if_pos reads] at only ⊢
    rw [isKept, pfd1]
    refine ⟨opens.writing, fun fd holds => (only fd holds).resolve_left ?_⟩
    rintro rfl
    cases opens.reading.symm.trans holds
  · rw [Start.mine, reads] at only ⊢
    rw [isKept, pfd0]
    refine ⟨opens.reading, fun fd holds => (only fd holds).resolve_right ?_⟩
    rintro rfl
    cases opens.writing.symm.trans holds

theorem Wired.forked (wired : Wired state) (sound : Sound state) (same : Quiet state prepared)
    (opens : Opens config.limit state.pipes state.table piped) (pfd0 : start.pfd0 = piped.pfd0)
    (pfd1 : start.pfd1 = piped.pfd1) : Wired (prepared.forked start pid piped.table) := by
  obtain ⟨ends, -⟩ := new_ends opens sound.below pfd0 pfd1
  obtain ⟨holds, only⟩ := new_mine opens sound.below pfd0 pfd1
  have mine : start.mine prepared.pipes = start.mine state.pipes := congrArg start.mine same.pipes
  have earlier : ∀ process ∈ prepared.processes, process ∈ state.processes := fun process member =>
    same.processes ▸ member
  have none_ : ∀ process ∈ state.processes, piped.table.Without process.mine := by
    intro process member fd found
    exact wired.here process member fd (old_kept opens (wired.old process member) found).2.2
  constructor
  · intro process member
    rcases List.mem_cons.mp member with rfl | old
    · exact ⟨prepared.pipes, start.mine_pipe _, Nat.lt_succ_self _⟩
    · obtain ⟨number, isPipe, less⟩ := wired.old process (earlier process old)
      exact ⟨number, isPipe, Nat.lt_succ_of_lt (same.pipes ▸ less)⟩
  · intro process member
    rcases List.mem_cons.mp member with rfl | old
    · intro fd found
      obtain ⟨differs, found⟩ := close_eq_some.mp found
      exact differs (only fd (mine ▸ found))
    · exact without_close (none_ process (earlier process old)) _
  · intro process member other inside differs
    rcases List.mem_cons.mp member with rfl | old
    · rcases List.mem_cons.mp inside with rfl | known
      · contradiction
      · intro fd found
        have below := (sound.processes other (earlier other known)).below
        exact absurd (below fd _ state.pipes found (mine ▸ start.mine_pipe _)) (Nat.lt_irrefl _)
    · rcases List.mem_cons.mp inside with rfl | known
      · exact none_ process (earlier process old)
      · exact wired.others process (earlier process old) other (earlier other known) differs
  · have new : ∀ process ∈ state.processes, process.mine ≠ start.mine prepared.pipes := by
      intro process member equal
      obtain ⟨number, isPipe, less⟩ := wired.old process member
      cases isPipe.symm.trans (equal ▸ mine ▸ start.mine_pipe state.pipes)
      exact Nat.lt_irrefl _ less
    intro process member other inside equal
    rcases List.mem_cons.mp member with rfl | old
    · rcases List.mem_cons.mp inside with rfl | known
      · rfl
      · exact absurd equal (new other (earlier other known))
    · rcases List.mem_cons.mp inside with rfl | known
      · exact absurd equal.symm (new process (earlier process old))
      · exact wired.ancestors process (earlier process old) other (earlier other known) equal
  · intro process member
    rcases List.mem_cons.mp member with rfl | old
    · refine ⟨ends, ?_, fun fd found => ?_⟩
      · exact mine ▸ holds
      · exact only fd (mine ▸ found)
    · exact wired.ready process (earlier process old)

end Opened

theorem Wired.unchanged (wired : Wired state) (here : ∀ process ∈ state.processes, after.table.Without process.mine)
    (fewer : ∀ process ∈ after.processes, process ∈ state.processes) (pipes : state.pipes ≤ after.pipes) :
    Wired after :=
  wired.stem here (fun process member => ⟨process, fewer process member, stems_refl process⟩) pipes

theorem Wired.remember (wired : Wired state) (childpid : Option (List Pid)) :
    Wired { state with childpid := childpid } :=
  ⟨wired.old, wired.here, wired.others, wired.ancestors, wired.ready⟩

theorem step_wired (sound : Sound state) (wired : Wired state) (taken : step config state event = some after) :
    Wired after := by
  have here : ∀ process ∈ state.processes, after.table.Without process.mine := fun process member fd holds =>
    wired.here process member fd (step_table taken (wired.old process member) holds)
  cases step_effect taken with
  | same => exact wired
  | opened idle fresh returned =>
      cases mPopen_opened returned with
      | nothing same => exact wired.unchanged here (fun _ member => same.processes ▸ member) (same.pipes ▸ Nat.le_refl _)
      | piped same opens =>
          exact wired.unchanged here (fun _ member => same.processes ▸ member) (same.pipes ▸ Nat.le_succ _)
      | forked same opens pfd0 pfd1 => exact wired.forked sound same opens pfd0 pfd1
      | stream same opens pfd0 pfd1 => exact (wired.forked sound same opens pfd0 pfd1).remember _
  | closed fp idle given found known waits => exact wired.unchanged here (fun _ member => member) (Nat.le_refl _)
  | gaveUp told lasting => exact wired.unchanged here (fun _ member => member) (Nat.le_refl _)
  | collected pid told waits =>
      exact wired.unchanged here (fun _ member => (List.mem_filter.mp member).1) (Nat.le_refl _)
  | signalled pid idle =>
      refine wired.stem here (fun process member => ?_) (Nat.le_refl _)
      obtain ⟨earlier, before, rfl⟩ := List.mem_map.mp member
      refine ⟨earlier, before, ?_⟩
      split
      · exact ⟨rfl, rfl, fun ready => ready, fun _ _ without => without⟩
      · exact stems_refl earlier
  | assigned fd name idle lowest => exact wired.unchanged here (fun _ member => member) (Nat.le_refl _)
  | dropped fd idle unknown => exact wired.unchanged here (fun _ member => member) (Nat.le_refl _)
  | acted process inside acts =>
      refine wired.stem here (fun other member => ?_) (Nat.le_refl _)
      rcases mem_acted member with rfl | before
      · exact ⟨process, inside, acts.stems⟩
      · exact ⟨other, before, stems_refl other⟩
  | forked parent pid known running fresh =>
      refine wired.stem here (fun process member => ?_) (Nat.le_refl _)
      rcases List.mem_cons.mp member with rfl | earlier
      · have started : Process.started { parent with pid := pid, stopped := false } = true := by
          rw [Process.started, running]
        exact ⟨parent, known, rfl, rfl, fun _ => ready_started started, fun _ _ without => without⟩
      · exact ⟨process, earlier, stems_refl process⟩

theorem run_wired (initial : Initial begun) (reached : Run.run (step config) begun events = some state) :
    Sound state ∧ Wired state := by
  have start : Wired begun := by
    constructor <;>
    · rw [initial.alone]
      exact fun process member => absurd member List.not_mem_nil
  have kept : ∀ state event next, Sound state ∧ Wired state → step config state event = some next →
      Sound next ∧ Wired next := fun state event next both taken =>
    ⟨step_sound both.1 taken, step_wired both.1 both.2 taken⟩
  have both := Run.invariant_of_run kept ⟨initial_sound initial, start⟩ reached
  exact both

/-- The child's end of the pipe comes to its standard input or output and to no other place, unless the parent
had a stream of another command in just this place: then the loop over `childpid[]` closes it again. -/
theorem command_wired (initial : Initial begun) (reached : Run.run (step config) begun events = some state)
    (member : process ∈ state.processes) (starting : process.life = .starting start)
    (started : startChild false process = some changed) :
    (changed.table start.stdio = some process.mine ↔ ¬ 0 < start.childpid[start.stdio]?.getD 0) ∧
      ∀ fd, changed.table fd = some process.mine → fd = start.stdio := by
  have ready := (run_wired initial reached).2.ready process member
  rw [Process.Ready, starting] at ready
  obtain ⟨apart, holds, only⟩ := ready
  rw [startChild, starting] at started
  cases started
  have kept : (process.table.close start.dropped) start.kept = some process.mine := close_eq_some.mpr ⟨apart, holds⟩
  have alone : ∀ fd, (process.table.close start.dropped) fd = some process.mine → fd = start.kept := fun fd found =>
    only fd (close_eq_some.mp found).2
  have wired : ∀ fd, (if start.kept ≠ start.stdio then
      ((process.table.close start.dropped).dup2 start.kept start.stdio).close start.kept
        else process.table.close start.dropped) fd = some process.mine ↔ fd = start.stdio := by
    intro fd
    split
    · rename_i differs
      rw [close_eq_some, dup2_eq_some]
      constructor
      · rintro ⟨notKept, ⟨isStdio, -⟩ | ⟨-, found⟩⟩
        · exact isStdio
        · exact absurd (alone fd found) notKept
      · rintro rfl
        exact ⟨differs.symm, .inl ⟨rfl, kept⟩⟩
    · rename_i same
      rw [not_not] at same
      rw [← same]
      exact ⟨alone fd, fun isKept => isKept ▸ kept⟩
  dsimp only
  rw [Start.wire, closeStreams_eq]
  constructor
  · rw [Option.ite_none_left_eq_some, wired, and_iff_left rfl]
  · intro fd found
    exact (wired fd).mp (Option.ite_none_left_eq_some.mp found).2

/-- A program that has closed its standard output gets its first stream there, so the next reader's output is
closed by the loop. -/
theorem command_wired_closed :
    ∃ state process start changed, Run.run (step eightOpen) standard [.closes 1, .closes 0,
        .popen ['w'] { calloc := false, fork := false, fdopen := false } 200, .starts 200 false,
        .popen ['r'] { calloc := false, fork := false, fdopen := false } 201] = some state ∧
      process ∈ state.processes ∧ process.life = .starting start ∧ startChild false process = some changed ∧
      (changed.table start.stdio = some process.mine ↔ ¬ 0 < start.childpid[start.stdio]?.getD 0) ∧
        ∀ fd, changed.table fd = some process.mine → fd = start.stdio := by
  obtain ⟨state, reached⟩ : ∃ state, Run.run (step eightOpen) standard [.closes 1, .closes 0,
      .popen ['w'] { calloc := false, fork := false, fdopen := false } 200, .starts 200 false,
      .popen ['r'] { calloc := false, fork := false, fdopen := false } 201] = some state :=
    Option.isSome_iff_exists.mp (by decide)
  have first : (Run.run (step eightOpen) standard [.closes 1, .closes 0,
      .popen ['w'] { calloc := false, fork := false, fdopen := false } 200, .starts 200 false,
      .popen ['r'] { calloc := false, fork := false, fdopen := false } 201]).map
        (fun state => state.processes.head?.map Process.life) =
          some (some (.starting { reads := true, pfd0 := 0, pfd1 := 3, childpid := [0, 200, 0, 0, 0, 0, 0, 0] })) := by
    decide
  rw [reached, Option.map_some, Option.some_inj] at first
  obtain ⟨process, found, starting⟩ := Option.map_eq_some_iff.mp first
  have member := List.mem_of_mem_head? found
  obtain ⟨changed, started⟩ : ∃ changed, startChild false process = some changed := by
    rw [startChild, starting]
    exact ⟨_, rfl⟩
  exact ⟨state, process, _, changed, reached, member, starting, started,
    command_wired standard_initial reached member starting started⟩

/-- The other end of a stream's pipe is held by the command behind the stream and by what came from it, and by
nobody else: when these have closed it the parent has read to the end. -/
theorem stream_private (initial : Initial begun) (reached : Run.run (step config) begun events = some state) {fp : Nat}
    (known : state.pidAt fp ≠ 0) :
    ∃ child ∈ state.processes, child.pid = state.pidAt fp ∧ state.table fp = some child.mine.opposite ∧
      state.table.Without child.mine ∧
        ∀ other ∈ state.processes, other.ancestor ≠ child.pid → other.table.Without child.mine := by
  obtain ⟨sound, wired⟩ := run_wired initial reached
  obtain ⟨child, stream⟩ := sound.streams fp known
  refine ⟨child, stream.member, stream.pid, stream.here, wired.here child stream.member, fun other inside differs => ?_⟩
  refine wired.others child stream.member other inside fun equal => differs ?_
  rw [wired.ancestors child stream.member other inside equal, stream.ancestor]

theorem stream_private_writer :
    ∃ state, Run.run (step eightOpen) standard twoCommands = some state ∧
      ∃ child ∈ state.processes, child.pid = state.pidAt 3 ∧ state.table 3 = some child.mine.opposite ∧
        state.table.Without child.mine ∧
          ∀ other ∈ state.processes, other.ancestor ≠ child.pid → other.table.Without child.mine := by
  obtain ⟨state, reached, known, -⟩ := twoCommands_reached
  exact ⟨state, reached, stream_private standard_initial reached known⟩

end Dwadelib.Popen
