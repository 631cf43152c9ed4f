import Dwadelib.Popen

namespace Dwadelib.Popen

/-! # What a step can do

A step of the parent is a call with what comes of it; a step of another process changes that one, or adds the one
that it forks. Whatever is kept by all steps is proved along these cases.
-/

open Descriptors

variable {config : Config} {state after : State} {event : Event} {process changed other : Process} {table : Table}
  {fd fp pid : Nat} {childpid : List Pid}

theorem fresh_lt (fresh : state.fresh pid) : 1 < pid := (of_decide_eq_true fresh).1

theorem fresh_pos (fresh : state.fresh pid) : 0 < pid := Nat.lt_trans Nat.zero_lt_one (fresh_lt fresh)

/-- Nothing but the room for numbers of children has changed. -/
structure Quiet (state after : State) : Prop where
  table : after.table = state.table
  group : after.group = state.group
  waiting : after.waiting = state.waiting
  processes : after.processes = state.processes
  pipes : after.pipes = state.pipes
  pidAt : ∀ fd, after.pidAt fd = state.pidAt fd

theorem quiet_refl (state : State) : Quiet state state := ⟨rfl, rfl, rfl, rfl, rfl, fun _ => rfl⟩

theorem allocateChildpid_quiet (config : Config) (faults : Faults) (state : State) :
    Quiet state (allocateChildpid config faults state) := by
  unfold allocateChildpid
  split
  · exact quiet_refl state
  · rename_i never
    dsimp only
    split
    · exact ⟨rfl, rfl, rfl, rfl, rfl, fun _ => rfl⟩
    · refine ⟨rfl, rfl, rfl, rfl, rfl, fun fd => ?_⟩
      rw [State.pidAt, State.pidAt, never, Option.getD_some, List.getElem?_replicate]
      split <;> rfl

/-- What a call of `m_popen` comes to. -/
inductive Opened (config : Config) (type : List Char) (pid : Pid) (state : State) : State → Option Nat → Prop where
  | nothing {after : State} (quiet : Quiet state after) : Opened config type pid state after none
  | piped {quiet : State} {piped : Piped} (same : Quiet state quiet)
      (opens : Opens config.limit state.pipes state.table piped) :
      Opened config type pid state { quiet with table := piped.table, pipes := quiet.pipes + 1 } none
  | forked {quiet : State} {piped : Piped} {start : Start} (same : Quiet state quiet)
      (opens : Opens config.limit state.pipes state.table piped) (pfd0 : start.pfd0 = piped.pfd0)
      (pfd1 : start.pfd1 = piped.pfd1) (copied : quiet.childpid = some start.childpid) :
      Opened config type pid state (quiet.forked start pid piped.table) none
  | stream {quiet : State} {piped : Piped} {start : Start} (same : Quiet state quiet)
      (opens : Opens config.limit state.pipes state.table piped) (pfd0 : start.pfd0 = piped.pfd0)
      (pfd1 : start.pfd1 = piped.pfd1) (copied : quiet.childpid = some start.childpid)
      (inside : start.dropped < start.childpid.length) (reads : start.reads = decide (type = ['r']))
      (allowed : type = ['r'] ∨ type = ['w']) :
      Opened config type pid state
        { quiet.forked start pid piped.table with childpid := some (start.childpid.set start.dropped pid) }
        (some start.dropped)

theorem allowed_type {type : List Char}
    (allowed : ¬ ((type[0]? ≠ some 'r' ∧ type[0]? ≠ some 'w') ∨ type[1]? ≠ none)) : type = ['r'] ∨ type = ['w'] := by
  obtain ⟨first, second⟩ := not_or.mp allowed
  rw [ne_eq, ne_eq, ← not_or, not_not] at first
  rw [ne_eq, not_not, List.getElem?_eq_none_iff] at second
  match type with
  | [] => simp at first
  | [letter] => simpa using first
  | _ :: _ :: _ => simp at second

theorem mPopen_opened {type : List Char} {faults : Faults} {result : Option Nat}
    (opened : mPopen config type faults pid state = .returned (after, result)) :
    Opened config type pid state after result := by
  have quiet := allocateChildpid_quiet config faults state
  unfold mPopen at opened
  split at opened
  · cases opened
    exact .nothing (quiet_refl state)
  · rename_i given
    have allowed := allowed_type given
    dsimp only at opened
    split at opened
    · cases opened
      exact .nothing quiet
    · rename_i childpid copied
      split at opened
      · cases opened
        exact .nothing quiet
      · rename_i piped made
        rw [quiet.pipes, quiet.table] at made
        have opens := pipe_opens made
        unfold forkChild at opened
        split at opened
        · cases opened
          exact .piped quiet opens
        · dsimp only at opened
          split at opened
          · cases opened
            exact .forked quiet opens rfl rfl copied
          · split at opened
            · rename_i inside
              cases opened
              refine .stream quiet opens rfl rfl copied inside ?_ allowed
              rcases allowed with rfl | rfl <;> rfl
            · contradiction

/-- A call of `m_pclose` that found the stream. -/
theorem mPclose_cases {fcloseFails : Bool} {result : Option Int}
    (closed : mPclose fp fcloseFails state = .returned (after, result)) :
    after = state ∨ ∃ childpid pid waiting, state.childpid = some childpid ∧ childpid[fp]? = some pid ∧ pid ≠ 0 ∧
      after = { state with
        childpid := some (childpid.set fp 0), table := state.table.close fp, waiting := waiting } ∧
      (waiting = if fcloseFails then state.waiting else some pid) := by
  unfold mPclose at closed
  split at closed
  · cases closed
    exact .inl rfl
  · rename_i childpid given
    cases found : childpid[fp]? with
    | none =>
        rw [found] at closed
        contradiction
    | some pid =>
        rw [found, Outcome.ofOption_some, Outcome.returned_bind] at closed
        split at closed
        · cases closed
          exact .inl rfl
        · rename_i known
          refine .inr ⟨childpid, pid, _, given, found, known, ?_, rfl⟩
          cases fcloseFails <;> cases closed <;> rfl

theorem waitpid_cases {status : Int} (waited : waitpid state = some (after, status)) :
    ∃ pid process ending, state.waiting = some pid ∧ process ∈ state.processes ∧ process.pid = pid ∧
      process.life = .ended ending ∧ status = ending.waitStatus ∧ after = { state with
        waiting := none, processes := state.processes.filter fun process => process.pid ≠ pid } := by
  obtain ⟨pid, waits, waited⟩ := Option.bind_eq_some_iff.mp waited
  obtain ⟨process, found, waited⟩ := Option.bind_eq_some_iff.mp waited
  split at waited
  · rename_i ending ended
    cases waited
    exact ⟨pid, process, ending, waits, List.mem_of_find?_eq_some found, by simpa using List.find?_some found, ended,
      rfl, rfl⟩
  · contradiction

/-- The parent waits on, gives up, or has got its child. -/
theorem mPcloseWait_cases {failure : Option Errno} {result : Option Int}
    (waited : mPcloseWait failure state = some (after, result)) :
    after = state ∧ failure = some .EINTR ∧ result = none ∨
      after = { state with waiting := none } ∧ (∃ errno ≠ .EINTR, failure = some errno) ∧ result = some (-1) ∨
      ∃ status, failure = none ∧ waitpid state = some (after, status) ∧ result = some status := by
  unfold mPcloseWait at waited
  split at waited
  · obtain ⟨answer, answered, same⟩ := Option.map_eq_some_iff.mp waited
    cases same
    exact .inr (.inr ⟨answer.2, rfl, answered, rfl⟩)
  · obtain ⟨-, waited⟩ := Option.ite_none_left_eq_some.mp waited
    split at waited
    · rename_i other
      cases waited
      exact .inr (.inl ⟨rfl, ⟨_, other, rfl⟩, rfl⟩)
    · rename_i interrupted
      cases waited
      exact .inl ⟨rfl, congrArg some (not_not.mp interrupted), rfl⟩

theorem mStopCmd_cases {result : Int} (stopped : mStopCmd fp state = .returned (after, result)) :
    after = state ∨ ∃ pid, after = { state with processes := killGroup pid state.processes } := by
  unfold mStopCmd at stopped
  split at stopped
  · cases stopped
    exact .inl rfl
  · rename_i childpid given
    cases found : childpid[fp]? with
    | none =>
        rw [found] at stopped
        contradiction
    | some pid =>
        rw [found, Outcome.ofOption_some, Outcome.returned_bind] at stopped
        split at stopped
        · cases stopped
          exact .inl rfl
        · split at stopped
          · cases stopped
            exact .inl rfl
          · cases stopped
            exact .inr ⟨pid, rfl⟩

theorem returned_of_map {α : Type} {outcome : Outcome (State × α)}
    (taken : (outcome.toOption.map fun result => result.1) = some after) :
    ∃ result, outcome = .returned (after, result) := by
  obtain ⟨result, returned, rfl⟩ := Option.map_eq_some_iff.mp taken
  cases outcome with
  | returned found =>
      cases returned
      exact ⟨result.2, rfl⟩
  | running => contradiction
  | undefined => contradiction
  | aborted => contradiction

/-- What a command may do to its descriptors: it gets no end of a pipe that it did not have. -/
structure Rewired (table changed : Table) : Prop where
  without : ∀ held, (∃ number, held.pipe = some number) → table.Without held → changed.Without held
  below : ∀ pipes, table.Below pipes → changed.Below pipes

theorem rewired_assign (table : Table) (fd name : Nat) : Rewired table (table.assign fd (.other name)) := by
  refine ⟨fun held isEnd without => without_assign without ?_ fd, fun pipes below => below.assign fd⟩
  rintro rfl
  obtain ⟨number, isPipe⟩ := isEnd
  contradiction

theorem rewired_close (table : Table) (fd : Nat) : Rewired table (table.close fd) :=
  ⟨fun _ _ without => without_close without fd, fun _ below => below.close fd⟩

theorem rewired_dup2 (table : Table) (old new : Nat) : Rewired table (table.dup2 old new) :=
  ⟨fun _ _ without => without_dup2 without old new, fun _ below => below.dup2 old new⟩

/-- What a process does to itself. -/
inductive Acts (state : State) (event : Event) (process : Process) : Process → Prop where
  | starts {start : Start} (starting : process.life = .starting start) :
      Acts state event process { process with
        group := process.pid, table := start.wire process.table, life := .running }
  | rewires {table : Table} (running : process.life = .running) (rewired : Rewired process.table table) :
      Acts state event process { process with table := table }
  | regroups {pid group : Pid} (told : event = .childRegroups pid group) (running : process.life = .running)
      (joins : state.mayJoin process group = true) : Acts state event process { process with group := group }
  | ends {group : Pid} {ending : Ending} (own : group = process.group ∨ group = process.pid) :
      Acts state event process { process with group := group, table := fun _ => none, life := .ended ending }

theorem startChild_acts {execlFails : Bool} (started : startChild execlFails process = some changed) :
    Acts state event process changed := by
  unfold startChild at started
  split at started
  · rename_i start starting
    split at started
    · cases started
      exact .ends (.inr rfl)
    · cases started
      exact .starts starting
  · contradiction

theorem whileRunning_acts (rewired : Rewired process.table table) (ran : whileRunning process table = some changed) :
    Acts state event process changed := by
  obtain ⟨running, same⟩ := Option.ite_none_right_eq_some.mp ran
  cases same
  exact .rewires running rewired

theorem regroup_acts {group : Pid} (regrouped : state.regroup group process = some changed) :
    Acts state (.childRegroups pid group) process changed := by
  obtain ⟨⟨running, joins⟩, same⟩ := Option.ite_none_right_eq_some.mp regrouped
  cases same
  exact .regroups rfl running joins

theorem endProcess_acts {ending : Ending} (ended : endProcess ending process = some changed) :
    Acts state event process changed := by
  obtain ⟨-, same⟩ := Option.ite_none_right_eq_some.mp ended
  cases same
  exact .ends (.inl rfl)

/-- What comes of a step. -/
inductive Effect (config : Config) (state : State) (event : Event) : State → Prop where
  | same : Effect config state event state
  | opened {type : List Char} {faults : Faults} {pid : Pid} {after : State} {result : Option Nat}
      (idle : state.waiting = none) (fresh : state.fresh pid)
      (returned : mPopen config type faults pid state = .returned (after, result)) : Effect config state event after
  | closed (fp : Nat) {childpid : List Pid} {pid : Pid} {waiting : Option Pid} (idle : state.waiting = none)
      (given : state.childpid = some childpid) (found : childpid[fp]? = some pid) (known : pid ≠ 0)
      (waits : waiting = none ∨ waiting = some pid) :
      Effect config state event { state with
        childpid := some (childpid.set fp 0), table := state.table.close fp, waiting := waiting }
  | gaveUp {errno : Errno} (told : event = .waitFails errno) (lasting : errno ≠ .EINTR) :
      Effect config state event { state with waiting := none }
  | collected (pid : Pid) (told : event = .waitpid) (waits : state.waiting = some pid) :
      Effect config state event { state with
        waiting := none, processes := state.processes.filter fun process => process.pid ≠ pid }
  | signalled (pid : Pid) (idle : state.waiting = none) :
      Effect config state event { state with processes := killGroup pid state.processes }
  | assigned (fd name : Nat) (idle : state.waiting = none) (lowest : state.table.lowest config.limit = some fd) :
      Effect config state event { state with table := state.table.assign fd (.other name) }
  | dropped (fd : Nat) (idle : state.waiting = none) (unknown : state.pidAt fd = 0) :
      Effect config state event { state with table := state.table.close fd }
  | acted (process : Process) {changed : Process} (member : process ∈ state.processes)
      (acts : Acts state event process changed) :
      Effect config state event { state with
        processes := state.processes.map fun other => if other.pid = process.pid then changed else other }
  | forked (parent : Process) (pid : Pid) (member : parent ∈ state.processes) (running : parent.life = .running)
      (fresh : state.fresh pid) :
      Effect config state event { state with
        processes := { parent with pid := pid, stopped := false } :: state.processes }

theorem Effect.change {change : Process → Option Process} (changes : state.change pid change = some after)
    (acts : ∀ process changed, change process = some changed → Acts state event process changed) :
    Effect config state event after := by
  obtain ⟨process, found, changes⟩ := Option.bind_eq_some_iff.mp changes
  obtain ⟨changed, result, same⟩ := Option.bind_eq_some_iff.mp changes
  have holds := List.find?_some found
  have isPid : process.pid = pid := of_decide_eq_true holds
  cases same
  rw [← isPid]
  exact .acted process (List.mem_of_find?_eq_some found) (acts process changed result)

theorem Effect.waited (failure : Option Errno)
    (told : event = match failure with
      | none => .waitpid
      | some errno => .waitFails errno)
    (taken : ((mPcloseWait failure state).map fun result => result.1) = some after) :
    Effect config state event after := by
  obtain ⟨⟨left, result⟩, waited, same⟩ := Option.map_eq_some_iff.mp taken
  subst same
  rcases mPcloseWait_cases waited with ⟨same, -⟩ | ⟨same, ⟨errno, lasting, rfl⟩, -⟩ | ⟨status, rfl, answered, -⟩
  · exact same ▸ .same
  · exact same ▸ .gaveUp told lasting
  · obtain ⟨pid, process, ending, waits, -, -, -, -, same⟩ := waitpid_cases answered
    exact same ▸ .collected pid told waits

/-- Every step is one of these. -/
theorem step_effect (taken : step config state event = some after) : Effect config state event after := by
  cases event with
  | popen type faults pid =>
      obtain ⟨⟨idle, fresh⟩, taken⟩ := Option.ite_none_right_eq_some.mp taken
      obtain ⟨result, returned⟩ := returned_of_map taken
      exact .opened idle fresh returned
  | pclose fp fcloseFails =>
      obtain ⟨⟨idle, -⟩, taken⟩ := Option.ite_none_right_eq_some.mp taken
      obtain ⟨result, returned⟩ := returned_of_map taken
      rcases mPclose_cases returned with rfl | ⟨childpid, pid, waiting, given, found, known, rfl, rfl⟩
      · exact .same
      · refine .closed fp idle given found known ?_
        cases fcloseFails
        · exact .inr rfl
        · exact .inl idle
  | waitpid => exact .waited none rfl taken
  | waitFails errno => exact .waited (some errno) rfl taken
  | stopCmd fp =>
      obtain ⟨⟨idle, -⟩, taken⟩ := Option.ite_none_right_eq_some.mp taken
      obtain ⟨result, returned⟩ := returned_of_map taken
      rcases mStopCmd_cases returned with rfl | ⟨pid, rfl⟩
      · exact .same
      · exact .signalled pid idle
  | opens name =>
      obtain ⟨idle, taken⟩ := Option.ite_none_right_eq_some.mp taken
      obtain ⟨fd, lowest, rfl⟩ := Option.map_eq_some_iff.mp taken
      exact .assigned fd name idle lowest
  | closes fd =>
      obtain ⟨⟨idle, unknown⟩, same⟩ := Option.ite_none_right_eq_some.mp taken
      cases same
      exact .dropped fd idle unknown
  | starts pid execlFails => exact .change taken fun _ _ => startChild_acts
  | childOpens pid fd name =>
      exact .change taken fun process _ => whileRunning_acts (rewired_assign process.table fd name)
  | childCloses pid fd => exact .change taken fun process _ => whileRunning_acts (rewired_close process.table fd)
  | childDups pid old new =>
      exact .change taken fun process _ => whileRunning_acts (rewired_dup2 process.table old new)
  | childForks pid new =>
      obtain ⟨fresh, taken⟩ := Option.ite_none_right_eq_some.mp taken
      obtain ⟨parent, found, rfl⟩ := Option.map_eq_some_iff.mp taken
      have holds := List.find?_some found
      exact .forked parent new (List.mem_of_find?_eq_some found) (of_decide_eq_true holds).2 fresh
  | childRegroups pid group => exact .change taken fun _ _ => regroup_acts
  | exits pid code => exact .change taken fun _ _ => endProcess_acts
  | killed pid signal dumped => exact .change taken fun _ _ => endProcess_acts

/-- A process after one of them has changed itself. -/
theorem mem_acted
    (member : other ∈ state.processes.map fun other => if other.pid = process.pid then changed else other) :
    other = changed ∨ other ∈ state.processes := by
  obtain ⟨earlier, before, rfl⟩ := List.mem_map.mp member
  split
  · exact .inl rfl
  · exact .inr before

end Dwadelib.Popen
