import Dwadelib.Popen.Commands

namespace Dwadelib.Popen

/-! # Process groups

A child makes a group of its own before its command runs. Whatever the command's processes do with their groups
among themselves, nobody else gets into this one, so a signal to it stays within the command.
-/

open Descriptors

variable {config : Config} {begun state after : State} {event : Event} {earlier process changed : Process}
  {pid fp : Nat} {before : List Event}

/-- A child that has just been forked. -/
structure Newborn (state : State) (process : Process) : Prop where
  ancestor : process.ancestor = process.pid
  fresh : state.fresh process.pid
  group : process.group = state.group
  waits : process.started = false

/-- What is left of a process after a step, or a new one that it has forked. -/
structure Comes (state : State) (event : Event) (earlier process : Process) : Prop where
  ancestor : process.ancestor = earlier.ancestor
  pid : process.pid = earlier.pid ∨ state.fresh process.pid
  waits : process.started = false → earlier.started = false ∧ process.group = earlier.group
  group : process.group = earlier.group ∨ process.group = earlier.pid ∨
    ∃ other ∈ state.processes, other.ancestor = earlier.ancestor ∧ other.group = process.group
  stays : (∀ pid group, event ≠ .childRegroups pid group) → process.life = .running →
    earlier.life = .running ∧ process.group = earlier.group ∨
      earlier.started = false ∧ process.group = earlier.pid

theorem comes_refl (state : State) (event : Event) (process : Process) : Comes state event process process :=
  ⟨rfl, .inl rfl, fun waits => ⟨waits, rfl⟩, .inl rfl, fun _ running => .inl ⟨running, rfl⟩⟩

theorem Acts.comes (acts : Acts state event process changed) : Comes state event process changed := by
  cases acts with
  | starts starting =>
      have waits : process.started = false := by rw [Process.started, starting]
      exact ⟨rfl, .inl rfl, fun going => by contradiction, .inr (.inl rfl), fun _ _ => .inr ⟨waits, rfl⟩⟩
  | rewires running rewired =>
      exact ⟨rfl, .inl rfl, fun waits => ⟨waits, rfl⟩, .inl rfl, fun _ running => .inl ⟨running, rfl⟩⟩
  | regroups told running joins =>
      refine ⟨rfl, .inl rfl, fun waits => ?_, ?_, fun never => absurd told (never _ _)⟩
      · rw [Process.started, running] at waits
        contradiction
      · rcases of_decide_eq_true joins with own | ⟨-, found⟩
        · exact .inr (.inl own)
        · obtain ⟨other, member, alike⟩ := List.any_eq_true.mp found
          exact .inr (.inr ⟨other, member, of_decide_eq_true alike⟩)
  | ends own =>
      refine ⟨rfl, .inl rfl, fun going => by contradiction, ?_, fun _ running => by contradiction⟩
      exact own.imp id .inl

/-- What a step leaves and brings. -/
structure Leads (state : State) (event : Event) (after : State) : Prop where
  group : after.group = state.group
  each : ∀ process ∈ after.processes, Newborn state process ∨ ∃ earlier ∈ state.processes, Comes state event earlier process

theorem Leads.unchanged (event : Event) (group : after.group = state.group)
    (processes : ∀ process ∈ after.processes, process ∈ state.processes) : Leads state event after :=
  ⟨group, fun process member => .inr ⟨process, processes process member, comes_refl state event process⟩⟩

theorem Leads.forked {prepared : State} {start : Start} {table : Descriptors.Table} (event : Event)
    (fresh : state.fresh pid) (same : Quiet state prepared) : Leads state event (prepared.forked start pid table) := by
  refine ⟨same.group, fun process member => ?_⟩
  rcases List.mem_cons.mp member with rfl | old
  · exact .inl ⟨rfl, fresh, same.group, rfl⟩
  · exact .inr ⟨process, same.processes ▸ old, comes_refl state event process⟩

theorem step_leads (taken : step config state event = some after) : Leads state event after := by
  cases step_effect taken with
  | same => exact .unchanged event rfl fun _ member => member
  | opened idle fresh returned =>
      rename_i pid result
      cases mPopen_opened returned with
      | nothing same => exact .unchanged event same.group fun _ member => same.processes ▸ member
      | piped same opens => exact .unchanged event same.group fun _ member => same.processes ▸ member
      | forked same opens => exact .forked event fresh same
      | stream same opens pfd0 pfd1 copied inside reads allowed =>
          rename_i prepared piped start
          have forked : Leads state event (prepared.forked start pid piped.table) := .forked event fresh same
          exact ⟨forked.group, forked.each⟩
  | closed fp idle given found known waits => exact .unchanged event rfl fun _ member => member
  | gaveUp told lasting => exact .unchanged event rfl fun _ member => member
  | collected pid told waits => exact .unchanged event rfl fun _ member => (List.mem_filter.mp member).1
  | signalled pid idle =>
      refine ⟨rfl, fun process member => .inr ?_⟩
      obtain ⟨earlier, before, rfl⟩ := List.mem_map.mp member
      refine ⟨earlier, before, ?_⟩
      split
      · exact ⟨rfl, .inl rfl, fun waits => ⟨waits, rfl⟩, .inl rfl, fun _ running => .inl ⟨running, rfl⟩⟩
      · exact comes_refl state event earlier
  | assigned fd name idle lowest => exact .unchanged event rfl fun _ member => member
  | dropped fd idle unknown => exact .unchanged event rfl fun _ member => member
  | acted process inside acts =>
      refine ⟨rfl, fun other member => .inr ?_⟩
      rcases mem_acted member with rfl | before
      · exact ⟨process, inside, acts.comes⟩
      · exact ⟨other, before, comes_refl state event other⟩
  | forked parent pid known running fresh =>
      refine ⟨rfl, fun process member => .inr ?_⟩
      rcases List.mem_cons.mp member with rfl | old
      · refine ⟨parent, known, rfl, .inr fresh, fun waits => ?_, .inl rfl, fun _ _ => .inl ⟨running, rfl⟩⟩
        rw [Process.started, running] at waits
        contradiction
      · exact ⟨process, old, comes_refl state event process⟩

/-- The group that a child makes is entered only by what comes from that child. -/
structure Grouped (state : State) : Prop where
  waits : ∀ process ∈ state.processes, process.started = false → process.group = state.group
  leaders : ∀ process ∈ state.processes, ∀ other ∈ state.processes, process.pid = other.ancestor →
    process.ancestor = other.ancestor
  family : ∀ process ∈ state.processes, ∀ other ∈ state.processes, process.group = other.ancestor →
    process.ancestor = other.ancestor

theorem Grouped.leads (grouped : Grouped state) (sound : Sound state) (sounds : Sound after)
    (leads : Leads state event after) : Grouped after := by
  constructor
  · intro process member waits
    rw [leads.group]
    rcases leads.each process member with born | ⟨earlier, before, comes⟩
    · exact born.group
    · obtain ⟨waited, same⟩ := comes.waits waits
      exact same.trans (grouped.waits earlier before waited)
  · intro process member other inside leader
    rcases leads.each other inside with bornOther | ⟨second, known, comesOther⟩
    · rw [bornOther.ancestor] at leader
      rw [List.inj_on_of_nodup_map sounds.distinct member inside leader]
    · rw [comesOther.ancestor] at leader ⊢
      have old : ¬ state.fresh process.pid := fun fresh => (fresh_apart fresh known).2.2 leader.symm
      rcases leads.each process member with born | ⟨earlier, before, comes⟩
      · exact absurd born.fresh old
      · have same := comes.pid.resolve_right old
        exact comes.ancestor.trans (grouped.leaders earlier before second known (same ▸ leader))
  · intro process member other inside entered
    rcases leads.each other inside with bornOther | ⟨second, known, comesOther⟩
    · -- nobody is in the group of a new number
      rw [bornOther.ancestor] at entered
      have new := bornOther.fresh
      rcases leads.each process member with born | ⟨earlier, before, comes⟩
      · exact absurd (entered.symm.trans born.group) (of_decide_eq_true new).2.1
      · rcases comes.group with same | own | ⟨relative, isThere, -, joined⟩
        · exact absurd (same.symm.trans entered) (fresh_apart new before).2.1
        · exact absurd (own.symm.trans entered) (fresh_apart new before).1
        · exact absurd (joined.trans entered) (fresh_apart new isThere).2.1
    · rw [comesOther.ancestor] at entered ⊢
      rcases leads.each process member with born | ⟨earlier, before, comes⟩
      · exact absurd (entered.symm.trans born.group) (sound.processes second known).ancestor.2
      · rw [comes.ancestor]
        rcases comes.group with same | own | ⟨relative, isThere, sameAncestor, joined⟩
        · exact grouped.family earlier before second known (same ▸ entered)
        · exact grouped.leaders earlier before second known (own ▸ entered)
        · exact sameAncestor ▸ grouped.family relative isThere second known (joined.trans entered)

theorem run_grouped (initial : Initial begun) (reached : Run.run (step config) begun before = some state) :
    Sound state ∧ Grouped state := by
  have start : Grouped begun := by
    constructor <;>
    · rw [initial.alone]
      exact fun process member => absurd member List.not_mem_nil
  have kept : ∀ state event next, Sound state ∧ Grouped state → step config state event = some next →
      Sound next ∧ Grouped next := fun state event next both taken =>
    ⟨step_sound both.1 taken, both.2.leads both.1 (step_sound both.1 taken) (step_leads taken)⟩
  have both := Run.invariant_of_run kept ⟨initial_sound initial, start⟩ reached
  exact both

/-- All commands are still in the group of their child. -/
def Together (state : State) : Prop :=
  ∀ process ∈ state.processes, process.life = .running → process.group = process.ancestor

/-- Where no process ever changes its group, all that run are together. -/
theorem run_together (initial : Initial begun) (never : ∀ pid group, .childRegroups pid group ∉ before)
    (reached : Run.run (step config) begun before = some state) : Together state := by
  have start : Together begun := by
    intro process member
    rw [initial.alone] at member
    exact absurd member List.not_mem_nil
  have along : Run.Along (step config) (fun _ event => ∀ pid group, event ≠ .childRegroups pid group) begun before :=
    Run.along_of_forall fun event member pid group same => never pid group (same ▸ member)
  have kept : ∀ state event next, Sound state ∧ Together state → (∀ pid group, event ≠ .childRegroups pid group) →
      step config state event = some next → Sound next ∧ Together next := by
    intro state event next both goesOn taken
    refine ⟨step_sound both.1 taken, fun process member running => ?_⟩
    rcases (step_leads taken).each process member with born | ⟨earlier, inside, comes⟩
    · have waits := born.waits
      rw [Process.started, running] at waits
      contradiction
    · rw [comes.ancestor]
      rcases comes.stays goesOn running with ⟨ran, same⟩ | ⟨waited, own⟩
      · exact same.trans (both.2 earlier inside ran)
      · exact own.trans ((both.1.processes earlier inside).first waited)
  exact (Run.invariant_of_along kept ⟨initial_sound initial, start⟩ along reached).2

/-- The signal reaches only what was started for this stream: all of it that has not left the group of the
child, so all that runs if no command changes groups. A child that is not yet its own group gets none, and the
result is the same. -/
theorem stopCmd_signals (initial : Initial begun) (reached : Run.run (step config) begun before = some state)
    (known : state.pidAt fp ≠ 0) :
    ∃ child ∈ state.processes, child.pid = state.pidAt fp ∧ state.table fp = some child.mine.opposite ∧
      mStopCmd fp state = .returned ({ state with
        processes := state.processes.map fun process =>
          if process.ancestor = child.pid ∧ process.started ∧ process.group = process.ancestor ∧ process.alive then
            { process with stopped := true }
          else process }, 0) ∧
      ((∀ pid group, .childRegroups pid group ∉ before) → Together state) := by
  obtain ⟨sound, grouped⟩ := run_grouped initial reached
  obtain ⟨child, stream⟩ := sound.streams fp known
  refine ⟨child, stream.member, stream.pid, stream.here, ?_, fun never => run_together initial never reached⟩
  have isAncestor : child.ancestor = state.pidAt fp := stream.ancestor.trans stream.pid
  have groups : killGroup (state.pidAt fp) state.processes = state.processes.map fun process =>
      if process.ancestor = child.pid ∧ process.started ∧ process.group = process.ancestor ∧ process.alive then
        { process with stopped := true }
      else process := by
    refine List.map_congr_left fun process member => if_congr ?_ rfl rfl
    rw [stream.pid]
    constructor
    · rintro ⟨inside, alive⟩
      have entered : process.group = child.ancestor := inside.trans isAncestor.symm
      have same := (grouped.family process member child stream.member entered).trans isAncestor
      have started : process.started = true := by
        by_contra waits
        have parents := grouped.waits process member (Bool.eq_false_iff.mpr waits)
        exact (sound.processes child stream.member).ancestor.2 (entered.symm.trans parents)
      exact ⟨same, started, inside.trans same.symm, alive⟩
    · rintro ⟨same, -, inside, alive⟩
      exact ⟨inside.trans same, alive⟩
  have big : 1 < state.pidAt fp := isAncestor ▸ (sound.processes child stream.member).ancestor.1
  obtain ⟨childpid, given, found⟩ := pidAt_read known
  rw [← groups, mStopCmd, given]
  simp only [found, Outcome.ofOption_some, Outcome.returned_bind, if_neg known, if_neg (Nat.not_le.mpr big),
    Outcome.pure_eq]

/-- The reader's second process has left the group of the first one. -/
theorem stopCmd_signals_reader :
    ∃ state, Run.run (step eightOpen) standard (twoCommands ++ [.childRegroups 202 202]) = some state ∧
      ∃ child ∈ state.processes, child.pid = state.pidAt 3 ∧ state.table 3 = some child.mine.opposite ∧
        mStopCmd 3 state = .returned ({ state with
          processes := state.processes.map fun process =>
            if process.ancestor = child.pid ∧ process.started ∧ process.group = process.ancestor ∧ process.alive then
              { process with stopped := true }
            else process }, 0) ∧
        ((∀ pid group, .childRegroups pid group ∉ twoCommands ++ [.childRegroups 202 202]) → Together state) := by
  obtain ⟨state, reached⟩ : ∃ state, Run.run (step eightOpen) standard
      (twoCommands ++ [.childRegroups 202 202]) = some state := Option.isSome_iff_exists.mp (by decide)
  have names : (Run.run (step eightOpen) standard (twoCommands ++ [.childRegroups 202 202])).map
      (fun state => decide (state.pidAt 3 ≠ 0)) = some true := by decide
  rw [reached] at names
  have known : state.pidAt 3 ≠ 0 := of_decide_eq_true (Option.some.inj names)
  exact ⟨state, reached, stopCmd_signals standard_initial reached known⟩

end Dwadelib.Popen
