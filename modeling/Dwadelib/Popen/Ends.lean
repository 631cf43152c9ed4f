import Dwadelib.Popen.Steps

namespace Dwadelib.Popen

/-! # Who holds the parent's end of a pipe

A child closes what its copy of `childpid[]` names, so no command ever holds the parent's end of a pipe of
another command. This is kept by every step of every process, for each end on its own.
-/

open Descriptors

variable {config : Config} {state after : State} {event : Event} {held : Description} {process changed : Process}
  {start : Start} {table : Table} {fd fp pid : Nat} {childpid : List Pid}

theorem closeStreams_eq (childpid : List Pid) (table : Table) :
    closeStreams childpid table = fun fd => if 0 < childpid[fd]?.getD 0 then none else table fd := by
  have folded : ∀ count, (List.range count).foldl
      (fun table i => if 0 < childpid[i]?.getD 0 then Table.close table i else table) table =
        fun fd => if fd < count ∧ 0 < childpid[fd]?.getD 0 then none else table fd := by
    intro count
    induction count with
    | zero => simp
    | succ count ih =>
        rw [List.range_succ, List.foldl_append, ih, List.foldl_cons, List.foldl_nil]
        funext fd
        split
        · rename_i named
          rw [Table.close, Function.update_apply]
          by_cases same : fd = count
          · subst same
            simp [named]
          · have less : fd < count + 1 ↔ fd < count := by omega
            simp [same, less]
        · rename_i unnamed
          by_cases same : fd = count
          · subst same
            simp [unnamed]
          · have less : fd < count + 1 ↔ fd < count := by omega
            simp [less]
  rw [closeStreams, folded]
  funext fd
  by_cases named : 0 < childpid[fd]?.getD 0
  · have inside : fd < childpid.length := by
      by_contra beyond
      rw [List.getElem?_eq_none (Nat.le_of_not_lt beyond)] at named
      contradiction
    simp [inside]
  · simp [named]

theorem Start.kept_cases (start : Start) : start.kept = start.pfd0 ∨ start.kept = start.pfd1 := by
  unfold Start.kept
  split
  · exact .inr rfl
  · exact .inl rfl

/-- The descriptors that the child of this start closes. -/
def Start.Closes (start : Start) (fd : Nat) : Prop := fd = start.dropped ∨ 0 < start.childpid[fd]?.getD 0

theorem wire_without (elsewhere : ∀ fd, table fd = some held → start.Closes fd)
    (differs : table start.kept ≠ some held) : (start.wire table).Without held := by
  intro fd holds
  rw [Start.wire, closeStreams_eq] at holds
  obtain ⟨unnamed, holds⟩ := (Option.ite_none_left_eq_some).mp holds
  have untouched : ∀ fd, ¬ 0 < start.childpid[fd]?.getD 0 → (table.close start.dropped) fd ≠ some held := by
    intro fd unnamed holds
    obtain ⟨open_, found⟩ := close_eq_some.mp holds
    exact (elsewhere fd found).elim open_ unnamed
  have notKept : (table.close start.dropped) start.kept ≠ some held := fun holds =>
    differs (close_eq_some.mp holds).2
  split at holds
  · obtain ⟨-, holds⟩ := close_eq_some.mp holds
    rcases dup2_eq_some.mp holds with ⟨-, found⟩ | ⟨-, found⟩
    · exact notKept found
    · exact untouched fd unnamed found
  · exact untouched fd unnamed holds

/-- What has been started does not hold the end, and what is going to be will have closed it. -/
def Process.Apart (held : Description) (process : Process) : Prop :=
  match process.life with
  | .starting start => process.table start.kept ≠ some held ∧ ∀ fd, process.table fd = some held → start.Closes fd
  | _ => process.table.Without held

/-- The parent holds the end at descriptors of streams only, nobody else does, and the pipe is an old one. -/
structure Guarded (held : Description) (state : State) : Prop where
  here : ∀ fd, state.table fd = some held → 0 < state.pidAt fd
  away : ∀ process ∈ state.processes, process.Apart held
  old : ∃ number, held.pipe = some number ∧ number < state.pipes

theorem apart_without (without : process.table.Without held) : process.Apart held := by
  unfold Process.Apart
  split
  · exact ⟨without _, fun fd holds => absurd holds (without fd)⟩
  · exact without

theorem apart_running (apart : process.Apart held) (running : process.life = .running) :
    process.table.Without held := by
  rwa [Process.Apart, running] at apart

theorem Acts.apart (acts : Acts state event process changed) (isEnd : ∃ number, held.pipe = some number)
    (apart : process.Apart held) : changed.Apart held := by
  cases acts with
  | starts starting =>
      rw [Process.Apart, starting] at apart
      obtain ⟨differs, elsewhere⟩ := apart
      exact apart_without (wire_without elsewhere differs)
  | rewires running rewired => exact apart_without (rewired.without held isEnd (apart_running apart running))
  | regroups told running joins => exact apart_without (apart_running apart running)
  | ends own => exact apart_without fun fd holds => nomatch holds

section Opened

variable {type : List Char} {prepared : State} {piped : Piped}

theorem Guarded.unchanged (guarded : Guarded held state) (same : Quiet state after) : Guarded held after := by
  refine ⟨fun fd holds => ?_, fun process member => ?_, ?_⟩
  · rw [same.table] at holds
    rw [same.pidAt]
    exact guarded.here fd holds
  · rw [same.processes] at member
    exact guarded.away process member
  · rw [same.pipes]
    exact guarded.old

/-- The ends of a new pipe are no old ones. -/
theorem old_kept (opens : Opens config.limit state.pipes state.table piped)
    (old : ∃ number, held.pipe = some number ∧ number < state.pipes) (holds : piped.table fd = some held) :
    fd ≠ piped.pfd0 ∧ fd ≠ piped.pfd1 ∧ state.table fd = some held := by
  obtain ⟨number, isPipe, less⟩ := old
  have not0 : fd ≠ piped.pfd0 := by
    rintro rfl
    cases opens.reading.symm.trans holds
    cases isPipe
    exact Nat.lt_irrefl _ less
  have not1 : fd ≠ piped.pfd1 := by
    rintro rfl
    cases opens.writing.symm.trans holds
    cases isPipe
    exact Nat.lt_irrefl _ less
  exact ⟨not0, not1, (opens.kept fd not0 not1) ▸ holds⟩

theorem old_mono {more : Nat} (old : ∃ number, held.pipe = some number ∧ number < state.pipes)
    (le : state.pipes ≤ more) : ∃ number, held.pipe = some number ∧ number < more := by
  obtain ⟨number, isPipe, less⟩ := old
  exact ⟨number, isPipe, Nat.lt_of_lt_of_le less le⟩

theorem Guarded.forked (guarded : Guarded held state) (same : Quiet state prepared)
    (opens : Opens config.limit state.pipes state.table piped) (pfd0 : start.pfd0 = piped.pfd0)
    (pfd1 : start.pfd1 = piped.pfd1) (copied : prepared.childpid = some start.childpid) :
    Guarded held (prepared.forked start pid piped.table) := by
  have named : ∀ fd, piped.table fd = some held → 0 < prepared.pidAt fd := fun fd holds =>
    (same.pidAt fd).symm ▸ guarded.here fd (old_kept opens guarded.old holds).2.2
  constructor
  · intro fd holds
    exact named fd (close_eq_some.mp holds).2
  · intro process member
    rcases List.mem_cons.mp member with rfl | earlier
    · refine ⟨fun holds => ?_, fun fd holds => .inr ?_⟩
      · obtain ⟨not0, not1, -⟩ := old_kept opens guarded.old holds
        rcases start.kept_cases with isKept | isKept
        · exact not0 (isKept.trans pfd0)
        · exact not1 (isKept.trans pfd1)
      · have positive := named fd holds
        rwa [State.pidAt, copied, Option.getD_some] at positive
    · rw [same.processes] at earlier
      exact guarded.away process earlier
  · exact old_mono guarded.old (same.pipes ▸ Nat.le_succ _)

theorem pidAt_set {other : Nat} (given : state.childpid = some childpid) (inside : fd < childpid.length)
    (written : after.childpid = some (childpid.set fd pid)) :
    after.pidAt other = if other = fd then pid else state.pidAt other := by
  rw [State.pidAt, State.pidAt, given, written, Option.getD_some, Option.getD_some, List.getElem?_set]
  by_cases same : fd = other
  · rw [if_pos same, if_pos inside, if_pos same.symm]
    rfl
  · rw [if_neg same, if_neg (Ne.symm same)]

theorem Guarded.opened {result : Option Nat} (guarded : Guarded held state) (positive : 0 < pid)
    (opened : Opened config type pid state after result) : Guarded held after := by
  cases opened with
  | nothing same => exact guarded.unchanged same
  | piped same opens =>
      refine ⟨fun fd holds => ?_, fun process member => ?_, ?_⟩
      · have earlier := guarded.here fd (old_kept opens guarded.old holds).2.2
        rw [← same.pidAt fd] at earlier
        exact earlier
      · rw [same.processes] at member
        exact guarded.away process member
      · exact old_mono guarded.old (same.pipes ▸ Nat.le_succ _)
  | forked same opens pfd0 pfd1 copied => exact guarded.forked same opens pfd0 pfd1 copied
  | stream same opens pfd0 pfd1 copied inside reads allowed =>
      rename_i prepared piped start
      have whole : Guarded held (prepared.forked start pid piped.table) :=
        guarded.forked same opens pfd0 pfd1 copied
      refine ⟨fun fd holds => ?_, whole.away, whole.old⟩
      rw [pidAt_set copied inside rfl]
      split
      · exact positive
      · exact whole.here fd holds

end Opened

theorem killGroup_apart (aparts : ∀ process ∈ state.processes, process.Apart held) :
    ∀ process ∈ killGroup pid state.processes, process.Apart held := by
  intro process member
  obtain ⟨earlier, before, rfl⟩ := List.mem_map.mp member
  split
  · exact aparts earlier before
  · exact aparts earlier before

theorem Guarded.fewer (guarded : Guarded held state) (fd : Nat) :
    Guarded held { state with table := state.table.close fd } :=
  ⟨fun other holds => guarded.here other (close_eq_some.mp holds).2, guarded.away, guarded.old⟩

/-- One step, of the parent or of any other process. -/
theorem step_guarded (guarded : Guarded held state) (taken : step config state event = some after) :
    Guarded held after := by
  obtain ⟨number, isPipe, -⟩ := guarded.old
  cases step_effect taken with
  | same => exact guarded
  | opened idle fresh returned => exact guarded.opened (fresh_pos fresh) (mPopen_opened returned)
  | closed fp idle given found known waits =>
      refine ⟨fun fd holds => ?_, guarded.away, guarded.old⟩
      obtain ⟨differs, holds⟩ := close_eq_some.mp holds
      rw [pidAt_set given (List.getElem?_eq_some_iff.mp found).1 rfl, if_neg differs]
      exact guarded.here fd holds
  | gaveUp told lasting => exact ⟨guarded.here, guarded.away, guarded.old⟩
  | collected pid told waits =>
      exact ⟨guarded.here, fun other member => guarded.away other (List.mem_filter.mp member).1, guarded.old⟩
  | signalled pid idle => exact ⟨guarded.here, killGroup_apart guarded.away, guarded.old⟩
  | assigned fd name idle lowest =>
      refine ⟨fun other holds => ?_, guarded.away, guarded.old⟩
      rcases assign_eq_some.mp holds with ⟨-, rfl⟩ | ⟨-, holds⟩
      · contradiction
      · exact guarded.here other holds
  | dropped fd idle unknown => exact guarded.fewer fd
  | acted process member acts =>
      refine ⟨guarded.here, fun other inside => ?_, guarded.old⟩
      rcases mem_acted inside with rfl | before
      · exact acts.apart ⟨number, isPipe⟩ (guarded.away process member)
      · exact guarded.away other before
  | forked parent pid member running fresh =>
      refine ⟨guarded.here, fun other inside => ?_, guarded.old⟩
      rcases List.mem_cons.mp inside with rfl | earlier
      · exact guarded.away parent member
      · exact guarded.away other earlier

end Dwadelib.Popen
