import Dwadelib.Popen.Streams

namespace Dwadelib.Popen

/-! # Commands

What the program can rely on in every run, whatever the commands do in between: a closed stream ends for
everybody, and the status is the one of the right command.
-/

open Descriptors

variable {config : Config} {begun state closed last after : State} {event : Event} {held : Description}
  {process child : Process} {start : Start} {fd fp pid : Nat} {childpid : List Pid} {events before : List Event}

/-- The parent gets no end of a pipe that was made earlier. -/
theorem step_table (taken : step config state event = some after)
    (old : ∃ number, held.pipe = some number ∧ number < state.pipes) (holds : after.table fd = some held) :
    state.table fd = some held := by
  cases step_effect taken with
  | same => exact holds
  | opened idle fresh returned =>
      cases mPopen_opened returned with
      | nothing same => exact same.table ▸ holds
      | piped same opens => exact (old_kept opens old holds).2.2
      | forked same opens => exact (old_kept opens old (close_eq_some.mp holds).2).2.2
      | stream same opens => exact (old_kept opens old (close_eq_some.mp holds).2).2.2
  | closed fp idle given found known waits => exact (close_eq_some.mp holds).2
  | gaveUp told lasting => exact holds
  | collected pid told waits => exact holds
  | signalled pid idle => exact holds
  | assigned new name idle lowest =>
      rcases assign_eq_some.mp holds with ⟨-, rfl⟩ | ⟨-, holds⟩
      · obtain ⟨number, isPipe, -⟩ := old
        contradiction
      · exact holds
  | dropped closed idle unknown => exact (close_eq_some.mp holds).2
  | acted process member acts => exact holds
  | forked parent pid member running fresh => exact holds

theorem pidAt_read (known : state.pidAt fp ≠ 0) :
    ∃ childpid, state.childpid = some childpid ∧ childpid[fp]? = some (state.pidAt fp) := by
  unfold State.pidAt at known ⊢
  cases given : state.childpid with
  | none =>
      rw [given] at known
      contradiction
  | some childpid =>
      rw [given, Option.getD_some] at known
      cases found : childpid[fp]? with
      | none =>
          rw [found] at known
          contradiction
      | some pid => exact ⟨childpid, rfl, by rw [Option.getD_some, found]; rfl⟩

/-- `m_pclose` on a stream. -/
theorem pclose_step {fcloseFails : Bool} (known : state.pidAt fp ≠ 0)
    (closes : step config state (.pclose fp fcloseFails) = some closed) :
    closed.table = state.table.close fp ∧ (fcloseFails = false → closed.waiting = some (state.pidAt fp)) ∧
      closed.processes = state.processes := by
  obtain ⟨-, taken⟩ := Option.ite_none_right_eq_some.mp closes
  obtain ⟨result, done⟩ := returned_of_map taken
  obtain ⟨childpid, given, found⟩ := pidAt_read known
  have whole : mPclose fp fcloseFails state = (if fcloseFails then
      .returned ({ state with childpid := some (childpid.set fp 0), table := state.table.close fp }, some (-1))
    else .returned ({ state with
      childpid := some (childpid.set fp 0), table := state.table.close fp, waiting := some (state.pidAt fp) }, none)) := by
    rw [mPclose, given]
    simp only [found, Outcome.ofOption_some, Outcome.returned_bind, if_neg known, Outcome.pure_eq]
  rw [whole] at done
  cases fcloseFails
  · cases done
    exact ⟨rfl, fun _ => rfl, rfl⟩
  · cases done
    exact ⟨rfl, fun failed => by contradiction, rfl⟩

/-- From the moment a stream is closed no process that runs a command holds the parent's end of its pipe, nor
does the parent: what is behind the pipe gets to its end, or cannot write any more, whatever other commands
run. -/
theorem pclose_releases {fcloseFails : Bool} (initial : Initial begun)
    (reached : Run.run (step config) begun before = some state) (known : state.pidAt fp ≠ 0)
    (closes : step config state (.pclose fp fcloseFails) = some closed)
    (later : Run.run (step config) closed events = some last) :
    ∃ child ∈ state.processes, child.pid = state.pidAt fp ∧ state.table fp = some child.mine.opposite ∧
      last.table.Without child.mine.opposite ∧
        ∀ process ∈ last.processes, process.started → process.table.Without child.mine.opposite := by
  obtain ⟨child, stream⟩ := (run_sound initial reached).streams fp known
  refine ⟨child, stream.member, stream.pid, stream.here, ?_⟩
  have without : closed.table.Without child.mine.opposite := by
    intro fd holds
    rw [(pclose_step known closes).1] at holds
    obtain ⟨differs, holds⟩ := close_eq_some.mp holds
    exact differs (stream.only fd holds)
  have step_kept : ∀ state event next,
      Guarded child.mine.opposite state ∧ state.table.Without child.mine.opposite →
        step config state event = some next →
          Guarded child.mine.opposite next ∧ next.table.Without child.mine.opposite := by
    intro state event next both taken
    exact ⟨step_guarded both.1 taken, fun fd holds => both.2 fd (step_table taken both.1.old holds)⟩
  have kept := Run.invariant_of_run step_kept ⟨step_guarded stream.guarded closes, without⟩ later
  refine ⟨kept.2, fun process member started => ?_⟩
  have apart := kept.1.away process member
  unfold Process.Apart at apart
  unfold Process.started at started
  split at started
  · contradiction
  · rename_i running
    split at apart
    · rename_i start starting
      exact absurd starting (running start)
    · exact apart

/-- A reader and a writer at once, and something that the reader has left behind. -/
def twoCommands : List Event := [
  .popen ['r'] { calloc := false, fork := false, fdopen := false } 200, .starts 200 false,
  .popen ['w'] { calloc := false, fork := false, fdopen := false } 201, .starts 201 false,
  .childForks 200 202]

def eightOpen : Config := { limit := 8, sysconf := .value 8 }

theorem twoCommands_reached : ∃ state, Run.run (step eightOpen) standard twoCommands = some state ∧
    state.pidAt 3 ≠ 0 ∧ state.pidAt 5 ≠ 0 := by
  obtain ⟨state, reached⟩ : ∃ state, Run.run (step eightOpen) standard twoCommands = some state :=
    Option.isSome_iff_exists.mp (by decide)
  have names : (Run.run (step eightOpen) standard twoCommands).map
      (fun state => decide (state.pidAt 3 ≠ 0 ∧ state.pidAt 5 ≠ 0)) = some true := by decide
  rw [reached] at names
  exact ⟨state, reached, of_decide_eq_true (Option.some.inj names)⟩

theorem pclose_releases_writer :
    ∃ state closed last, Run.run (step eightOpen) standard twoCommands = some state ∧
      step eightOpen state (.pclose 5 false) = some closed ∧
      Run.run (step eightOpen) closed [.exits 201 0, .waitpid] = some last ∧
      ∃ child ∈ state.processes, child.pid = state.pidAt 5 ∧ state.table 5 = some child.mine.opposite ∧
        last.table.Without child.mine.opposite ∧
          ∀ process ∈ last.processes, process.started → process.table.Without child.mine.opposite := by
  obtain ⟨state, reached, -, known⟩ := twoCommands_reached
  have goes : ((Run.run (step eightOpen) standard twoCommands).bind fun state =>
      step eightOpen state (.pclose 5 false)).isSome := by decide
  have ends : ((Run.run (step eightOpen) standard twoCommands).bind fun state =>
      (step eightOpen state (.pclose 5 false)).bind fun closed =>
        Run.run (step eightOpen) closed [.exits 201 0, .waitpid]).isSome := by decide
  rw [reached] at goes ends
  obtain ⟨closed, closes⟩ := Option.isSome_iff_exists.mp goes
  rw [Option.bind_some] at closes ends
  rw [closes] at ends
  obtain ⟨last, later⟩ := Option.isSome_iff_exists.mp ends
  exact ⟨state, closed, last, reached, closes, later, pclose_releases standard_initial reached known closes later⟩

/-- The parent comes back from `waitpid`, and not because of a signal. -/
def Event.endsWait : Event → Bool
  | .waitpid => true
  | .waitFails errno => errno ≠ .EINTR
  | _ => false

/-- While the parent waits, nobody else waits for the child. -/
theorem step_waiting (sound : Sound state) (waits : state.waiting = some pid) (member : child ∈ state.processes)
    (goesOn : event.endsWait = false) (taken : step config state event = some after) :
    after.waiting = some pid ∧ ∃ same ∈ after.processes, Kept child same := by
  have busy : state.waiting ≠ none := waits ▸ Option.some_ne_none pid
  cases step_effect taken with
  | same => exact ⟨waits, child, member, kept_refl child⟩
  | opened idle fresh returned => exact absurd idle busy
  | closed fp idle given found known waits => exact absurd idle busy
  | gaveUp told lasting =>
      subst told
      exact absurd (of_decide_eq_false goesOn) (not_not.mpr lasting)
  | collected pid told waits =>
      subst told
      contradiction
  | signalled pid idle => exact absurd idle busy
  | assigned fd name idle lowest => exact absurd idle busy
  | dropped fd idle unknown => exact absurd idle busy
  | acted process inside acts =>
      exact ⟨waits, _, List.mem_map_of_mem member, alike_acted sound inside acts member⟩
  | forked parent pid inside running fresh =>
      exact ⟨waits, child, List.mem_cons_of_mem _ member, kept_refl child⟩

theorem Kept.trans {same final : Process} (first : Kept process same) (second : Kept same final) :
    Kept process final :=
  ⟨second.pid.trans first.pid, second.mine.trans first.mine, second.ancestor.trans first.ancestor⟩

theorem run_waiting (sound : Sound state) (waits : state.waiting = some pid) (member : child ∈ state.processes)
    (still : ∀ event ∈ events, event.endsWait = false) (ran : Run.run (step config) state events = some last) :
    Sound last ∧ last.waiting = some pid ∧ ∃ same ∈ last.processes, Kept child same := by
  induction events generalizing state child with
  | nil =>
      cases ran
      exact ⟨sound, waits, child, member, kept_refl child⟩
  | cons event events ih =>
      obtain ⟨next, taken, rest⟩ := Run.run_cons_eq_some.mp ran
      obtain ⟨goesOn, still⟩ := List.forall_mem_cons.mp still
      obtain ⟨waits, found, inside, keeps⟩ := step_waiting sound waits member goesOn taken
      obtain ⟨sounds, waiting, same, final, kept⟩ := ih (step_sound sound taken) waits inside still rest
      exact ⟨sounds, waiting, same, final, keeps.trans kept⟩

end Dwadelib.Popen
