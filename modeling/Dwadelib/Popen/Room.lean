import Dwadelib.Popen.Wiring

namespace Dwadelib.Popen

/-! # Room for all descriptors

`childpid[]` is indexed with whatever descriptor a stream has. Where `open_max` promises at least as many as
the system gives, and as many are left of that in an `int`, no call ever leaves the array, however often its
memory could not be had at first.
-/

open Descriptors

variable {config : Config} {begun state after : State} {event : Event} {fd fp pid : Nat} {childpid : List Pid}
  {events : List Event} {faults : Faults} {type : List Char} {result : Option Nat}

/-- The array is as long as there are descriptors, or will be. -/
def Room (config : Config) (state : State) : Prop :=
  match state.childpid with
  | none => (config.limit : Int) ≤ CInt.convert (openMax config.sysconf state.openmax)
  | some childpid => config.limit ≤ childpid.length

structure Roomy (config : Config) (state : State) : Prop where
  within : ∀ fd, config.limit ≤ fd → state.table fd = none
  room : Room config state

theorem openMax_known {openmax : Int} (known : openmax ≠ 0) (sysconf : Sysconf) : openMax sysconf openmax = openmax := by
  unfold openMax
  rw [if_neg known]

theorem openMax_again (sysconf : Sysconf) (openmax : Int) :
    openMax sysconf (openMax sysconf openmax) = openMax sysconf openmax := by
  by_cases first : openMax sysconf openmax = 0
  · have unset : openmax = 0 := by
      by_contra other
      exact other ((openMax_known other sysconf).symm.trans first)
    rw [first, ← unset, first, unset]
  · exact openMax_known first sysconf

theorem allocateChildpid_room (room : Room config state) : Room config (allocateChildpid config faults state) := by
  unfold allocateChildpid
  cases given : state.childpid with
  | some childpid =>
      dsimp only
      exact room
  | none =>
      rw [Room, given] at room
      dsimp only at room ⊢
      split
      · rw [Room]
        dsimp only
        rw [openMax_again]
        exact room
      · rw [Room]
        dsimp only
        rw [List.length_replicate]
        omega

theorem forkChild_room {start : Start} {table : Table} (room : config.limit ≤ start.childpid.length)
    (given : state.childpid = some start.childpid)
    (forked : forkChild start faults pid table state = .returned (after, result)) : Room config after := by
  unfold forkChild at forked
  split at forked
  · cases forked
    rw [Room]
    dsimp only
    rw [given]
    exact room
  · dsimp only at forked
    split at forked
    · cases forked
      rw [Room, State.forked]
      dsimp only
      rw [given]
      exact room
    · split at forked
      · cases forked
        rw [Room]
        dsimp only
        rw [List.length_set]
        exact room
      · contradiction

theorem room_given (room : Room config state) (given : state.childpid = some childpid) :
    config.limit ≤ childpid.length := by
  rw [Room, given] at room
  exact room

theorem mPopen_room (room : Room config state)
    (opened : mPopen config type faults pid state = .returned (after, result)) : Room config after := by
  have allocated : Room config (allocateChildpid config faults state) := allocateChildpid_room room
  unfold mPopen at opened
  split at opened
  · cases opened
    exact room
  · dsimp only at opened
    split at opened
    · cases opened
      exact allocated
    · rename_i childpid given
      split at opened
      · cases opened
        exact allocated
      · exact forkChild_room (room_given allocated given) given opened

theorem dropped_within {start : Start} {piped : Piped} {number : Nat} {table : Table}
    (opens : Opens config.limit number table piped) (pfd0 : start.pfd0 = piped.pfd0) (pfd1 : start.pfd1 = piped.pfd1) :
    start.dropped < config.limit := by
  rcases start.ends with ⟨isDropped, -, -⟩ | ⟨isDropped, -, -⟩
  · rw [isDropped, pfd0]
    exact opens.within0
  · rw [isDropped, pfd1]
    exact opens.within1

theorem forkChild_defined {start : Start} {table : Table} (enough : start.dropped < start.childpid.length) :
    forkChild start faults pid table state ≠ .undefined := by
  unfold forkChild
  dsimp only
  rw [if_pos enough]
  split
  · exact fun equal => nomatch equal
  · split
    · exact fun equal => nomatch equal
    · exact fun equal => nomatch equal

theorem mPopen_defined (room : Room config state) : mPopen config type faults pid state ≠ .undefined := by
  have allocated : Room config (allocateChildpid config faults state) := allocateChildpid_room room
  unfold mPopen
  split
  · exact fun equal => nomatch equal
  · dsimp only
    split
    · exact fun equal => nomatch equal
    · rename_i childpid given
      split
      · exact fun equal => nomatch equal
      · rename_i piped made
        have inside : (Start.mk (type[0]? = some 'r') piped.pfd0 piped.pfd1 childpid).dropped < config.limit :=
          dropped_within (pipe_opens made) rfl rfl
        have enough := Nat.lt_of_lt_of_le inside (room_given allocated given)
        exact forkChild_defined enough

theorem step_roomy (roomy : Roomy config state) (taken : step config state event = some after) :
    Roomy config after := by
  cases step_effect taken with
  | same => exact roomy
  | opened idle fresh returned =>
      refine ⟨?_, mPopen_room roomy.room returned⟩
      cases mPopen_opened returned with
      | nothing same => exact same.table ▸ roomy.within
      | piped same opens => exact opens.within roomy.within
      | forked same opens => exact close_within (opens.within roomy.within) _
      | stream same opens => exact close_within (opens.within roomy.within) _
  | closed fp idle given found known waits =>
      refine ⟨close_within roomy.within fp, ?_⟩
      rw [Room]
      dsimp only
      rw [List.length_set]
      exact room_given roomy.room given
  | gaveUp told lasting => exact ⟨roomy.within, roomy.room⟩
  | collected pid told waits => exact ⟨roomy.within, roomy.room⟩
  | signalled pid idle => exact ⟨roomy.within, roomy.room⟩
  | assigned new name idle lowest =>
      refine ⟨fun fd beyond => ?_, roomy.room⟩
      have differs : fd ≠ new := fun equal => Nat.not_lt.mpr beyond (equal ▸ (lowest_free lowest).1)
      exact (Function.update_of_ne differs _ _).trans (roomy.within fd beyond)
  | dropped closed idle unknown => exact ⟨close_within roomy.within closed, roomy.room⟩
  | acted process member acts => exact ⟨roomy.within, roomy.room⟩
  | forked parent pid member running fresh => exact ⟨roomy.within, roomy.room⟩

/-- No call in any run is undefined, whatever has failed before it. -/
theorem calls_defined (initial : Initial begun)
    (covers : (config.limit : Int) ≤ CInt.convert (openMax config.sysconf begun.openmax))
    (within : ∀ fd, config.limit ≤ fd → begun.table fd = none)
    (reached : Run.run (step config) begun events = some state) :
    (∀ type faults pid, mPopen config type faults pid state ≠ .undefined) ∧
      ∀ fp, state.table fp ≠ none → (∀ fcloseFails, mPclose fp fcloseFails state ≠ .undefined) ∧
        mStopCmd fp state ≠ .undefined := by
  have room : Room config begun := by
    rw [Room, initial.never]
    exact covers
  have start : Roomy config begun := ⟨within, room⟩
  have roomy := Run.invariant_of_run (fun _ _ _ => step_roomy) start reached
  refine ⟨fun type faults pid => mPopen_defined roomy.room, fun fp open_ => ?_⟩
  have less : fp < config.limit := by
    by_contra beyond
    exact open_ (roomy.within fp (Nat.le_of_not_lt beyond))
  have found : ∀ childpid, state.childpid = some childpid → ∃ pid, childpid[fp]? = some pid := by
    intro childpid given
    have inside := Nat.lt_of_lt_of_le less (room_given roomy.room given)
    exact ⟨childpid[fp], List.getElem?_eq_getElem inside⟩
  unfold mPclose mStopCmd
  cases given : state.childpid with
  | none => exact ⟨fun _ equal => (nomatch equal), fun equal => nomatch equal⟩
  | some childpid =>
      obtain ⟨pid, here⟩ := found childpid given
      simp only [here, Outcome.ofOption_some, Outcome.returned_bind]
      refine ⟨fun fcloseFails => ?_, ?_⟩
      · split
        · exact fun equal => nomatch equal
        · split
          · exact fun equal => nomatch equal
          · exact fun equal => nomatch equal
      · split
        · exact fun equal => nomatch equal
        · split
          · exact fun equal => nomatch equal
          · exact fun equal => nomatch equal

theorem calls_defined_eight :
    ∃ state, Run.run (step eightOpen) standard twoCommands = some state ∧
      (∀ type faults pid, mPopen eightOpen type faults pid state ≠ .undefined) ∧
        ∀ fp, state.table fp ≠ none → (∀ fcloseFails, mPclose fp fcloseFails state ≠ .undefined) ∧
          mStopCmd fp state ≠ .undefined := by
  obtain ⟨state, reached, -⟩ := twoCommands_reached
  have within : ∀ fd, eightOpen.limit ≤ fd → standard.table fd = none := by
    intro fd beyond
    have large : 8 ≤ fd := beyond
    exact if_neg (by omega)
  exact ⟨state, reached, calls_defined standard_initial (by decide) within reached⟩

end Dwadelib.Popen
