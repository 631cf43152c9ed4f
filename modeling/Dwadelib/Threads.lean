import Dwadelib.Run
import Mathlib.Algebra.Order.Ring.Nat

namespace Dwadelib

/-! # Threads

The program of a thread is a list of actions. A step is the next action of one of the threads: it changes what they
share, or it has to wait. How far the others are may decide that, as for a join. No program gets longer, so every
schedule comes to a state where nothing can move.
-/

structure Threads (σ α : Type) where
  shared : σ
  programs : List (List α)

namespace Threads

variable {σ α : Type} {perform : Threads σ α → Nat → α → Option σ} {threads next final start : Threads σ α}
  {thread : Nat} {schedule : List Nat} {action : α} {program rest : List α}

def step (perform : Threads σ α → Nat → α → Option σ) (threads : Threads σ α) (thread : Nat) :
    Option (Threads σ α) :=
  match threads.programs[thread]? with
  | some (action :: rest) =>
      (perform threads thread action).map fun shared => { shared, programs := threads.programs.set thread rest }
  | _ => none

/-- What a step can do. -/
theorem step_eq_some : step perform threads thread = some next ↔
    ∃ action rest shared, threads.programs[thread]? = some (action :: rest) ∧
      perform threads thread action = some shared ∧ next = { shared, programs := threads.programs.set thread rest } := by
  rw [step]
  constructor
  · intro taken
    split at taken
    · rename_i action rest found
      obtain ⟨shared, performed, rfl⟩ := Option.map_eq_some_iff.mp taken
      exact ⟨action, rest, shared, found, performed, rfl⟩
    · contradiction
  · rintro ⟨action, rest, shared, found, performed, rfl⟩
    rw [found]
    simp only [performed, Option.map_some]

theorem step_none (blocked : step perform threads thread = none)
    (found : threads.programs[thread]? = some (action :: rest)) : perform threads thread action = none := by
  simp only [step, found, Option.map_eq_none_iff] at blocked
  exact blocked

/-- The number of actions that are left. -/
def left (threads : Threads σ α) : Nat := (threads.programs.map List.length).sum

/-- Nothing can move. -/
def Stuck (perform : Threads σ α → Nat → α → Option σ) (threads : Threads σ α) : Prop :=
  ∀ thread, step perform threads thread = none

def Done (threads : Threads σ α) : Prop := ∀ program ∈ threads.programs, program = []

/-- Where every schedule ends that goes on as long as it can. -/
def Ends (perform : Threads σ α → Nat → α → Option σ) (start : Threads σ α) (good : Threads σ α → Prop) : Prop :=
  ∀ schedule final, Run.run (step perform) start schedule = some final → Stuck perform final → good final

theorem sum_set {programs : List (List α)} {f : List α → Nat} (found : programs[thread]? = some program) :
    ((programs.set thread rest).map f).sum + f program = (programs.map f).sum + f rest := by
  induction programs generalizing thread with
  | nil => contradiction
  | cons other programs ih =>
      cases thread with
      | zero =>
          cases found
          simp only [List.set_cons_zero, List.map_cons, List.sum_cons]
          omega
      | succ thread =>
          have same := ih found
          simp only [List.set_cons_succ, List.map_cons, List.sum_cons]
          omega

theorem left_step (taken : step perform threads thread = some next) : next.left + 1 = threads.left := by
  obtain ⟨action, rest, shared, found, -, rfl⟩ := step_eq_some.mp taken
  have sum : ((threads.programs.set thread rest).map List.length).sum + (rest.length + 1) =
      (threads.programs.map List.length).sum + rest.length := sum_set found
  show ((threads.programs.set thread rest).map List.length).sum + 1 = (threads.programs.map List.length).sum
  omega

/-- No schedule goes on for ever. -/
theorem left_run (reached : Run.run (step perform) start schedule = some final) :
    final.left + schedule.length = start.left := by
  induction schedule generalizing start with
  | nil =>
      cases reached
      rfl
  | cons thread schedule ih =>
      obtain ⟨next, taken, later⟩ := Run.run_cons_eq_some.mp reached
      have one := left_step taken
      have others := ih later
      rw [List.length_cons]
      omega

/-- Every state is on the way to one where nothing can move. -/
theorem exists_stuck (perform : Threads σ α → Nat → α → Option σ) (start : Threads σ α) :
    ∃ schedule final, Run.run (step perform) start schedule = some final ∧ Stuck perform final := by
  induction size : start.left generalizing start with
  | zero =>
      refine ⟨[], start, rfl, fun thread => ?_⟩
      cases taken : step perform start thread with
      | none => rfl
      | some next =>
          have one := left_step taken
          omega
  | succ size' ih =>
      by_cases stuck : Stuck perform start
      · exact ⟨[], start, rfl, stuck⟩
      · obtain ⟨thread, moves⟩ := not_forall.mp stuck
        obtain ⟨next, taken⟩ := Option.ne_none_iff_exists'.mp moves
        have one := left_step taken
        obtain ⟨schedule, final, reached, ended⟩ := ih next (by omega)
        exact ⟨thread :: schedule, final, Run.run_cons_eq_some.mpr ⟨next, taken, reached⟩, ended⟩

end Threads

end Dwadelib
