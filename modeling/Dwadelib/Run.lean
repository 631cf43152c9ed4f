import Mathlib.Data.List.Basic

namespace Dwadelib

/-! # Runs of a labelled system

A system is a function from a state and an event to the next state, `none` where
the event is not enabled. A run performs a list of events in order. `Along` says
that every step of a run meets a condition on the state it starts from, which is
how a property of schedules is stated without naming the states in between.
-/

namespace Run

variable {σ ε : Type} {step : σ → ε → Option σ} {state next final : σ} {event : ε}
  {events earlier : List ε}

/-- The state after the events; `none` as soon as one of them is not enabled. -/
def run (step : σ → ε → Option σ) : σ → List ε → Option σ
  | state, [] => some state
  | state, event :: events => (step state event).bind fun next => run step next events

@[simp] theorem run_nil : run step state [] = some state := rfl

theorem run_cons :
    run step state (event :: events) = (step state event).bind fun next => run step next events :=
  rfl

theorem run_cons_eq_some :
    run step state (event :: events) = some final ↔
      ∃ next, step state event = some next ∧ run step next events = some final := by
  simp only [run_cons, Option.bind_eq_some_iff]

theorem run_append (earlier later : List ε) :
    run step state (earlier ++ later) = (run step state earlier).bind fun middle => run step middle later := by
  induction earlier generalizing state with
  | nil => rfl
  | cons event events ih =>
      rw [List.cons_append, run_cons, run_cons, Option.bind_assoc]
      exact Option.bind_congr fun next _ => ih

/-- Every step that the run takes starts in a state that meets the condition. -/
def Along (step : σ → ε → Option σ) (condition : σ → ε → Prop) : σ → List ε → Prop
  | _, [] => True
  | state, event :: events =>
      ∀ next, step state event = some next → condition state event ∧ Along step condition next events

/-- Every state that the run passes through is good. -/
def Always (step : σ → ε → Option σ) (good : σ → Prop) (state : σ) (events : List ε) : Prop :=
  ∀ earlier middle, earlier <+: events → run step state earlier = some middle → good middle

variable {condition other : σ → ε → Prop} {invariant good : σ → Prop}

@[simp] theorem Along.nil : Along step condition state [] := trivial

theorem along_cons (taken : step state event = some next) :
    Along step condition state (event :: events) ↔
      condition state event ∧ Along step condition next events := by
  simp only [Along, taken, Option.some.injEq, forall_eq']

instance decidableAlong [∀ state event, Decidable (condition state event)] :
    ∀ state events, Decidable (Along step condition state events)
  | _, [] => isTrue trivial
  | state, event :: events =>
      match taken : step state event with
      | none => isTrue fun next moved => by
          rw [taken] at moved
          contradiction
      | some next =>
          have := decidableAlong next events
          decidable_of_iff (condition state event ∧ Along step condition next events)
            (along_cons taken).symm

/-- A condition on the events alone. -/
theorem along_of_forall {allowed : ε → Prop} (all : ∀ event ∈ events, allowed event) :
    Along step (fun _ event => allowed event) state events := by
  induction events generalizing state with
  | nil => exact Along.nil
  | cons event events ih =>
      intro next taken
      obtain ⟨here, rest⟩ := List.forall_mem_cons.mp all
      exact ⟨here, ih rest⟩

theorem Along.of_append (along : Along step condition state (earlier ++ later)) :
    Along step condition state earlier := by
  induction earlier generalizing state with
  | nil => trivial
  | cons event events ih =>
      intro next taken
      exact ⟨(along next taken).1, ih (along next taken).2⟩

/-- What the steps that meet a condition preserve, a run of such steps preserves. -/
theorem invariant_of_along
    (preserved : ∀ state event next, invariant state → condition state event →
      step state event = some next → invariant next)
    (holds : invariant state) (along : Along step condition state events)
    (reached : run step state events = some final) : invariant final := by
  induction events generalizing state with
  | nil =>
      cases reached
      exact holds
  | cons event events ih =>
      obtain ⟨next, taken, rest⟩ := run_cons_eq_some.mp reached
      have met := along next taken
      exact ih (preserved state event next holds met.1 taken) met.2 rest

/-- The unconditional form: an invariant of every step is an invariant of every run. -/
theorem invariant_of_run
    (preserved : ∀ state event next, invariant state → step state event = some next →
      invariant next)
    (holds : invariant state) (reached : run step state events = some final) : invariant final := by
  induction events generalizing state with
  | nil =>
      cases reached
      exact holds
  | cons event events ih =>
      obtain ⟨next, taken, rest⟩ := run_cons_eq_some.mp reached
      exact ih (preserved state event next holds taken) rest

/-- If an invariant lets every event happen, every run can be made. -/
theorem run_exists
    (enabled : ∀ state event, invariant state → ∃ next, step state event = some next ∧ invariant next)
    (holds : invariant state) (events : List ε) :
    ∃ final, run step state events = some final ∧ invariant final := by
  induction events generalizing state with
  | nil => exact ⟨state, rfl, holds⟩
  | cons event events ih =>
      obtain ⟨next, taken, kept⟩ := enabled state event holds
      obtain ⟨final, reached, last⟩ := ih kept
      exact ⟨final, run_cons_eq_some.mpr ⟨next, taken, reached⟩, last⟩

/-- What steps that meet a condition preserve holds in every state such a run passes through. -/
theorem always_of_along
    (preserved : ∀ state event next, invariant state → condition state event →
      step state event = some next → invariant next)
    (enough : ∀ state, invariant state → good state)
    (holds : invariant state) (along : Along step condition state events) :
    Always step good state events := by
  intro earlier middle before reached
  obtain ⟨later, rfl⟩ := before
  exact enough middle (invariant_of_along preserved holds along.of_append reached)

theorem always_cons (taken : step state event = some next) :
    Always step good state (event :: events) ↔ good state ∧ Always step good next events := by
  constructor
  · intro always
    refine ⟨always [] state List.nil_prefix rfl, ?_⟩
    intro earlier middle before reached
    exact always (event :: earlier) middle (List.cons_prefix_cons.mpr ⟨rfl, before⟩)
      (run_cons_eq_some.mpr ⟨next, taken, reached⟩)
  · intro both earlier middle before reached
    obtain ⟨here, always⟩ := both
    cases earlier with
    | nil =>
        cases reached
        exact here
    | cons first rest =>
        obtain ⟨rfl, within⟩ := List.cons_prefix_cons.mp before
        obtain ⟨_, same, later⟩ := run_cons_eq_some.mp reached
        cases taken.symm.trans same
        exact always rest middle within later

theorem always_of_stuck (stuck : ∀ event, event ∈ events.head? → step state event = none)
    (here : good state) : Always step good state events := by
  intro earlier middle before reached
  cases earlier with
  | nil =>
      cases reached
      exact here
  | cons first rest =>
      obtain ⟨later, rfl⟩ := before
      obtain ⟨next, taken, _⟩ := run_cons_eq_some.mp reached
      rw [stuck first (by simp)] at taken
      contradiction

/-- If from every good state a step leads to a good one exactly when it meets the condition,
then a run stays good exactly when all of its steps meet the condition. -/
theorem always_iff_along
    (agree : ∀ state event next, invariant state → good state → step state event = some next →
      (good next ↔ condition state event))
    (preserved : ∀ state event next, invariant state → good state → condition state event →
      step state event = some next → invariant next)
    (holds : invariant state) (start : good state) :
    Always step good state events ↔ Along step condition state events := by
  induction events generalizing state with
  | nil =>
      refine ⟨fun _ => trivial, fun _ => ?_⟩
      exact always_of_stuck (fun event found => by contradiction) start
  | cons event events ih =>
      cases taken : step state event with
      | none =>
          refine ⟨fun _ next moved => ?_, fun _ => ?_⟩
          · rw [taken] at moved
            contradiction
          · exact always_of_stuck (fun first found => by cases found; exact taken) start
      | some next =>
          have step := agree state event next holds start taken
          rw [always_cons taken, along_cons taken]
          constructor
          · intro always
            have good := always.2 [] next List.nil_prefix rfl
            have met := step.mp good
            exact ⟨met, (ih (preserved state event next holds start met taken) good).mp always.2⟩
          · intro along
            have kept := preserved state event next holds start along.1 taken
            exact ⟨start, (ih kept (step.mpr along.1)).mpr along.2⟩

section Undefined

variable (able : σ → ε → Prop) [∀ state event, Decidable (able state event)]

/-- A system in which an event that can happen need not have a defined outcome. It is then in no
state, and nothing follows. -/
def orUndefined (step : σ → ε → Option σ) : Option σ → ε → Option (Option σ)
  | none, _ => none
  | some state, event => if able state event then some (step state event) else none

/-- What is undefined is not good. -/
def Defined (good : σ → Prop) : Option σ → Prop
  | none => False
  | some state => good state

/-- A condition on the events that happen while there is a state. -/
def OnState (condition : σ → ε → Prop) : Option σ → ε → Prop
  | none, _ => True
  | some state, event => condition state event

instance decidableOnState {condition : σ → ε → Prop} [∀ state event, Decidable (condition state event)] :
    ∀ state event, Decidable (OnState condition state event)
  | none, _ => instDecidableTrue
  | some state, event => inferInstanceAs (Decidable (condition state event))

variable {able}

theorem orUndefined_eq_some {last : Option σ} :
    orUndefined able step (some state) event = some last ↔ able state event ∧ step state event = last := by
  rw [orUndefined, Option.ite_none_right_eq_some, Option.some.injEq]

/-- As `always_iff_along`, where also a step without an outcome breaks what is good: beside the
condition on what the steps lead to there is the one under which they lead anywhere. -/
theorem defined_iff_along {room : σ → ε → Prop} (invariant : σ → Prop)
    (outcome : ∀ state event, invariant state → able state event →
      ((∃ next, step state event = some next) ↔ room state event))
    (agree : ∀ state event next, invariant state → good state → step state event = some next →
      (good next ↔ condition state event))
    (preserved : ∀ state event next, invariant state → good state → condition state event →
      step state event = some next → invariant next)
    (holds : invariant state) (start : good state) :
    Always (orUndefined able step) (Defined good) (some state) events ↔
      Along (orUndefined able step) (OnState fun state event => condition state event ∧ room state event)
        (some state) events := by
  refine always_iff_along
    (fun state event next (kept : ∀ there, state = some there → invariant there) here taken => ?_) ?_ ?_ start
  · cases state with
    | none => contradiction
    | some state =>
        obtain ⟨can, rfl⟩ := orUndefined_eq_some.mp taken
        have possible := outcome state event (kept state rfl) can
        cases taken : step state event with
        | none =>
            refine iff_of_false id fun both => ?_
            obtain ⟨next, same⟩ := possible.mpr both.2
            rw [taken] at same
            contradiction
        | some next =>
            have kind := agree state event next (kept state rfl) here taken
            exact ⟨fun good => ⟨kind.mp good, possible.mp ⟨next, taken⟩⟩, fun both => kind.mpr both.1⟩
  · intro state event next kept here met taken there same
    cases state with
    | none => contradiction
    | some state =>
        obtain ⟨-, outcome⟩ := orUndefined_eq_some.mp taken
        exact preserved state event there (kept state rfl) here met.1 (outcome.trans same)
  · intro there same
    cases same
    exact holds

end Undefined

/-- A system whose steps report something, with what an observer makes of the reports. -/
structure Watched (σ γ : Type) where
  state : σ
  seen : γ
  deriving DecidableEq

variable {ρ γ : Type}

def watch (step : σ → ε → Option (σ × ρ)) (note : γ → σ → ε → ρ → γ) (watched : Watched σ γ) (event : ε) :
    Option (Watched σ γ) :=
  (step watched.state event).map fun result =>
    { state := result.1, seen := note watched.seen watched.state event result.2 }

theorem watch_eq_some {step : σ → ε → Option (σ × ρ)} {note : γ → σ → ε → ρ → γ} {watched after : Watched σ γ} :
    watch step note watched event = some after ↔
      ∃ next report, step watched.state event = some (next, report) ∧
        after = { state := next, seen := note watched.seen watched.state event report } := by
  rw [watch, Option.map_eq_some_iff]
  constructor
  · intro result
    obtain ⟨result, taken, rfl⟩ := result
    exact ⟨result.1, result.2, taken, rfl⟩
  · intro result
    obtain ⟨next, report, taken, rfl⟩ := result
    exact ⟨(next, report), taken, rfl⟩

theorem watch_exists {step : σ → ε → Option (σ × ρ)} {note : γ → σ → ε → ρ → γ} {watched : Watched σ γ} :
    (∃ after, watch step note watched event = some after) ↔
      ∃ next report, step watched.state event = some (next, report) := by
  constructor
  · intro given
    obtain ⟨after, taken⟩ := given
    obtain ⟨next, report, stepped, -⟩ := watch_eq_some.mp taken
    exact ⟨next, report, stepped⟩
  · intro given
    obtain ⟨next, report, stepped⟩ := given
    exact ⟨_, watch_eq_some.mpr ⟨next, report, stepped, rfl⟩⟩

end Run

end Dwadelib
