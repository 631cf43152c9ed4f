import Mathlib.Data.List.Basic

namespace Dwadelib

/-! # Loops that may not end

What a computation with a bounded number of iterations comes to: it returns, an assertion ends it, it
does something that the language leaves undefined, or it is still running. A loop is run with a number of
iterations that it may take.
-/

inductive Outcome (ρ : Type) where
  | running
  | undefined
  | aborted
  | returned (result : ρ)
  deriving DecidableEq, Repr

namespace Outcome

variable {α β : Type} {outcome : Outcome α} {result : α}

def bind (outcome : Outcome α) (next : α → Outcome β) : Outcome β :=
  match outcome with
  | .running => .running
  | .undefined => .undefined
  | .aborted => .aborted
  | .returned result => next result

instance : Monad Outcome where
  pure := .returned
  bind := bind

def ofOption : Option α → Outcome α
  | none => .undefined
  | some result => .returned result

def toOption : Outcome α → Option α
  | .returned result => some result
  | _ => none

@[simp] theorem returned_bind {next : α → Outcome β} : (returned result >>= next) = next result := rfl

@[simp] theorem undefined_bind {next : α → Outcome β} : (undefined >>= next) = .undefined := rfl

@[simp] theorem aborted_bind {next : α → Outcome β} : (aborted >>= next) = .aborted := rfl

@[simp] theorem running_bind {next : α → Outcome β} : (running >>= next) = .running := rfl

theorem bind_assoc {γ : Type} {outcome : Outcome α} {next : α → Outcome β} {last : β → Outcome γ} :
    outcome >>= next >>= last = outcome >>= fun result => next result >>= last := by
  cases outcome <;> rfl

@[simp] theorem pure_eq : (pure result : Outcome α) = .returned result := rfl

@[simp] theorem ofOption_some : ofOption (some result) = .returned result := rfl

@[simp] theorem ofOption_none : ofOption (none : Option α) = .undefined := rfl

end Outcome

/-- One iteration goes on with a state or ends the loop. -/
inductive Iteration (σ ρ : Type) where
  | next (state : σ)
  | stop (result : ρ)
  deriving DecidableEq, Repr

section While

variable {σ ρ : Type} {body : σ → Outcome (Iteration σ ρ)} {state after : σ} {result : ρ} {fuel more : Nat}

def whileLoop (body : σ → Outcome (Iteration σ ρ)) : Nat → σ → Outcome ρ
  | 0, _ => .running
  | fuel + 1, state => do
      match ← body state with
      | .next after => whileLoop body fuel after
      | .stop result => return result

theorem whileLoop_next (iterated : body state = .returned (.next after)) :
    whileLoop body (fuel + 1) state = whileLoop body fuel after := by
  rw [whileLoop, iterated, Outcome.returned_bind]

theorem whileLoop_stop (iterated : body state = .returned (.stop result)) :
    whileLoop body (fuel + 1) state = .returned result := by
  rw [whileLoop, iterated, Outcome.returned_bind]
  rfl

theorem whileLoop_undefined (iterated : body state = .undefined) :
    whileLoop body (fuel + 1) state = .undefined := by
  rw [whileLoop, iterated, Outcome.undefined_bind]

/-- What follows an iteration. -/
def proceed (body : σ → Outcome (Iteration σ ρ)) (fuel : Nat) : Iteration σ ρ → Outcome ρ
  | .next after => whileLoop body fuel after
  | .stop result => return result

theorem whileLoop_succ : whileLoop body (fuel + 1) state = body state >>= proceed body fuel := by
  rw [whileLoop]
  congr 1

/-- Total correctness: each iteration ends the loop as wanted, or keeps the invariant and comes
closer to the end. -/
theorem whileLoop_total {invariant : σ → Prop} {wanted : ρ → Prop} (variant : σ → Nat)
    (iterates : ∀ state, invariant state →
      (∃ result, body state = .returned (.stop result) ∧ wanted result) ∨
        ∃ after, body state = .returned (.next after) ∧ invariant after ∧ variant after < variant state)
    (holds : invariant state) (enough : variant state < fuel) :
    ∃ result, whileLoop body fuel state = .returned result ∧ wanted result := by
  induction fuel generalizing state with
  | zero => contradiction
  | succ fuel ih =>
      rcases iterates state holds with ⟨result, iterated, good⟩ | ⟨after, iterated, kept, closer⟩
      · exact ⟨result, whileLoop_stop iterated, good⟩
      · obtain ⟨result, returned, good⟩ := ih kept (by omega)
        exact ⟨result, (whileLoop_next iterated).trans returned, good⟩

/-- A loop that comes closer to an iteration that is undefined. -/
theorem whileLoop_fails {invariant : σ → Prop} (variant : σ → Nat)
    (iterates : ∀ state, invariant state →
      body state = .undefined ∨
        ∃ after, body state = .returned (.next after) ∧ invariant after ∧ variant after < variant state)
    (holds : invariant state) (enough : variant state < fuel) : whileLoop body fuel state = .undefined := by
  induction fuel generalizing state with
  | zero => contradiction
  | succ fuel ih =>
      rcases iterates state holds with undefined | ⟨after, iterated, kept, closer⟩
      · exact whileLoop_undefined undefined
      · exact (whileLoop_next iterated).trans (ih kept (by omega))

/-- A loop whose iterations never end it goes on for ever. -/
theorem whileLoop_diverges {invariant : σ → Prop}
    (iterates : ∀ state, invariant state → ∃ after, body state = .returned (.next after) ∧ invariant after)
    (holds : invariant state) (fuel : Nat) : whileLoop body fuel state = .running := by
  induction fuel generalizing state with
  | zero => rfl
  | succ fuel ih =>
      obtain ⟨after, iterated, kept⟩ := iterates state holds
      rw [whileLoop_next iterated]
      exact ih kept

theorem whileLoop_stuck (stays : body state = .returned (.next state)) (fuel : Nat) :
    whileLoop body fuel state = .running := by
  have again : ∀ other, other = state → ∃ after, body other = .returned (.next after) ∧ after = state := by
    intro other same
    rw [same]
    exact ⟨state, stays, rfl⟩
  exact whileLoop_diverges again rfl fuel

/-- The states in which iterations begin. -/
def visited (body : σ → Outcome (Iteration σ ρ)) : Nat → σ → List σ
  | 0, _ => []
  | fuel + 1, state =>
      state :: match body state with
        | .returned (.next after) => visited body fuel after
        | _ => []

theorem mem_visited_self : state ∈ visited body (fuel + 1) state := List.mem_cons_self

theorem visited_next (iterated : body state = .returned (.next after)) :
    visited body (fuel + 1) state = state :: visited body fuel after := by
  rw [visited, iterated]

/-- What iterations keep holds wherever one begins. -/
theorem visited_invariant {invariant : σ → Prop}
    (kept : ∀ state after, invariant state → body state = .returned (.next after) → invariant after)
    (holds : invariant state) {reached : σ} (passed : reached ∈ visited body fuel state) : invariant reached := by
  induction fuel generalizing state with
  | zero => contradiction
  | succ fuel ih =>
      rcases List.mem_cons.mp passed with rfl | later
      · exact holds
      · split at later
        · rename_i after iterated
          exact ih (kept state after holds iterated) later
        · contradiction

end While

end Dwadelib
