import Dwadelib.CInt
import Dwadelib.While

namespace Dwadelib

/-! # Computations that note what they do

What is noted comes before it is known whether the language allows it, so that the event that a
computation ends with is noted, too.
-/

structure Traced (ε α : Type) where
  noted : List ε
  outcome : Outcome α

namespace Traced

variable {ε α β σ ρ : Type} {event : ε} {before noted : List ε} {result : α} {traced : Traced ε α} {next : α → Traced ε β}

/-- The same behind earlier notes. -/
def after (traced : Traced ε α) (before : List ε) : Traced ε α :=
  { noted := before ++ traced.noted, outcome := traced.outcome }

def bind (traced : Traced ε α) (next : α → Traced ε β) : Traced ε β :=
  match traced.outcome with
  | .running => { noted := traced.noted, outcome := .running }
  | .undefined => { noted := traced.noted, outcome := .undefined }
  | .aborted => { noted := traced.noted, outcome := .aborted }
  | .returned result => (next result).after traced.noted

instance : Monad (Traced ε) where
  pure result := { noted := [], outcome := .returned result }
  bind := bind

def note (event : ε) : Traced ε Unit := { noted := [event], outcome := .returned () }

def lift (outcome : Outcome α) : Traced ε α := { noted := [], outcome }

/-- An element of an array, with a note where it was looked for. -/
def read (event : Int → ε) (cells : List α) (index : Int) : Traced ε α :=
  { noted := [event index], outcome := .ofOption (CInt.read cells index) }

def write (event : Int → ε) (cells : List α) (index : Int) (element : α) : Traced ε (List α) :=
  { noted := [event index], outcome := .ofOption (CInt.write cells index element) }

/-- The same with a place that is not before the array. -/
def peek (event : Nat → ε) (cells : List α) (index : Nat) : Traced ε α :=
  { noted := [event index], outcome := .ofOption cells[index]? }

@[simp] theorem outcome_bind : (traced >>= next).outcome = traced.outcome >>= fun result => (next result).outcome := by
  show (bind traced next).outcome = _
  cases outcome : traced.outcome with
  | running => rw [bind, outcome, Outcome.running_bind]
  | undefined => rw [bind, outcome, Outcome.undefined_bind]
  | aborted => rw [bind, outcome, Outcome.aborted_bind]
  | returned result =>
      rw [bind, outcome, Outcome.returned_bind]
      rfl

theorem bind_returned (returned : traced = { noted, outcome := .returned result }) :
    traced >>= next = (next result).after noted := by
  subst returned
  rfl

theorem after_mk {outcome : Outcome α} :
    (Traced.mk noted outcome).after before = { noted := before ++ noted, outcome } := rfl

theorem read_inside {cells : List α} {index : Nat} {place : Int → ε} (inside : index < cells.length) :
    read place cells index = { noted := [place index], outcome := .returned cells[index] } := by
  rw [read, CInt.read_natCast, List.getElem?_eq_getElem inside, Outcome.ofOption_some]

theorem write_inside {cells : List α} {index : Nat} {place : Int → ε} {element : α} (inside : index < cells.length) :
    write place cells index element = { noted := [place index], outcome := .returned (cells.set index element) } := by
  rw [write, CInt.write_natCast inside, Outcome.ofOption_some]

/-- Whatever is noted is allowed. -/
def Notes (allowed : ε → Prop) (traced : Traced ε α) : Prop := ∀ event ∈ traced.noted, allowed event

section Notes

variable {allowed : ε → Prop}

theorem notes_pure : Notes allowed (pure result : Traced ε α) := fun _ member => absurd member List.not_mem_nil

theorem notes_single (single : traced.noted = [event]) (holds : allowed event) : Notes allowed traced := by
  intro other member
  rw [single] at member
  rw [List.mem_singleton.mp member]
  exact holds

theorem notes_note (holds : allowed event) : Notes allowed (note event) := notes_single rfl holds

theorem notes_lift {outcome : Outcome α} : Notes allowed (lift outcome : Traced ε α) :=
  fun _ member => absurd member List.not_mem_nil

theorem notes_after (earlier : ∀ event ∈ before, allowed event) (notes : Notes allowed traced) :
    Notes allowed (traced.after before) := by
  intro event member
  rcases List.mem_append.mp member with early | late
  · exact earlier event early
  · exact notes event late

theorem notes_bind (first : Notes allowed traced)
    (others : ∀ result, traced.outcome = .returned result → Notes allowed (next result)) :
    Notes allowed (traced >>= next) := by
  show Notes allowed (bind traced next)
  cases outcome : traced.outcome with
  | running =>
      rw [bind, outcome]
      exact first
  | undefined =>
      rw [bind, outcome]
      exact first
  | aborted =>
      rw [bind, outcome]
      exact first
  | returned result =>
      rw [bind, outcome]
      exact notes_after first (others result outcome)

end Notes

/-- It comes to a result, and whatever is noted on the way is allowed. -/
structure Yields (allowed : ε → Prop) (traced : Traced ε α) (result : α) : Prop where
  returned : traced.outcome = .returned result
  notes : Notes allowed traced

section Yields

variable {allowed : ε → Prop} {last : β}

theorem yields_pure : Yields allowed (pure result) result := ⟨rfl, notes_pure⟩

theorem Yields.mono {others : ε → Prop} (yields : Yields allowed traced result)
    (kept : ∀ event, allowed event → others event) : Yields others traced result :=
  ⟨yields.returned, fun event member => kept event (yields.notes event member)⟩

theorem yields_peek {cells : List α} {index : Nat} {place : Nat → ε} (inside : index < cells.length)
    (holds : allowed (place index)) : Yields allowed (peek place cells index) cells[index] := by
  rw [peek, List.getElem?_eq_getElem inside]
  exact ⟨rfl, notes_single rfl holds⟩

theorem yields_lift : Yields allowed (lift (.returned result) : Traced ε α) result := ⟨rfl, notes_lift⟩

theorem yields_note (holds : allowed event) : Yields allowed (note event) () := ⟨rfl, notes_note holds⟩

theorem yields_read {cells : List α} {index : Nat} {place : Int → ε} (inside : index < cells.length)
    (holds : allowed (place index)) : Yields allowed (read place cells index) cells[index] := by
  rw [read_inside inside]
  exact ⟨rfl, notes_single rfl holds⟩

theorem yields_write {cells : List α} {index : Nat} {place : Int → ε} {element : α} (inside : index < cells.length)
    (holds : allowed (place index)) : Yields allowed (write place cells index element) (cells.set index element) := by
  rw [write_inside inside]
  exact ⟨rfl, notes_single rfl holds⟩

theorem Yields.bind (first : Yields allowed traced result) (others : Notes allowed (next result)) :
    Notes allowed (traced >>= next) := by
  refine notes_bind first.notes fun other returned => ?_
  obtain rfl : result = other := Outcome.returned.inj (first.returned.symm.trans returned)
  exact others

theorem yields_bind (first : Yields allowed traced result) (others : Yields allowed (next result) last) :
    Yields allowed (traced >>= next) last := by
  constructor
  · rw [outcome_bind, first.returned, Outcome.returned_bind]
    exact others.returned
  · exact first.bind others.notes

end Yields

/-- The same with other notes. -/
def renote {δ : Type} (change : ε → δ) (traced : Traced ε α) : Traced δ α :=
  { noted := traced.noted.map change, outcome := traced.outcome }

theorem yields_renote {δ : Type} {allowed : ε → Prop} {others : δ → Prop} {change : ε → δ}
    (yields : Yields allowed traced result) (kept : ∀ event, allowed event → others (change event)) :
    Yields others (renote change traced) result := by
  refine ⟨yields.returned, ?_⟩
  intro event member
  obtain ⟨noted, inside, rfl⟩ := List.mem_map.mp member
  exact kept noted (yields.notes noted inside)

section Loop

variable {body : σ → Traced ε (Iteration σ ρ)} {state after : σ} {fuel : Nat}

def loop (body : σ → Traced ε (Iteration σ ρ)) : Nat → σ → Traced ε ρ
  | 0, _ => { noted := [], outcome := .running }
  | fuel + 1, state => do
      match ← body state with
      | .next after => loop body fuel after
      | .stop result => return result

theorem loop_next (iterated : body state = { noted, outcome := .returned (.next after) }) :
    loop body (fuel + 1) state =
      (loop body fuel after).after noted := by
  rw [loop, bind_returned iterated]

theorem loop_stop {result : ρ} (iterated : body state = { noted, outcome := .returned (.stop result) }) :
    loop body (fuel + 1) state = { noted, outcome := .returned result } := by
  rw [loop, bind_returned iterated]
  show Traced.mk (noted ++ []) (.returned result) = _
  rw [List.append_nil]

/-- Without its notes it is the loop of the outcomes. -/
theorem outcome_loop : (loop body fuel state).outcome = whileLoop (fun state => (body state).outcome) fuel state := by
  induction fuel generalizing state with
  | zero => rfl
  | succ fuel ih =>
      rw [loop, outcome_bind, whileLoop]
      cases outcome : (body state).outcome with
      | running => rfl
      | undefined => rfl
      | aborted => rfl
      | returned iteration =>
          cases iteration with
          | next after => exact ih
          | stop result => rfl

/-- A loop that comes closer to its end with what is allowed only. -/
theorem yields_loop {allowed : ε → Prop} {invariant : σ → Prop} {wanted : ρ → Prop} (variant : σ → Nat)
    (iterates : ∀ state, invariant state →
      (∃ result, Yields allowed (body state) (.stop result) ∧ wanted result) ∨
        ∃ after, Yields allowed (body state) (.next after) ∧ invariant after ∧ variant after < variant state)
    (holds : invariant state) (enough : variant state < fuel) :
    ∃ result, Yields allowed (loop body fuel state) result ∧ wanted result := by
  induction fuel generalizing state with
  | zero => contradiction
  | succ fuel ih =>
      rw [loop]
      rcases iterates state holds with ⟨result, stopped, good⟩ | ⟨after, gone, kept, closer⟩
      · exact ⟨result, yields_bind stopped yields_pure, good⟩
      · obtain ⟨result, yields, good⟩ := ih kept (by omega)
        exact ⟨result, yields_bind gone yields, good⟩

/-- A loop whose iterations never end it keeps the invariant for ever. -/
theorem loop_goes_on {invariant : σ → List ε → Prop}
    (iterates : ∀ state before, invariant state before →
      ∃ noted after, body state = { noted, outcome := .returned (.next after) } ∧ invariant after (before ++ noted))
    (holds : invariant state before) (fuel : Nat) :
    ∃ noted reached, loop body fuel state = { noted, outcome := .running } ∧ invariant reached (before ++ noted) := by
  induction fuel generalizing state before with
  | zero =>
      refine ⟨[], state, rfl, ?_⟩
      rw [List.append_nil]
      exact holds
  | succ fuel ih =>
      obtain ⟨noted, after, iterated, kept⟩ := iterates state before holds
      obtain ⟨others, reached, running, good⟩ := ih kept
      refine ⟨noted ++ others, reached, ?_, ?_⟩
      · rw [loop_next iterated, running, after_mk]
      · rw [← List.append_assoc]
        exact good

/-- The loop stops after exactly `count` iterations that go on. -/
def EndsAfter (body : σ → Traced ε (Iteration σ ρ)) : (count : Nat) → (state : σ) → Prop
  | 0, state => ∃ result, (body state).outcome = .returned (.stop result)
  | count + 1, state => ∃ after, (body state).outcome = .returned (.next after) ∧ EndsAfter body count after

variable {states : Nat → σ} {events : Nat → List ε} {count : Nat} {result : ρ}

theorem endsAfter_of_states
    (goes : ∀ k, k < count → body (states k) = { noted := events k, outcome := .returned (.next (states (k + 1))) })
    (stops : (body (states count)).outcome = .returned (.stop result)) : EndsAfter body count (states 0) := by
  induction count generalizing states events with
  | zero => exact ⟨result, stops⟩
  | succ count ih =>
      have shifted : ∀ k, k < count → body (states (k + 1)) =
          { noted := events (k + 1), outcome := .returned (.next (states (k + 1 + 1))) } :=
        fun k before => goes (k + 1) (Nat.succ_lt_succ before)
      have later := ih shifted stops
      refine ⟨states 1, ?_, later⟩
      rw [goes 0 (Nat.succ_pos count)]

theorem loop_of_states
    (goes : ∀ k, k < count → body (states k) = { noted := events k, outcome := .returned (.next (states (k + 1))) })
    (stops : body (states count) = { noted := [], outcome := .returned (.stop result) }) (enough : count < fuel) :
    loop body fuel (states 0) = { noted := (List.range count).flatMap events, outcome := .returned result } := by
  induction count generalizing states events fuel with
  | zero =>
      obtain ⟨fuel, rfl⟩ : ∃ fewer, fuel = fewer + 1 := ⟨fuel - 1, by omega⟩
      exact loop_stop stops
  | succ count ih =>
      obtain ⟨fuel, rfl⟩ : ∃ fewer, fuel = fewer + 1 := ⟨fuel - 1, by omega⟩
      have shifted : ∀ k, k < count → body (states (k + 1)) =
          { noted := events (k + 1), outcome := .returned (.next (states (k + 1 + 1))) } :=
        fun k before => goes (k + 1) (Nat.succ_lt_succ before)
      have later := ih shifted stops (Nat.lt_of_succ_lt_succ enough)
      rw [loop_next (goes 0 (Nat.succ_pos count)), later, after_mk, List.range_succ_eq_map, List.flatMap_cons,
        List.flatMap_map]

theorem loop_fails_of_states
    (goes : ∀ k, k < count → body (states k) = { noted := events k, outcome := .returned (.next (states (k + 1))) })
    (fails : (body (states count)).outcome = .undefined) (enough : count < fuel) :
    (loop body fuel (states 0)).outcome = .undefined := by
  induction count generalizing states events fuel with
  | zero =>
      obtain ⟨fuel, rfl⟩ : ∃ fewer, fuel = fewer + 1 := ⟨fuel - 1, by omega⟩
      rw [outcome_loop]
      exact whileLoop_undefined fails
  | succ count ih =>
      obtain ⟨fuel, rfl⟩ : ∃ fewer, fuel = fewer + 1 := ⟨fuel - 1, by omega⟩
      have shifted : ∀ k, k < count → body (states (k + 1)) =
          { noted := events (k + 1), outcome := .returned (.next (states (k + 1 + 1))) } :=
        fun k before => goes (k + 1) (Nat.succ_lt_succ before)
      have later := ih shifted fails (Nat.lt_of_succ_lt_succ enough)
      rw [loop_next (goes 0 (Nat.succ_pos count))]
      exact later

end Loop

end Traced

end Dwadelib
