import Dwadelib.Grammar.Balance
import Dwadelib.Run

namespace Dwadelib.Grammar

/-! # The room of the stack

The capacity is that of an array of 128 elements, but only as many are allocated as the record has
bytes.
-/

variable {stack after : Stack} {data : UInt8} {held : Nat} {result : Int} {calls : List Call}

inductive Call where
  | push (data : UInt8)
  | pop
  deriving DecidableEq, Repr

def perform (stack : Stack) : Call → Option (Int × Stack)
  | .push data => stackPush stack data
  | .pop => (stackPop stack none).map fun (result, stack, _) => (result, stack)

/-- The index of the array that is written or read. -/
def usedIndex (stack : Stack) : Call → Option Int
  | .push _ => if stackIsFull stack then none else some (stack.top + 1)
  | .pop => if stackIsEmpty stack then none else some stack.top

/-- What was found out about a call: the stack that it began with, how many elements that held, and what
was returned, if the call did nothing that is undefined. -/
structure Note where
  call : Call
  before : Stack
  held : Nat
  result : Option Int
  deriving DecidableEq, Repr

/-- A stack in use, with the number of elements that were pushed and not popped and with the last call. -/
structure Use where
  stack : Option Stack
  held : Nat
  last : Option Note
  deriving DecidableEq, Repr

def start : Use := { stack := some stackCreate, held := 0, last := none }

def heldAfter (held : Nat) (result : Int) : Call → Nat
  | .push _ => if result = 0 then held + 1 else held
  | .pop => if result = 0 then held - 1 else held

theorem heldAfter_failed {call : Call} : heldAfter held (-1) call = held := by
  cases call <;> simp [heldAfter]

/-- Nothing is called any more after something that is undefined. -/
def Use.step (use : Use) (call : Call) : Option Use :=
  use.stack.map fun stack =>
    match perform stack call with
    | none =>
        { use with stack := none, last := some { call := call, before := stack, held := use.held, result := none } }
    | some (result, after) =>
        { stack := some after
          held := heldAfter use.held result call
          last := some { call := call, before := stack, held := use.held, result := some result } }

/-- No call so far did what is undefined, and the last one was as it should be. -/
structure Within (use : Use) : Prop where
  alive : use.stack.isSome
  held : use.held ≤ minStackSize
  index : ∀ note ∈ use.last, ∀ index ∈ usedIndex note.before note.call,
    0 ≤ index ∧ index < note.before.capacity ∧ index < sizeofStack
  fails : ∀ note ∈ use.last, ∀ data, note.call = .push data →
    (note.result = some (-1) ↔ note.held = note.before.capacity)

/-- An element that is pushed finds one of the bytes that were allocated. -/
def Room (use : Use) : Call → Prop
  | .push _ => use.held < sizeofStack
  | .pop => True

theorem stackPush_capacity (pushed : stackPush stack data = some (result, after)) : after.capacity = stack.capacity := by
  rw [stackPush] at pushed
  split at pushed
  · cases pushed
    rfl
  · obtain ⟨array, -, same⟩ := Option.bind_eq_some_iff.mp pushed
    cases same
    rfl

theorem stackPop_capacity {before character : Option UInt8}
    (popped : stackPop stack before = some (result, after, character)) : after.capacity = stack.capacity := by
  rw [stackPop] at popped
  split at popped
  · cases popped
    rfl
  · obtain ⟨read, -, same⟩ := Option.bind_eq_some_iff.mp popped
    cases same
    rfl

section Holds

variable (holds : Holds held stack)
include holds

theorem Holds.pushIndex (data : UInt8) : usedIndex stack (.push data) = some (held : Int) := by
  have top : stack.top + 1 = held := by rw [holds.top]; omega
  rw [usedIndex, holds.isFull, top]
  rfl

theorem Holds.popIndex : usedIndex stack .pop = if held = 0 then none else some ((held : Int) - 1) := by
  simp only [usedIndex, holds.isEmpty, holds.top, decide_eq_true_eq]

theorem Holds.performPush (small : held < 16) (data : UInt8) :
    ∃ pushed, perform stack (.push data) = some (0, pushed) ∧ Holds (held + 1) pushed ∧
      pushed.capacity = stack.capacity := by
  obtain ⟨pushed, result, more⟩ := holds.push small data
  exact ⟨pushed, result, more, stackPush_capacity result⟩

theorem Holds.performPop :
    ∃ result popped, perform stack .pop = some (result, popped) ∧ Holds (heldAfter held result .pop) popped ∧
      popped.capacity = stack.capacity := by
  by_cases empty : held = 0
  · have nothing : stackPop stack none = some (-1, stack, none) := by
      rw [stackPop, holds.isEmpty, if_pos (decide_eq_true empty)]
    refine ⟨-1, stack, ?_, by rwa [heldAfter_failed], rfl⟩
    rw [perform, nothing]
    rfl
  · obtain ⟨popped, character, result, less⟩ := holds.pop (Nat.pos_of_ne_zero empty) none
    refine ⟨0, popped, ?_, less, stackPop_capacity result⟩
    rw [perform, result]
    rfl

end Holds

/-- A stack that elements are on. -/
structure Kept (use : Use) : Prop where
  live : ∃ stack, use.stack = some stack ∧ Holds use.held stack ∧ stack.capacity = minStackSize

theorem kept_start : Kept start := ⟨stackCreate, rfl, holds_create, rfl⟩

theorem within_start : Within start :=
  ⟨rfl, by decide, fun _ absent => absurd absent (by simp [start]), fun _ absent => absurd absent (by simp [start])⟩

section Step

variable {use next : Use} {call : Call} (kept : Kept use)
include kept

theorem Kept.step (room : Room use call) : ∃ next, use.step call = some next ∧ Kept next ∧ Within next := by
  obtain ⟨stack, live, holds, capacity⟩ := kept.live
  have fits := holds.fits
  cases call with
  | push data =>
      obtain ⟨pushed, performed, more, same⟩ := holds.performPush room data
      refine ⟨_, by rw [Use.step, live, Option.map_some, performed], ⟨pushed, rfl, more, same.trans capacity⟩, ?_⟩
      have small : use.held < 16 := room
      constructor
      · rfl
      · show ((use.held + 1 : Nat) : Int) ≤ 128
        omega
      · intro note noted index used
        cases noted
        rw [holds.pushIndex] at used
        cases used
        rw [capacity, minStackSize, sizeofStack]
        omega
      · intro note noted data pushing
        cases noted
        have notFull : (use.held : Int) ≠ minStackSize := by
          rw [minStackSize]
          omega
        rw [capacity]
        exact iff_of_false (by simp) notFull
  | pop =>
      obtain ⟨result, popped, performed, less, same⟩ := holds.performPop
      refine ⟨_, by rw [Use.step, live, Option.map_some, performed], ⟨popped, rfl, less, same.trans capacity⟩, ?_⟩
      have fewer := less.fits
      constructor
      · rfl
      · show ((heldAfter use.held result .pop : Nat) : Int) ≤ 128
        omega
      · intro note noted index used
        cases noted
        rw [holds.popIndex] at used
        split at used
        · contradiction
        · cases used
          rw [capacity, minStackSize, sizeofStack]
          omega
      · intro note noted data pushing
        cases noted
        contradiction

theorem Kept.step_full (full : ¬ Room use call) : ∃ next, use.step call = some next ∧ ¬ Within next := by
  obtain ⟨stack, live, holds, capacity⟩ := kept.live
  have fits := holds.fits
  cases call with
  | push data =>
      have held : use.held = 16 := Nat.le_antisymm fits (Nat.not_lt.mp full)
      have undefined : perform stack (.push data) = none := holds.push_full held
      refine ⟨_, by rw [Use.step, live, Option.map_some, undefined], fun within => ?_⟩
      exact absurd within.alive Bool.false_ne_true
  | pop => exact absurd trivial full

end Step

/-- The storage is respected exactly as long as no element is pushed on as many as the record has bytes. -/
theorem within_iff_room (calls : List Call) :
    Run.Always Use.step Within start calls ↔ Run.Along Use.step Room start calls := by
  refine Run.always_iff_along ?_ ?_ kept_start within_start
  · intro use call next kept _ taken
    constructor
    · intro within
      by_contra full
      obtain ⟨other, same, outside⟩ := kept.step_full full
      cases taken.symm.trans same
      exact outside within
    · intro room
      obtain ⟨other, same, -, within⟩ := kept.step room
      cases taken.symm.trans same
      exact within
  · intro use call next kept _ room taken
    obtain ⟨other, same, more, -⟩ := kept.step room
    cases taken.symm.trans same
    exact more

/-- The seventeenth element is written behind the array. -/
theorem seventeen_not_within : ¬ Run.Always Use.step Within start (List.replicate 17 (.push 40)) := by
  intro always
  have ends : (Run.run Use.step start (List.replicate 17 (.push 40))).map (fun use => use.stack.isSome) = some false := by
    decide
  obtain ⟨use, reached, gone⟩ := Option.map_eq_some_iff.mp ends
  have within := always _ use (List.prefix_refl _) reached
  exact absurd within.alive (by rw [gone]; exact Bool.false_ne_true)

end Dwadelib.Grammar
