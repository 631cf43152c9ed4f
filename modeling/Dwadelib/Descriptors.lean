import Mathlib.Logic.Function.Basic
import Mathlib.Data.List.Basic

namespace Dwadelib

/-! # Descriptor tables

What the descriptors of a process are open for. A new descriptor is the lowest one that is free. The two
ends of a pipe are told by its number, which no later pipe gets.
-/

namespace Descriptors

inductive Description where
  | reading (pipe : Nat)
  | writing (pipe : Nat)
  | other (name : Nat)
  deriving DecidableEq, Repr

/-- The pipe that this is an end of. -/
def Description.pipe : Description → Option Nat
  | .reading pipe => some pipe
  | .writing pipe => some pipe
  | .other _ => none

/-- The other end of the pipe. -/
def Description.opposite : Description → Description
  | .reading pipe => .writing pipe
  | .writing pipe => .reading pipe
  | .other name => .other name

abbrev Table := Nat → Option Description

namespace Table

def lowest (limit : Nat) (table : Table) : Option Nat := (List.range limit).find? fun fd => (table fd).isNone

def assign (table : Table) (fd : Nat) (description : Description) : Table :=
  Function.update table fd (some description)

def close (table : Table) (fd : Nat) : Table := Function.update table fd none

def dup2 (table : Table) (old new : Nat) : Table := Function.update table new (table old)

/-- No descriptor is open for this. -/
def Without (table : Table) (description : Description) : Prop := ∀ fd, table fd ≠ some description

/-- Every pipe that a descriptor is open for has a lower number. -/
def Below (table : Table) (pipes : Nat) : Prop :=
  ∀ fd description number, table fd = some description → description.pipe = some number → number < pipes

end Table

/-- Where the ends of a new pipe are. -/
structure Piped where
  pfd0 : Nat
  pfd1 : Nat
  table : Table

def pipe (limit number : Nat) (table : Table) : Option Piped := do
  let pfd0 ← table.lowest limit
  let table := table.assign pfd0 (.reading number)
  let pfd1 ← table.lowest limit
  some { pfd0 := pfd0, pfd1 := pfd1, table := table.assign pfd1 (.writing number) }

variable {table : Table} {limit fd old new number pipes : Nat} {description : Description} {piped : Piped}

theorem lowest_free (lowest : table.lowest limit = some fd) : fd < limit ∧ table fd = none := by
  have member := List.mem_of_find?_eq_some lowest
  have free := List.find?_some lowest
  exact ⟨List.mem_range.mp member, Option.isNone_iff_eq_none.mp free⟩

/-- The two ends are at two descriptors that were free, and nothing else changes. -/
structure Opens (limit number : Nat) (table : Table) (piped : Piped) : Prop where
  apart : piped.pfd0 ≠ piped.pfd1
  within0 : piped.pfd0 < limit
  within1 : piped.pfd1 < limit
  free0 : table piped.pfd0 = none
  free1 : table piped.pfd1 = none
  reading : piped.table piped.pfd0 = some (.reading number)
  writing : piped.table piped.pfd1 = some (.writing number)
  kept : ∀ fd, fd ≠ piped.pfd0 → fd ≠ piped.pfd1 → piped.table fd = table fd

theorem pipe_opens (opened : pipe limit number table = some piped) : Opens limit number table piped := by
  obtain ⟨pfd0, first, opened⟩ := Option.bind_eq_some_iff.mp opened
  obtain ⟨pfd1, second, same⟩ := Option.bind_eq_some_iff.mp opened
  cases same
  obtain ⟨within0, free0⟩ := lowest_free first
  obtain ⟨within1, free⟩ := lowest_free second
  have apart : pfd1 ≠ pfd0 := by
    rintro rfl
    rw [Table.assign, Function.update_self] at free
    contradiction
  rw [Table.assign, Function.update_of_ne apart] at free
  constructor
  · exact apart.symm
  · exact within0
  · exact within1
  · exact free0
  · exact free
  · simp only [Table.assign]
    rw [Function.update_of_ne apart.symm, Function.update_self]
  · exact Function.update_self ..
  · intro fd not0 not1
    simp only [Table.assign]
    rw [Function.update_of_ne not1, Function.update_of_ne not0]

theorem close_eq_some : table.close fd old = some description ↔ old ≠ fd ∧ table old = some description := by
  rw [Table.close, Function.update_apply]
  split
  · rename_i same
    exact iff_of_false (Option.some_ne_none _).symm fun both => both.1 same
  · rename_i differs
    exact (and_iff_right differs).symm

theorem dup2_eq_some : table.dup2 old new fd = some description ↔
    fd = new ∧ table old = some description ∨ fd ≠ new ∧ table fd = some description := by
  rw [Table.dup2, Function.update_apply]
  split
  · rename_i same
    simp [same]
  · rename_i differs
    simp [differs]

theorem assign_eq_some {given : Description} : table.assign new given fd = some description ↔
    fd = new ∧ given = description ∨ fd ≠ new ∧ table fd = some description := by
  rw [Table.assign, Function.update_apply]
  split
  · rename_i same
    simp [same]
  · rename_i differs
    simp [differs]

theorem without_close (without : table.Without description) (fd : Nat) : (table.close fd).Without description := by
  intro kept holds
  exact without kept (close_eq_some.mp holds).2

theorem without_dup2 (without : table.Without description) (old new : Nat) :
    (table.dup2 old new).Without description := by
  intro fd holds
  rcases dup2_eq_some.mp holds with ⟨-, found⟩ | ⟨-, found⟩
  · exact without old found
  · exact without fd found

theorem without_assign {given : Description} (without : table.Without description) (differs : given ≠ description)
    (new : Nat) : (table.assign new given).Without description := by
  intro fd holds
  rcases assign_eq_some.mp holds with ⟨-, same⟩ | ⟨-, found⟩
  · exact differs same
  · exact without fd found

theorem Table.Below.close (below : table.Below pipes) (fd : Nat) : (table.close fd).Below pipes := by
  intro kept description number holds
  exact below kept description number (close_eq_some.mp holds).2

theorem Table.Below.dup2 (below : table.Below pipes) (old new : Nat) : (table.dup2 old new).Below pipes := by
  intro fd description number holds
  rcases dup2_eq_some.mp holds with ⟨-, found⟩ | ⟨-, found⟩
  · exact below old description number found
  · exact below fd description number found

theorem Table.Below.assign {name : Nat} (below : table.Below pipes) (new : Nat) :
    (table.assign new (.other name)).Below pipes := by
  intro fd description number holds isPipe
  rcases assign_eq_some.mp holds with ⟨-, rfl⟩ | ⟨-, found⟩
  · contradiction
  · exact below fd description number found isPipe

theorem Table.Below.mono {more : Nat} (below : table.Below pipes) (le : pipes ≤ more) : table.Below more :=
  fun fd description number holds isPipe => Nat.lt_of_lt_of_le (below fd description number holds isPipe) le

theorem Opens.below (opens : Opens limit number table piped) (below : table.Below number) :
    piped.table.Below (number + 1) := by
  intro fd description found holds isPipe
  by_cases first : fd = piped.pfd0
  · subst first
    cases opens.reading.symm.trans holds
    cases isPipe
    exact Nat.lt_succ_self _
  · by_cases second : fd = piped.pfd1
    · subst second
      cases opens.writing.symm.trans holds
      cases isPipe
      exact Nat.lt_succ_self _
    · rw [opens.kept fd first second] at holds
      exact Nat.lt_succ_of_lt (below fd description found holds isPipe)

theorem Opens.within (opens : Opens limit number table piped)
    (within : ∀ fd, limit ≤ fd → table fd = none) : ∀ fd, limit ≤ fd → piped.table fd = none := by
  intro fd beyond
  have not0 : fd ≠ piped.pfd0 := fun equal => Nat.not_lt.mpr beyond (equal ▸ opens.within0)
  have not1 : fd ≠ piped.pfd1 := fun equal => Nat.not_lt.mpr beyond (equal ▸ opens.within1)
  rw [opens.kept fd not0 not1]
  exact within fd beyond

theorem close_within (within : ∀ fd, limit ≤ fd → table fd = none) (closed : Nat) :
    ∀ fd, limit ≤ fd → (table.close closed) fd = none := by
  intro fd beyond
  rw [Table.close, Function.update_apply]
  split
  · rfl
  · exact within fd beyond

end Descriptors

end Dwadelib
