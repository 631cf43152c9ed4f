import Mathlib.Algebra.Ring.Int.Defs
import Mathlib.Algebra.Ring.Nat

namespace Dwadelib

/-! # The type `int` -/

namespace CInt

variable {value : Int}

/-- What a number becomes when it is converted to `int`: its low 32 bits, in two's complement. -/
def convert (value : Int) : Int := value.bmod (2 ^ 32)

/-- What an operation on `int` comes to; an overflow is undefined. -/
def checked (value : Int) : Option Int := if -2 ^ 31 ≤ value ∧ value < 2 ^ 31 then some value else none

theorem convert_eq (lower : -2 ^ 31 ≤ value) (upper : value < 2 ^ 31) : convert value = value := by
  simp only [convert, Int.bmod]
  split <;> omega

theorem convert_natCast {count : Nat} (small : count < 2 ^ 31) : convert count = count :=
  convert_eq (by omega) (by omega)

/-- What is left of a count that need not be small. -/
theorem convert_natCast_mod (count : Nat) :
    convert count = if count % 4294967296 < 2147483648 then ((count % 4294967296 : Nat) : Int)
      else (count % 4294967296 : Nat) - 4294967296 := by
  simp only [convert, Int.bmod]
  split <;> split <;> omega

/-- Wrapping on the way to a sum does not change where it wraps to. -/
theorem convert_add (first second : Int) : convert (convert first + second) = convert (first + second) := by
  simp only [convert, Int.bmod_add_bmod]

theorem convert_lt (value : Int) : convert value < 2 ^ 31 := by
  simp only [convert, Int.bmod]
  split <;> omega

/-- A count does not get larger. -/
theorem convert_le (nonnegative : 0 ≤ value) : convert value ≤ value := by
  simp only [convert, Int.bmod]
  split <;> omega

/-- Behind the largest `int` comes the smallest one. -/
theorem convert_add_one (value : Int) :
    convert (value + 1) = if convert value + 1 < 2 ^ 31 then convert value + 1 else -2 ^ 31 := by
  simp only [convert, Int.bmod]
  split <;> split <;> split <;> omega

theorem checked_eq (lower : -2 ^ 31 ≤ value) (upper : value < 2 ^ 31) : checked value = some value :=
  if_pos ⟨lower, upper⟩

theorem checked_above (above : 2 ^ 31 ≤ value) : checked value = none :=
  if_neg fun inside => absurd inside.2 (Int.not_lt.mpr above)

/-- The same for a count, which does not go below zero. -/
def checkedCount (count : Nat) : Option Nat := if count < 2 ^ 31 then some count else none

theorem checked_natCast (count : Nat) : checked count = (checkedCount count).map Nat.cast := by
  rw [checked, checkedCount]
  split
  · rw [if_pos (by omega)]
    rfl
  · rw [if_neg (by omega)]
    rfl

variable {α : Type} {cells : List α} {element : α} {index : Nat}

/-- An element of an array; outside of it a read is undefined. -/
def read (cells : List α) (index : Int) : Option α := if 0 ≤ index then cells[index.toNat]? else none

def write (cells : List α) (index : Int) (element : α) : Option (List α) :=
  if 0 ≤ index ∧ index < cells.length then some (cells.set index.toNat element) else none

theorem read_natCast (cells : List α) (index : Nat) : read cells index = cells[index]? := by
  rw [read, if_pos (Int.natCast_nonneg index), Int.toNat_natCast]

theorem read_negative {index : Int} (negative : index < 0) : read cells index = none :=
  if_neg (Int.not_le.mpr negative)

theorem write_natCast (inside : index < cells.length) : write cells index element = some (cells.set index element) := by
  rw [write, if_pos ⟨Int.natCast_nonneg index, Int.ofNat_lt.mpr inside⟩, Int.toNat_natCast]

end CInt

end Dwadelib
