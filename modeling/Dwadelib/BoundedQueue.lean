import Mathlib.Data.List.Basic

namespace Dwadelib

/-! # Bounded queues

A queue that holds at most as many values as its capacity. What does not fit is not accepted.
-/

structure BoundedQueue (α : Type) (capacity : Nat) where
  stored : List α
  fits : stored.length ≤ capacity

namespace BoundedQueue

variable {α : Type} {capacity count : Nat} {queue : BoundedQueue α capacity} {values : List α}

def empty (α : Type) (capacity : Nat) : BoundedQueue α capacity where
  stored := []
  fits := Nat.zero_le capacity

def free (queue : BoundedQueue α capacity) : Nat := capacity - queue.stored.length

/-- As many of the values as fit are appended, the first ones first. -/
def put (queue : BoundedQueue α capacity) (values : List α) : BoundedQueue α capacity where
  stored := queue.stored ++ values.take queue.free
  fits := by
    have fits := queue.fits
    rw [List.length_append, List.length_take, free]
    omega

def get (queue : BoundedQueue α capacity) (count : Nat) : BoundedQueue α capacity where
  stored := queue.stored.drop count
  fits := by
    have fits := queue.fits
    rw [List.length_drop]
    omega

@[simp] theorem stored_put : (queue.put values).stored = queue.stored ++ values.take queue.free := rfl

@[simp] theorem stored_get : (queue.get count).stored = queue.stored.drop count := rfl

theorem length_add_free (queue : BoundedQueue α capacity) : queue.stored.length + queue.free = capacity := by
  have fits := queue.fits
  rw [free]
  omega

end BoundedQueue

end Dwadelib
