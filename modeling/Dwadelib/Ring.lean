import Dwadelib.Cells
import Mathlib.Data.List.Rotate

namespace Dwadelib

/-! # Circular arrays

The sequence held by a circular array starts at any index and goes on from the first cell
once it has reached the last one. The index may count on past the end: only its remainder
by the number of cells matters.
-/

namespace Ring

variable {α : Type} {cells written after : List α} {start used count more index : Nat}
  {values : List α}

def window (cells : List α) (start count : Nat) : List α :=
  (cells.rotate start).take count

theorem window_zero : window cells start 0 = [] := by
  rw [window, List.take_zero]

theorem length_window (within : count ≤ cells.length) : (window cells start count).length = count := by
  rw [window, List.length_take, List.length_rotate, Nat.min_eq_left within]

theorem window_congr {other : Nat} (same : start % cells.length = other % cells.length) :
    window cells start count = window cells other count := by
  rw [window, window, ← List.rotate_mod, same, List.rotate_mod]

theorem getElem?_window (below : index < count) (within : count ≤ cells.length) :
    (window cells start count)[index]? = cells[(start + index) % cells.length]? := by
  rw [window, List.getElem?_take_of_lt below, List.getElem?_rotate (by omega), Nat.add_comm]

theorem drop_window (taken : more ≤ count) (within : count ≤ cells.length) :
    (window cells start count).drop more = window cells (start + more) (count - more) := by
  apply List.ext_getElem?
  intro index
  rw [List.getElem?_drop]
  by_cases below : more + index < count
  · rw [getElem?_window below within, getElem?_window (by omega) (by omega), Nat.add_assoc]
  · rw [List.getElem?_eq_none, List.getElem?_eq_none]
    · rw [length_window (by omega)]
      omega
    · rw [length_window within]
      omega

theorem take_window : (window cells start count).take more = window cells start (min more count) := by
  rw [window, window, List.take_take]

/-- The two pieces of a window: up to the last cell, and on from the first. -/
theorem window_pieces (within : count ≤ cells.length) (inside : start < cells.length) :
    window cells start count =
      (cells.drop start).take (min count (cells.length - start)) ++
        cells.take (count - min count (cells.length - start)) := by
  rw [window, List.rotate_eq_drop_append_take (by omega), List.take_append, List.length_drop,
    List.take_take]
  congr 1
  · rcases Nat.le_total count (cells.length - start) with fits | cut
    · rw [Nat.min_eq_left fits]
    · rw [Nat.min_eq_right cut, List.take_of_length_le (by rw [List.length_drop]; exact cut),
        List.take_of_length_le (by rw [List.length_drop])]
  · congr 1
    omega

/-- An index at most one round ahead is reached either before or after the last cell. -/
theorem add_mod_cases (ahead : index ≤ count) (nonempty : 0 < count) :
    start % count + index < count ∧ (start + index) % count = start % count + index ∨
      count ≤ start % count + index ∧ (start + index) % count = start % count + index - count := by
  have below := Nat.mod_lt start nonempty
  rw [← Nat.mod_add_mod]
  rcases Nat.lt_or_ge (start % count + index) count with inside | outside
  · exact .inl ⟨inside, Nat.mod_eq_of_lt inside⟩
  · refine .inr ⟨outside, ?_⟩
    rw [Nat.mod_eq_sub_mod outside, Nat.mod_eq_of_lt (by omega)]

/-- Values written behind the used part of the array, up to its last cell and on from its first,
are behind it in the window. -/
theorem window_written {position first : Nat} (room : used + values.length ≤ cells.length)
    (nonempty : 0 < cells.length) (here : position = (start + used) % cells.length)
    (length : first = min values.length (cells.length - position))
    (toEnd : Cells.store cells position (values.take first) = some written)
    (fromStart : Cells.store written 0 (values.drop first) = some after) :
    window after start (used + values.length) = window cells start used ++ values := by
  have sameLength : after.length = cells.length :=
    (Cells.length_of_store fromStart).trans (Cells.length_of_store toEnd)
  have startBelow := Nat.mod_lt start nonempty
  have whereFree := @add_mod_cases start cells.length used (by omega) nonempty
  apply List.ext_getElem?
  intro index
  by_cases below : index < used + values.length
  · have whereRead := @add_mod_cases start cells.length index (by omega) nonempty
    rw [getElem?_window below (by omega), sameLength, Cells.getElem?_store fromStart,
      Cells.getElem?_store toEnd, List.length_drop, List.length_take, List.getElem?_drop]
    by_cases old : index < used
    · rw [List.getElem?_append_left (by rw [length_window (by omega)]; exact old),
        getElem?_window old (by omega), if_neg (by omega), if_neg (by omega)]
    · rw [List.getElem?_append_right (by rw [length_window (by omega)]; omega),
        length_window (by omega)]
      by_cases early : index - used < first
      · rw [if_neg (by omega), if_pos (by omega), List.getElem?_take_of_lt (by omega)]
        congr 1
        omega
      · rw [if_pos (by omega)]
        congr 1
        omega
  · rw [List.getElem?_eq_none, List.getElem?_eq_none]
    · rw [List.length_append, length_window (by omega)]
      omega
    · rw [length_window (by omega)]
      omega

end Ring

end Dwadelib
