import Mathlib.Data.List.DropRight

namespace Dwadelib

/-! # Parts of an array

The part between two places, and what is left of it when its ends are trimmed.
-/

section Slices

variable {α : Type} {cells part : List α} {first last : Nat} {front back : α → Bool} {element : α}

/-- The elements from `first` on that are before `last`. -/
def slice (cells : List α) (first last : Nat) : List α := (cells.take last).drop first

theorem slice_empty (ended : last ≤ first) : slice cells first last = [] := by
  apply List.drop_eq_nil_of_le
  rw [List.length_take]
  omega

theorem length_slice (fits : last ≤ cells.length) : (slice cells first last).length = last - first := by
  rw [slice, List.length_drop, List.length_take, Nat.min_eq_left fits]

theorem slice_cons (inside : first < last) (fits : last ≤ cells.length) :
    slice cells first last = cells[first] :: slice cells (first + 1) last := by
  have before : first < (cells.take last).length := by
    rw [List.length_take]
    omega
  rw [slice, List.drop_eq_getElem_cons before, List.getElem_take]
  rfl

theorem slice_concat (inside : first < last) (fits : last ≤ cells.length) :
    slice cells first last = slice cells first (last - 1) ++ [cells[last - 1]] := by
  obtain ⟨last, rfl⟩ : ∃ fewer, last = fewer + 1 := ⟨last - 1, by omega⟩
  have shorter : first ≤ (cells.take last).length := by
    rw [List.length_take]
    omega
  rw [slice, List.take_add_one, List.getElem?_eq_getElem fits, Option.toList_some, List.drop_append_of_le_length shorter]
  rfl

/-- What is left without some elements in front and others at the end. -/
def trim (front back : α → Bool) (part : List α) : List α := (part.dropWhile front).rdropWhile back

theorem trim_cons (drops : front element) : trim front back (element :: part) = trim front back part := by
  rw [trim, List.dropWhile_cons_of_pos drops]
  rfl

theorem trim_concat (keeps : ∀ head, (part ++ [element]).head? = some head → ¬ front head) (drops : back element) :
    trim front back (part ++ [element]) = trim front back part := by
  cases part with
  | nil =>
      have kept := keeps element rfl
      rw [trim, List.nil_append, List.dropWhile_cons_of_neg kept, List.rdropWhile_singleton, if_pos drops]
      rfl
  | cons head part =>
      have kept := keeps head rfl
      rw [trim, List.cons_append, List.dropWhile_cons_of_neg kept, ← List.cons_append,
        List.rdropWhile_concat_pos _ _ _ drops, trim, List.dropWhile_cons_of_neg kept]

theorem trim_kept (keeps : ∀ head, (part ++ [element]).head? = some head → ¬ front head) (kept : ¬ back element) :
    trim front back (part ++ [element]) = part ++ [element] := by
  have whole : (part ++ [element]).dropWhile front = part ++ [element] := by
    cases part with
    | nil => exact List.dropWhile_cons_of_neg (keeps element rfl)
    | cons head part => exact List.dropWhile_cons_of_neg (keeps head rfl)
  rw [trim, whole, List.rdropWhile_concat_neg _ _ _ kept]

end Slices

end Dwadelib
