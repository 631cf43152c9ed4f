import Mathlib.InformationTheory.Coding.UniquelyDecodable
import Mathlib.Data.List.Basic

namespace Dwadelib

/-! # Words that announce their length

The first letter of a word tells how long the word is. A text of such words can be cut into them
in one way only.
-/

section Announced

variable {α : Type} {size : α → Nat} {first : α} {word rest others : List α} {words : List (List α)} {fuel : Nat}

structure Announced (size : α → Nat) (word : List α) : Prop where
  begins : ∃ first others, word = first :: others ∧ word.length = size first

/-- The words of a text, of which there are as many as rounds at most. -/
def cut (size : α → Nat) : Nat → List α → List (List α)
  | 0, _ => []
  | _ + 1, [] => []
  | fuel + 1, first :: others =>
      (first :: others).take (size first) :: cut size fuel ((first :: others).drop (size first))

theorem Announced.nonempty (announced : Announced size word) : word ≠ [] := by
  obtain ⟨first, others, rfl, -⟩ := announced.begins
  exact List.cons_ne_nil _ _

/-- As many letters as the first one tells are a word. -/
theorem announced_take (positive : 0 < size first) (inside : size first ≤ (first :: others).length) :
    Announced size ((first :: others).take (size first)) := by
  obtain ⟨count, length⟩ : ∃ count, size first = count + 1 := ⟨size first - 1, by omega⟩
  refine ⟨first, others.take count, ?_, List.length_take_of_le inside⟩
  rw [length, List.take_succ_cons]

theorem Announced.cut_append (announced : Announced size word) :
    cut size (fuel + 1) (word ++ rest) = word :: cut size fuel rest := by
  obtain ⟨first, others, rfl, length⟩ := announced.begins
  rw [List.cons_append, cut, ← length, ← List.cons_append, List.take_left, List.drop_left]

theorem cut_flatten (announced : ∀ word ∈ words, Announced size word) (enough : words.length ≤ fuel) :
    cut size fuel words.flatten = words := by
  induction words generalizing fuel with
  | nil => cases fuel <;> rfl
  | cons word words ih =>
      obtain ⟨here, later⟩ := List.forall_mem_cons.mp announced
      obtain ⟨fuel, rfl⟩ : ∃ fewer, fuel = fewer + 1 := ⟨fuel - 1, by rw [List.length_cons] at enough; omega⟩
      rw [List.flatten_cons, here.cut_append, ih later (Nat.le_of_succ_le_succ enough)]

/-- There are no more words than letters. -/
theorem length_le_flatten (announced : ∀ word ∈ words, Announced size word) :
    words.length ≤ words.flatten.length := by
  induction words with
  | nil => exact Nat.le_refl 0
  | cons word words ih =>
      obtain ⟨here, later⟩ := List.forall_mem_cons.mp announced
      have positive := List.length_pos_iff.mpr here.nonempty
      have shorter := ih later
      rw [List.length_cons, List.flatten_cons, List.length_append]
      omega

/-- There are no more words than rounds. -/
theorem length_cut_le {text : List α} : (cut size fuel text).length ≤ fuel := by
  induction fuel generalizing text with
  | zero => exact Nat.le_refl 0
  | succ fuel ih =>
      cases text with
      | nil => exact Nat.zero_le _
      | cons first others => exact Nat.succ_le_succ ih

theorem uniquelyDecodable_announced (size : α → Nat) :
    InformationTheory.UniquelyDecodable { word | Announced size word } := by
  intro words others announced announcedOthers same
  have first := cut_flatten announced (Nat.le_max_left _ others.length)
  have second := cut_flatten announcedOthers (Nat.le_max_right words.length _)
  rw [← first, same, second]

end Announced

end Dwadelib
