import Mathlib.Data.List.Infix

namespace Dwadelib

/-! # Where a pattern occurs in a text -/

section Occurrence

variable {α : Type} {text pattern : List α} {index : Nat}

def OccursAt (pattern text : List α) (index : Nat) : Prop := pattern <+: text.drop index

instance decidableOccursAt [DecidableEq α] : Decidable (OccursAt pattern text index) :=
  decidable_of_iff (pattern.isPrefixOf (text.drop index) = true) List.isPrefixOf_iff_prefix

theorem occursAt_iff :
    OccursAt pattern text index ↔ ∀ k, k < pattern.length → text[index + k]? = pattern[k]? := by
  rw [OccursAt, List.prefix_iff_getElem?]
  constructor
  · intro same k inside
    have read := same k inside
    rw [List.getElem?_drop] at read
    rw [read, List.getElem?_eq_getElem inside]
  · intro same k inside
    rw [List.getElem?_drop, same k inside, List.getElem?_eq_getElem inside]

theorem OccursAt.fits (occurs : OccursAt pattern text index) (nonempty : pattern ≠ []) :
    index + pattern.length ≤ text.length := by
  have shorter := occurs.length_le
  have positive := List.length_pos_iff.mpr nonempty
  rw [List.length_drop] at shorter
  omega

/-- An occurrence ends where its last element is. -/
theorem occursAt_iff_suffix (fits : index + pattern.length ≤ text.length) :
    OccursAt pattern text index ↔ pattern <:+ text.take (index + pattern.length) := by
  have shorter : (text.take index).length = index := by
    rw [List.length_take]
    omega
  constructor
  · intro given
    obtain ⟨after, same⟩ := given
    refine ⟨text.take index, ?_⟩
    have front : text.take (index + pattern.length) = text.take index ++ (text.drop index).take pattern.length :=
      List.take_add
    rw [front, ← same, List.take_left]
  · intro given
    obtain ⟨before, same⟩ := given
    have length := congrArg List.length same
    rw [List.length_append, List.length_take] at length
    have here : before.length = index := by omega
    refine ⟨text.drop (index + pattern.length), ?_⟩
    have whole : text = before ++ (pattern ++ text.drop (index + pattern.length)) := by
      rw [← List.append_assoc, same, List.take_append_drop]
    rw [whole, ← here, List.drop_left, ← List.append_assoc, ← List.length_append, List.drop_left]

theorem occursAt_nil : OccursAt [] text index := List.nil_prefix

theorem exists_occursAt : (∃ index, OccursAt pattern text index) ↔ pattern <:+: text := by
  constructor
  · intro given
    obtain ⟨index, after, same⟩ := given
    refine ⟨text.take index, after, ?_⟩
    rw [List.append_assoc, same, List.take_append_drop]
  · intro given
    obtain ⟨before, after, rfl⟩ := given
    refine ⟨before.length, after, ?_⟩
    rw [List.append_assoc, List.drop_left]

/-- What a search is for: the least position of the pattern, -1 without one. -/
def FirstOccurrence (pattern text : List α) (result : Int) : Prop :=
  (∃ index : Nat, result = index ∧ OccursAt pattern text index ∧ ∀ k, k < index → ¬ OccursAt pattern text k) ∨
    (result = -1 ∧ ∀ k, ¬ OccursAt pattern text k)

theorem FirstOccurrence.found_iff {result : Int} (first : FirstOccurrence pattern text result) :
    result ≠ -1 ↔ pattern <:+: text := by
  rw [← exists_occursAt]
  rcases first with ⟨index, rfl, occurs, -⟩ | ⟨rfl, nowhere⟩
  · have here : ((index : Nat) : Int) ≠ -1 := by omega
    exact iff_of_true here ⟨index, occurs⟩
  · refine iff_of_false (fun differs => differs rfl) ?_
    intro given
    obtain ⟨index, occurs⟩ := given
    exact nowhere index occurs

/-- The least position of the pattern. -/
def occurrence [DecidableEq α] (pattern text : List α) : Option Nat :=
  (List.range (text.length + 1)).find? fun index => OccursAt pattern text index

theorem occurrence_eq_some [DecidableEq α] : occurrence pattern text = some index ↔
    OccursAt pattern text index ∧ index ≤ text.length ∧ ∀ k, k < index → ¬ OccursAt pattern text k := by
  simp only [occurrence, List.find?_range_eq_some, decide_eq_true_eq, List.mem_range, Nat.lt_succ_iff, Bool.not_eq_true',
    decide_eq_false_iff_not]

theorem fits_of_occurrence [DecidableEq α] (found : occurrence pattern text = some index) :
    index + pattern.length ≤ text.length := by
  obtain ⟨occurs, inside, -⟩ := occurrence_eq_some.mp found
  by_cases empty : pattern = []
  · subst empty
    exact inside
  · exact occurs.fits empty

end Occurrence

end Dwadelib
