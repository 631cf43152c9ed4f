import Mathlib.Data.List.Infix
import Mathlib.Order.Bounds.Basic

namespace Dwadelib

/-! # The prefixes of a pattern that end a text

A search that reads each element of the text once keeps the longest prefix of the pattern that
ends what was read. The next longest ones are found in the pattern itself: they end the longest one.
-/

section Border

variable {α : Type} {pattern text : List α} {element : α} {bound n m : Nat}

/-- The first `n` elements of the pattern end the text. -/
structure Ends (pattern text : List α) (n : Nat) : Prop where
  fits : n ≤ pattern.length
  suffix : pattern.take n <:+ text

theorem ends_zero : Ends pattern text 0 := ⟨Nat.zero_le _, List.take_zero ▸ List.nil_suffix⟩

theorem ends_concat :
    Ends pattern (text ++ [element]) (n + 1) ↔ Ends pattern text n ∧ pattern[n]? = some element := by
  constructor
  · intro given
    obtain ⟨fits, suffix⟩ := given
    have inside : n < pattern.length := fits
    rw [List.take_add_one, List.getElem?_eq_getElem inside, Option.toList_some] at suffix
    obtain ⟨before, equal⟩ := suffix
    rw [← List.append_assoc] at equal
    obtain ⟨shorter, same⟩ := List.append_singleton_inj.mp equal
    exact ⟨⟨Nat.le_of_lt inside, before, shorter⟩, by rw [List.getElem?_eq_getElem inside, same]⟩
  · intro given
    obtain ⟨⟨fits, suffix⟩, read⟩ := given
    obtain ⟨inside, -⟩ := List.getElem?_eq_some_iff.mp read
    refine ⟨inside, ?_⟩
    rw [List.take_add_one, read, Option.toList_some]
    obtain ⟨before, rfl⟩ := suffix
    exact ⟨before, (List.append_assoc _ _ _).symm⟩

/-- The shorter of two prefixes that end a text ends the longer one. -/
theorem Ends.within (longer : Ends pattern text m) (le : n ≤ m) :
    Ends pattern text n ↔ Ends pattern (pattern.take m) n := by
  constructor
  · intro given
    obtain ⟨fits, suffix⟩ := given
    refine ⟨fits, List.suffix_of_suffix_length_le suffix longer.suffix ?_⟩
    rw [List.length_take, List.length_take]
    omega
  · intro given
    obtain ⟨fits, suffix⟩ := given
    exact ⟨fits, suffix.trans longer.suffix⟩

/-- The longest prefix below the bound that ends the text. -/
structure Longest (pattern text : List α) (bound n : Nat) : Prop where
  ends : Ends pattern text n
  below : n < bound
  largest : ∀ m, m < bound → Ends pattern text m → m ≤ n

theorem longest_nil (positive : 0 < bound) : Longest pattern [] bound 0 := by
  refine ⟨ends_zero, positive, fun _ _ ends => ?_⟩
  have empty := ends.suffix.length_le
  have fits := ends.fits
  rw [List.length_take, List.length_nil] at empty
  omega

theorem longest_one : Longest pattern text 1 0 :=
  ⟨ends_zero, Nat.one_pos, fun _ below _ => Nat.le_of_lt_succ below⟩

theorem Longest.lower (longest : Longest pattern text (bound + 1) n) (other : n ≠ bound) :
    Longest pattern text bound n := by
  have below := longest.below
  exact ⟨longest.ends, by omega, fun m smaller => longest.largest m (by omega)⟩

/-- How many elements are a proper prefix of a word that ends it, too. -/
def borders (word : List α) : Set Nat := {n | n < word.length ∧ word.take n <:+ word}

theorem Longest.greatest (inside : bound ≤ pattern.length) (longest : Longest pattern (pattern.take bound) bound n) :
    IsGreatest (borders (pattern.take bound)) n := by
  have length : (pattern.take bound).length = bound := by
    rw [List.length_take]
    omega
  have shorter : ∀ m, m < bound → (pattern.take bound).take m = pattern.take m := by
    intro m below
    rw [List.take_take, Nat.min_eq_left (Nat.le_of_lt below)]
  constructor
  · refine ⟨length.symm ▸ longest.below, ?_⟩
    rw [shorter n longest.below]
    exact longest.ends.suffix
  · intro m border
    obtain ⟨below, suffix⟩ := border
    rw [length] at below
    rw [shorter m below] at suffix
    have fits : m ≤ pattern.length := by omega
    exact longest.largest m below ⟨fits, suffix⟩

/-- What is left to try when an element is read: prefixes that are not longer. -/
structure Candidate (pattern text : List α) (element : α) (bound n : Nat) : Prop where
  ends : Ends pattern text n
  below : n < bound
  largest : ∀ m, m < bound → Ends pattern (text ++ [element]) (m + 1) → m ≤ n

theorem Longest.candidate (longest : Longest pattern text bound n) : Candidate pattern text element bound n :=
  ⟨longest.ends, longest.below, fun m smaller ends => longest.largest m smaller (ends_concat.mp ends).1⟩

section Candidate

variable (candidate : Candidate pattern text element bound n)
include candidate

theorem Candidate.taken (same : pattern[n]? = some element) :
    Longest pattern (text ++ [element]) (bound + 1) (n + 1) := by
  refine ⟨ends_concat.mpr ⟨candidate.ends, same⟩, Nat.succ_lt_succ candidate.below, fun m smaller ends => ?_⟩
  cases m with
  | zero => exact Nat.zero_le _
  | succ m => exact Nat.succ_le_succ (candidate.largest m (Nat.lt_of_succ_lt_succ smaller) ends)

/-- After a prefix that does not go on comes the longest one that ends it. -/
theorem Candidate.next (differs : pattern[n]? ≠ some element) (shorter : Longest pattern (pattern.take n) n m) :
    Candidate pattern text element bound m := by
  have less := shorter.below
  have below := candidate.below
  refine ⟨(candidate.ends.within (Nat.le_of_lt less)).mpr shorter.ends, by omega, fun k smaller ends => ?_⟩
  have here := candidate.largest k smaller ends
  obtain ⟨before, read⟩ := ends_concat.mp ends
  have apart : k ≠ n := by
    intro same
    obtain rfl := same
    exact differs read
  exact shorter.largest k (by omega) ((candidate.ends.within here).mp before)

end Candidate

theorem Candidate.none (candidate : Candidate pattern text element bound 0) (differs : pattern[0]? ≠ some element) :
    Longest pattern (text ++ [element]) (bound + 1) 0 := by
  refine ⟨ends_zero, Nat.succ_pos _, fun m smaller ends => ?_⟩
  cases m with
  | zero => exact Nat.le_refl 0
  | succ m =>
      obtain ⟨-, read⟩ := ends_concat.mp ends
      have first : m = 0 := Nat.le_zero.mp (candidate.largest m (Nat.lt_of_succ_lt_succ smaller) ends)
      subst first
      exact absurd read differs

end Border

end Dwadelib
