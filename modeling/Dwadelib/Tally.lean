import Mathlib.Algebra.Ring.Int.Defs
import Mathlib.Data.List.Infix

namespace Dwadelib

/-! # Counters and their changes

Each change adds to the counter under its key. What a list of changes comes to does not depend on
their order; whether a counter stays in its range on the way does.
-/

structure Tally (α κ : Type) where
  key : α → κ
  delta : α → Int

namespace Tally

variable {α κ : Type} [DecidableEq κ] {tally : Tally α κ} {changes more : List α} {change : α} {counter : κ}
  {lower upper : Int}

def net (tally : Tally α κ) : List α → κ → Int
  | [], _ => 0
  | change :: changes, counter =>
      (if tally.key change = counter then tally.delta change else 0) + net tally changes counter

@[simp] theorem net_nil : tally.net [] counter = 0 := rfl

theorem net_cons : tally.net (change :: changes) counter =
    tally.net [change] counter + tally.net changes counter := by
  simp [net]

theorem net_append : tally.net (changes ++ more) counter =
    tally.net changes counter + tally.net more counter := by
  induction changes with
  | nil => simp
  | cons change changes ih => simp only [List.cons_append, net, ih, Int.add_assoc]

theorem net_own : tally.net [change] (tally.key change) = tally.delta change := by
  simp [net]

theorem net_other (other : tally.key change ≠ counter) : tally.net [change] counter = 0 := by
  simp [net, other]

/-- Changes by one at most come to no more than their number. -/
theorem net_bounds (small : ∀ change, -1 ≤ tally.delta change ∧ tally.delta change ≤ 1) :
    -(changes.length : Int) ≤ tally.net changes counter ∧ tally.net changes counter ≤ changes.length := by
  induction changes with
  | nil => simp
  | cons change changes ih =>
      have own := small change
      rw [net, List.length_cons]
      split <;> omega

/-- No counter leaves the range at any point. -/
def Within (tally : Tally α κ) (lower upper : Int) (changes : List α) : Prop :=
  ∀ before, before <+: changes → ∀ counter, lower ≤ tally.net before counter ∧ tally.net before counter < upper

theorem within_nil (below : lower ≤ 0) (above : 0 < upper) : tally.Within lower upper [] := by
  intro before starts counter
  rw [List.prefix_nil.mp starts]
  exact ⟨below, above⟩

theorem within_of_length (small : ∀ change, -1 ≤ tally.delta change ∧ tally.delta change ≤ 1)
    (below : lower ≤ -(changes.length : Int)) (above : (changes.length : Int) < upper) :
    tally.Within lower upper changes := by
  intro before starts counter
  have shorter := starts.length_le
  have bounds : -(before.length : Int) ≤ tally.net before counter ∧ tally.net before counter ≤ before.length :=
    net_bounds small
  omega

theorem Within.all (within : tally.Within lower upper changes) (counter : κ) :
    lower ≤ tally.net changes counter ∧ tally.net changes counter < upper :=
  within changes (List.prefix_refl changes) counter

theorem Within.of_append (within : tally.Within lower upper (changes ++ more)) : tally.Within lower upper changes :=
  fun before starts => within before (starts.trans (List.prefix_append changes more))

theorem within_concat : tally.Within lower upper (changes ++ [change]) ↔
    tally.Within lower upper changes ∧
      lower ≤ tally.net changes (tally.key change) + tally.delta change ∧
        tally.net changes (tally.key change) + tally.delta change < upper := by
  constructor
  · intro within
    have last := within.all (tally.key change)
    rw [net_append, net_own] at last
    exact ⟨within.of_append, last⟩
  · intro given before starts counter
    obtain ⟨within, last⟩ := given
    rcases List.prefix_concat_iff.mp starts with rfl | earlier
    · rw [net_append]
      by_cases own : tally.key change = counter
      · rw [← own, net_own]
        exact last
      · rw [net_other own, Int.add_zero]
        exact within.all counter
    · exact within before earlier counter

end Tally

end Dwadelib
