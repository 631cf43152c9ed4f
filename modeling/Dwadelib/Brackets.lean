import Mathlib.Data.List.Basic

namespace Dwadelib

/-! # Properly nested brackets

A word is nested when a stack of the open kinds reads it to the end and is empty then. A counter
does for a stack where the kinds do not matter.
-/

inductive Bracket (κ : Type) where
  | opening (kind : κ)
  | closing (kind : κ)
  deriving DecidableEq, Repr

namespace Bracket

variable {κ ι : Type} {kind : κ} {stack : List κ} {word inside rest : List (Bracket κ)} {depth : Nat}

inductive Nested : List (Bracket κ) → Prop where
  | nil : Nested []
  | pair {inside rest : List (Bracket κ)} (kind : κ) (within : Nested inside) (behind : Nested rest) :
      Nested (opening kind :: inside ++ closing kind :: rest)

/-- A word that closes the brackets of a stack, the innermost one first. -/
inductive Closes : List κ → List (Bracket κ) → Prop where
  | nested {word : List (Bracket κ)} (nested : Nested word) : Closes [] word
  | close {kind : κ} {stack : List κ} {inside rest : List (Bracket κ)} (nested : Nested inside)
      (closes : Closes stack rest) : Closes (kind :: stack) (inside ++ closing kind :: rest)

theorem Closes.opened (closes : Closes (kind :: stack) word) : Closes stack (opening kind :: word) := by
  cases closes with
  | close within later =>
      cases later with
      | nested behind => exact .nested (.pair kind within behind)
      | close between last =>
          have before := Nested.pair kind within between
          simpa only [List.cons_append, List.append_assoc] using Closes.close before last

section Closing

variable [DecidableEq κ]

def closes : List κ → List (Bracket κ) → Bool
  | [], [] => true
  | _ :: _, [] => false
  | stack, opening kind :: word => closes (kind :: stack) word
  | [], closing _ :: _ => false
  | innermost :: stack, closing kind :: word => innermost = kind && closes stack word

@[simp] theorem closes_opening : closes stack (opening kind :: word) = closes (kind :: stack) word := by
  cases stack <;> rfl

theorem Nested.closes (nested : Nested word) (stack : List κ) :
    Bracket.closes stack (word ++ rest) = Bracket.closes stack rest := by
  induction nested generalizing stack rest with
  | nil => rfl
  | pair kind within behind withinIH behindIH =>
      simp only [List.cons_append, List.append_assoc, closes_opening, withinIH, Bracket.closes, behindIH, decide_true,
        Bool.true_and]

theorem closes_iff : closes stack word = true ↔ Closes stack word := by
  constructor
  · intro read
    induction word generalizing stack with
    | nil =>
        cases stack with
        | nil => exact .nested .nil
        | cons innermost stack => simp [closes] at read
    | cons bracket word ih =>
        cases bracket with
        | opening kind =>
            rw [closes_opening] at read
            exact (ih read).opened
        | closing kind =>
            cases stack with
            | nil => simp [closes] at read
            | cons innermost stack =>
                simp only [closes, Bool.and_eq_true, decide_eq_true_eq] at read
                obtain ⟨rfl, later⟩ := read
                exact .close .nil (ih later)
  · intro closed
    induction closed with
    | @nested word nested =>
        have read : Bracket.closes [] (word ++ []) = Bracket.closes [] [] := nested.closes []
        simpa [closes] using read
    | @close kind stack inside rest nested later ih =>
        rw [nested.closes (kind :: stack)]
        simpa [closes] using ih

theorem nested_iff_closes : Nested word ↔ closes [] word = true := by
  rw [closes_iff]
  constructor
  · exact .nested
  · intro closed
    cases closed with
    | nested nested => exact nested

instance : DecidablePred (@Nested κ) := fun _ => decidable_of_iff _ nested_iff_closes.symm

end Closing

def map (f : κ → ι) : Bracket κ → Bracket ι
  | opening kind => opening (f kind)
  | closing kind => closing (f kind)

theorem Nested.map (nested : Nested word) (f : κ → ι) : Nested (word.map (Bracket.map f)) := by
  induction nested with
  | nil => exact .nil
  | pair kind within behind withinIH behindIH =>
      simpa only [List.map_cons, List.map_append, Bracket.map, List.cons_append] using
        Nested.pair (f kind) withinIH behindIH

/-- How many brackets are open after a word, whatever their kinds; `none` after a closing one too
many. -/
def depthAfter : Nat → List (Bracket κ) → Option Nat
  | depth, [] => some depth
  | depth, opening _ :: word => depthAfter (depth + 1) word
  | 0, closing _ :: _ => none
  | depth + 1, closing _ :: word => depthAfter depth word

theorem depthAfter_append :
    depthAfter depth (word ++ rest) = (depthAfter depth word).bind fun depth => depthAfter depth rest := by
  induction word generalizing depth with
  | nil => simp [depthAfter]
  | cons bracket word ih =>
      cases bracket with
      | opening kind => simpa [depthAfter] using ih
      | closing kind =>
          cases depth with
          | zero => simp [depthAfter]
          | succ depth => simpa [depthAfter] using ih

theorem closes_replicate :
    closes (List.replicate depth ()) (word.map (Bracket.map fun _ => ())) = true ↔ depthAfter depth word = some 0 := by
  induction word generalizing depth with
  | nil => cases depth <;> simp [closes, depthAfter, List.replicate_succ]
  | cons bracket word ih =>
      cases bracket with
      | opening kind =>
          have deeper := @ih (depth + 1)
          simpa [map, depthAfter, ← List.replicate_succ] using deeper
      | closing kind =>
          cases depth with
          | zero => simp [map, closes, depthAfter]
          | succ depth => simpa [map, closes, depthAfter, List.replicate_succ] using ih

theorem nested_unit_iff : Nested (word.map (Bracket.map fun _ => ())) ↔ depthAfter 0 word = some 0 := by
  rw [nested_iff_closes]
  show closes (List.replicate 0 ()) _ = true ↔ _
  exact closes_replicate

end Bracket

end Dwadelib
