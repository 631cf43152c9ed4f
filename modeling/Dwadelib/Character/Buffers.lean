import Dwadelib.Character.Progress
import Dwadelib.Character.Units

namespace Dwadelib.Character

/-! # Room for what is converted

The size of the output is asked for at each unit and stays the same; of the input as many bytes are
read as the first one announces, before any of them is looked at.
-/

variable {unit : UInt16} {unitSequence : List UInt16} {outSize : Int} {rest : List UInt8}

/-- The bytes that a unit needs. -/
def neededBytes (unit : UInt16) : Nat :=
  if unit.toNat < 0x80 then 1
  else if unit.toNat < 0x800 then 2
  else 3

/-- No more is written than there is room for. -/
def WritesInside (unitSequence : List UInt16) (outSize : Int) (rest : List UInt8) : Prop :=
  ∃ output, unicodeToUtf8 (bigEndianUnits unitSequence ++ 0 :: 0 :: rest) outSize = .returned output ∧
    (output.written.length : Int) ≤ outSize

theorem size_unit : Utf8.size unit.toNat = neededBytes unit := by
  have bound := unit.toNat_lt
  have sizes := Utf8.size_cases unit.toNat
  rw [neededBytes]
  split_ifs <;> omega

theorem length_forms : (shortestForms unitSequence).flatten.length = (unitSequence.map neededBytes).sum := by
  induction unitSequence with
  | nil => rfl
  | cons unit later ih =>
      rw [shortestForms] at ih ⊢
      rw [List.map_cons, List.flatten_cons, List.length_append, ih, Utf8.length_shortest, size_unit, List.map_cons,
        List.sum_cons]

theorem writesInside_iff (nonzero : 0 ∉ unitSequence) (room : 6 ≤ outSize) :
    WritesInside unitSequence outSize rest ↔ ((unitSequence.map neededBytes).sum : Int) ≤ outSize := by
  rw [← length_forms]
  constructor
  · intro inside
    obtain ⟨output, returned, fits⟩ := inside
    rw [unicodeToUtf8_forms nonzero room rest, Outcome.returned.injEq] at returned
    rw [← returned] at fits
    exact fits
  · intro fits
    exact ⟨_, unicodeToUtf8_forms nonzero room rest, fits⟩

/-- The buffers are respected where all units have room together, and where no announced byte is
missing. -/
theorem stays_inside_iff {text : List UInt8} (nonzero : 0 ∉ unitSequence) (room : 6 ≤ outSize)
    (free : 0 ∉ text) :
    (WritesInside unitSequence outSize rest ↔ ((unitSequence.map neededBytes).sum : Int) ≤ outSize) ∧
    (ReadsInside text ↔ Uncut text) :=
  ⟨writesInside_iff nonzero room, readsInside_iff_uncut free⟩

theorem stays_inside_euro : WritesInside [0x20AC, 0x61] 6 [] ∧ ReadsInside [0x61] := by
  have ⟨written, read⟩ : (WritesInside [0x20AC, 0x61] 6 [] ↔ _) ∧ (ReadsInside [0x61] ↔ _) :=
    stays_inside_iff (by decide) (Int.le_refl 6) (by decide)
  have uncut : Uncut [0x61] := by
    intro pieces first others same _ _
    have start : pieces.flatten = [] := by
      have lengths := congrArg List.length same
      simp only [List.length_append, List.length_cons, List.length_nil] at lengths
      exact List.eq_nil_of_length_eq_zero (by omega)
    rw [start] at same
    obtain ⟨rfl, rfl⟩ := List.cons.inj same
    decide
  exact ⟨written.mpr (by decide), read.mpr uncut⟩

/-- Three units of three bytes each are too many for the least size, and the byte behind the zero byte
is read where two more are announced. -/
theorem outside_buffers : ¬ WritesInside [0x20AC, 0x20AC, 0x20AC] 6 [] ∧ ¬ ReadsInside [0xE2] := by
  constructor
  · intro inside
    have fits := (writesInside_iff (by decide) (Int.le_refl 6)).mp inside
    exact absurd fits (by decide)
  · intro inside
    obtain ⟨byte, first, reads⟩ := inside 1 _ mem_visited_self
    obtain rfl : 0xE2 = byte := Option.some.inj first
    exact reads (by decide) rfl

end Dwadelib.Character
