import Dwadelib.Algorithm.Kmp.Places

namespace Dwadelib.Algorithm

/-! # What the table holds

The characters of the pattern up to one of them have borders. The table tells the longest one, and
falling back takes them from long to short.
-/

variable {next : List Int} {pattern : List UInt8}

/-- The states in which the rounds of `get_next` begin. -/
def fillings (next : List Int) (T : List UInt8) (len : Int) : List Filling :=
  match CInt.write next 0 (-1) with
  | none => []
  | some next => visited (fill T len) (len.toNat + 1) { next := next, k := -1, q := 1 }

/-- Each time that `get_next` falls back it goes on with an entry before the one it was at. -/
def FallsBack (next : List Int) (T : List UInt8) (len : Int) : Prop :=
  ∀ filling ∈ fillings next T len, ∀ character, CInt.read T filling.q = some character →
    ∀ k ∈ visited (fallBack filling.next T character) ((filling.k + 1).toNat + 1) filling.k,
      ∀ after, fallBack filling.next T character k = .returned (.next after) →
        CInt.read filling.next k = some after ∧ after < k

theorem falls_back (room : pattern.length < next.length) : FallsBack next (pattern ++ [0]) pattern.length := by
  have length : (pattern ++ [0]).length = pattern.length + 1 := by rw [List.length_append, List.length_singleton]
  have positive : 0 < next.length := by omega
  have begun : CInt.write next 0 (-1) = some (next.set 0 (-1)) := CInt.write_natCast positive
  intro filling passed character _ k falling after iterated
  rw [fillings, begun] at passed
  obtain ⟨q, filled⟩ := fillings_filled length room passed
  obtain ⟨n, found, longest⟩ := filled.longest
  have below := longest.below
  have kept : ∀ k after : Int, k < q → fallBack filling.next (pattern ++ [0]) character k = .returned (.next after) →
      after < q := by
    intro k after inside iterated
    obtain ⟨begun, entry⟩ := fallBack_next iterated
    have before := entry_before filled.table begun inside entry
    omega
  have inside : k < q := visited_invariant kept (by omega) falling
  obtain ⟨started, entry⟩ := fallBack_next iterated
  exact ⟨entry, (entry_before filled.table started inside entry).2⟩

/-- After `get_next` each entry before the end of the pattern tells the longest border of the characters up to
it, as long as `int` holds the length of the pattern and its zero byte. -/
theorem getNext_borders (room : pattern.length < next.length) (fits : pattern.length + 1 < 2 ^ 31) :
    (∃ filled, getNext next (pattern ++ [0]) pattern.length = .returned filled ∧
      ∀ q, q < pattern.length → ∃ n : Nat, filled[q]? = some (n - 1 : Int) ∧
        IsGreatest (borders (pattern.take (q + 1))) n) ∧
    FallsBack next (pattern ++ [0]) pattern.length := by
  have length : (pattern ++ [0]).length = pattern.length + 1 := by rw [List.length_append, List.length_singleton]
  obtain ⟨filled, returned, table⟩ := getNext_table length room fits
  refine ⟨⟨filled, returned, fun q inside => ?_⟩, falls_back room⟩
  obtain ⟨n, entry, longest⟩ := table.entry q (by omega)
  have whole : (pattern ++ [0]).take (q + 1) = pattern.take (q + 1) := List.take_append_of_le_length inside
  have greatest : IsGreatest (borders ((pattern ++ [0]).take (q + 1))) n := longest.greatest (by omega)
  rw [whole] at greatest
  exact ⟨n, entry, greatest⟩

theorem getNext_borders_aba :
    (∃ filled, getNext [7, 7, 7, 7] ([97, 98, 97] ++ [0]) ([97, 98, 97] : List UInt8).length = .returned filled ∧
      ∀ q, q < ([97, 98, 97] : List UInt8).length → ∃ n : Nat, filled[q]? = some (n - 1 : Int) ∧
        IsGreatest (borders (([97, 98, 97] : List UInt8).take (q + 1))) n) ∧
    FallsBack [7, 7, 7, 7] ([97, 98, 97] ++ [0]) ([97, 98, 97] : List UInt8).length :=
  getNext_borders (by decide) (by decide)

/-- For a pattern of the largest length the loop counts beyond `int`. -/
theorem getNext_overflows : ∃ pattern : List UInt8, ∃ next : List Int,
    pattern = List.replicate (2 ^ 31 - 1) 97 ∧ pattern.length < next.length ∧ pattern.length < 2 ^ 31 ∧
      getNext next (pattern ++ [0]) pattern.length = .undefined := by
  have length : (List.replicate (2 ^ 31 - 1) (97 : UInt8)).length = 2 ^ 31 - 1 := List.length_replicate
  have room : (List.replicate (2 ^ 31 - 1) (97 : UInt8)).length < (List.replicate (2 ^ 31) (0 : Int)).length := by
    rw [length, List.length_replicate]
    decide
  refine ⟨_, _, rfl, room, ?_, getNext_undefined ?_ room ?_⟩
  · rw [length]
    decide
  · rw [List.length_append, List.length_singleton]
  · rw [length]
    decide

end Dwadelib.Algorithm
