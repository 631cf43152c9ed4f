import Dwadelib.Algorithm.Kmp
import Dwadelib.Border
import Dwadelib.Cells
import Dwadelib.Occurrence

namespace Dwadelib.Algorithm

/-! # The search finds the first occurrence -/

variable {next : List Int} {T text pattern : List UInt8} {character : UInt8} {bound count n : Nat}

/-- The first `count` entries are filled: each tells how much of the pattern ends a prefix of it. -/
structure Table (T : List UInt8) (count : Nat) (next : List Int) : Prop where
  room : count ≤ next.length
  entry : ∀ q, q < count → ∃ n : Nat, next[q]? = some (n - 1 : Int) ∧ Longest T (T.take (q + 1)) (q + 1) n

theorem Table.first (begun : next ≠ []) : Table T 1 (next.set 0 (-1)) := by
  have positive := List.length_pos_iff.mpr begun
  constructor
  · rw [List.length_set]
    exact positive
  · intro q inside
    obtain rfl : q = 0 := by omega
    exact ⟨0, List.getElem?_set_self positive, longest_one⟩

theorem Table.set (table : Table T count next) (room : count < next.length)
    (longest : Longest T (T.take (count + 1)) (count + 1) n) : Table T (count + 1) (next.set count (n - 1)) := by
  constructor
  · rw [List.length_set]
    exact room
  · intro q inside
    rcases Nat.lt_or_eq_of_le (Nat.le_of_lt_succ inside) with before | rfl
    · rw [List.getElem?_set_ne (Nat.ne_of_gt before)]
      exact table.entry q before
    · exact ⟨n, List.getElem?_set_self room, longest⟩

section Advance

variable (table : Table T count next) (known : bound ≤ count) (inside : bound ≤ T.length)
include table known inside

/-- The loop ends at a prefix that goes on, or at none. -/
theorem fallBack_ends (candidate : Candidate T text character bound n) :
    ∃ k, whileLoop (fallBack next T character) (n + 1) (n - 1 : Int) = .returned k ∧
      ∃ m : Nat, k = (m - 1 : Int) ∧ Candidate T text character bound m ∧ (T[m]? = some character ∨ m = 0) := by
  have rounds : ∀ k : Int, (∃ m : Nat, k = (m - 1 : Int) ∧ Candidate T text character bound m) →
      (∃ result, fallBack next T character k = .returned (.stop result) ∧
          ∃ m : Nat, result = (m - 1 : Int) ∧ Candidate T text character bound m ∧ (T[m]? = some character ∨ m = 0)) ∨
        ∃ after, fallBack next T character k = .returned (.next after) ∧
          (∃ m : Nat, after = (m - 1 : Int) ∧ Candidate T text character bound m) ∧
            (after + 1).toNat < (k + 1).toNat := by
    intro k given
    obtain ⟨m, rfl, left⟩ := given
    have below := left.below
    have place : (m - 1 : Int) + 1 = m := by omega
    have read : CInt.read T ((m - 1 : Int) + 1) = some T[m] := by
      rw [place, CInt.read_natCast, List.getElem?_eq_getElem (by omega)]
    by_cases none : m = 0
    · left
      refine ⟨(m - 1 : Int), ?_, m, rfl, left, Or.inr none⟩
      rw [fallBack, if_neg (by omega)]
      rfl
    · by_cases same : T[m] = character
      · left
        refine ⟨(m - 1 : Int), ?_, m, rfl, left, Or.inl ?_⟩
        · rw [fallBack, if_pos (by omega), read, Outcome.ofOption_some, Outcome.returned_bind, if_neg (not_not.mpr same)]
          rfl
        · rw [List.getElem?_eq_getElem (by omega), same]
      · right
        obtain ⟨shorter, entry, longest⟩ := table.entry (m - 1) (by omega)
        rw [show m - 1 + 1 = m by omega] at longest
        have less := longest.below
        have differs : T[m]? ≠ some character := by
          rw [List.getElem?_eq_getElem (by omega)]
          exact fun equal => same (Option.some.inj equal)
        refine ⟨(shorter - 1 : Int), ?_, ⟨shorter, rfl, left.next differs longest⟩, by omega⟩
        have last : (m - 1 : Int) = (m - 1 : Nat) := by omega
        rw [fallBack, if_pos (by omega), read, Outcome.ofOption_some, Outcome.returned_bind, if_pos same, last,
          CInt.read_natCast, entry, Outcome.ofOption_some, Outcome.returned_bind]
        rfl
  exact whileLoop_total (fun k : Int => (k + 1).toNat) rounds ⟨n, rfl, candidate⟩ (by omega)

theorem advance_longest (longest : Longest T text bound n) (character : UInt8) :
    ∃ m : Nat, advance next T character (n - 1) = .returned (m - 1 : Int) ∧
      Longest T (text ++ [character]) (bound + 1) m := by
  have start : Candidate T text character bound n := longest.candidate
  obtain ⟨k, returned, m, rfl, candidate, ended⟩ := fallBack_ends table known inside start
  have below := candidate.below
  have place : (m - 1 : Int) + 1 = m := by omega
  have read : CInt.read T ((m - 1 : Int) + 1) = some T[m] := by
    rw [place, CInt.read_natCast, List.getElem?_eq_getElem (by omega)]
  have fuel : ((n - 1 : Int) + 1).toNat + 1 = n + 1 := by omega
  by_cases same : T[m] = character
  · refine ⟨m + 1, ?_, candidate.taken (by rw [List.getElem?_eq_getElem (by omega), same])⟩
    rw [advance, fuel, returned, Outcome.returned_bind, read, Outcome.ofOption_some, Outcome.returned_bind, if_pos same]
    show Outcome.returned ((m - 1 : Int) + 1) = .returned (((m + 1 : Nat) : Int) - 1)
    congr 1
    omega
  · have differs : T[m]? ≠ some character := by
      rw [List.getElem?_eq_getElem (by omega)]
      exact fun equal => same (Option.some.inj equal)
    obtain rfl : m = 0 := ended.resolve_left differs
    refine ⟨0, ?_, candidate.none differs⟩
    rw [advance, fuel, returned, Outcome.returned_bind, read, Outcome.ofOption_some, Outcome.returned_bind, if_neg same]
    rfl

end Advance

/-- Before the round of `q`. -/
structure Filled (T : List UInt8) (size q : Nat) (filling : Filling) : Prop where
  place : filling.q = q
  size : filling.next.length = size
  table : Table T q filling.next
  longest : ∃ n : Nat, filling.k = (n - 1 : Int) ∧ Longest T (T.take q) q n

theorem fill_round {filling : Filling} {size q len : Nat} (length : T.length = len + 1) (room : len < size)
    (inside : q ≤ len) (filled : Filled T size q filling) :
    ∃ after, Filled T size (q + 1) after ∧
      fill T len filling = if q + 1 < 2 ^ 31 then .returned (.next after) else .undefined := by
  obtain ⟨n, found, longest⟩ := filled.longest
  have before : q < T.length := by omega
  have writable : q < filling.next.length := by rw [filled.size]; omega
  have taken : T.take q ++ [T[q]] = T.take (q + 1) := by
    rw [List.take_add_one, List.getElem?_eq_getElem before, Option.toList_some]
  obtain ⟨m, advanced, longer⟩ := advance_longest filled.table (Nat.le_refl q) (Nat.le_of_lt before) longest T[q]
  rw [taken] at longer
  refine ⟨{ next := filling.next.set q (m - 1), k := m - 1, q := (q + 1 : Nat) }, ?_, ?_⟩
  · constructor
    · rfl
    · rw [List.length_set, filled.size]
    · exact filled.table.set writable longer
    · exact ⟨m, rfl, longer⟩
  · have counted : (q : Int) + 1 = (q + 1 : Nat) := by omega
    rw [fill, filled.place, found, if_pos (by omega), CInt.read_natCast, List.getElem?_eq_getElem before,
      Outcome.ofOption_some, Outcome.returned_bind, advanced, Outcome.returned_bind, CInt.write_natCast writable,
      Outcome.ofOption_some, Outcome.returned_bind, counted]
    by_cases small : q + 1 < 2 ^ 31
    · rw [if_pos small, CInt.checked_eq (by omega) (by omega), Outcome.ofOption_some, Outcome.returned_bind]
      rfl
    · rw [if_neg small, CInt.checked_above (by omega), Outcome.ofOption_none, Outcome.undefined_bind]

section Table

variable {len : Nat} (length : T.length = len + 1) (room : len < next.length)
include length room

omit length in
theorem filled_first : Filled T next.length 1 { next := next.set 0 (-1), k := -1, q := 1 } := by
  have begun : next ≠ [] := List.length_pos_iff.mp (by omega)
  constructor
  · rfl
  · rw [List.length_set]
  · exact Table.first begun
  · exact ⟨0, rfl, longest_one⟩

omit length in
theorem getNext_eq : getNext next T len =
    whileLoop (fill T len) (len + 1) { next := next.set 0 (-1), k := -1, q := 1 } := by
  have positive : 0 < next.length := by omega
  have begun : CInt.write next 0 (-1) = some (next.set 0 (-1)) := CInt.write_natCast positive
  rw [getNext, begun, Outcome.ofOption_some, Outcome.returned_bind, Int.toNat_natCast]

theorem getNext_table (small : len + 1 < 2 ^ 31) :
    ∃ filled, getNext next T len = .returned filled ∧ Table T (len + 1) filled := by
  have rounds : ∀ filling, (∃ q, q ≤ len + 1 ∧ Filled T next.length q filling) →
      (∃ result, fill T len filling = .returned (.stop result) ∧ Table T (len + 1) result) ∨
        ∃ after, fill T len filling = .returned (.next after) ∧ (∃ q, q ≤ len + 1 ∧ Filled T next.length q after) ∧
          len + 1 - after.q.toNat < len + 1 - filling.q.toNat := by
    intro filling given
    obtain ⟨q, bounded, filled⟩ := given
    have place := filled.place
    by_cases inside : q ≤ len
    · right
      obtain ⟨after, kept, round⟩ := fill_round length room inside filled
      rw [if_pos (by omega)] at round
      have later := kept.place
      exact ⟨after, round, ⟨q + 1, by omega, kept⟩, by omega⟩
    · left
      obtain rfl : q = len + 1 := by omega
      refine ⟨filling.next, ?_, filled.table⟩
      rw [fill, if_neg (by omega)]
      rfl
  rw [getNext_eq room]
  have first : Filled T next.length 1 { next := next.set 0 (-1), k := -1, q := 1 } := filled_first room
  refine whileLoop_total (fun filling : Filling => len + 1 - filling.q.toNat) rounds ⟨1, by omega, first⟩ ?_
  show len + 1 - (1 : Int).toNat < len + 1
  omega

/-- The largest length is passed only by a number that `int` does not hold. -/
theorem getNext_undefined (largest : len + 1 = 2 ^ 31) : getNext next T len = .undefined := by
  have rounds : ∀ filling, (∃ q, q ≤ len ∧ Filled T next.length q filling) →
      fill T len filling = .undefined ∨
        ∃ after, fill T len filling = .returned (.next after) ∧ (∃ q, q ≤ len ∧ Filled T next.length q after) ∧
          len + 1 - after.q.toNat < len + 1 - filling.q.toNat := by
    intro filling given
    obtain ⟨q, inside, filled⟩ := given
    have place := filled.place
    obtain ⟨after, kept, round⟩ := fill_round length room inside filled
    have later := kept.place
    by_cases last : q = len
    · rw [if_neg (by omega)] at round
      exact Or.inl round
    · rw [if_pos (by omega)] at round
      exact Or.inr ⟨after, round, ⟨q + 1, by omega, kept⟩, by omega⟩
  rw [getNext_eq room]
  have first : Filled T next.length 1 { next := next.set 0 (-1), k := -1, q := 1 } := filled_first room
  refine whileLoop_fails (fun filling : Filling => len + 1 - filling.q.toNat) rounds ⟨1, by omega, first⟩ ?_
  show len + 1 - (1 : Int).toNat < len + 1
  omega

end Table

/-- Before the round of `i`. -/
structure Scanned (pattern text : List UInt8) (i : Nat) (scanning : Scanning) : Prop where
  place : scanning.i = i
  within : i ≤ text.length
  missed : ∀ j, j ≤ i → ¬ pattern <:+ text.take j
  longest : ∃ n : Nat, scanning.k = (n - 1 : Int) ∧ Longest (pattern ++ [0]) (text.take i) pattern.length n

theorem Scanned.nowhere {scanning : Scanning} {i : Nat} (scanned : Scanned pattern text i scanning)
    (nonempty : pattern ≠ []) (index : Nat) (before : index + pattern.length ≤ i) : ¬ OccursAt pattern text index := by
  intro occurs
  rw [occursAt_iff_suffix (occurs.fits nonempty)] at occurs
  exact scanned.missed _ before occurs

theorem scanned_first (nonempty : pattern ≠ []) : Scanned pattern text 0 { k := -1, i := 0 } := by
  constructor
  · rfl
  · exact Nat.zero_le _
  · intro j none suffix
    rw [Nat.le_zero.mp none, List.take_zero] at suffix
    exact nonempty (List.suffix_nil.mp suffix)
  · exact ⟨0, rfl, longest_nil (List.length_pos_iff.mpr nonempty)⟩

theorem scan_round {scanning : Scanning} {i : Nat} (nonempty : pattern ≠ []) (small : text.length < 2 ^ 31)
    (table : Table (pattern ++ [0]) (pattern.length + 1) next) (scanned : Scanned pattern text i scanning) :
    (∃ found, scan next text text.length (pattern ++ [0]) pattern.length scanning = .returned (.stop found) ∧
        FirstOccurrence pattern text found) ∨
      ∃ after, scan next text text.length (pattern ++ [0]) pattern.length scanning = .returned (.next after) ∧
        Scanned pattern text (i + 1) after := by
  obtain ⟨n, found, longest⟩ := scanned.longest
  have within := scanned.within
  by_cases ended : i = text.length
  · left
    refine ⟨-1, ?_, Or.inr ⟨rfl, fun index occurs => ?_⟩⟩
    · rw [scan, scanned.place, if_neg (by omega)]
      rfl
    · have fits := occurs.fits nonempty
      exact scanned.nowhere nonempty index (by omega) occurs
  have inside : i < text.length := by omega
  have taken : text.take i ++ [text[i]] = text.take (i + 1) := by
    rw [List.take_add_one, List.getElem?_eq_getElem inside, Option.toList_some]
  obtain ⟨m, advanced, longer⟩ := advance_longest table (Nat.le_succ _) (by rw [List.length_append]; omega) longest
    text[i]
  rw [taken] at longer
  have whole : (pattern ++ [0]).take pattern.length = pattern := List.take_left
  by_cases last : m = pattern.length
  · left
    subst last
    have suffix : pattern <:+ text.take (i + 1) := by
      have ends := longer.ends.suffix
      rwa [whole] at ends
    have length := suffix.length_le
    rw [List.length_take] at length
    refine ⟨(i - pattern.length + 1 : Int), ?_, Or.inl ⟨i + 1 - pattern.length, by omega, ?_, fun index before => ?_⟩⟩
    · rw [scan, scanned.place, found, if_pos (by omega), CInt.read_natCast, List.getElem?_eq_getElem inside,
        Outcome.ofOption_some, Outcome.returned_bind, advanced, Outcome.returned_bind, if_pos rfl]
      rfl
    · rw [occursAt_iff_suffix (by omega), Nat.sub_add_cancel (by omega)]
      exact suffix
    · exact scanned.nowhere nonempty index (by omega)
  · right
    refine ⟨{ k := m - 1, i := (i + 1 : Nat) }, ?_, ?_⟩
    · have counted : (i : Int) + 1 = (i + 1 : Nat) := by omega
      rw [scan, scanned.place, found, if_pos (by omega), CInt.read_natCast, List.getElem?_eq_getElem inside,
        Outcome.ofOption_some, Outcome.returned_bind, advanced, Outcome.returned_bind, if_neg (by omega), counted,
        CInt.checked_eq (by omega) (by omega), Outcome.ofOption_some, Outcome.returned_bind]
      rfl
    · refine ⟨rfl, inside, fun j bounded suffix => ?_, m, rfl, longer.lower last⟩
      rcases Nat.lt_or_eq_of_le bounded with before | rfl
      · exact scanned.missed j (by omega) suffix
      · have ends : Ends (pattern ++ [0]) (text.take (i + 1)) pattern.length :=
          ⟨by rw [List.length_append]; omega, by rwa [whole]⟩
        have most := longer.largest _ (Nat.lt_succ_self _) ends
        have below := longer.below
        omega

/-- The search with any content of `next` finds the first occurrence, as long as `int` holds the
length of the pattern and its zero byte. -/
theorem kmp_finds_first (nonempty : pattern ≠ []) (room : pattern.length < next.length) (small : text.length < 2 ^ 31)
    (fits : pattern.length + 1 < 2 ^ 31) :
    ∃ found, kmp next text text.length (pattern ++ [0]) pattern.length = .returned found ∧
      FirstOccurrence pattern text found := by
  obtain ⟨filled, tabled, table⟩ := getNext_table (T := pattern ++ [0])
    (by rw [List.length_append, List.length_singleton]) room fits
  have rounds : ∀ scanning, (∃ i, Scanned pattern text i scanning) →
      (∃ found, scan filled text text.length (pattern ++ [0]) pattern.length scanning = .returned (.stop found) ∧
          FirstOccurrence pattern text found) ∨
        ∃ after, scan filled text text.length (pattern ++ [0]) pattern.length scanning = .returned (.next after) ∧
          (∃ i, Scanned pattern text i after) ∧ text.length - after.i.toNat < text.length - scanning.i.toNat := by
    intro scanning given
    obtain ⟨i, scanned⟩ := given
    rcases scan_round nonempty small table scanned with stopped | ⟨after, round, later⟩
    · exact Or.inl stopped
    · have place := scanned.place
      have moved := later.place
      have within := later.within
      exact Or.inr ⟨after, round, ⟨i + 1, later⟩, by omega⟩
  rw [kmp, tabled, Outcome.returned_bind, Int.toNat_natCast]
  refine whileLoop_total (fun scanning : Scanning => text.length - scanning.i.toNat) rounds
    ⟨0, scanned_first nonempty⟩ ?_
  show text.length - (0 : Int).toNat < text.length + 1
  omega

theorem kmp_finds_aba : ∃ found,
    kmp [7, 7, 7, 7] [97, 98, 98, 97, 98, 97] ([97, 98, 98, 97, 98, 97] : List UInt8).length ([97, 98, 97] ++ [0])
      ([97, 98, 97] : List UInt8).length = .returned found ∧
        FirstOccurrence ([97, 98, 97] : List UInt8) [97, 98, 98, 97, 98, 97] found :=
  @kmp_finds_first [7, 7, 7, 7] [97, 98, 98, 97, 98, 97] [97, 98, 97] (by decide) (by decide) (by decide) (by decide)

theorem kmp_undefined {len : Int} (room : pattern.length < next.length) (largest : pattern.length + 1 = 2 ^ 31) :
    kmp next text len (pattern ++ [0]) pattern.length = .undefined := by
  have length : (pattern ++ [0]).length = pattern.length + 1 := by rw [List.length_append, List.length_singleton]
  rw [kmp, getNext_undefined length room largest, Outcome.undefined_bind]

/-- A pattern of the largest length. -/
theorem kmp_overflows : ∃ pattern : List UInt8, ∃ next : List Int,
    pattern = List.replicate (2 ^ 31 - 1) 97 ∧ next = List.replicate (2 ^ 31) 0 ∧ pattern.length < next.length ∧
      pattern.length < 2 ^ 31 ∧ kmp next [] 0 (pattern ++ [0]) pattern.length = .undefined := by
  have length : (List.replicate (2 ^ 31 - 1) (97 : UInt8)).length = 2 ^ 31 - 1 := List.length_replicate
  have room : (List.replicate (2 ^ 31 - 1) (97 : UInt8)).length < (List.replicate (2 ^ 31) (0 : Int)).length := by
    rw [length, List.length_replicate]
    decide
  refine ⟨_, _, rfl, rfl, room, ?_, kmp_undefined room ?_⟩
  · rw [length]
    decide
  · rw [length]
    decide

end Dwadelib.Algorithm
