import Dwadelib.Algorithm.Kmp.Search

namespace Dwadelib.Algorithm

/-! # Which entries of the table are used

The table of the failure function is a block from `new`. What is noted of a run are the places of it
that are read and written, with the one outside of the block that ends the run.
-/

variable {next filled : List Int} {T text pattern : List UInt8} {character : UInt8} {bound count n : Nat}

/-- `new int(value)` is one `int` with that value. -/
def newInt (value : Int) : List Int := [value]

/-- `next[k]` in the loop that falls back. -/
def fallBackPlaces (next : List Int) (T : List UInt8) (character : UInt8) (k : Int) : List Int :=
  (visited (fallBack next T character) ((k + 1).toNat + 1) k).filter fun k =>
    k > -1 ∧ (CInt.read T (k + 1)).any fun following => following ≠ character

/-- The round of `q` reads in the loop that falls back and writes `next[q]`. -/
def fillPlaces (T : List UInt8) (len : Int) (filling : Filling) : List Int :=
  if filling.q ≤ len then
    match CInt.read T filling.q with
    | none => []
    | some character =>
        fallBackPlaces filling.next T character filling.k ++
          match advance filling.next T character filling.k with
          | .returned _ => [filling.q]
          | _ => []
  else []

def getNextPlaces (next : List Int) (T : List UInt8) (len : Int) : List Int :=
  0 :: match CInt.write next 0 (-1) with
    | none => []
    | some next => (visited (fill T len) (len.toNat + 1) { next := next, k := -1, q := 1 }).flatMap (fillPlaces T len)

def scanPlaces (next : List Int) (s : List UInt8) (len : Int) (p : List UInt8) (scanning : Scanning) : List Int :=
  if scanning.i < len then
    match CInt.read s scanning.i with
    | none => []
    | some character => fallBackPlaces next p character scanning.k
  else []

def kmpPlaces (next : List Int) (s : List UInt8) (len : Int) (p : List UInt8) (plen : Int) : List Int :=
  getNextPlaces next p plen ++
    match getNext next p plen with
    | .returned next =>
        (visited (scan next s len p plen) (len.toNat + 1) { k := -1, i := 0 }).flatMap (scanPlaces next s len p)
    | _ => []

/-- Whatever is read and written of the table lies in its block. -/
def TableFits (next : List Int) (s p : List UInt8) : Prop :=
  ∀ place ∈ kmpPlaces next s s.length (p ++ [0]) p.length, 0 ≤ place ∧ place < next.length

theorem fallBack_next {k after : Int} (iterated : fallBack next T character k = .returned (.next after)) :
    k > -1 ∧ CInt.read next k = some after := by
  rw [fallBack] at iterated
  split at iterated
  · rename_i begun
    cases following : CInt.read T (k + 1) with
    | none =>
        rw [following] at iterated
        contradiction
    | some other =>
        rw [following, Outcome.ofOption_some, Outcome.returned_bind] at iterated
        split at iterated
        · cases entry : CInt.read next k with
          | none =>
              rw [entry] at iterated
              contradiction
          | some shorter =>
              rw [entry] at iterated
              cases iterated
              exact ⟨begun, rfl⟩
        · cases iterated
  · cases iterated

section Advance

variable (table : Table T count next)
include table

/-- An entry leads to a place before its own. -/
theorem entry_before {k after : Int} (begun : -1 < k) (filled : k < count) (entry : CInt.read next k = some after) :
    -1 ≤ after ∧ after < k := by
  obtain ⟨q, rfl⟩ : ∃ q : Nat, k = q := ⟨k.toNat, by omega⟩
  obtain ⟨n, held, longest⟩ := table.entry q (by omega)
  have less := longest.below
  rw [CInt.read_natCast, held] at entry
  cases entry
  omega

/-- Falling back reads no entry behind the one that it begins at. -/
theorem fallBackPlaces_inside {k place : Int} (filled : k < count)
    (used : place ∈ fallBackPlaces next T character k) : 0 ≤ place ∧ place < count := by
  obtain ⟨passed, reads⟩ := List.mem_filter.mp used
  have kept : ∀ k after : Int, k < count → fallBack next T character k = .returned (.next after) → after < count := by
    intro k after inside iterated
    obtain ⟨begun, entry⟩ := fallBack_next iterated
    have before := entry_before table begun inside entry
    omega
  have below : place < count := visited_invariant kept filled passed
  have begun : place > -1 := (of_decide_eq_true reads).1
  omega

end Advance

theorem fillPlaces_inside {filling : Filling} {size q len : Nat} {place : Int} (filled : Filled T size q filling)
    (used : place ∈ fillPlaces T len filling) : 0 ≤ place ∧ place ≤ len := by
  obtain ⟨n, found, longest⟩ := filled.longest
  have below := longest.below
  rw [fillPlaces] at used
  split at used
  · rename_i inside
    rw [filled.place] at inside used
    split at used
    · contradiction
    · rcases List.mem_append.mp used with fallen | written
      · have places := fallBackPlaces_inside filled.table (by rw [found]; omega) fallen
        omega
      · split at written
        · rw [List.mem_singleton.mp written]
          omega
        · contradiction
  · contradiction

/-- What is known before each round. -/
theorem fillings_filled {len : Nat} {filling : Filling} (length : T.length = len + 1) (room : len < next.length)
    (passed : filling ∈
      visited (fill T len) (len + 1) { next := next.set 0 (-1), k := -1, q := 1 }) :
    ∃ q, Filled T next.length q filling := by
  have kept : ∀ filling after, (∃ q, Filled T next.length q filling) →
      fill T len filling = .returned (.next after) → ∃ q, Filled T next.length q after := by
    intro filling after begun iterated
    obtain ⟨q, filled⟩ := begun
    by_cases inside : q ≤ len
    · obtain ⟨next, round, same⟩ := fill_round length room inside filled
      rw [same] at iterated
      split at iterated
      · cases iterated
        exact ⟨q + 1, round⟩
      · contradiction
    · rw [fill, filled.place, if_neg (by omega)] at iterated
      cases iterated
  exact visited_invariant kept ⟨1, filled_first room⟩ passed

theorem getNextPlaces_inside {len : Nat} {place : Int} (length : T.length = len + 1) (room : len < next.length)
    (used : place ∈ getNextPlaces next T len) : 0 ≤ place ∧ place ≤ len := by
  have positive : 0 < next.length := by omega
  have begun : CInt.write next 0 (-1) = some (next.set 0 (-1)) := CInt.write_natCast positive
  rw [getNextPlaces, begun] at used
  rcases List.mem_cons.mp used with rfl | later
  · omega
  · obtain ⟨filling, passed, place⟩ := List.mem_flatMap.mp later
    obtain ⟨q, filled⟩ := fillings_filled length room passed
    exact fillPlaces_inside filled place

theorem scanPlaces_inside {scanning : Scanning} {i : Nat} {place : Int}
    (table : Table (pattern ++ [0]) (pattern.length + 1) filled) (scanned : Scanned pattern text i scanning)
    (used : place ∈ scanPlaces filled text text.length (pattern ++ [0]) scanning) :
    0 ≤ place ∧ place ≤ pattern.length := by
  obtain ⟨n, found, longest⟩ := scanned.longest
  have below := longest.below
  rw [scanPlaces] at used
  split at used
  · split at used
    · contradiction
    · have places := fallBackPlaces_inside table (by rw [found]; omega) used
      omega
  · contradiction

/-- A block with an entry more than the pattern has characters would do. -/
theorem kmp_table_fits (nonempty : pattern ≠ []) (room : pattern.length < next.length) (small : text.length < 2 ^ 31)
    (fits : pattern.length + 1 < 2 ^ 31) : TableFits next text pattern := by
  have length : (pattern ++ [0]).length = pattern.length + 1 := by rw [List.length_append, List.length_singleton]
  obtain ⟨filled, tabled, table⟩ := getNext_table length room fits
  intro place used
  rw [kmpPlaces, tabled] at used
  rcases List.mem_append.mp used with filling | scanning
  · have places := getNextPlaces_inside length room filling
    omega
  · obtain ⟨scanning, passed, place⟩ := List.mem_flatMap.mp scanning
    have kept : ∀ scanning after, (∃ i, Scanned pattern text i scanning) →
        scan filled text text.length (pattern ++ [0]) pattern.length scanning = .returned (.next after) →
          ∃ i, Scanned pattern text i after := by
      intro scanning after begun iterated
      obtain ⟨i, scanned⟩ := begun
      rcases scan_round nonempty small table scanned with ⟨found, stopped, -⟩ | ⟨next, round, later⟩
      · rw [stopped] at iterated
        cases iterated
      · rw [round] at iterated
        cases iterated
        exact ⟨i + 1, later⟩
    obtain ⟨i, scanned⟩ := visited_invariant kept ⟨0, scanned_first nonempty⟩ passed
    have places := scanPlaces_inside table scanned place
    omega

theorem advance_first (begun : T ≠ []) (character : UInt8) :
    ∃ k, advance next T character (-1) = .returned k := by
  obtain ⟨first, rest, rfl⟩ := List.exists_cons_of_ne_nil begun
  have stopped : fallBack next (first :: rest) character (-1) = .returned (.stop (-1)) := rfl
  have read : CInt.read (first :: rest) (-1 + 1) = some first := rfl
  rw [advance, whileLoop_stop stopped, Outcome.returned_bind, read, Outcome.ofOption_some, Outcome.returned_bind]
  split
  · exact ⟨-1 + 1, rfl⟩
  · exact ⟨-1, rfl⟩

/-- The first round writes the second entry. -/
theorem getNextPlaces_second (nonempty : pattern ≠ []) (value : Int) :
    1 ∈ getNextPlaces (newInt value) (pattern ++ [0]) pattern.length := by
  have positive := List.length_pos_iff.mpr nonempty
  have behind : 1 < (pattern ++ [0]).length := by
    rw [List.length_append, List.length_singleton]
    omega
  have begun : CInt.write (newInt value) 0 (-1) = some [-1] := rfl
  have read : CInt.read (pattern ++ [0]) 1 = some (pattern ++ [0])[1] := by
    rw [← List.getElem?_eq_getElem behind]
    exact CInt.read_natCast _ 1
  obtain ⟨k, advanced⟩ : ∃ k, advance [-1] (pattern ++ [0]) (pattern ++ [0])[1] (-1) = .returned k :=
    advance_first (List.append_ne_nil_of_right_ne_nil _ (List.cons_ne_nil _ _)) _
  rw [getNextPlaces, begun]
  apply List.mem_cons_of_mem
  apply List.mem_flatMap.mpr
  refine ⟨{ next := [-1], k := -1, q := 1 }, mem_visited_self, ?_⟩
  rw [fillPlaces, if_pos (show (1 : Int) ≤ pattern.length by omega)]
  simp only [read, advanced]
  exact List.mem_append_right _ List.mem_cons_self

/-- The block is left whatever the pattern is. -/
theorem kmp_table_never_fits (nonempty : pattern ≠ []) (text : List UInt8) :
    ¬ TableFits (newInt pattern.length) text pattern := by
  intro fits
  have inside := fits 1 (List.mem_append_left _ (getNextPlaces_second nonempty _))
  have single : (newInt pattern.length).length = 1 := rfl
  omega

theorem kmp_table_leaves_letter : ¬ TableFits (newInt ([97] : List UInt8).length) [97] [97] :=
  kmp_table_never_fits (List.cons_ne_nil _ _) [97]

/-- For a pattern of one character the second entry is written. -/
theorem letter_writes_second :
    kmpPlaces (newInt 1) [97] 1 [97, 0] 1 = [0, 1] ∧ ¬ TableFits (newInt 1) [97] [97] := by
  constructor
  · decide
  · intro fits
    exact absurd (fits 1 (by decide)).2 (by decide)

end Dwadelib.Algorithm
