import Dwadelib.Wgrep.Sunday.Search

namespace Dwadelib.Wgrep

/-! # Where the search is safe -/

variable {text pattern substr : List UInt8} {step : List Int} {byte : UInt8} {i fuel : Nat}
  {mainlen missing place : Int} {result : Option Int}

/-- Both functions stay inside of their arrays and of `int`, and a value is returned. -/
def SearchSafe (text pattern : List UInt8) : Prop :=
  ∃ step found, getStep (pattern ++ [0]) = some step ∧
    sundaySearch (text ++ [0]) (pattern ++ [0]) step = .returned (some found)

/-- What `sublen` counts of a pattern. -/
def counted (pattern : List UInt8) : List UInt8 := pattern.take (CInt.convert pattern.length).toNat

/-- The places of the window: the first one, and those to which the character behind it sends it
as long as it does not leave the first `mainlen` characters. -/
inductive Reached (pattern text : List UInt8) (mainlen : Int) : Nat → Prop where
  | first : Reached pattern text mainlen 0
  | moved {i : Nat} {byte : UInt8} (reached : Reached pattern text mainlen i) (missed : ¬ OccursAt pattern text i)
      (read : (text ++ [0])[i + pattern.length]? = some byte)
      (inside : (i + shiftOf pattern byte + pattern.length : Nat) ≤ mainlen) :
      Reached pattern text mainlen (i + shiftOf pattern byte)

/-- The character behind the window is in the string, no byte from 128 on, and `int` holds the end
of the next window. -/
def Movable (pattern text : List UInt8) (i : Nat) : Prop :=
  ∃ byte, (text ++ [0])[i + pattern.length]? = some byte ∧ byte.toNat < 128 ∧
    i + shiftOf pattern byte + pattern.length < 2 ^ 31

theorem Reached.bounds (reached : Reached pattern text mainlen i) (positive : 0 < mainlen) :
    (i : Int) < mainlen ∧ (i = 0 ∨ (i + pattern.length : Nat) ≤ mainlen) := by
  cases reached with
  | first => exact ⟨positive, Or.inl rfl⟩
  | moved reached missed read inside =>
      have nonempty : pattern ≠ [] := fun empty => missed (empty ▸ occursAt_nil)
      have length := List.length_pos_iff.mpr nonempty
      constructor
      · omega
      · exact Or.inr inside

section Loop

variable (freePattern : 0 ∉ pattern) (starts : pattern <+: substr) (positive : 0 < mainlen)
  (bounded : mainlen ≤ text.length)
  (steps : pattern.length + 1 < 2 ^ 31 → Steps pattern (pattern.length + 1 : Nat) step)
include freePattern starts positive bounded steps

/-- Each window that is reached is the last one or can be moved. -/
theorem loop_returns (movable : ∀ i, Reached pattern text mainlen i → OccursAt pattern text i ∨ Movable pattern text i) :
    ∃ result, whileLoop (searchFrom (text ++ [0]) substr step mainlen pattern.length) (mainlen.toNat + 1) 0 =
      .returned result ∧ ∃ found, result = some found := by
  have rounds : ∀ place : Int, (∃ i : Nat, place = i ∧ Reached pattern text mainlen i) →
      (∃ result, searchFrom (text ++ [0]) substr step mainlen pattern.length place = .returned (.stop result) ∧
          ∃ found, result = some found) ∨
        ∃ next, searchFrom (text ++ [0]) substr step mainlen pattern.length place = .returned (.next next) ∧
          (∃ i : Nat, next = i ∧ Reached pattern text mainlen i) ∧
            mainlen.toNat - next.toNat < mainlen.toNat - place.toNat := by
    intro place given
    obtain ⟨i, rfl, reached⟩ := given
    obtain ⟨begun, -⟩ := reached.bounds positive
    by_cases occurs : OccursAt pattern text i
    · exact Or.inl ⟨_, searchFrom_found freePattern starts (by omega) begun occurs, i, rfl⟩
    · obtain ⟨byte, read, seven, small⟩ := (movable i reached).resolve_left occurs
      have shift : 0 < shiftOf pattern byte := shiftOf_pos
      have moves := searchFrom_moves freePattern starts (by omega) begun occurs (steps (by omega)) read seven
      rw [if_pos small] at moves
      by_cases ended : mainlen < (i + shiftOf pattern byte + pattern.length : Nat)
      · rw [if_pos ended] at moves
        exact Or.inl ⟨_, moves, -1, rfl⟩
      · rw [if_neg ended] at moves
        exact Or.inr ⟨_, moves, ⟨_, rfl, reached.moved occurs read (by omega)⟩, by omega⟩
  exact whileLoop_total (fun place : Int => mainlen.toNat - place.toNat) rounds ⟨0, rfl, .first⟩ (by omega)

/-- A search that returns does so from each window that is reached. -/
theorem Reached.returned (small : mainlen < 2 ^ 31)
    (returned : whileLoop (searchFrom (text ++ [0]) substr step mainlen pattern.length) fuel 0 = .returned result)
    (reached : Reached pattern text mainlen i) :
    ∃ fuel, whileLoop (searchFrom (text ++ [0]) substr step mainlen pattern.length) (fuel + 1) i = .returned result := by
  induction reached with
  | first =>
      cases fuel with
      | zero => contradiction
      | succ fuel => exact ⟨fuel, returned⟩
  | @moved i byte reached missed read inside ih =>
      obtain ⟨begun, -⟩ := reached.bounds positive
      obtain ⟨fuel, before⟩ := ih
      have within : i ≤ text.length := by omega
      have seven : byte.toNat < 128 := by
        by_contra large
        have blind : searchFrom (text ++ [0]) substr step mainlen pattern.length i = .undefined := by
          refine searchFrom_blind freePattern starts within begun missed fun other same => ?_
          rw [read, Option.some.injEq] at same
          exact same ▸ large
        rw [whileLoop_undefined blind] at before
        contradiction
      have shift : 0 < shiftOf pattern byte := shiftOf_pos
      have moves := searchFrom_moves freePattern starts within begun missed (steps (by omega)) read seven
      rw [if_pos (by omega), if_neg (by omega)] at moves
      rw [whileLoop_next moves] at before
      cases fuel with
      | zero => contradiction
      | succ fuel => exact ⟨fuel, before⟩

omit bounded steps freePattern starts in
/-- Nothing is read in front of a string. -/
theorem searchFrom_before (nonempty : pattern ≠ []) (before : place < 0) :
    searchFrom text substr step mainlen pattern.length place = .undefined := by
  have compared : agrees text substr pattern.length place 0 = none := by
    obtain ⟨length, size⟩ := Nat.exists_eq_succ_of_ne_zero (List.length_eq_zero_iff.not.mpr nonempty)
    rw [size, agrees, CInt.read_negative before]
    rfl
  have begun : place < mainlen := by omega
  rw [searchFrom, if_pos begun, Int.toNat_natCast, compared]
  rfl

omit bounded steps in
/-- The entry of the characters that are not in the longest pattern is the smallest `int`. -/
theorem longest_missed (longest : pattern.length + 1 = 2 ^ 31) (steps : Steps pattern (-2 ^ 31) step)
    (missed : ¬ OccursAt pattern text 0)
    (read : (text ++ [0])[0 + pattern.length]? = some byte) (seven : byte.toNat < 128) :
    whileLoop (searchFrom (text ++ [0]) substr step mainlen pattern.length) (fuel + 1) (0 : Nat) ≠
      .returned result := by
  have nonempty : pattern ≠ [] := fun empty => missed (empty ▸ occursAt_nil)
  have entry := steps.entry byte seven
  by_cases member : byte ∈ pattern
  · have shift : 0 < shiftOf pattern byte := shiftOf_pos
    have farthest : shiftOf pattern byte ≤ pattern.length + 1 := shiftOf_le_succ
    rw [if_pos member] at entry
    have round := searchFrom_missed freePattern starts (Nat.zero_le _) positive missed entry read seven
    have overflows : searchFrom (text ++ [0]) substr step mainlen pattern.length (0 : Nat) = .undefined := by
      rw [round]
      by_cases first : shiftOf pattern byte < 2 ^ 31
      · rw [CInt.checked_eq (by omega) (by omega), Outcome.ofOption_some, Outcome.returned_bind,
          CInt.checked_above (by omega), Outcome.ofOption_none, Outcome.undefined_bind]
      · rw [CInt.checked_above (by omega), Outcome.ofOption_none, Outcome.undefined_bind]
    rw [whileLoop_undefined overflows]
    exact nofun
  · rw [if_neg member] at entry
    have round := searchFrom_missed freePattern starts (Nat.zero_le _) positive missed entry read seven
    have back : searchFrom (text ++ [0]) substr step mainlen pattern.length (0 : Nat) =
        .returned (.next (-2 ^ 31)) := by
      rw [round, CInt.checked_eq (by omega) (by omega), Outcome.ofOption_some, Outcome.returned_bind,
        CInt.checked_eq (by omega) (by omega), Outcome.ofOption_some, Outcome.returned_bind, if_neg (by omega)]
      rw [Int.natCast_zero, Int.zero_add]
      rfl
    rw [whileLoop_next back]
    cases fuel with
    | zero => exact fun running => by contradiction
    | succ fuel =>
        rw [whileLoop_undefined (searchFrom_before positive nonempty (by decide))]
        exact nofun

/-- A search that returns can move each window that is reached and is not the last one. -/
theorem Reached.movable (small : mainlen < 2 ^ 31) (size : pattern.length < 2 ^ 31)
    (longest : pattern.length + 1 = 2 ^ 31 → Steps pattern (-2 ^ 31) step)
    (returned : whileLoop (searchFrom (text ++ [0]) substr step mainlen pattern.length) fuel 0 = .returned result)
    (reached : Reached pattern text mainlen i) : OccursAt pattern text i ∨ Movable pattern text i := by
  obtain ⟨fuel, here⟩ := reached.returned freePattern starts positive bounded steps small returned
  obtain ⟨begun, inside⟩ := reached.bounds positive
  have within : i ≤ text.length := by omega
  by_cases occurs : OccursAt pattern text i
  · exact Or.inl occurs
  right
  by_cases visible : ∃ byte, (text ++ [0])[i + pattern.length]? = some byte ∧ byte.toNat < 128
  · obtain ⟨byte, read, seven⟩ := visible
    have shift : 0 < shiftOf pattern byte := shiftOf_pos
    refine ⟨byte, read, seven, ?_⟩
    by_contra large
    by_cases fits : pattern.length + 1 < 2 ^ 31
    · have moves := searchFrom_moves freePattern starts within begun occurs (steps fits) read seven
      rw [if_neg large] at moves
      rw [whileLoop_undefined moves] at here
      contradiction
    · have first : i = 0 := by omega
      subst first
      have last : pattern.length + 1 = 2 ^ 31 := by omega
      exact longest_missed freePattern starts positive last (longest last) occurs read seven here
  · have blind : searchFrom (text ++ [0]) substr step mainlen pattern.length i = .undefined :=
      searchFrom_blind freePattern starts within begun occurs fun byte read seven => visible ⟨byte, read, seven⟩
    rw [whileLoop_undefined blind] at here
    contradiction

end Loop

theorem length_counted : (counted pattern).length = (CInt.convert pattern.length).toNat := by
  have shorter := CInt.convert_le (Int.natCast_nonneg pattern.length)
  rw [counted, List.length_take]
  omega

theorem counted_starts (pattern : List UInt8) : counted pattern <+: pattern ++ [0] :=
  (List.take_prefix _ pattern).trans (List.prefix_append pattern [0])

theorem getStep_counted (free : 0 ∉ pattern) (sublen : CInt.convert pattern.length = (counted pattern).length) :
    getStep (pattern ++ [0]) = forRange 0 (counted pattern).length (enter (pattern ++ [0]) (counted pattern).length)
      (List.replicate 256 (CInt.convert (pattern.length + 1))) := by
  rw [getStep, CString.strlen_terminated free, Option.bind_eq_bind, Option.bind_some]
  show forRange 0 (CInt.convert pattern.length).toNat (enter _ (CInt.convert pattern.length)) _ = _
  rw [sublen, Int.toNat_natCast]

/-- The entry of the characters that are not in the pattern. -/
theorem missing_counted (sublen : CInt.convert pattern.length = (counted pattern).length) :
    CInt.convert (pattern.length + 1) =
      if (counted pattern).length + 1 < 2 ^ 31 then (((counted pattern).length + 1 : Nat) : Int) else -2 ^ 31 := by
  rw [CInt.convert_add_one, sublen]
  by_cases fits : (counted pattern).length + 1 < 2 ^ 31
  · rw [if_pos fits, if_pos (by omega), Int.natCast_add, Int.natCast_one]
  · rw [if_neg fits, if_neg (by omega)]

theorem steps_counted (sublen : CInt.convert pattern.length = (counted pattern).length)
    (steps : Steps (counted pattern) (CInt.convert (pattern.length + 1)) step) :
    ((counted pattern).length + 1 < 2 ^ 31 → Steps (counted pattern) ((counted pattern).length + 1 : Nat) step) ∧
      ((counted pattern).length + 1 = 2 ^ 31 → Steps (counted pattern) (-2 ^ 31) step) := by
  rw [missing_counted sublen] at steps
  constructor
  · intro fits
    rwa [if_pos fits] at steps
  · intro last
    rwa [if_neg (by omega)] at steps

/-- A negative length is never reached. -/
theorem search_diverges (begun : 0 < mainlen) {sublen : Int} (negative : sublen < 0) :
    whileLoop (searchFrom text substr step mainlen sublen) fuel 0 = .running := by
  have round : searchFrom text substr step mainlen sublen 0 = .returned (.next 0) := by
    rw [searchFrom, if_pos begun, Int.toNat_of_nonpos (Int.le_of_lt negative), agrees, Outcome.ofOption_some,
      Outcome.returned_bind, if_pos rfl, if_neg (Int.not_le.mpr negative)]
    rfl
  induction fuel with
  | zero => rfl
  | succ fuel ih => exact (whileLoop_next round).trans ih

theorem loop_ended (ended : mainlen ≤ 0) {sublen : Int} :
    whileLoop (searchFrom text substr step mainlen sublen) (fuel + 1) 0 = .returned none := by
  refine whileLoop_stop ?_
  rw [searchFrom, if_neg (Int.not_lt.mpr ended)]
  rfl

/-- The search is safe exactly when `int` counts some of the text and no negative number of the
pattern, what is counted of the pattern is ASCII, and each window that is reached without an
occurrence can be moved. -/
theorem search_safe_iff (freeText : 0 ∉ text) (freePattern : 0 ∉ pattern) :
    SearchSafe text pattern ↔
      0 < CInt.convert text.length ∧ 0 ≤ CInt.convert pattern.length ∧ SevenBit (counted pattern) ∧
        ∀ i, Reached (counted pattern) text (CInt.convert text.length) i →
          OccursAt (counted pattern) text i ∨ Movable (counted pattern) text i := by
  have length : (counted pattern).length = (CInt.convert pattern.length).toNat := length_counted
  have bounded : CInt.convert text.length ≤ text.length := CInt.convert_le (Int.natCast_nonneg _)
  have size : CInt.convert pattern.length < 2 ^ 31 := CInt.convert_lt _
  have freeCounted : 0 ∉ counted pattern := fun member => freePattern (List.mem_of_mem_take member)
  constructor
  · intro given
    obtain ⟨step, found, filled, returned⟩ := given
    rw [sundaySearch_eq freeText freePattern] at returned
    have positive : 0 < CInt.convert text.length := by
      by_contra ended
      rw [loop_ended (Int.not_lt.mp ended)] at returned
      cases Outcome.returned.inj returned
    have nonnegative : 0 ≤ CInt.convert pattern.length := by
      by_contra negative
      rw [search_diverges positive (Int.not_le.mp negative)] at returned
      cases returned
    have sublen : CInt.convert pattern.length = (counted pattern).length := by omega
    rw [getStep_counted freePattern sublen] at filled
    have seven : SevenBit (counted pattern) := sevenBit_of_enterAll (counted_starts pattern) filled
    obtain ⟨other, filledOther, steps⟩ := enterAll_steps (counted_starts pattern) seven
      (CInt.convert (pattern.length + 1))
    obtain rfl : step = other := Option.some.inj (filled.symm.trans filledOther)
    obtain ⟨shorter, longest⟩ := steps_counted sublen steps
    rw [sublen] at returned
    exact ⟨positive, nonnegative, seven, fun i reached => reached.movable freeCounted (counted_starts pattern) positive bounded
      shorter (CInt.convert_lt _) (by omega) longest returned⟩
  · intro given
    obtain ⟨positive, nonnegative, seven, movable⟩ := given
    have sublen : CInt.convert pattern.length = (counted pattern).length := by omega
    obtain ⟨step, filled, steps⟩ := enterAll_steps (counted_starts pattern) seven
      (CInt.convert (pattern.length + 1))
    obtain ⟨result, returned, found, rfl⟩ := loop_returns freeCounted (counted_starts pattern) positive bounded
      (steps_counted sublen steps).1 movable
    refine ⟨step, found, ?_, ?_⟩
    · rw [getStep_counted freePattern sublen, filled]
    · rw [sundaySearch_eq freeText freePattern, sublen, returned]

/-- An occurrence behind a window that is moved once. -/
theorem search_safe_two : SearchSafe [97, 98] [98] := by
  refine (search_safe_iff (by decide) (by decide)).mpr ⟨by decide, by decide, by decide, ?_⟩
  intro i reached
  obtain ⟨begun, -⟩ := reached.bounds (by decide)
  have size : CInt.convert ([97, 98] : List UInt8).length = 2 := by decide
  rcases (show i = 0 ∨ i = 1 by omega) with rfl | rfl
  · exact Or.inr ⟨98, by decide, by decide, by decide⟩
  · exact Or.inl (by decide)

/-- A text without characters, a window that is longer than the text, and a negative character. -/
theorem search_unsafe : ¬ SearchSafe [] [97] ∧ ¬ SearchSafe [97] [98, 98, 98] ∧ ¬ SearchSafe [97] [255] := by
  refine ⟨?_, ?_, ?_⟩
  · intro given
    obtain ⟨step, found, -, returned⟩ := given
    rw [sundaySearch_eq (by decide) (by decide), loop_ended (by decide)] at returned
    cases Outcome.returned.inj returned
  · intro given
    obtain ⟨step, found, -, returned⟩ := given
    have missed : ¬ OccursAt ([98, 98, 98] : List UInt8) [97] 0 := by decide
    have outside : searchFrom ([97] ++ [0]) ([98, 98, 98] ++ [0]) step (CInt.convert ([97] : List UInt8).length)
        ([98, 98, 98] : List UInt8).length 0 = .undefined :=
      searchFrom_blind (by decide) (List.prefix_append _ _) (by decide) (by decide) missed fun byte read => by cases read
    have sublen : CInt.convert ([98, 98, 98] : List UInt8).length = ([98, 98, 98] : List UInt8).length := by decide
    rw [sundaySearch_eq (by decide) (by decide), sublen, whileLoop_undefined outside] at returned
    cases returned
  · intro given
    obtain ⟨step, found, filled, -⟩ := given
    have outside : getStep ([255] ++ [0]) = none := by decide
    rw [outside] at filled
    cases filled

end Dwadelib.Wgrep
