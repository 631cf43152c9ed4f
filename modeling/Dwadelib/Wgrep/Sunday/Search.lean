import Dwadelib.Cells
import Dwadelib.Occurrence
import Dwadelib.Wgrep.Sunday

namespace Dwadelib.Wgrep

/-! # The search finds the first occurrence -/

variable {text pattern substr rest after : List UInt8} {step : List Int} {byte : UInt8}
  {index left i j count : Nat} {missing mainlen : Int}

/-- `char` without its sign. -/
def SevenBit (text : List UInt8) : Prop := ∀ byte ∈ text, byte.toNat < 128

instance : DecidablePred SevenBit := fun text => List.decidableBAll (fun byte : UInt8 => byte.toNat < 128) text

def shiftOf (pattern : List UInt8) (byte : UInt8) : Nat := pattern.reverse.idxOf byte + 1

theorem shiftOf_concat (pattern : List UInt8) (last byte : UInt8) :
    shiftOf (pattern ++ [last]) byte = if last = byte then 1 else shiftOf pattern byte + 1 := by
  simp only [shiftOf, List.reverse_append, List.reverse_singleton, List.singleton_append, List.idxOf_cons]
  by_cases same : last = byte
  · simp only [same, beq_self_eq_true, cond_true, if_true]
  · simp only [beq_eq_false_iff_ne.mpr same, cond_false, if_neg same]

theorem shiftOf_pos : 0 < shiftOf pattern byte := Nat.succ_pos _

theorem shiftOf_missing (outside : byte ∉ pattern) : shiftOf pattern byte = pattern.length + 1 := by
  rw [shiftOf, List.idxOf_eq_length (fun member => outside (List.mem_reverse.mp member)), List.length_reverse]

/-- A window may be moved by the distance: a smaller move needs the character where it is not. -/
theorem shiftOf_le (read : pattern[index]? = some byte) : shiftOf pattern byte ≤ pattern.length - index := by
  induction pattern using List.reverseRecOn with
  | nil => contradiction
  | append_singleton pattern last ih =>
      have inside : index < pattern.length + 1 := by
        have bound := (List.getElem?_eq_some_iff.mp read).1
        rwa [List.length_append, List.length_singleton] at bound
      rw [shiftOf_concat, List.length_append, List.length_singleton]
      by_cases same : last = byte
      · rw [if_pos same]
        omega
      · rw [if_neg same]
        have before : index < pattern.length := by
          by_contra behind
          have here : index = pattern.length := by omega
          rw [here, Cells.getElem?_middle, Option.some.injEq] at read
          exact same read
        rw [List.getElem?_append_left before] at read
        have later := ih read
        omega

theorem shiftOf_le_succ : shiftOf pattern byte ≤ pattern.length + 1 := by
  by_cases member : byte ∈ pattern
  · obtain ⟨index, read⟩ := List.getElem?_of_mem member
    have bound := shiftOf_le read
    omega
  · rw [shiftOf_missing member]

/-- The entries of the characters, with `missing` for those that are not in the pattern. -/
structure Steps (pattern : List UInt8) (missing : Int) (step : List Int) : Prop where
  size : step.length = 256
  entry : ∀ byte : UInt8, byte.toNat < 128 →
    step[byte.toNat]? = some (if byte ∈ pattern then (shiftOf pattern byte : Int) else missing)

/-- The same when the first `count` characters have been entered. -/
structure Entered (pattern : List UInt8) (missing : Int) (count : Nat) (step : List Int) : Prop where
  size : step.length = 256
  entry : ∀ byte : UInt8, byte.toNat < 128 →
    step[byte.toNat]? = some (if byte ∈ pattern.take count then
      ((pattern.length - count + shiftOf (pattern.take count) byte : Nat) : Int) else missing)

theorem entered_zero : Entered pattern missing 0 (List.replicate 256 missing) := by
  constructor
  · rw [List.length_replicate]
  · intro byte small
    rw [List.getElem?_replicate, if_pos (by omega), List.take_zero, if_neg List.not_mem_nil]

theorem Entered.set (entered : Entered pattern missing count step) (inside : count < pattern.length)
    (small : pattern[count].toNat < 128) :
    Entered pattern missing (count + 1) (step.set pattern[count].toNat (pattern.length - count : Int)) := by
  have taken : pattern.take (count + 1) = pattern.take count ++ [pattern[count]] := by
    rw [List.take_add_one, List.getElem?_eq_getElem inside, Option.toList_some]
  constructor
  · rw [List.length_set, entered.size]
  · intro other seven
    simp only [taken, shiftOf_concat, List.mem_append, List.mem_singleton]
    by_cases same : pattern[count] = other
    · subst same
      rw [List.getElem?_set_self (by rw [entered.size]; omega), if_pos (Or.inr rfl), if_pos rfl]
      congr 1
      omega
    · have apart : pattern[count].toNat ≠ other.toNat := fun equal => same (UInt8.toNat_inj.mp equal)
      have distinct : other ≠ pattern[count] := fun equal => same equal.symm
      rw [List.getElem?_set_ne apart, entered.entry other seven, if_neg same]
      simp only [distinct, or_false]
      split
      · congr 1
        omega
      · rfl

section Enter

variable (starts : pattern <+: substr)
include starts

theorem enter_eq (inside : i < pattern.length) :
    enter substr pattern.length i step =
      (CString.charIndex pattern[i]).map fun index => step.set index (pattern.length - i : Int) := by
  have read : substr[i]? = some pattern[i] := List.prefix_iff_getElem?.mp starts i inside
  rw [enter, read, Option.map_eq_bind]
  rfl

/-- Where no character of the pattern is negative, they are all entered. -/
theorem enterAll_steps (small : SevenBit pattern) (missing : Int) :
    ∃ step, forRange 0 pattern.length (enter substr pattern.length) (List.replicate 256 missing) = some step ∧
      Steps pattern missing step := by
  have enters : ∀ i step, 0 ≤ i → i < 0 + pattern.length → Entered pattern missing i step →
      ∃ next, enter substr pattern.length i step = some next ∧ Entered pattern missing (i + 1) next := by
    intro i step lower upper entered
    have inside : i < pattern.length := by omega
    have seven := small _ (List.getElem_mem inside)
    refine ⟨_, ?_, entered.set inside seven⟩
    rw [enter_eq starts inside, CString.charIndex_seven_bit seven, Option.map_some]
  obtain ⟨step, filled, entered⟩ := forRange_total (Entered pattern missing) enters entered_zero
  refine ⟨step, filled, entered.size, fun byte seven => ?_⟩
  rw [entered.entry byte seven, Nat.zero_add, List.take_length, Nat.sub_self, Nat.zero_add]

/-- A negative character is no index. -/
theorem sevenBit_of_enterAll {initial : List Int}
    (filled : forRange 0 pattern.length (enter substr pattern.length) initial = some step) : SevenBit pattern := by
  have enters : ∀ i step next, 0 ≤ i → i < 0 + pattern.length → SevenBit (pattern.take i) →
      enter substr pattern.length i step = some next → SevenBit (pattern.take (i + 1)) := by
    intro i step next lower upper before entered byte member
    have inside : i < pattern.length := by omega
    rw [enter_eq starts inside, Option.map_eq_some_iff] at entered
    obtain ⟨index, indexed, -⟩ := entered
    rw [List.take_add_one, List.getElem?_eq_getElem inside, Option.toList_some, List.mem_append,
      List.mem_singleton] at member
    rcases member with earlier | rfl
    · exact before byte earlier
    · by_contra large
      rw [CString.charIndex, if_neg large] at indexed
      contradiction
  have all := forRange_invariant (fun i _ => SevenBit (pattern.take i)) enters (by simp [SevenBit]) filled
  rw [Nat.zero_add, List.take_length] at all
  exact all

end Enter

theorem agrees_eq (free : 0 ∉ pattern) (starts : pattern <+: substr) (within : i ≤ text.length)
    (length : j + left = pattern.length) :
    agrees (text ++ 0 :: rest) substr left i j = some (decide (pattern.drop j <+: text.drop i)) := by
  induction left generalizing i j with
  | zero =>
      have ended : pattern.drop j = [] := List.drop_of_length_le (by omega)
      simp only [agrees, ended, List.nil_prefix, decide_true]
  | succ left ih =>
      have inside : j < pattern.length := by omega
      have wanted : substr[j]? = some pattern[j] := List.prefix_iff_getElem?.mp starts j inside
      have nonzero : pattern[j] ≠ 0 := fun zero => free (zero ▸ List.getElem_mem inside)
      rw [List.drop_eq_getElem_cons inside]
      by_cases ended : i = text.length
      · -- the terminator is in no pattern
        have character : (text ++ 0 :: rest)[i]? = some 0 := by rw [ended, Cells.getElem?_middle]
        have nothing : text.drop i = [] := List.drop_of_length_le (by omega)
        have differs : (0 : UInt8) ≠ pattern[j] := nonzero.symm
        simp only [agrees, CInt.read_natCast, character, wanted, nothing, Option.bind_eq_bind, Option.bind_some,
          if_neg differs, List.prefix_nil, reduceCtorEq, decide_false]
      · have before : i < text.length := by omega
        have character : (text ++ 0 :: rest)[i]? = some text[i] := by
          rw [List.getElem?_append_left before, List.getElem?_eq_getElem before]
        rw [List.drop_eq_getElem_cons before]
        by_cases same : text[i] = pattern[j]
        · have goesOn : agrees (text ++ 0 :: rest) substr (left + 1) i j =
              agrees (text ++ 0 :: rest) substr left (i + 1 : Nat) (j + 1) := by
            simp only [agrees, CInt.read_natCast, character, wanted, Option.bind_eq_bind, Option.bind_some, if_pos same,
              Int.natCast_add, Int.natCast_one]
          rw [goesOn, ih before (by omega)]
          simp only [List.cons_prefix_cons, same, true_and]
        · have differs : pattern[j] ≠ text[i] := fun equal => same equal.symm
          simp only [agrees, CInt.read_natCast, character, wanted, Option.bind_eq_bind, Option.bind_some, if_neg same,
            List.cons_prefix_cons, differs, false_and, decide_false]

theorem Steps.shift (steps : Steps pattern (pattern.length + 1 : Nat) step) (small : byte.toNat < 128) :
    step[byte.toNat]? = some (shiftOf pattern byte : Int) := by
  rw [steps.entry byte small]
  split
  · rfl
  · rename_i outside
    rw [shiftOf_missing outside]

section Round

variable (free : 0 ∉ pattern) (starts : pattern <+: substr) (within : i ≤ text.length) (begun : (i : Int) < mainlen)
include free starts within begun

theorem searchFrom_found (occurs : OccursAt pattern text i) :
    searchFrom (text ++ 0 :: rest) substr step mainlen pattern.length i = .returned (.stop (some i)) := by
  have compared : agrees (text ++ 0 :: rest) substr pattern.length i 0 = some true := by
    rw [agrees_eq free starts within (Nat.zero_add _), List.drop_zero]
    exact congrArg some (decide_eq_true occurs)
  simp only [searchFrom, if_pos begun, Int.toNat_natCast, compared, Outcome.ofOption_some, Outcome.returned_bind,
    if_true, Int.natCast_nonneg, Outcome.pure_eq]

section Missed

variable (missed : ¬ OccursAt pattern text i)
include missed

omit begun in
theorem agrees_missed : agrees (text ++ 0 :: rest) substr pattern.length i 0 = some false := by
  rw [agrees_eq free starts within (Nat.zero_add _), List.drop_zero]
  exact congrArg some (decide_eq_false missed)

/-- The character behind the window is needed, as an index. -/
theorem searchFrom_blind
    (blind : ∀ byte, (text ++ 0 :: rest)[i + pattern.length]? = some byte → ¬ byte.toNat < 128) :
    searchFrom (text ++ 0 :: rest) substr step mainlen pattern.length i = .undefined := by
  have compared : agrees (text ++ 0 :: rest) substr pattern.length i 0 = some false :=
    agrees_missed free starts within missed
  have place : (i : Int) + pattern.length = (i + pattern.length : Nat) := (Int.natCast_add i pattern.length).symm
  simp only [searchFrom, if_pos begun, Int.toNat_natCast, compared, Outcome.ofOption_some, Outcome.returned_bind,
    Bool.false_eq_true, if_false, place, CInt.read_natCast]
  cases read : (text ++ 0 :: rest)[i + pattern.length]? with
  | none => rfl
  | some byte =>
      rw [Outcome.ofOption_some, Outcome.returned_bind, CString.charIndex, if_neg (blind byte read)]
      rfl

theorem searchFrom_missed {shift : Int} (entry : step[byte.toNat]? = some shift)
    (read : (text ++ 0 :: rest)[i + pattern.length]? = some byte) (seven : byte.toNat < 128) :
    searchFrom (text ++ 0 :: rest) substr step mainlen pattern.length i = (do
      let next ← .ofOption (CInt.checked (i + shift))
      let reach ← .ofOption (CInt.checked (next + pattern.length))
      if reach > mainlen then return .stop (some (-1)) else return .next next) := by
  have compared : agrees (text ++ 0 :: rest) substr pattern.length i 0 = some false :=
    agrees_missed free starts within missed
  have place : (i : Int) + pattern.length = (i + pattern.length : Nat) := (Int.natCast_add i pattern.length).symm
  simp only [searchFrom, if_pos begun, Int.toNat_natCast, compared, Outcome.ofOption_some, Outcome.returned_bind,
    Bool.false_eq_true, if_false, place, CInt.read_natCast, read, CString.charIndex_seven_bit seven]
  rw [entry, Outcome.ofOption_some, Outcome.returned_bind]

theorem searchFrom_moves (steps : Steps pattern (pattern.length + 1 : Nat) step)
    (read : (text ++ 0 :: rest)[i + pattern.length]? = some byte) (seven : byte.toNat < 128) :
    searchFrom (text ++ 0 :: rest) substr step mainlen pattern.length i =
      if i + shiftOf pattern byte + pattern.length < 2 ^ 31 then
        if mainlen < (i + shiftOf pattern byte + pattern.length : Nat) then .returned (.stop (some (-1)))
        else .returned (.next (i + shiftOf pattern byte : Nat))
      else .undefined := by
  have moved : (i : Int) + shiftOf pattern byte = (i + shiftOf pattern byte : Nat) := (Int.natCast_add _ _).symm
  have reach : ((i + shiftOf pattern byte : Nat) : Int) + pattern.length =
      (i + shiftOf pattern byte + pattern.length : Nat) := (Int.natCast_add _ _).symm
  rw [searchFrom_missed free starts within begun missed (steps.shift seven) read seven, moved]
  by_cases small : i + shiftOf pattern byte + pattern.length < 2 ^ 31
  · rw [if_pos small, CInt.checked_eq (by omega) (by omega), Outcome.ofOption_some, Outcome.returned_bind, reach,
      CInt.checked_eq (by omega) (by omega), Outcome.ofOption_some, Outcome.returned_bind]
    simp only [gt_iff_lt, Outcome.pure_eq]
  · rw [if_neg small]
    by_cases first : i + shiftOf pattern byte < 2 ^ 31
    · rw [CInt.checked_eq (by omega) (by omega), Outcome.ofOption_some, Outcome.returned_bind, reach,
        CInt.checked_above (by omega), Outcome.ofOption_none, Outcome.undefined_bind]
    · rw [CInt.checked_above (by omega), Outcome.ofOption_none, Outcome.undefined_bind]

end Missed

end Round

/-- No occurrence begins between the window and the place it is moved to. -/
theorem not_occursAt_skipped {k : Nat} (nonempty : pattern ≠ [])
    (behind : (text ++ 0 :: rest)[i + pattern.length]? = some byte) (beyond : i < k)
    (skipped : k < i + shiftOf pattern byte) : ¬ OccursAt pattern text k := by
  intro occurs
  have fits := occurs.fits nonempty
  have farthest : shiftOf pattern byte ≤ pattern.length + 1 := shiftOf_le_succ
  have position : k + (i + pattern.length - k) = i + pattern.length := by omega
  have inside : text[i + pattern.length]? = some byte := by
    rw [List.getElem?_append_left (by omega)] at behind
    exact behind
  have character : pattern[i + pattern.length - k]? = some byte := by
    rw [← occursAt_iff.mp occurs _ (by omega), position, inside]
  have close := shiftOf_le character
  omega

/-- Where the window may be before a round: it is the first one or lies in the string, and nothing
has been missed. -/
structure Window (pattern text : List UInt8) (i : Nat) : Prop where
  begun : i < text.length
  inside : i = 0 ∨ i + pattern.length ≤ text.length
  passed : ∀ k, k < i → ¬ OccursAt pattern text k

theorem Window.behind (window : Window pattern text i) (small : SevenBit text)
    (readable : ∃ byte, (text ++ 0 :: rest)[pattern.length]? = some byte ∧ byte.toNat < 128) :
    ∃ byte, (text ++ 0 :: rest)[i + pattern.length]? = some byte ∧ byte.toNat < 128 := by
  rcases window.inside with rfl | inside
  · rw [Nat.zero_add]
    exact readable
  · rcases Nat.lt_or_eq_of_le inside with before | ended
    · refine ⟨text[i + pattern.length], ?_, small _ (List.getElem_mem before)⟩
      rw [List.getElem?_append_left before, List.getElem?_eq_getElem before]
    · refine ⟨0, ?_, by decide⟩
      rw [ended, Cells.getElem?_middle]

theorem sundaySearch_eq (freeText : 0 ∉ text) (freePattern : 0 ∉ pattern) :
    sundaySearch (text ++ 0 :: rest) (pattern ++ 0 :: after) step =
      whileLoop (searchFrom (text ++ 0 :: rest) (pattern ++ 0 :: after) step (CInt.convert text.length)
        (CInt.convert pattern.length)) ((CInt.convert text.length).toNat + 1) 0 := by
  rw [sundaySearch, CString.strlen_terminated freeText, Outcome.ofOption_some, Outcome.returned_bind,
    CString.strlen_terminated freePattern, Outcome.ofOption_some, Outcome.returned_bind]

section Whole

variable (freePattern : 0 ∉ pattern) (nonempty : pattern ≠ []) (small : SevenBit text)
  (lengths : text.length + pattern.length + 1 < 2 ^ 31) (doubled : 2 * pattern.length + 1 < 2 ^ 31)
  (readable : ∃ byte, (text ++ 0 :: rest)[pattern.length]? = some byte ∧ byte.toNat < 128)
include freePattern nonempty small lengths doubled readable

theorem searchFrom_round (starts : pattern <+: substr) (steps : Steps pattern (pattern.length + 1 : Nat) step)
    (window : Window pattern text i) :
    (∃ result, searchFrom (text ++ 0 :: rest) substr step text.length pattern.length i =
        .returned (.stop result) ∧ ∃ found, result = some found ∧ FirstOccurrence pattern text found) ∨
      ∃ next : Nat, searchFrom (text ++ 0 :: rest) substr step text.length pattern.length i =
        .returned (.next next) ∧ Window pattern text next ∧ text.length - next < text.length - i := by
  have begun := window.begun
  have positive := List.length_pos_iff.mpr nonempty
  by_cases occurs : OccursAt pattern text i
  · left
    exact ⟨some i, searchFrom_found freePattern starts (Nat.le_of_lt begun) (Int.ofNat_lt.mpr begun) occurs, i, rfl,
      Or.inl ⟨i, rfl, occurs, window.passed⟩⟩
  · obtain ⟨byte, read, seven⟩ := window.behind small readable
    have skipped : ∀ k, k < i + shiftOf pattern byte → ¬ OccursAt pattern text k := by
      intro k before
      rcases Nat.lt_trichotomy k i with earlier | rfl | beyond
      · exact window.passed k earlier
      · exact occurs
      · exact not_occursAt_skipped nonempty read beyond before
    have farthest : shiftOf pattern byte ≤ pattern.length + 1 := shiftOf_le_succ
    have shift : 0 < shiftOf pattern byte := shiftOf_pos
    have before : (i : Int) < text.length := Int.ofNat_lt.mpr begun
    have moves := searchFrom_moves freePattern starts (Nat.le_of_lt begun) before occurs steps read seven
    have bounded : i + shiftOf pattern byte + pattern.length < 2 ^ 31 := by
      have inside := window.inside
      omega
    rw [if_pos bounded] at moves
    by_cases ended : text.length < i + shiftOf pattern byte + pattern.length
    · left
      rw [if_pos (by omega)] at moves
      refine ⟨_, moves, -1, rfl, Or.inr ⟨rfl, ?_⟩⟩
      intro k occursLater
      have fits := occursLater.fits nonempty
      exact skipped k (by omega) occursLater
    · right
      rw [if_neg (by omega)] at moves
      exact ⟨_, moves, { begun := by omega, inside := Or.inr (by omega), passed := skipped }, by omega⟩

omit freePattern nonempty small lengths doubled readable in
theorem Window.first (begun : text ≠ []) : Window pattern text 0 := by
  constructor
  · exact List.length_pos_iff.mpr begun
  · exact Or.inl rfl
  · intro k none
    contradiction

theorem sundaySearch_first (freeText : 0 ∉ text) (begun : text ≠ [])
    (steps : Steps pattern (pattern.length + 1 : Nat) step) :
    ∃ found, sundaySearch (text ++ 0 :: rest) (pattern ++ 0 :: after) step = .returned (some found) ∧
      FirstOccurrence pattern text found := by
  have rounds : ∀ place : Int, (∃ i : Nat, place = i ∧ Window pattern text i) →
      (∃ result, searchFrom (text ++ 0 :: rest) (pattern ++ 0 :: after) step text.length pattern.length place =
          .returned (.stop result) ∧ ∃ found, result = some found ∧ FirstOccurrence pattern text found) ∨
        ∃ next, searchFrom (text ++ 0 :: rest) (pattern ++ 0 :: after) step text.length pattern.length place =
          .returned (.next next) ∧ (∃ i : Nat, next = i ∧ Window pattern text i) ∧
            text.length - next.toNat < text.length - place.toNat := by
    intro place given
    obtain ⟨i, rfl, window⟩ := given
    rcases searchFrom_round freePattern nonempty small lengths doubled readable (List.prefix_append _ _) steps window
      with stopped | ⟨next, moved, later, closer⟩
    · exact Or.inl stopped
    · exact Or.inr ⟨next, moved, ⟨next, rfl, later⟩, closer⟩
  obtain ⟨result, returned, found, rfl, first⟩ := whileLoop_total (fun place : Int => text.length - place.toNat)
    rounds ⟨0, rfl, Window.first begun⟩ (show text.length - (0 : Int).toNat < text.length + 1 by omega)
  refine ⟨found, ?_, first⟩
  rw [sundaySearch_eq freeText freePattern, CInt.convert_natCast (by omega), CInt.convert_natCast (by omega),
    Int.toNat_natCast]
  exact returned

end Whole

theorem getStep_eq (free : 0 ∉ pattern) (small : pattern.length < 2 ^ 31) :
    getStep (pattern ++ 0 :: after) = forRange 0 pattern.length (enter (pattern ++ 0 :: after) pattern.length)
      (List.replicate 256 (CInt.convert (pattern.length + 1))) := by
  rw [getStep, CString.strlen_terminated free, Option.bind_eq_bind, Option.bind_some]
  show forRange 0 (CInt.convert pattern.length).toNat (enter _ (CInt.convert pattern.length)) _ = _
  rw [CInt.convert_natCast small, Int.toNat_natCast]

theorem getStep_steps (free : 0 ∉ pattern) (seven : SevenBit pattern) (bounded : pattern.length + 1 < 2 ^ 31) :
    ∃ step, getStep (pattern ++ 0 :: after) = some step ∧ Steps pattern (pattern.length + 1 : Nat) step := by
  have missing : CInt.convert (pattern.length + 1) = (pattern.length + 1 : Nat) := CInt.convert_natCast bounded
  rw [getStep_eq free (by omega), missing]
  exact enterAll_steps (List.prefix_append _ _) seven _

theorem sevenBit_of_getStep (free : 0 ∉ pattern) (small : pattern.length < 2 ^ 31)
    (filled : getStep (pattern ++ 0 :: after) = some step) : SevenBit pattern := by
  rw [getStep_eq free small] at filled
  exact sevenBit_of_enterAll (List.prefix_append _ _) filled

/-- The search with its table finds the first occurrence of a pattern that is not longer than the
text, as long as `int` holds the largest place that is computed. -/
theorem sunday_finds_first (freeText : 0 ∉ text) (freePattern : 0 ∉ pattern) (smallText : SevenBit text)
    (smallPattern : SevenBit pattern) (nonempty : pattern ≠ []) (fits : pattern.length ≤ text.length)
    (lengths : text.length + pattern.length + 1 < 2 ^ 31) :
    ∃ step found, getStep (pattern ++ [0]) = some step ∧
      sundaySearch (text ++ [0]) (pattern ++ [0]) step = .returned (some found) ∧
        FirstOccurrence pattern text found := by
  have begun : text ≠ [] := by
    intro same
    obtain rfl := same
    exact nonempty (List.length_eq_zero_iff.mp (Nat.le_zero.mp fits))
  have readable : ∃ byte, (text ++ [0])[pattern.length]? = some byte ∧ byte.toNat < 128 := by
    rcases Nat.lt_or_eq_of_le fits with shorter | equal
    · refine ⟨text[pattern.length], ?_, smallText _ (List.getElem_mem shorter)⟩
      rw [List.getElem?_append_left shorter, List.getElem?_eq_getElem shorter]
    · exact ⟨0, by rw [equal, Cells.getElem?_middle], by decide⟩
  have table : ∃ step, getStep (pattern ++ [0]) = some step ∧ Steps pattern (pattern.length + 1 : Nat) step :=
    getStep_steps freePattern smallPattern (by omega)
  obtain ⟨step, filled, steps⟩ := table
  have found : ∃ found, sundaySearch (text ++ [0]) (pattern ++ [0]) step = .returned (some found) ∧
      FirstOccurrence pattern text found :=
    sundaySearch_first freePattern nonempty smallText lengths (by omega) readable freeText begun steps
  obtain ⟨found, returned, first⟩ := found
  exact ⟨step, found, filled, returned, first⟩

theorem sunday_finds_second : ∃ step found, getStep ([97, 98] ++ [0]) = some step ∧
    sundaySearch ([98, 97, 98, 97, 98] ++ [0]) ([97, 98] ++ [0]) step = .returned (some found) ∧
      FirstOccurrence ([97, 98] : List UInt8) [98, 97, 98, 97, 98] found :=
  @sunday_finds_first [98, 97, 98, 97, 98] [97, 98] (by decide) (by decide) (by decide) (by decide) (by decide)
    (by decide) (by decide)

/-- The first window is moved by one, and the zero byte behind the second one would move it past the
largest `int`. -/
theorem sundaySearch_undefined (positive : 0 < count) (size : 2 * count + 4 = 2 ^ 31)
    (isText : text = List.replicate (count + 2) 97) (isPattern : pattern = List.replicate count 98 ++ [97])
    (freePattern : 0 ∉ pattern) (steps : Steps pattern (pattern.length + 1 : Nat) step) :
    sundaySearch (text ++ [0]) (pattern ++ [0]) step = .undefined := by
  have freeText : 0 ∉ text := by
    rw [isText]
    exact fun member => absurd (List.eq_of_mem_replicate member) (by decide)
  have textLength : text.length = count + 2 := by rw [isText, List.length_replicate]
  have patternLength : pattern.length = count + 1 := by
    rw [isPattern, List.length_append, List.length_replicate, List.length_singleton]
  have inText : ∀ k, k < count + 2 → (text ++ [0])[k]? = some 97 := by
    intro k inside
    rw [List.getElem?_append_left (by omega), isText, List.getElem?_replicate, if_pos inside]
  have missed : ∀ i, i ≤ 1 → ¬ OccursAt pattern text i := by
    intro i first occurs
    have start := occursAt_iff.mp occurs 0 (by omega)
    have wanted : pattern[0]? = some 98 := by
      rw [isPattern, List.getElem?_append_left (by rw [List.length_replicate]; omega), List.getElem?_replicate,
        if_pos positive]
    have character := inText i (by omega)
    rw [List.getElem?_append_left (by omega)] at character
    rw [Nat.add_zero, character, wanted] at start
    exact absurd (Option.some.inj start) (by decide)
  have one : shiftOf pattern 97 = 1 := by rw [isPattern, shiftOf_concat, if_pos rfl]
  have all : shiftOf pattern 0 = count + 2 := by rw [shiftOf_missing freePattern, patternLength]
  have beforeFirst : ((0 : Nat) : Int) < text.length := by omega
  have beforeSecond : ((1 : Nat) : Int) < text.length := by omega
  have first := searchFrom_moves freePattern (List.prefix_append pattern [0]) (Nat.zero_le _) beforeFirst
    (missed 0 (by omega)) steps (inText _ (by omega)) (by decide)
  have ending : (text ++ [0])[1 + pattern.length]? = some 0 := by
    rw [show 1 + pattern.length = text.length by omega, Cells.getElem?_middle]
  have second := searchFrom_moves freePattern (List.prefix_append pattern [0]) (by omega) beforeSecond
    (missed 1 (by omega)) steps ending (by decide)
  rw [one, if_pos (by omega), if_neg (by omega)] at first
  rw [all, if_neg (by omega)] at second
  rw [sundaySearch_eq freeText freePattern, CInt.convert_natCast (by omega), CInt.convert_natCast (by omega),
    Int.toNat_natCast, textLength]
  rw [textLength] at first second
  exact (whileLoop_next first).trans (whileLoop_undefined second)

/-- Two strings of 2 ^ 30 and 2 ^ 30 - 1 characters. -/
theorem sunday_overflows : ∃ text pattern : List UInt8, ∃ step,
    text = List.replicate (2 ^ 30 - 2 + 2) 97 ∧ pattern = List.replicate (2 ^ 30 - 2) 98 ++ [97] ∧
      0 ∉ text ∧ 0 ∉ pattern ∧ SevenBit text ∧ SevenBit pattern ∧ pattern ≠ [] ∧ pattern.length ≤ text.length ∧
        getStep (pattern ++ [0]) = some step ∧ sundaySearch (text ++ [0]) (pattern ++ [0]) step = .undefined := by
  have letters : ∀ byte ∈ List.replicate (2 ^ 30 - 2) (98 : UInt8) ++ [97], byte = 98 ∨ byte = 97 := by
    intro byte member
    rcases List.mem_append.mp member with long | last
    · exact Or.inl (List.eq_of_mem_replicate long)
    · exact Or.inr (List.mem_singleton.mp last)
  have free : 0 ∉ List.replicate (2 ^ 30 - 2) (98 : UInt8) ++ [97] := fun member =>
    absurd (letters 0 member) (by decide)
  have small : SevenBit (List.replicate (2 ^ 30 - 2) 98 ++ [97]) := by
    intro byte member
    rcases letters byte member with rfl | rfl <;> decide
  have length : (List.replicate (2 ^ 30 - 2) (98 : UInt8) ++ [97]).length = 2 ^ 30 - 2 + 1 := by
    rw [List.length_append, List.length_replicate, List.length_singleton]
  have table : ∃ step, getStep (List.replicate (2 ^ 30 - 2) 98 ++ [97] ++ [0]) = some step ∧
      Steps (List.replicate (2 ^ 30 - 2) 98 ++ [97])
        ((List.replicate (2 ^ 30 - 2) (98 : UInt8) ++ [97]).length + 1 : Nat) step :=
    getStep_steps free small (by rw [length]; decide)
  obtain ⟨step, filled, steps⟩ := table
  refine ⟨_, _, step, rfl, rfl, ?_, free, ?_, small, ?_, ?_, filled, ?_⟩
  · exact fun member => absurd (List.eq_of_mem_replicate member) (by decide)
  · intro byte member
    rw [List.eq_of_mem_replicate member]
    decide
  · exact List.append_ne_nil_of_right_ne_nil _ (List.cons_ne_nil _ _)
  · rw [length, List.length_replicate]
    exact Nat.le_succ _
  · exact sundaySearch_undefined (by decide) (by decide) rfl rfl free steps

end Dwadelib.Wgrep
