import Dwadelib.Hex
import Mathlib.Tactic.Common

namespace Dwadelib.Hex

/-! # Which characters are written

The loop counts with a `short`. Behind 32767 comes -32768, which indexes nothing.
-/

variable {source dest : List UInt8} {sourceLen : Int} {n k : Nat}

/-- The text of a byte. -/
def byteText (byte : UInt8) : List UInt8 := [hexChar (byte >>> 4), hexChar (byte &&& 0x0f)]

def hexText (source : List UInt8) : List UInt8 := source.flatMap byteText

/-- The loop ends after as many rounds as there are bytes; it reads no other bytes and writes each character
exactly once and nothing else. -/
structure WritesOnce (source dest : List UInt8) (sourceLen : Int) : Prop where
  ends : Traced.EndsAfter (hexRound source sourceLen) sourceLen.toNat { i := 0, dest := dest }
  returns : ∃ written, (byteToHexstr source dest sourceLen).outcome = .returned written
  reads : ∀ index, .source index ∈ (byteToHexstr source dest sourceLen).noted → 0 ≤ index ∧ index < sourceLen
  writes : ∀ index, (byteToHexstr source dest sourceLen).noted.count (.dest index) =
    if 0 ≤ index ∧ index < 2 * sourceLen then 1 else 0

theorem toShort_eq (small : k < 2 ^ 15) : toShort k = k := by
  simp only [toShort, Int.bmod]
  split <;> omega

theorem length_byteText {byte : UInt8} : (byteText byte).length = 2 := rfl

@[simp] theorem length_hexText : (hexText source).length = 2 * source.length := by
  induction source with
  | nil => rfl
  | cons byte source ih =>
      rw [hexText] at ih ⊢
      rw [List.flatMap_cons, List.length_append, ih, List.length_cons, length_byteText]
      omega

/-- Before the round of byte `k`. -/
def writingAt (source dest : List UInt8) (k : Nat) : Writing where
  i := toShort k
  dest := hexText (source.take k) ++ dest.drop (2 * k)

/-- What the round of byte `k` uses. -/
def accesses (k : Nat) : List Access := [.source k, .source k, .dest (2 * k), .dest (2 * k + 1)]

theorem written_round (inside : k < source.length) (room : 2 * k + 1 < dest.length) {byte : UInt8}
    (here : source[k] = byte) :
    ((hexText (source.take k) ++ dest.drop (2 * k)).set (2 * k) (hexChar (byte >>> 4))).set (2 * k + 1)
        (hexChar (byte &&& 0x0f)) = hexText (source.take (k + 1)) ++ dest.drop (2 * (k + 1)) := by
  have front : (hexText (source.take k)).length = 2 * k := by
    rw [length_hexText, List.length_take]
    omega
  have text : hexText (source.take (k + 1)) = hexText (source.take k) ++ byteText byte := by
    rw [hexText, hexText, List.take_add_one, List.getElem?_eq_getElem inside, here, Option.toList_some,
      List.flatMap_append, List.flatMap_cons, List.flatMap_nil, List.append_nil]
  have rest : dest.drop (2 * k) = dest[2 * k] :: dest[2 * k + 1] :: dest.drop (2 * (k + 1)) := by
    rw [List.drop_eq_getElem_cons (by omega), List.drop_eq_getElem_cons room]
    rfl
  rw [List.set_append_right _ _ (by omega), List.set_append_right _ _ (by omega), front, Nat.sub_self,
    Nat.add_sub_cancel_left, rest, text, List.append_assoc]
  rfl

theorem hexRound_next (small : k < 2 ^ 15) (before : k < sourceLen) (inside : k < source.length)
    (room : 2 * k + 1 < dest.length) :
    hexRound source sourceLen (writingAt source dest k) =
      { noted := accesses k, outcome := .returned (.next (writingAt source dest (k + 1))) } := by
  have first : (k : Int) * 2 = (2 * k : Nat) := by omega
  have second : (k : Int) * 2 + 1 = (2 * k + 1 : Nat) := by omega
  have length : (hexText (source.take k) ++ dest.drop (2 * k)).length = dest.length := by
    rw [List.length_append, length_hexText, List.length_take, List.length_drop]
    omega
  have low : 2 * k < (hexText (source.take k) ++ dest.drop (2 * k)).length := by omega
  have high (char : UInt8) : 2 * k + 1 < ((hexText (source.take k) ++ dest.drop (2 * k)).set (2 * k) char).length := by
    rw [List.length_set]
    omega
  have last : hexText (source.take (k + 1)) ++ dest.drop (2 * (k + 1)) = _ := (written_round inside room rfl).symm
  simp only [hexRound, writingAt, toShort_eq small, if_pos before]
  rw [Traced.bind_returned (Traced.read_inside inside), Traced.bind_returned (Traced.read_inside inside), second, first,
    Traced.bind_returned (Traced.write_inside low), Traced.bind_returned (Traced.write_inside (high _)), last]
  rfl

theorem hexRound_stop (ended : sourceLen ≤ k) (small : k < 2 ^ 15) :
    hexRound source sourceLen (writingAt source dest k) =
      { noted := [], outcome := .returned (.stop (hexText (source.take k) ++ dest.drop (2 * k))) } := by
  simp only [hexRound, writingAt, toShort_eq small, if_neg (Int.not_lt.mpr ended)]
  rfl

/-- After 32767 the counter is negative. -/
theorem hexRound_wrapped (positive : 0 ≤ sourceLen) :
    (hexRound source sourceLen (writingAt source dest (2 ^ 15))).outcome = .undefined := by
  have wrapped : toShort ((2 ^ 15 : Nat) : Int) = -2 ^ 15 := by decide
  have before : (-2 ^ 15 : Int) < sourceLen := by omega
  have outside : CInt.read source (-2 ^ 15) = none := CInt.read_negative (by decide)
  simp only [hexRound, writingAt, wrapped, if_pos before, Traced.outcome_bind, Traced.read, outside]
  rfl

section Sized

variable (sized : n ≤ source.length) (room : 2 * n ≤ dest.length)
include sized room

theorem hexRound_goes (small : n ≤ 2 ^ 15) (before : n ≤ sourceLen) :
    ∀ k, k < n → hexRound source sourceLen (writingAt source dest k) =
      { noted := accesses k, outcome := .returned (.next (writingAt source dest (k + 1))) } :=
  fun k inside => hexRound_next (by omega) (by omega) (by omega) (by omega)

theorem byteToHexstr_eq (small : n < 2 ^ 15) :
    byteToHexstr source dest n =
      { noted := (List.range n).flatMap accesses
        outcome := .returned (hexText (source.take n) ++ dest.drop (2 * n)) } :=
  Traced.loop_of_states (hexRound_goes sized room (Nat.le_of_lt small) (Int.le_refl _))
    (hexRound_stop (Int.le_refl _) small) (Nat.lt_succ_self _)

theorem byteToHexstr_undefined (large : n = 2 ^ 15) (before : n ≤ sourceLen) :
    (byteToHexstr source dest sourceLen).outcome = .undefined := by
  subst large
  exact Traced.loop_fails_of_states (hexRound_goes sized room (Nat.le_refl _) before) (hexRound_wrapped (by omega))
    (by omega)

end Sized

theorem count_accesses (index : Int) :
    ((List.range n).flatMap accesses).count (.dest index) = if 0 ≤ index ∧ index < 2 * n then 1 else 0 := by
  induction n with
  | zero =>
      rw [if_neg (by omega)]
      rfl
  | succ n ih =>
      have round : (accesses n).count (.dest index) = if index = 2 * n ∨ index = 2 * n + 1 then 1 else 0 := by
        simp only [accesses, List.count_cons, List.count_nil, beq_iff_eq, reduceCtorEq, if_false, Access.dest.injEq]
        split_ifs <;> omega
      rw [List.range_succ, List.flatMap_append, List.count_append, ih, List.flatMap_singleton, round]
      split_ifs <;> omega

theorem mem_accesses {index : Int} (used : .source index ∈ (List.range n).flatMap accesses) :
    0 ≤ index ∧ index < n := by
  obtain ⟨k, inside, here⟩ := List.mem_flatMap.mp used
  have before := List.mem_range.mp inside
  simp only [accesses, List.mem_cons, Access.source.injEq, reduceCtorEq, List.not_mem_nil, or_false, or_self] at here
  omega

theorem writesOnce_of_short (sized : n ≤ source.length) (room : 2 * n ≤ dest.length) (small : n < 2 ^ 15) :
    WritesOnce source dest n := by
  have whole := byteToHexstr_eq sized room small
  constructor
  · exact Traced.endsAfter_of_states (hexRound_goes sized room (Nat.le_of_lt small) (Int.le_refl _))
      (by rw [hexRound_stop (Int.le_refl _) small])
  · exact ⟨_, by rw [whole]⟩
  · intro index used
    rw [whole] at used
    exact mem_accesses used
  · intro index
    rw [whole]
    exact count_accesses index

/-- Every length that a `short` holds is good, and no other one. -/
theorem writes_once_iff (least : 0 ≤ sourceLen) (most : sourceLen ≤ (2 ^ 31 - 1) / 2)
    (sized : sourceLen ≤ source.length) (room : 2 * sourceLen ≤ dest.length) :
    WritesOnce source dest sourceLen ↔ sourceLen ≤ 32767 := by
  obtain ⟨n, rfl⟩ : ∃ n : Nat, sourceLen = n := ⟨sourceLen.toNat, by omega⟩
  constructor
  · intro once
    by_contra large
    obtain ⟨written, returned⟩ := once.returns
    have fails : (byteToHexstr source dest n).outcome = .undefined :=
      byteToHexstr_undefined (by omega) (by omega) rfl (by omega)
    rw [fails] at returned
    contradiction
  · intro small
    exact writesOnce_of_short (by omega) (by omega) (by omega)

theorem writes_once_three : WritesOnce [1, 2, 3] [0, 0, 0, 0, 0, 0] 3 ↔ (3 : Int) ≤ 32767 :=
  writes_once_iff (by decide) (by decide) (by decide) (by decide)

/-- With a byte more the loop leaves both arrays. -/
theorem many_bytes_not_written :
    ¬ WritesOnce (List.replicate 32768 0) (List.replicate 65536 0) 32768 := by
  intro once
  obtain ⟨written, returned⟩ := once.returns
  have sized : 2 ^ 15 ≤ (List.replicate 32768 (0 : UInt8)).length := by
    rw [List.length_replicate]
    decide
  have room : 2 * 2 ^ 15 ≤ (List.replicate 65536 (0 : UInt8)).length := by
    rw [List.length_replicate]
    decide
  rw [byteToHexstr_undefined sized room rfl (by decide)] at returned
  contradiction

end Dwadelib.Hex
