import Dwadelib.Character.Sequences

namespace Dwadelib.Character

/-! # Decoding what was encoded

The decoder undoes the encoder where it puts all bits back in their places; the other way round,
what it accepts may be longer than what the encoder writes.
-/

variable {first : UInt8} {rest piece others : List UInt8} {unic n : Nat}

theorem utf8Length_sequence (positive : 1 ≤ n) (bound : n ≤ 6) (sequence : Utf8.Sequence n first others) :
    utf8Length first = n := by
  have least := sequence.least
  have most := sequence.most
  have cases := encGetUtf8Size_cases first
  have counts : n = 1 ∨ n = 2 ∨ n = 3 ∨ n = 4 ∨ n = 5 ∨ n = 6 := by omega
  rcases counts with rfl | rfl | rfl | rfl | rfl | rfl
  all_goals
    simp only [Utf8.mark, Utf8.width, Nat.reduceEqDiff, Nat.reduceSub, Nat.reducePow, reduceIte] at least most
    rw [utf8Length]
    split <;> omega

theorem announced_shortest (bound : unic < 0x80000000) : Announced utf8Length (Utf8.shortest unic) := by
  obtain ⟨positive, most⟩ := Utf8.size_bounds unic
  have sequence := Utf8.sequence_form positive most (Utf8.lt_limit_size bound)
  have length := utf8Length_sequence positive most sequence
  exact ⟨_, _, rfl, (Utf8.length_shortest unic).trans length.symm⟩

theorem accepted_shortest (bound : unic < 0x80000000) :
    Accepted (Utf8.shortest unic) ↔ (Utf8.size unic = 2 → unic % 64 < 32) := by
  have marked : ∀ byte ∈ (Utf8.shortest unic).tail, byte.toNat / 64 = 2 := Utf8.marked_following
  rw [accepted_iff (announced_shortest bound), Utf8.length_shortest]
  by_cases two : Utf8.size unic = 2
  · have single : (Utf8.shortest unic).tail = [UInt8.ofNat (0x80 + unic / 64 ^ 0 % 64)] := by
      rw [Utf8.shortest, two]
      rfl
    have byte : (UInt8.ofNat (0x80 + unic % 64)).toNat = 0x80 + unic % 64 := Utf8.toNat_following
    rw [single, two, List.forall_mem_singleton, follows_two, Nat.pow_zero, Nat.div_one, byte]
    omega
  · exact iff_of_true (fun byte member => (follows_iff two).mpr (marked byte member)) fun same => absurd same two

/-- The numbers whose encodings are accepted and whose bits are put back in their places. -/
def Invertible (unic : Nat) : Prop :=
  unic < 0x80 ∨ (0x80 ≤ unic ∧ unic < 0x800 ∧ unic % 64 < 32) ∨ (0x800 ≤ unic ∧ unic < 0x1000000) ∨
    (0x4000000 ≤ unic ∧ unic / 256 % 256 = unic / 64 % 16 * 16 + unic / 4 % 16)

/-- The six bits of a byte that is not the first one, and parts of them. -/
theorem marked_digit (digit : Nat) :
    (0x80 + digit % 64) % 64 = digit % 64 ∧ (0x80 + digit % 64) % 16 = digit % 16 ∧
      (0x80 + digit % 64) % 4 = digit % 4 ∧ (0x80 + digit % 64) / 16 % 4 = digit / 16 % 4 ∧
      (0x80 + digit % 64) / 4 % 16 = digit / 4 % 16 := by
  omega

theorem storedNumber_shortest (bound : unic < 0x80000000) :
    storedNumber (Utf8.shortest unic) = unic ↔
      unic < 0x1000000 ∨ (0x4000000 ≤ unic ∧ unic / 256 % 256 = unic / 64 % 16 * 16 + unic / 4 % 16) := by
  obtain ⟨positive, most⟩ := Utf8.size_bounds unic
  have lead := Utf8.toNat_first positive most (Utf8.lt_limit_size bound)
  have high : (252 + unic / 1073741824) % 2 * 1073741824 + unic / 16777216 % 64 * 16777216 +
      unic / 262144 % 64 * 262144 + unic / 4096 / 16 % 4 * 65536 = unic / 65536 * 65536 := by
    omega
  have low : unic / 64 % 4 * 64 + unic % 64 = unic % 256 := by omega
  rcases Utf8.size_cases unic with ⟨upper, size⟩ | ⟨lower, upper, size⟩ | ⟨lower, upper, size⟩ |
    ⟨lower, upper, size⟩ | ⟨lower, upper, size⟩ | ⟨lower, size⟩
  all_goals
    simp only [size, Utf8.mark, Nat.reduceEqDiff, Nat.reduceSub, Nat.reducePow, reduceIte, Nat.div_one] at lead
    simp only [Utf8.shortest, size, Utf8.form, Utf8.following, storedNumber, Utf8.mark, Nat.reduceEqDiff,
      Nat.reduceSub, Nat.reducePow, reduceIte, Nat.div_one, lead, Utf8.toNat_following, marked_digit]
    omega

/-- The encoder writes an encoding of which the decoder takes all bytes and gets the number back. -/
def Undone (unic : Nat) (rest : List UInt8) : Prop :=
  ∃ bytes, encUnicodeToUtf8One unic 6 = .returned bytes ∧
    encUtf8ToUnicodeOne (bytes ++ rest) = some { utfbytes := bytes.length, unic := unic }

theorem undone_iff_invertible (bound : unic < 0x80000000) (rest : List UInt8) :
    Undone unic rest ↔ Invertible unic := by
  have encoded := encUnicodeToUtf8One_shortest bound (Int.le_refl 6)
  have stored := storedNumber_shortest bound
  have accepts := accepted_shortest bound
  have sizes := Utf8.size_cases unic
  have length := Utf8.length_shortest unic
  have both : Accepted (Utf8.shortest unic) ∧ storedNumber (Utf8.shortest unic) = unic ↔ Invertible unic := by
    rw [stored, accepts, Invertible]
    omega
  rw [← both]
  constructor
  · intro undone
    obtain ⟨bytes, written, decoded⟩ := undone
    cases encoded.symm.trans written
    rcases decode_sequence (announced_shortest bound) rest with ⟨accepted, taken⟩ | ⟨-, taken⟩
    · rw [taken, Option.some.injEq, Decoded.mk.injEq] at decoded
      exact ⟨accepted, decoded.2⟩
    · rw [taken, refused, Option.some.injEq, Decoded.mk.injEq] at decoded
      omega
  · intro both
    obtain ⟨accepted, same⟩ := both
    rcases decode_sequence (announced_shortest bound) rest with ⟨-, taken⟩ | ⟨other, -⟩
    · rw [same] at taken
      exact ⟨Utf8.shortest unic, encoded, taken⟩
    · contradiction

theorem undone_euro : Undone 0x20AC [] :=
  (undone_iff_invertible (by decide) []).mpr (.inr (.inr (.inl (by decide))))

/-- U+00E9 is refused, and bits of U+1000000 and of U+4000004 get to other places. -/
theorem not_undone : ¬ Undone 0xE9 [] ∧ ¬ Undone 0x1000000 [] ∧ ¬ Undone 0x4000004 [] := by
  have undone : ∀ unic rest, Undone unic rest → ∃ bytes ∈ (encUnicodeToUtf8One unic 6).toOption,
      encUtf8ToUnicodeOne (bytes ++ rest) = some { utfbytes := bytes.length, unic := unic } := by
    intro unic rest back
    obtain ⟨bytes, written, decoded⟩ := back
    exact ⟨bytes, by rw [written]; rfl, decoded⟩
  refine ⟨fun back => ?_, fun back => ?_, fun back => ?_⟩
  · exact absurd (undone _ _ back) (by decide)
  · exact absurd (undone _ _ back) (by decide)
  · exact absurd (undone _ _ back) (by decide)

/-- The first bytes of a longer sequence that are those of a number that needs fewer bytes. -/
def Overlong : List UInt8 → Prop
  | [b1, _] => b1.toNat < 0xC2
  | [b1, b2, _] => b1.toNat = 0xE0 ∧ b2.toNat < 0xA0
  | [b1, b2, _, _] => b1.toNat = 0xF0 ∧ b2.toNat < 0x90
  | [b1, b2, _, _, _] => b1.toNat = 0xF8 ∧ b2.toNat < 0x88
  | [b1, b2, _, _, _, _] => b1.toNat = 0xFC ∧ b2.toNat < 0x84
  | _ => False

/-- Of five and of six bytes, those whose bits are stored in their own places. -/
def InPlace : List UInt8 → Prop
  | [b1, _, _, _, _] => b1.toNat = 0xF8
  | [b1, _, _, b4, b5, b6] =>
      b1.toNat < 0xFE ∧ b5.toNat % 16 = b4.toNat % 16 ∧ b6.toNat / 4 % 16 = b5.toNat / 4 % 16
  | _ => True

/-- What was taken was accepted. -/
theorem accepted_of_decoded {bytes : List UInt8} (positive : 0 < n)
    (decoded : encUtf8ToUnicodeOne bytes = some { utfbytes := n, unic := unic }) :
    Accepted (bytes.take n) ∧ unic = storedNumber (bytes.take n) := by
  cases bytes with
  | nil => contradiction
  | cons first others =>
      by_cases none : utf8Length first = 0
      · rw [decode_class_none (encGetUtf8Size_none none), refused, Option.some.injEq, Decoded.mk.injEq] at decoded
        omega
      · have inside : utf8Length first ≤ (first :: others).length := by
          by_contra outside
          rw [decode_outside (by omega)] at decoded
          contradiction
        have announced := announced_take (Nat.pos_of_ne_zero none) inside
        have whole := List.take_append_drop (utf8Length first) (first :: others)
        have verdict := decode_sequence announced ((first :: others).drop (utf8Length first))
        rw [whole, decoded, List.length_take_of_le inside] at verdict
        rcases verdict with ⟨accepted, same⟩ | ⟨-, same⟩
        · rw [Option.some.injEq, Decoded.mk.injEq] at same
          obtain ⟨rfl, stored⟩ := same
          exact ⟨accepted, stored⟩
        · rw [refused, Option.some.injEq, Decoded.mk.injEq] at same
          omega

/-- What is accepted is a sequence, unless the first byte is 0xFE or 0xFF. -/
theorem sequence_of_accepted (accepted : Accepted (first :: others)) (small : first.toNat < 0xFE) :
    ∃ n, 1 ≤ n ∧ n ≤ 6 ∧ Utf8.Sequence n first others := by
  obtain ⟨_, _, same, length⟩ := accepted.announced.begins
  cases same
  have marked : ∀ byte ∈ others, byte.toNat / 64 = 2 := fun byte member => (accepted.follows byte member).marked
  rw [List.length_cons, utf8Length] at length
  refine ⟨others.length + 1, by omega, ?_, rfl, ?_, ?_, marked⟩
  all_goals
    rcases encGetUtf8Size_cases first with ⟨upper, size⟩ | ⟨-, -, size⟩ | ⟨lower, upper, size⟩ |
      ⟨lower, upper, size⟩ | ⟨lower, upper, size⟩ | ⟨lower, upper, size⟩ | ⟨lower, size⟩
  all_goals
    rw [size] at length
    simp at length
  all_goals simp [length, Utf8.mark, Utf8.width]
  all_goals omega

section Sequence

variable (sequence : Utf8.Sequence n first others)
include sequence

theorem storedNumber_inPlace (positive : 1 ≤ n) (bound : n ≤ 6) (inPlace : InPlace (first :: others)) :
    storedNumber (first :: others) = Utf8.value n first others := by
  have length := sequence.length
  have least := sequence.least
  have most := sequence.most
  have counts : n = 1 ∨ n = 2 ∨ n = 3 ∨ n = 4 ∨ n = 5 ∨ n = 6 := by omega
  rcases counts with rfl | rfl | rfl | rfl | rfl | rfl
  all_goals simp only [Utf8.mark, Utf8.width, Nat.reduceEqDiff, Nat.reduceSub, Nat.reducePow, reduceIte] at least most
  · rw [List.eq_nil_of_length_eq_zero (Nat.succ.inj length)]
    rfl
  · obtain ⟨b2, rfl⟩ := List.length_eq_one_iff.mp (Nat.succ.inj length)
    rw [storedNumber, Utf8.value_two]
    omega
  · obtain ⟨b2, b3, rfl⟩ := List.length_eq_two.mp (Nat.succ.inj length)
    rw [storedNumber, Utf8.value_three]
    omega
  · obtain ⟨b2, b3, b4, rfl⟩ := List.length_eq_three.mp (Nat.succ.inj length)
    rw [storedNumber, Utf8.value_four]
    omega
  · obtain ⟨b2, b3, b4, b5, rfl⟩ := List.length_eq_four.mp (Nat.succ.inj length)
    rw [InPlace] at inPlace
    rw [storedNumber, Utf8.value_five]
    omega
  · obtain ⟨b2, b3, b4, b5, b6, rfl⟩ := length_eq_five.mp (Nat.succ.inj length)
    obtain ⟨small, fifth, sixth⟩ := inPlace
    rw [storedNumber, Utf8.value_six]
    omega

/-- What is overlong stands for a number that one byte less would hold. -/
theorem overlong_iff (several : 2 ≤ n) (bound : n ≤ 6) :
    Overlong (first :: others) ↔ Utf8.value n first others < Utf8.limit (n - 1) := by
  have length := sequence.length
  have least := sequence.least
  have marked := sequence.marked
  have counts : n = 2 ∨ n = 3 ∨ n = 4 ∨ n = 5 ∨ n = 6 := by omega
  rcases counts with rfl | rfl | rfl | rfl | rfl
  all_goals
    simp only [Utf8.mark, Utf8.limit, Utf8.width, Nat.reduceEqDiff, Nat.reduceSub, Nat.reducePow, Nat.reduceMul,
      reduceIte] at least ⊢
  · obtain ⟨b2, rfl⟩ := List.length_eq_one_iff.mp (Nat.succ.inj length)
    rw [Overlong, Utf8.value_two]
    have second := marked b2 List.mem_cons_self
    omega
  · obtain ⟨b2, b3, rfl⟩ := List.length_eq_two.mp (Nat.succ.inj length)
    rw [Overlong, Utf8.value_three]
    have second := marked b2 List.mem_cons_self
    omega
  · obtain ⟨b2, b3, b4, rfl⟩ := List.length_eq_three.mp (Nat.succ.inj length)
    rw [Overlong, Utf8.value_four]
    have second := marked b2 List.mem_cons_self
    omega
  · obtain ⟨b2, b3, b4, b5, rfl⟩ := List.length_eq_four.mp (Nat.succ.inj length)
    rw [Overlong, Utf8.value_five]
    have second := marked b2 List.mem_cons_self
    omega
  · obtain ⟨b2, b3, b4, b5, b6, rfl⟩ := length_eq_five.mp (Nat.succ.inj length)
    rw [Overlong, Utf8.value_six]
    have second := marked b2 List.mem_cons_self
    omega

theorem size_value_iff (positive : 1 ≤ n) (bound : n ≤ 6) :
    Utf8.size (Utf8.value n first others) = n ↔ ¬ Overlong (first :: others) := by
  have small := Utf8.value_lt_limit sequence
  by_cases one : n = 1
  · have single : others = [] := List.eq_nil_of_length_eq_zero (by have length := sequence.length; omega)
    have fewer := (Utf8.size_le positive bound small).1
    have some := Utf8.size_bounds (Utf8.value n first others)
    rw [single] at fewer some ⊢
    simp only [Overlong, not_false_eq_true, iff_true]
    omega
  · rw [Utf8.size_eq_iff (by omega) bound small, overlong_iff sequence (by omega) bound, Nat.not_lt]

end Sequence

/-- A sequence that is accepted is what the encoder writes, if it is not longer than need be. -/
theorem encode_stored_iff (accepted : Accepted piece) (inPlace : InPlace piece) :
    encUnicodeToUtf8One (storedNumber piece) 6 = .returned piece ↔ ¬ Overlong piece := by
  obtain ⟨first, others, rfl, length⟩ := accepted.announced.begins
  have small : first.toNat < 0xFE := by
    by_contra large
    have byte := first.toNat_lt
    have size : encGetUtf8Size first = 6 := by
      have cases := encGetUtf8Size_cases first
      omega
    rw [utf8Length_eq size (by decide)] at length
    obtain ⟨_, _, _, _, _, rfl⟩ := length_eq_five.mp (Nat.succ.inj length)
    exact large inPlace.1
  obtain ⟨n, positive, bound, sequence⟩ := sequence_of_accepted accepted small
  have number := storedNumber_inPlace sequence positive bound inPlace
  have whole := Utf8.form_value sequence
  have inRange := (Utf8.size_le positive bound (Utf8.value_lt_limit sequence)).2
  rw [number, encUnicodeToUtf8One_shortest inRange (Int.le_refl 6), ← size_value_iff sequence positive bound,
    Outcome.returned.injEq]
  constructor
  · intro same
    have lengths := congrArg List.length same
    rw [Utf8.length_shortest, List.length_cons, sequence.length] at lengths
    exact lengths
  · intro size
    rw [Utf8.shortest, size, whole]

/-- What is accepted, with its bits in their places, is what the encoder writes for the number unless
it is overlong; so a number has one such encoding. -/
theorem accepted_canonical_iff {bytes : List UInt8} (positive : 0 < n)
    (decoded : encUtf8ToUnicodeOne bytes = some { utfbytes := n, unic := unic }) (inPlace : InPlace (bytes.take n)) :
    (encUnicodeToUtf8One unic 6 = .returned (bytes.take n) ↔ ¬ Overlong (bytes.take n)) ∧
      ∀ other count, 0 < count → encUtf8ToUnicodeOne other = some { utfbytes := count, unic := unic } →
        InPlace (other.take count) → ¬ Overlong (bytes.take n) → ¬ Overlong (other.take count) →
          other.take count = bytes.take n := by
  obtain ⟨accepted, rfl⟩ := accepted_of_decoded positive decoded
  have written := encode_stored_iff accepted inPlace
  refine ⟨written, fun other count positiveOther decodedOther inPlaceOther short shortOther => ?_⟩
  obtain ⟨acceptedOther, same⟩ := accepted_of_decoded positiveOther decodedOther
  have writtenOther := (encode_stored_iff acceptedOther inPlaceOther).mpr shortOther
  rw [← same, written.mpr short] at writtenOther
  exact (Outcome.returned.inj writtenOther).symm

theorem accepted_canonical_euro :
    encUnicodeToUtf8One 0x20AC 6 = .returned [0xE2, 0x82, 0xAC] ∧ ¬ Overlong [0xE2, 0x82, 0xAC] := by
  have short : ¬ Overlong [0xE2, 0x82, 0xAC] := by
    intro overlong
    exact absurd overlong.1 (by decide)
  have decoded : encUtf8ToUnicodeOne [0xE2, 0x82, 0xAC, 0] = some { utfbytes := 3, unic := 0x20AC } := by decide
  exact ⟨(accepted_canonical_iff (by decide) decoded trivial).1.mpr short, short⟩

/-- Two encodings of the letter A are accepted, of which the encoder writes the second. -/
theorem letter_accepted_twice :
    encUtf8ToUnicodeOne [0xC1, 0x81] = some { utfbytes := 2, unic := 0x41 } ∧
      encUtf8ToUnicodeOne [0x41] = some { utfbytes := 1, unic := 0x41 } ∧
        encUnicodeToUtf8One 0x41 6 = .returned [0x41] := by
  decide

end Dwadelib.Character
