import Dwadelib.Announced
import Dwadelib.Character
import Dwadelib.Utf8
import Mathlib.Tactic.Common

namespace Dwadelib.Character

/-! # The sequences of a character

What the encoder writes is the shortest form of the number. What the decoder takes is told by the
first byte and by the marks of the others; what it stores is the number, unless it has five or six bytes.
-/

variable {byte first b1 b2 b3 b4 b5 b6 : UInt8} {bytes rest piece others : List UInt8} {unic : Nat} {outSize : Int}

theorem masked_or (value width high : Nat) :
    (value &&& (2 ^ width - 1)) ||| (2 ^ width * high) = value % 2 ^ width + 2 ^ width * high := by
  rw [Nat.and_two_pow_sub_one_eq_mod, Nat.or_comm,
    ← Nat.two_pow_add_eq_or_of_lt (Nat.mod_lt _ (Nat.two_pow_pos width)), Nat.add_comm]

theorem toNat_shiftLeft (bits : UInt8) :
    (byte.shiftLeft bits).toNat = byte.toNat * 2 ^ (bits.toNat % 8) % 256 := by
  rw [← Nat.shiftLeft_eq]
  exact UInt8.toNat_shiftLeft byte bits

theorem toNat_shiftRight (bits : UInt8) :
    (byte.shiftRight bits).toNat = byte.toNat / 2 ^ (bits.toNat % 8) := by
  rw [← Nat.shiftRight_eq_div_pow]
  exact UInt8.toNat_shiftRight byte bits

/-- What the decoder asks of a byte that is not the first one. -/
theorem continuation_iff : byte &&& 0xC0 = 0x80 ↔ byte.toNat / 64 = 2 := by
  have cases : ∀ value, value < 256 → (value &&& 192 = 128 ↔ value / 64 = 2) := by decide +kernel
  rw [← UInt8.toNat_inj, UInt8.toNat_and]
  exact cases byte.toNat byte.toNat_lt

/-- What it asks of the second byte of two. -/
theorem low_continuation_iff : byte &&& 0xE0 = 0x80 ↔ byte.toNat / 32 = 4 := by
  have cases : ∀ value, value < 256 → (value &&& 224 = 128 ↔ value / 32 = 4) := by decide +kernel
  rw [← UInt8.toNat_inj, UInt8.toNat_and]
  exact cases byte.toNat byte.toNat_lt

theorem masked_following (unic count : Nat) :
    (unic >>> (6 * count) &&& 0x3F) ||| 0x80 = 0x80 + unic / 64 ^ count % 64 := by
  have masked : (unic >>> (6 * count) &&& 0x3F) ||| 0x80 = unic >>> (6 * count) % 64 + 0x80 := masked_or _ 6 2
  rw [masked, Nat.shiftRight_eq_div_pow, Nat.pow_mul, Nat.add_comm]

theorem masked_lead (count width high : Nat) (small : unic / 64 ^ count < 2 ^ width) :
    (unic >>> (6 * count) &&& (2 ^ width - 1)) ||| (2 ^ width * high) = 2 ^ width * high + unic / 64 ^ count := by
  have shifted : unic >>> (6 * count) = unic / 64 ^ count := by
    rw [Nat.shiftRight_eq_div_pow, Nat.pow_mul]
  rw [masked_or, shifted, Nat.mod_eq_of_lt small, Nat.add_comm]

theorem encUnicodeToUtf8One_shortest (bound : unic < 0x80000000) (room : 6 ≤ outSize) :
    encUnicodeToUtf8One unic outSize = .returned (Utf8.shortest unic) := by
  have fits : ¬ ¬ outSize ≥ 6 := not_not_intro room
  have last : (unic &&& 0x3F) ||| 0x80 = 0x80 + unic / 64 ^ 0 % 64 := masked_following unic 0
  have second : (unic >>> 6 &&& 0x3F) ||| 0x80 = 0x80 + unic / 64 ^ 1 % 64 := masked_following unic 1
  have third : (unic >>> 12 &&& 0x3F) ||| 0x80 = 0x80 + unic / 64 ^ 2 % 64 := masked_following unic 2
  have fourth : (unic >>> 18 &&& 0x3F) ||| 0x80 = 0x80 + unic / 64 ^ 3 % 64 := masked_following unic 3
  have fifth : (unic >>> 24 &&& 0x3F) ||| 0x80 = 0x80 + unic / 64 ^ 4 % 64 := masked_following unic 4
  rw [encUnicodeToUtf8One, if_neg fits]
  rcases Utf8.size_cases unic with ⟨upper, size⟩ | ⟨lower, upper, size⟩ | ⟨lower, upper, size⟩ |
    ⟨lower, upper, size⟩ | ⟨lower, upper, size⟩ | ⟨lower, size⟩
  · have whole : unic &&& 0x7F = 0 + unic / 64 ^ 0 := by
      have masked : unic &&& 0x7F = unic % 128 := Nat.and_two_pow_sub_one_eq_mod unic 7
      omega
    rw [if_pos (by omega), whole, Utf8.shortest, size]
    rfl
  · have lead : (unic >>> 6 &&& 0x1F) ||| 0xC0 = 0xC0 + unic / 64 ^ 1 := masked_lead 1 5 6 (by omega)
    rw [if_neg (by omega), if_pos (by omega), lead, last, Utf8.shortest, size]
    rfl
  · have lead : (unic >>> 12 &&& 0x0F) ||| 0xE0 = 0xE0 + unic / 64 ^ 2 := masked_lead 2 4 14 (by omega)
    rw [if_neg (by omega), if_neg (by omega), if_pos (by omega), lead, second, last, Utf8.shortest, size]
    rfl
  · have lead : (unic >>> 18 &&& 0x07) ||| 0xF0 = 0xF0 + unic / 64 ^ 3 := masked_lead 3 3 30 (by omega)
    rw [if_neg (by omega), if_neg (by omega), if_neg (by omega), if_pos (by omega), lead, third, second, last,
      Utf8.shortest, size]
    rfl
  · have lead : (unic >>> 24 &&& 0x03) ||| 0xF8 = 0xF8 + unic / 64 ^ 4 := masked_lead 4 2 62 (by omega)
    rw [if_neg (by omega), if_neg (by omega), if_neg (by omega), if_neg (by omega), if_pos (by omega), lead, fourth,
      third, second, last, Utf8.shortest, size]
    rfl
  · have lead : (unic >>> 30 &&& 0x01) ||| 0xFC = 0xFC + unic / 64 ^ 5 := masked_lead 5 1 126 (by omega)
    rw [if_neg (by omega), if_neg (by omega), if_neg (by omega), if_neg (by omega), if_neg (by omega),
      if_pos (by omega), lead, fifth, fourth, third, second, last, Utf8.shortest, size]
    rfl

/-- How many bytes are read for a character: those that the first one tells, and itself in any case
if it is one of seven bits. -/
def utf8Length (lead : UInt8) : Nat := if encGetUtf8Size lead = 0 then 1 else (encGetUtf8Size lead).toNat

theorem encGetUtf8Size_cases (lead : UInt8) :
    (lead.toNat < 0x80 ∧ encGetUtf8Size lead = 0) ∨
      (0x80 ≤ lead.toNat ∧ lead.toNat < 0xC0 ∧ encGetUtf8Size lead = -1) ∨
      (0xC0 ≤ lead.toNat ∧ lead.toNat < 0xE0 ∧ encGetUtf8Size lead = 2) ∨
      (0xE0 ≤ lead.toNat ∧ lead.toNat < 0xF0 ∧ encGetUtf8Size lead = 3) ∨
      (0xF0 ≤ lead.toNat ∧ lead.toNat < 0xF8 ∧ encGetUtf8Size lead = 4) ∨
      (0xF8 ≤ lead.toNat ∧ lead.toNat < 0xFC ∧ encGetUtf8Size lead = 5) ∨
      (0xFC ≤ lead.toNat ∧ encGetUtf8Size lead = 6) := by
  simp only [encGetUtf8Size, ge_iff_le, UInt8.lt_iff_toNat_lt, UInt8.le_iff_toNat_le, UInt8.reduceToNat]
  split_ifs <;> omega

/-- What the decoder asks of a byte that is not the first one of so many. -/
structure Follows (length : Nat) (byte : UInt8) : Prop where
  marked : byte.toNat / 64 = 2
  low : length = 2 → byte.toNat % 64 < 32

structure Accepted (piece : List UInt8) : Prop where
  announced : Announced utf8Length piece
  follows : ∀ byte ∈ piece.tail, Follows piece.length byte

/-- The number that is stored for a sequence. -/
def storedNumber : List UInt8 → Nat
  | [b1] => b1.toNat
  | [b1, b2] => b1.toNat % 32 * 64 + b2.toNat % 64
  | [b1, b2, b3] => b1.toNat % 16 * 4096 + b2.toNat % 64 * 64 + b3.toNat % 64
  | [b1, b2, b3, b4] =>
      b1.toNat % 8 * 262144 + b2.toNat % 64 * 4096 + b3.toNat % 64 * 64 + b4.toNat % 64
  | [b1, b2, b3, b4, b5] =>
      b1.toNat % 4 * 1073741824 + b2.toNat % 64 * 262144 + b3.toNat % 64 * 4096 + b4.toNat % 64 * 64 + b5.toNat % 64
  | [b1, b2, b3, b4, b5, b6] =>
      b1.toNat % 2 * 1073741824 + b2.toNat % 64 * 16777216 + b3.toNat % 64 * 262144 + b4.toNat / 16 % 4 * 65536 +
        b5.toNat % 16 * 4096 + b6.toNat / 4 % 16 * 256 + b5.toNat % 4 * 64 + b6.toNat % 64
  | _ => 0

section Stored

variable (byte next : UInt8)

theorem toNat_low : (byte.shiftLeft 6 + (next &&& 0x3F)).toNat = byte.toNat % 4 * 64 + next.toNat % 64 := by
  have low : next.toNat &&& 0x3F = next.toNat % 64 := Nat.and_two_pow_sub_one_eq_mod next.toNat 6
  simp only [UInt8.toNat_add, UInt8.toNat_and, toNat_shiftLeft, UInt8.reduceToNat, Nat.reduceMod, Nat.reducePow, low]
  omega

theorem toNat_middle :
    (byte.shiftLeft 4 + (next.shiftRight 2 &&& 0x0F)).toNat = byte.toNat % 16 * 16 + next.toNat / 4 % 16 := by
  have low : next.toNat / 4 &&& 0x0F = next.toNat / 4 % 16 := Nat.and_two_pow_sub_one_eq_mod _ 4
  simp only [UInt8.toNat_add, UInt8.toNat_and, toNat_shiftLeft, toNat_shiftRight, UInt8.reduceToNat, Nat.reduceMod,
    Nat.reducePow, low]
  omega

theorem toNat_high :
    (byte.shiftLeft 2 + (next.shiftRight 4 &&& 0x03)).toNat = byte.toNat % 64 * 4 + next.toNat / 16 % 4 := by
  have low : next.toNat / 16 &&& 0x03 = next.toNat / 16 % 4 := Nat.and_two_pow_sub_one_eq_mod _ 2
  simp only [UInt8.toNat_add, UInt8.toNat_and, toNat_shiftLeft, toNat_shiftRight, UInt8.reduceToNat, Nat.reduceMod,
    Nat.reducePow, low]
  omega

end Stored

theorem and_shifted (value : Nat) (bound : value < 256) :
    value &&& 0x1C = value / 4 % 8 * 4 ∧ value &&& 0x40 = value / 64 % 2 * 64 ∧ value &&& 0x07 = value % 8 := by
  have cases : ∀ value, value < 256 →
      value &&& 0x1C = value / 4 % 8 * 4 ∧ value &&& 0x40 = value / 64 % 2 * 64 ∧ value &&& 0x07 = value % 8 := by
    decide +kernel
  exact cases value bound

section Classes

/-- The decoder refuses a sequence in its first branch. -/
theorem refused_or_taken {fails holds : Prop} [Decidable fails] [Decidable holds] (opposite : fails ↔ ¬ holds)
    (decoded : Decoded) :
    (if fails then some refused else some decoded) = some (if holds then decoded else refused) := by
  by_cases accepted : holds
  · rw [if_pos accepted, if_neg fun failed => opposite.mp failed accepted]
  · rw [if_neg accepted, if_pos (opposite.mpr accepted)]

theorem decode_class_one (size : encGetUtf8Size b1 = 0) :
    encUtf8ToUnicodeOne (b1 :: rest) = some { utfbytes := 1, unic := storedNumber [b1] } := by
  simp only [encUtf8ToUnicodeOne, List.getElem?_cons_zero, Option.bind_eq_bind, Option.bind_some, size, littleEndian,
    List.foldr_cons, List.foldr_nil, Nat.mul_zero, Nat.add_zero, storedNumber]

theorem decode_class_two (size : encGetUtf8Size b1 = 2) :
    encUtf8ToUnicodeOne (b1 :: b2 :: rest) =
      some (if b2.toNat / 32 = 4 then { utfbytes := 2, unic := storedNumber [b1, b2] } else refused) := by
  have value : littleEndian [b1.shiftLeft 6 + (b2 &&& 0x3F), b1.shiftRight 2 &&& 0x07] = storedNumber [b1, b2] := by
    have low := toNat_low b1 b2
    have bound := b1.toNat_lt
    have high : (b1.shiftRight 2 &&& 0x07).toNat = b1.toNat / 4 % 8 := by
      have masked := (and_shifted (b1.toNat / 4) (by omega)).2.2
      simp only [UInt8.toNat_and, toNat_shiftRight, UInt8.reduceToNat, Nat.reduceMod, Nat.reducePow, masked]
    simp only [littleEndian, List.foldr_cons, List.foldr_nil, storedNumber, low, high]
    omega
  simp only [encUtf8ToUnicodeOne, List.getElem?_cons_zero, List.getElem?_cons_succ, Option.bind_eq_bind,
    Option.bind_some, size, ne_eq, low_continuation_iff, value]
  exact refused_or_taken Iff.rfl _

theorem decode_class_three (size : encGetUtf8Size b1 = 3) :
    encUtf8ToUnicodeOne (b1 :: b2 :: b3 :: rest) =
      some (if b2.toNat / 64 = 2 ∧ b3.toNat / 64 = 2 then
        { utfbytes := 3, unic := storedNumber [b1, b2, b3] } else refused) := by
  have value : littleEndian [b2.shiftLeft 6 + (b3 &&& 0x3F), b1.shiftLeft 4 + (b2.shiftRight 2 &&& 0x0F)] =
      storedNumber [b1, b2, b3] := by
    have low := toNat_low b2 b3
    have middle := toNat_middle b1 b2
    simp only [littleEndian, List.foldr_cons, List.foldr_nil, storedNumber, low, middle]
    omega
  simp only [encUtf8ToUnicodeOne, List.getElem?_cons_zero, List.getElem?_cons_succ, Option.bind_eq_bind,
    Option.bind_some, size, ne_eq, continuation_iff, value]
  exact refused_or_taken not_and_or.symm _

theorem decode_class_four (size : encGetUtf8Size b1 = 4) :
    encUtf8ToUnicodeOne (b1 :: b2 :: b3 :: b4 :: rest) =
      some (if b2.toNat / 64 = 2 ∧ b3.toNat / 64 = 2 ∧ b4.toNat / 64 = 2 then
        { utfbytes := 4, unic := storedNumber [b1, b2, b3, b4] } else refused) := by
  have value : littleEndian [b3.shiftLeft 6 + (b4 &&& 0x3F), b2.shiftLeft 4 + (b3.shiftRight 2 &&& 0x0F),
      (b1.shiftLeft 2 &&& 0x1C) + (b2.shiftRight 4 &&& 0x03)] = storedNumber [b1, b2, b3, b4] := by
    have low := toNat_low b3 b4
    have middle := toNat_middle b2 b3
    have high : ((b1.shiftLeft 2 &&& 0x1C) + (b2.shiftRight 4 &&& 0x03)).toNat =
        b1.toNat % 8 * 4 + b2.toNat / 16 % 4 := by
      have lead := (and_shifted (b1.toNat * 4 % 256) (Nat.mod_lt _ (by decide))).1
      have next : b2.toNat / 16 &&& 0x03 = b2.toNat / 16 % 4 := Nat.and_two_pow_sub_one_eq_mod _ 2
      simp only [UInt8.toNat_add, UInt8.toNat_and, toNat_shiftLeft, toNat_shiftRight, UInt8.reduceToNat,
        Nat.reduceMod, Nat.reducePow, lead, next]
      omega
    simp only [littleEndian, List.foldr_cons, List.foldr_nil, storedNumber, low, middle, high]
    omega
  simp only [encUtf8ToUnicodeOne, List.getElem?_cons_zero, List.getElem?_cons_succ, Option.bind_eq_bind,
    Option.bind_some, size, ne_eq, continuation_iff, value]
  exact refused_or_taken (by rw [not_and_or, not_and_or]) _

theorem decode_class_five (size : encGetUtf8Size b1 = 5) :
    encUtf8ToUnicodeOne (b1 :: b2 :: b3 :: b4 :: b5 :: rest) =
      some (if b2.toNat / 64 = 2 ∧ b3.toNat / 64 = 2 ∧ b4.toNat / 64 = 2 ∧ b5.toNat / 64 = 2 then
        { utfbytes := 5, unic := storedNumber [b1, b2, b3, b4, b5] } else refused) := by
  have value : littleEndian [b4.shiftLeft 6 + (b5 &&& 0x3F), b3.shiftLeft 4 + (b4.shiftRight 2 &&& 0x0F),
      b2.shiftLeft 2 + (b3.shiftRight 4 &&& 0x03), b1.shiftLeft 6] = storedNumber [b1, b2, b3, b4, b5] := by
    have low := toNat_low b4 b5
    have middle := toNat_middle b3 b4
    have high := toNat_high b2 b3
    have lead : (b1.shiftLeft 6).toNat = b1.toNat * 64 % 256 := toNat_shiftLeft 6
    simp only [littleEndian, List.foldr_cons, List.foldr_nil, storedNumber, low, middle, high, lead]
    omega
  simp only [encUtf8ToUnicodeOne, List.getElem?_cons_zero, List.getElem?_cons_succ, Option.bind_eq_bind,
    Option.bind_some, size, ne_eq, continuation_iff, value]
  exact refused_or_taken (by rw [not_and_or, not_and_or, not_and_or]) _

theorem decode_class_six (size : encGetUtf8Size b1 = 6) :
    encUtf8ToUnicodeOne (b1 :: b2 :: b3 :: b4 :: b5 :: b6 :: rest) =
      some (if b2.toNat / 64 = 2 ∧ b3.toNat / 64 = 2 ∧ b4.toNat / 64 = 2 ∧ b5.toNat / 64 = 2 ∧ b6.toNat / 64 = 2 then
        { utfbytes := 6, unic := storedNumber [b1, b2, b3, b4, b5, b6] } else refused) := by
  have value : littleEndian [b5.shiftLeft 6 + (b6 &&& 0x3F), b5.shiftLeft 4 + (b6.shiftRight 2 &&& 0x0F),
      b3.shiftLeft 2 + (b4.shiftRight 4 &&& 0x03), (b1.shiftLeft 6 &&& 0x40) + (b2 &&& 0x3F)] =
      storedNumber [b1, b2, b3, b4, b5, b6] := by
    have low := toNat_low b5 b6
    have middle := toNat_middle b5 b6
    have high := toNat_high b3 b4
    have lead : ((b1.shiftLeft 6 &&& 0x40) + (b2 &&& 0x3F)).toNat = b1.toNat % 2 * 64 + b2.toNat % 64 := by
      have shifted := (and_shifted (b1.toNat * 64 % 256) (Nat.mod_lt _ (by decide))).2.1
      have next : b2.toNat &&& 0x3F = b2.toNat % 64 := Nat.and_two_pow_sub_one_eq_mod _ 6
      simp only [UInt8.toNat_add, UInt8.toNat_and, toNat_shiftLeft, UInt8.reduceToNat, Nat.reduceMod, Nat.reducePow,
        shifted, next]
      omega
    simp only [littleEndian, List.foldr_cons, List.foldr_nil, storedNumber, low, middle, high, lead]
    omega
  simp only [encUtf8ToUnicodeOne, List.getElem?_cons_zero, List.getElem?_cons_succ, Option.bind_eq_bind,
    Option.bind_some, size, ne_eq, continuation_iff, value]
  exact refused_or_taken (by rw [not_and_or, not_and_or, not_and_or, not_and_or]) _

theorem decode_class_none (size : encGetUtf8Size b1 = -1) : encUtf8ToUnicodeOne (b1 :: rest) = some refused := by
  simp only [encUtf8ToUnicodeOne, List.getElem?_cons_zero, Option.bind_eq_bind, Option.bind_some, size]

end Classes

theorem length_eq_five : others.length = 5 ↔ ∃ b2 b3 b4 b5 b6, others = [b2, b3, b4, b5, b6] := by
  constructor
  · intro length
    obtain ⟨b2, later, rfl⟩ := List.exists_of_length_succ others length
    obtain ⟨b3, b4, b5, b6, rfl⟩ := List.length_eq_four.mp (Nat.succ.inj length)
    exact ⟨b2, b3, b4, b5, b6, rfl⟩
  · intro shape
    obtain ⟨_, _, _, _, _, rfl⟩ := shape
    rfl

theorem utf8Length_eq {count : Nat} (size : encGetUtf8Size first = count) (positive : 0 < count) :
    utf8Length first = count := by
  rw [utf8Length, size, if_neg (by omega), Int.toNat_natCast]

theorem encGetUtf8Size_none (none : utf8Length first = 0) : encGetUtf8Size first = -1 := by
  have cases := encGetUtf8Size_cases first
  rw [utf8Length] at none
  split at none <;> omega

theorem follows_two {byte : UInt8} : Follows 2 byte ↔ byte.toNat / 32 = 4 := by
  constructor
  · intro follows
    have marked := follows.marked
    have low := follows.low rfl
    omega
  · intro both
    exact ⟨by omega, fun _ => by omega⟩

theorem follows_iff {byte : UInt8} {length : Nat} (other : length ≠ 2) : Follows length byte ↔ byte.toNat / 64 = 2 :=
  ⟨Follows.marked, fun marked => ⟨marked, fun same => absurd same other⟩⟩

section Decode

variable (announced : Announced utf8Length piece)
include announced

theorem accepted_iff : Accepted piece ↔ ∀ byte ∈ piece.tail, Follows piece.length byte :=
  ⟨Accepted.follows, fun follows => ⟨announced, follows⟩⟩

/-- A sequence is accepted, or nothing is taken. -/
theorem decode_sequence (rest : List UInt8) :
    (Accepted piece ∧ encUtf8ToUnicodeOne (piece ++ rest) =
        some { utfbytes := piece.length, unic := storedNumber piece }) ∨
      (¬ Accepted piece ∧ encUtf8ToUnicodeOne (piece ++ rest) = some refused) := by
  have decided : ∀ {holds : Prop} [Decidable holds], (Accepted piece ↔ holds) →
      encUtf8ToUnicodeOne (piece ++ rest) =
        some (if holds then { utfbytes := piece.length, unic := storedNumber piece } else refused) →
      (Accepted piece ∧ encUtf8ToUnicodeOne (piece ++ rest) =
          some { utfbytes := piece.length, unic := storedNumber piece }) ∨
        (¬ Accepted piece ∧ encUtf8ToUnicodeOne (piece ++ rest) = some refused) := by
    intro holds decidable same decoded
    by_cases good : holds
    · rw [if_pos good] at decoded
      exact .inl ⟨same.mpr good, decoded⟩
    · rw [if_neg good] at decoded
      exact .inr ⟨fun accepted => good (same.mp accepted), decoded⟩
  have accepted := accepted_iff announced
  obtain ⟨first, others, same, length⟩ := announced.begins
  subst same
  rcases encGetUtf8Size_cases first with ⟨-, size⟩ | ⟨-, -, size⟩ | ⟨-, -, size⟩ | ⟨-, -, size⟩ | ⟨-, -, size⟩ |
    ⟨-, -, size⟩ | ⟨-, size⟩
  · rw [utf8Length, size] at length
    obtain rfl : others = [] := List.eq_nil_of_length_eq_zero (by simpa using length)
    exact .inl ⟨accepted.mpr (by simp), decode_class_one size⟩
  · rw [utf8Length, size] at length
    simp at length
  · rw [utf8Length_eq size (by decide)] at length
    obtain ⟨b2, rfl⟩ := List.length_eq_one_iff.mp (Nat.succ.inj length)
    exact decided (by simp [accepted, follows_two]) (decode_class_two size)
  · rw [utf8Length_eq size (by decide)] at length
    obtain ⟨b2, b3, rfl⟩ := List.length_eq_two.mp (Nat.succ.inj length)
    exact decided (by simp [accepted, follows_iff]) (decode_class_three size)
  · rw [utf8Length_eq size (by decide)] at length
    obtain ⟨b2, b3, b4, rfl⟩ := List.length_eq_three.mp (Nat.succ.inj length)
    exact decided (by simp [accepted, follows_iff]) (decode_class_four size)
  · rw [utf8Length_eq size (by decide)] at length
    obtain ⟨b2, b3, b4, b5, rfl⟩ := List.length_eq_four.mp (Nat.succ.inj length)
    exact decided (by simp [accepted, follows_iff]) (decode_class_five size)
  · rw [utf8Length_eq size (by decide)] at length
    obtain ⟨b2, b3, b4, b5, b6, rfl⟩ := length_eq_five.mp (Nat.succ.inj length)
    exact decided (by simp [accepted, follows_iff]) (decode_class_six size)

end Decode

/-- More bytes are read than there are. -/
theorem decode_outside (outside : (first :: others).length < utf8Length first) :
    encUtf8ToUnicodeOne (first :: others) = none := by
  have last : ∀ count, encGetUtf8Size first = (count + 1 : Nat) → (first :: others)[count]? = none := by
    intro count size
    rw [utf8Length_eq size (Nat.succ_pos _)] at outside
    exact List.getElem?_eq_none (by omega)
  rcases encGetUtf8Size_cases first with ⟨-, size⟩ | ⟨-, -, size⟩ | ⟨-, -, size⟩ | ⟨-, -, size⟩ | ⟨-, -, size⟩ |
    ⟨-, -, size⟩ | ⟨-, size⟩
  · rw [utf8Length, size, if_pos rfl, List.length_cons] at outside
    omega
  · rw [utf8Length, size] at outside
    simp at outside
  all_goals
    simp only [encUtf8ToUnicodeOne, List.getElem?_cons_zero, Option.bind_eq_bind, Option.bind_some, size,
      last _ size, Option.bind_none, Option.bind_fun_none]

end Dwadelib.Character
