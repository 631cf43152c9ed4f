import Dwadelib.Cells
import Dwadelib.Hex.Writing
import Mathlib.Data.List.Forall2
import Mathlib.Data.List.Induction
import Mathlib.Data.Nat.Digits.Defs

namespace Dwadelib.Hex

/-! # What is read off the text of some bytes

Each byte is written as two digits of base 16; with the base 256 the bytes themselves are the digits.
-/

variable {source dest chars cased rest : List UInt8} {digits : List (Fin 16)} {temp fuel : Nat}

/-- The number whose digits are the bytes, the highest one first. -/
def bigEndian (bytes : List UInt8) : Nat := Nat.ofDigits 256 (bytes.map UInt8.toNat).reverse

/-- `0` to `9` and `A` to `F`. -/
def IsHexChar (char : UInt8) : Prop := 0x30 ≤ char ∧ char ≤ 0x39 ∨ 0x41 ≤ char ∧ char ≤ 0x46

/-- The same character, or the lower case of a letter. -/
def SameLetter (upper char : UInt8) : Prop := char = upper ∨ 0x41 ≤ upper ∧ upper ≤ 0x46 ∧ char = upper + 0x20

/-- The same text with some of the letters in lower case. -/
def SameText (text cased : List UInt8) : Prop := List.Forall₂ SameLetter text cased

def highHalf (byte : UInt8) : Fin 16 := Fin.ofNat 16 (byte.toNat / 16)

def lowHalf (byte : UInt8) : Fin 16 := Fin.ofNat 16 byte.toNat

def halves (byte : UInt8) : List (Fin 16) := [highHalf byte, lowHalf byte]

def digitChar (digit : Fin 16) : UInt8 := hexChar (UInt8.ofNat digit)

theorem isHexChar_digitChar (digit : Fin 16) : IsHexChar (digitChar digit) := by
  have chars : ∀ digit, 0x30 ≤ digitChar digit ∧ digitChar digit ≤ 0x39 ∨
      0x41 ≤ digitChar digit ∧ digitChar digit ≤ 0x46 := by decide
  exact chars digit

theorem digitValue_of_same {digit : Fin 16} {char : UInt8} (same : SameLetter (digitChar digit) char) :
    digitValue char = .ofNat digit := by
  have upper : ∀ digit, digitValue (digitChar digit) = .ofNat digit := by decide
  have lower : ∀ digit, 0x41 ≤ digitChar digit → digitValue (digitChar digit + 0x20) = .ofNat digit := by decide
  rcases same with rfl | ⟨letter, -, rfl⟩
  · exact upper digit
  · exact lower digit letter

theorem val_highHalf (byte : UInt8) : (highHalf byte).val = byte.toNat / 16 := by
  have bound := byte.toNat_lt
  exact Nat.mod_eq_of_lt (by omega)

theorem val_lowHalf (byte : UInt8) : (lowHalf byte).val = byte.toNat % 16 := rfl

theorem byteText_eq (byte : UInt8) : byteText byte = (halves byte).map digitChar := by
  have bound := byte.toNat_lt
  have high : byte >>> 4 = UInt8.ofNat (highHalf byte) := by
    apply UInt8.toNat_inj.mp
    rw [val_highHalf, UInt8.toNat_shiftRight, UInt8.toNat_ofNat_of_lt' (show byte.toNat / 16 < 256 by omega),
      Nat.shiftRight_eq_div_pow]
    rfl
  have low : byte &&& 0x0f = UInt8.ofNat (lowHalf byte) := by
    apply UInt8.toNat_inj.mp
    rw [val_lowHalf, UInt8.toNat_and, UInt8.toNat_ofNat_of_lt' (show byte.toNat % 16 < 256 by omega)]
    exact Nat.and_two_pow_sub_one_eq_mod _ 4
  rw [byteText, high, low]
  rfl

theorem hexText_eq (source : List UInt8) : hexText source = (source.flatMap halves).map digitChar := by
  rw [hexText, List.map_flatMap]
  congr 1
  exact funext byteText_eq

theorem bigEndian_append (front back : List UInt8) :
    bigEndian (front ++ back) = bigEndian back + 256 ^ back.length * bigEndian front := by
  rw [bigEndian, List.map_append, List.reverse_append, Nat.ofDigits_append, List.length_reverse, List.length_map]
  rfl

theorem bigEndian_lt (bytes : List UInt8) : bigEndian bytes < 256 ^ bytes.length := by
  have small : ∀ digit ∈ (bytes.map UInt8.toNat).reverse, digit < 256 := by
    intro digit member
    obtain ⟨byte, -, rfl⟩ := List.mem_map.mp (List.mem_reverse.mp member)
    exact byte.toNat_lt
  have bound := Nat.ofDigits_lt_base_pow_length (by decide) small
  rwa [List.length_reverse, List.length_map] at bound

theorem bigEndian_concat (bytes : List UInt8) (byte : UInt8) :
    bigEndian (bytes ++ [byte]) = bigEndian bytes * 256 + byte.toNat := by
  have single : bigEndian [byte] = byte.toNat := Nat.ofDigits_singleton
  rw [bigEndian_append, single, List.length_singleton]
  omega

/-- The digits of base 16, from the highest one on. -/
theorem halves_fold (source : List UInt8) :
    (source.flatMap halves).foldl (fun temp digit => temp * 16 + digit.val) 0 = bigEndian source := by
  induction source using List.reverseRecOn with
  | nil => rfl
  | append_singleton source byte ih =>
      rw [List.flatMap_append, List.foldl_append, ih, bigEndian_concat, List.flatMap_singleton, halves, List.foldl_cons,
        List.foldl_cons, List.foldl_nil, val_highHalf, val_lowHalf]
      omega

theorem bigEndian_mod (source : List UInt8) (many : 4 ≤ source.length) :
    bigEndian source % 2 ^ 32 = bigEndian (source.drop (source.length - 4)) := by
  have length : (source.drop (source.length - 4)).length = 4 := by
    rw [List.length_drop]
    omega
  have bound := bigEndian_lt (source.drop (source.length - 4))
  have whole := bigEndian_append (source.take (source.length - 4)) (source.drop (source.length - 4))
  rw [List.take_append_drop, length] at whole
  rw [length] at bound
  omega

/-- What is done with a character. -/
def decStep (temp : UInt32) (char : UInt8) : UInt32 := temp * 16 + digitValue char

theorem ofInt_natCast (count : Nat) : UInt32.ofInt count = UInt32.ofNat count := by
  have lower : ((count : Int) % 2 ^ 32).toNat = count % 2 ^ 32 := by omega
  apply UInt32.toNat_inj.mp
  rw [UInt32.ofInt, lower, UInt32.toNat_ofNat', UInt32.toNat_ofNat', Nat.mod_mod]

theorem decRound_loop {front : List UInt8} {temp : UInt32} (enough : chars.length < fuel)
    (small : front.length + chars.length < 2 ^ 32) :
    whileLoop (decRound (front ++ chars ++ rest) (front.length + chars.length : Nat)) fuel
        { i := .ofNat front.length, temp := temp } = .returned (chars.foldl decStep temp) := by
  induction chars generalizing front temp fuel with
  | nil =>
      obtain ⟨fuel, rfl⟩ : ∃ fewer, fuel = fewer + 1 := ⟨fuel - 1, by omega⟩
      apply whileLoop_stop
      rw [decRound, ofInt_natCast, List.length_nil, Nat.add_zero, if_neg (UInt32.lt_irrefl _)]
      rfl
  | cons char chars ih =>
      obtain ⟨fuel, rfl⟩ : ∃ fewer, fuel = fewer + 1 := ⟨fuel - 1, by omega⟩
      rw [List.length_cons] at small enough
      have place : (UInt32.ofNat front.length).toNat = front.length :=
        UInt32.toNat_ofNat_of_lt' (show front.length < 2 ^ 32 by omega)
      have before : UInt32.ofNat front.length < .ofInt ((front.length + (char :: chars).length : Nat) : Int) := by
        rw [ofInt_natCast, UInt32.lt_iff_toNat_lt, place, List.length_cons,
          UInt32.toNat_ofNat_of_lt' (show front.length + (chars.length + 1) < 2 ^ 32 by omega)]
        omega
      have here : (front ++ char :: chars ++ rest)[front.length]? = some char := by
        rw [List.append_assoc]
        exact Cells.getElem?_middle
      have round : decRound (front ++ char :: chars ++ rest) (front.length + (char :: chars).length : Nat)
          { i := .ofNat front.length, temp := temp } =
            .returned (.next { i := .ofNat (front.length + 1), temp := decStep temp char }) := by
        rw [decRound, if_pos before, place, here, Outcome.ofOption_some, Outcome.returned_bind, UInt32.ofNat_add]
        rfl
      have text : front ++ [char] ++ chars = front ++ char :: chars := List.append_assoc front [char] chars
      have longer : (front ++ [char]).length = front.length + 1 := List.length_append
      have length : (front ++ [char]).length + chars.length = front.length + (char :: chars).length := by
        rw [longer, List.length_cons]
        omega
      have later : whileLoop (decRound (front ++ [char] ++ chars ++ rest) ((front ++ [char]).length + chars.length : Nat))
          fuel { i := .ofNat (front ++ [char]).length, temp := decStep temp char } =
            .returned (chars.foldl decStep (decStep temp char)) := ih (by omega) (by omega)
      rw [text, length, longer] at later
      exact (whileLoop_next round).trans later

theorem strhex2dec_fold (small : chars.length < 2 ^ 32) (rest : List UInt8) :
    strhex2dec (chars ++ rest) chars.length = .returned (chars.foldl decStep 0) := by
  have looped : whileLoop (decRound ([] ++ chars ++ rest) (([] : List UInt8).length + chars.length : Nat))
      (chars.length + 1) { i := .ofNat ([] : List UInt8).length, temp := 0 } = .returned (chars.foldl decStep 0) :=
    decRound_loop (Nat.lt_succ_self _) (by rw [List.length_nil]; omega)
  rw [List.length_nil, Nat.zero_add, List.nil_append] at looped
  rw [strhex2dec, ofInt_natCast, UInt32.toNat_ofNat_of_lt' small]
  exact looped

/-- What is computed modulo 2^32 stands for the number of the digits. -/
theorem foldl_decStep (same : List.Forall₂ SameLetter (digits.map digitChar) chars) (temp : Nat) :
    chars.foldl decStep (.ofNat temp) = .ofNat (digits.foldl (fun temp digit => temp * 16 + digit.val) temp) := by
  induction digits generalizing chars temp with
  | nil =>
      cases same
      rfl
  | cons digit digits ih =>
      cases same with
      | cons first others =>
          rw [List.foldl_cons, List.foldl_cons, ← ih others, UInt32.ofNat_add, UInt32.ofNat_mul, decStep,
            digitValue_of_same first]
          rfl

/-- Whatever is behind the characters, and in whatever case the letters are, the number of the bytes is read off
their text. -/
theorem hex_decodes (few : source.length ≤ 32767) (room : 2 * source.length ≤ dest.length) :
    ∃ written, (byteToHexstr source dest source.length).outcome = .returned (written ++ dest.drop (2 * source.length)) ∧
      written.length = 2 * source.length ∧ (∀ char ∈ written, IsHexChar char) ∧
      ∀ cased, SameText written cased → ∀ rest, ∃ value,
        strhex2dec (cased ++ rest) (2 * source.length : Nat) = .returned value ∧
        value.toNat = bigEndian source % 2 ^ 32 ∧
        (source.length ≤ 4 → value.toNat = bigEndian source) ∧
        (4 ≤ source.length → value.toNat = bigEndian (source.drop (source.length - 4))) := by
  have whole := byteToHexstr_eq (Nat.le_refl _) room (by omega)
  rw [List.take_length] at whole
  refine ⟨hexText source, by rw [whole], length_hexText, ?_, fun cased same rest => ?_⟩
  · intro char member
    rw [hexText_eq] at member
    obtain ⟨digit, -, rfl⟩ := List.mem_map.mp member
    exact isHexChar_digitChar digit
  · have length : cased.length = 2 * source.length := by
      rw [← same.length_eq, length_hexText]
    rw [SameText, hexText_eq] at same
    have value : (UInt32.ofNat (bigEndian source)).toNat = bigEndian source % 2 ^ 32 := UInt32.toNat_ofNat'
    have read : strhex2dec (cased ++ rest) (2 * source.length : Nat) = .returned (.ofNat (bigEndian source)) := by
      have folded : cased.foldl decStep 0 = .ofNat (bigEndian source) := by
        rw [← halves_fold]
        exact foldl_decStep same 0
      rw [← length, strhex2dec_fold (by omega), folded]
    refine ⟨_, read, value, fun short => ?_, fun many => ?_⟩
    · have bound := bigEndian_lt source
      have most : 256 ^ source.length ≤ 256 ^ 4 := Nat.pow_le_pow_right (by decide) short
      rw [value, Nat.mod_eq_of_lt (by omega)]
    · rw [value, bigEndian_mod source many]

theorem hex_decodes_two : ∃ written,
    (byteToHexstr [0x1A, 0xFF] [0, 0, 0, 0, 0] ([0x1A, 0xFF] : List UInt8).length).outcome =
        .returned (written ++ [0, 0, 0, 0, 0].drop (2 * ([0x1A, 0xFF] : List UInt8).length)) ∧
      written.length = 2 * ([0x1A, 0xFF] : List UInt8).length ∧ (∀ char ∈ written, IsHexChar char) ∧
      ∀ cased, SameText written cased → ∀ rest, ∃ value,
        strhex2dec (cased ++ rest) (2 * ([0x1A, 0xFF] : List UInt8).length : Nat) = .returned value ∧
        value.toNat = bigEndian [0x1A, 0xFF] % 2 ^ 32 ∧
        (([0x1A, 0xFF] : List UInt8).length ≤ 4 → value.toNat = bigEndian [0x1A, 0xFF]) ∧
        (4 ≤ ([0x1A, 0xFF] : List UInt8).length →
          value.toNat = bigEndian ([0x1A, 0xFF].drop (([0x1A, 0xFF] : List UInt8).length - 4))) :=
  hex_decodes (by decide) (by decide)

end Dwadelib.Hex
