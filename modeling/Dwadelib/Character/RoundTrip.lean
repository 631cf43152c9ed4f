import Dwadelib.Character.Progress
import Dwadelib.Character.Units

namespace Dwadelib.Character

/-! # Texts there and back

Texts are lists of characters; their bytes are the concatenated encodings.
-/

variable {character : Char} {characters : List Char} {rest : List UInt8} {outSize : Int}

def utf8 (characters : List Char) : List UInt8 := characters.flatMap String.utf8EncodeChar

/-- The code unit of a character, its high byte first. -/
def unit (character : Char) : List UInt8 :=
  [UInt8.ofNat (character.toNat / 256), UInt8.ofNat character.toNat]

def units (characters : List Char) : List UInt8 := characters.flatMap unit

/-- The characters that take one unit. -/
def Plain (character : Char) : Prop := 0 < character.toNat ∧ character.toNat ≤ 0xFFFF

/-- The characters of two bytes. -/
def TwoByte (character : Char) : Prop := 0x80 ≤ character.toNat ∧ character.toNat ≤ 0x7FF

instance : DecidablePred Plain := fun character =>
  inferInstanceAs (Decidable (0 < character.toNat ∧ character.toNat ≤ 0xFFFF))

instance : DecidablePred TwoByte := fun character =>
  inferInstanceAs (Decidable (0x80 ≤ character.toNat ∧ character.toNat ≤ 0x7FF))

theorem toNat_lt_char (character : Char) : character.toNat < 0x110000 := by
  rcases character.valid with low | ⟨-, high⟩
  · exact Nat.lt_trans low (by decide)
  · exact high

theorem utf8EncodeChar_shortest (character : Char) :
    String.utf8EncodeChar character = Utf8.shortest character.toNat := by
  have bound := toNat_lt_char character
  have value : character.val.toNat = character.toNat := rfl
  rw [String.utf8EncodeChar, value]
  have last : character.toNat % 64 + 0x80 = 0x80 + character.toNat / 64 ^ 0 % 64 := by omega
  have second : character.toNat / 64 % 64 + 0x80 = 0x80 + character.toNat / 64 ^ 1 % 64 := by omega
  have third : character.toNat / 4096 % 64 + 0x80 = 0x80 + character.toNat / 64 ^ 2 % 64 := by omega
  rcases Utf8.size_cases character.toNat with ⟨upper, size⟩ | ⟨lower, upper, size⟩ | ⟨lower, upper, size⟩ |
    ⟨lower, upper, size⟩ | ⟨lower, upper, size⟩ | ⟨lower, size⟩
  · have lead : character.toNat = 0 + character.toNat / 64 ^ 0 := by omega
    rw [if_pos (by omega), Utf8.shortest, size]
    exact congrArg (fun number => [UInt8.ofNat number]) lead
  · have lead : character.toNat / 64 % 32 + 0xC0 = 0xC0 + character.toNat / 64 ^ 1 := by omega
    rw [if_neg (by omega), if_pos (by omega), lead, last, Utf8.shortest, size]
    rfl
  · have lead : character.toNat / 4096 % 16 + 0xE0 = 0xE0 + character.toNat / 64 ^ 2 := by omega
    rw [if_neg (by omega), if_neg (by omega), if_pos (by omega), lead, second, last, Utf8.shortest, size]
    rfl
  · have lead : character.toNat / 262144 % 8 + 0xF0 = 0xF0 + character.toNat / 64 ^ 3 := by omega
    rw [if_neg (by omega), if_neg (by omega), if_neg (by omega), lead, third, second, last, Utf8.shortest, size]
    rfl
  · omega
  · omega

theorem size_eq_two_iff : Utf8.size character.toNat = 2 ↔ TwoByte character := by
  have sizes := Utf8.size_cases character.toNat
  unfold TwoByte
  omega

theorem announced_character (character : Char) : Announced utf8Length (String.utf8EncodeChar character) := by
  rw [utf8EncodeChar_shortest]
  exact announced_shortest (Nat.lt_trans (toNat_lt_char character) (by decide))

/-- Of the characters of two bytes, half are refused. -/
theorem accepted_character :
    Accepted (String.utf8EncodeChar character) ↔ (TwoByte character → character.toNat % 64 < 32) := by
  rw [utf8EncodeChar_shortest, accepted_shortest (Nat.lt_trans (toNat_lt_char character) (by decide)), size_eq_two_iff]

theorem written_character (plain : Plain character) : Written (String.utf8EncodeChar character) ↔ ¬ TwoByte character := by
  obtain ⟨-, bound⟩ := plain
  have sizes := Utf8.size_cases character.toNat
  rw [Written, utf8EncodeChar_shortest, Utf8.length_shortest, TwoByte]
  omega

theorem unitOf_character (plain : Plain character) (other : ¬ TwoByte character) :
    unitOf (String.utf8EncodeChar character) = unit character := by
  obtain ⟨-, bound⟩ := plain
  have stored : storedNumber (Utf8.shortest character.toNat) = character.toNat :=
    (storedNumber_shortest (Nat.lt_trans (toNat_lt_char character) (by decide))).mpr (.inl (by omega))
  have sizes := Utf8.size_cases character.toNat
  have notTwo := mt size_eq_two_iff.mp other
  rw [unitOf, utf8EncodeChar_shortest, Utf8.length_shortest, stored, unit]
  by_cases one : Utf8.size character.toNat = 1
  · have high : character.toNat / 256 = 0 := by omega
    rw [if_pos one, high]
    rfl
  · have three : Utf8.size character.toNat = 3 := by omega
    rw [if_neg one, if_pos three, Nat.shiftRight_eq_div_pow]

theorem zero_notMem_character (plain : Plain character) : 0 ∉ String.utf8EncodeChar character := by
  rw [utf8EncodeChar_shortest]
  exact Utf8.zero_notMem_shortest plain.1 (Nat.lt_trans (toNat_lt_char character) (by decide))

theorem unitBytes_characters (plain : ∀ character ∈ characters, Plain character) :
    unitBytes (characters.map String.utf8EncodeChar) = 2 * characters.countP fun character => ¬ TwoByte character := by
  rw [unitBytes, List.countP_map]
  congr 1
  apply List.countP_congr
  intro character member
  simpa using written_character (plain character member)

theorem zero_notMem_utf8 (plain : ∀ character ∈ characters, Plain character) : 0 ∉ utf8 characters := by
  intro member
  obtain ⟨character, inside, zero⟩ := List.mem_flatMap.mp member
  exact zero_notMem_character (plain character inside) zero

/-- Units are converted back to the text they are of. -/
theorem unicodeToUtf8_units (plain : ∀ character ∈ characters, Plain character) (room : 6 ≤ outSize) :
    unicodeToUtf8 (units characters ++ 0 :: 0 :: rest) outSize =
      .returned { written := utf8 characters, value := 0 } := by
  have bounds : ∀ character ∈ characters, 0 < character.toNat ∧ character.toNat < 0x10000 :=
    fun character member => ⟨(plain character member).1, Nat.lt_succ_of_le (plain character member).2⟩
  have encoded : ∀ character ∈ characters,
      encUnicodeToUtf8One character.toNat outSize = .returned (String.utf8EncodeChar character) := by
    intro character _
    rw [utf8EncodeChar_shortest]
    exact encUnicodeToUtf8One_shortest (Nat.lt_trans (toNat_lt_char character) (by decide)) room
  exact unicodeToUtf8_items bounds encoded

/-- The round trip succeeds for exactly the texts without characters of two bytes, as long as the
bytes of the units can be counted. -/
theorem round_trip_iff_no_two_bytes (plain : ∀ character ∈ characters, Plain character) (room : 6 ≤ outSize) :
    ((∃ rounds, utf8ToUnicode rounds (utf8 characters ++ [0]) =
        .returned { written := units characters, value := 2 * characters.length }) ∧
      unicodeToUtf8 (units characters ++ [0, 0]) outSize = .returned { written := utf8 characters, value := 0 }) ↔
      (∀ character ∈ characters, ¬ TwoByte character) ∧ characters.length < 2 ^ 30 := by
  have counted := unitBytes_characters plain
  have free := zero_notMem_utf8 plain
  have announced : ∀ piece ∈ characters.map String.utf8EncodeChar, Announced utf8Length piece :=
    List.forall_mem_map.mpr fun character _ => announced_character character
  rw [and_iff_left (unicodeToUtf8_units plain room)]
  constructor
  · intro ends
    obtain ⟨rounds, returned⟩ := ends
    obtain ⟨pieces, same, accepted, counts, outcome⟩ := decoding_taken free (by decide) returned
    have encoded : pieces = characters.map String.utf8EncodeChar :=
      uniquelyDecodable_announced utf8Length _ _ (fun piece member => (accepted piece member).announced) announced same.symm
    rw [Converted.mk.injEq, encoded, counted] at outcome
    rw [encoded, counted] at counts
    have all : characters.countP (fun character => ¬ TwoByte character) = characters.length := by omega
    refine ⟨fun character member => ?_, by omega⟩
    simpa using List.countP_eq_length.mp all character member
  · intro both
    obtain ⟨others, counts⟩ := both
    have accepted : ∀ piece ∈ characters.map String.utf8EncodeChar, Accepted piece :=
      List.forall_mem_map.mpr fun character member => accepted_character.mpr fun two => absurd two (others character member)
    have all : characters.countP (fun character => ¬ TwoByte character) = characters.length :=
      List.countP_eq_length.mpr fun character member => by simpa using others character member
    have written : (characters.map String.utf8EncodeChar).flatMap unitOf = units characters := by
      rw [List.flatMap_map]
      exact List.flatMap_congr fun character member => unitOf_character (plain character member) (others character member)
    have fits : 0 + unitBytes (characters.map String.utf8EncodeChar) < 2 ^ 31 := by omega
    have returned : utf8ToUnicode ((characters.map String.utf8EncodeChar).length + 1) (utf8 characters ++ [0]) =
        .returned {
          written := [] ++ (characters.map String.utf8EncodeChar).flatMap unitOf
          value := (0 + unitBytes (characters.map String.utf8EncodeChar) : Nat) } :=
      decoding_of_pieces accepted free fits
    rw [written, counted, all, List.nil_append, Nat.zero_add, Int.natCast_mul] at returned
    exact ⟨_, returned⟩

theorem round_trip_euro :
    (∃ rounds, utf8ToUnicode rounds [0x61, 0xE2, 0x82, 0xAC, 0] =
        .returned { written := [0, 0x61, 0x20, 0xAC], value := 4 }) ∧
      unicodeToUtf8 [0, 0x61, 0x20, 0xAC, 0, 0] 6 =
        .returned { written := [0x61, 0xE2, 0x82, 0xAC], value := 0 } :=
  have plain : ∀ character ∈ ['a', '€'], Plain character :=
    List.forall_mem_cons.mpr ⟨by decide, List.forall_mem_singleton.mpr (by decide)⟩
  have others : ∀ character ∈ ['a', '€'], ¬ TwoByte character :=
    List.forall_mem_cons.mpr ⟨by decide, List.forall_mem_singleton.mpr (by decide)⟩
  (round_trip_iff_no_two_bytes plain (Int.le_refl 6)).mpr ⟨others, by decide⟩

/-- U+00C0 is passed over, and there is no end at U+00E9. -/
theorem two_byte_characters_lost :
    utf8ToUnicode 2 (utf8 ['À'] ++ [0]) = .returned { written := [], value := 0 } ∧
      ¬ ∃ rounds result, utf8ToUnicode rounds (utf8 ['é'] ++ [0]) = .returned result := by
  constructor
  · decide
  · intro ends
    obtain ⟨rounds, result, returned⟩ := ends
    have stays : decodeRound { p := utf8 ['é'] ++ [0], written := [], unicLen := 0 } =
        .returned (.next { p := utf8 ['é'] ++ [0], written := [], unicLen := 0 }) := by
      decide
    rw [utf8ToUnicode, whileLoop_stuck stays] at returned
    contradiction

end Dwadelib.Character
