import Dwadelib.Memory.Word

namespace Dwadelib

/-! # Self-delimiting formats

A format is an encoder and a prefix decoder that are inverse to each other on the valid
values: what is encoded is decoded back in front of any rest, and what is decoded was
encoded. The combinators build such pairs for dependent sequences, so a length or a tag
may decide how the following bytes are laid out.
-/

structure Format (β α : Type) where
  Valid : α → Prop
  encode : α → List β
  decode : List β → Option (α × List β)
  decode_encode : ∀ value rest, Valid value → decode (encode value ++ rest) = some (value, rest)
  decode_sound : ∀ input value rest, decode input = some (value, rest) →
    Valid value ∧ input = encode value ++ rest

namespace Format

variable {α β γ : Type}

/-- The empty encoding of one known value. -/
def nothing (only : α) : Format β α where
  Valid value := value = only
  encode _ := []
  decode input := some (only, input)
  decode_encode := by
    intro value rest same
    obtain rfl := same
    rfl
  decode_sound := by
    intro input value rest decoded
    cases decoded
    exact ⟨rfl, rfl⟩

/-- Exactly `count` symbols. -/
def chunk (count : Nat) : Format β (List β) where
  Valid value := value.length = count
  encode value := value
  decode input := if count ≤ input.length then some (input.take count, input.drop count) else none
  decode_encode := by
    intro value rest same
    obtain rfl := same
    rw [if_pos (by simp), List.take_left, List.drop_left]
  decode_sound := by
    intro input value rest decoded
    split at decoded
    · rename_i enough
      cases decoded
      exact ⟨by simp [enough], (List.take_append_drop count input).symm⟩
    · contradiction

/-- A value, then a value whose format the first one selects. -/
def bind (head : Format β α) (tail : α → Format β γ) : Format β (α × γ) where
  Valid value := head.Valid value.1 ∧ (tail value.1).Valid value.2
  encode value := head.encode value.1 ++ (tail value.1).encode value.2
  decode input := (head.decode input).bind fun first =>
    ((tail first.1).decode first.2).map fun second => ((first.1, second.1), second.2)
  decode_encode := by
    intro value rest valid
    simp [List.append_assoc, head.decode_encode value.1 _ valid.1,
      (tail value.1).decode_encode value.2 rest valid.2]
  decode_sound := by
    intro input value rest decoded
    obtain ⟨first, headDecoded, tailDecoded⟩ := Option.bind_eq_some_iff.mp decoded
    obtain ⟨second, secondDecoded, same⟩ := Option.map_eq_some_iff.mp tailDecoded
    cases same
    obtain ⟨headValid, front⟩ := head.decode_sound _ _ _ headDecoded
    obtain ⟨tailValid, back⟩ := (tail first.1).decode_sound _ _ _ secondDecoded
    exact ⟨⟨headValid, tailValid⟩, by rw [front, back, List.append_assoc]⟩

/-- Present the values of a format as some of the values of another type. -/
def embed (format : Format β α) (inject : α → γ) (project : γ → Option α)
    (project_inject : ∀ value, format.Valid value → project (inject value) = some value)
    (inject_project : ∀ value image, format.Valid value → project image = some value →
      inject value = image) : Format β γ where
  Valid image := ∃ value, project image = some value ∧ format.Valid value
  encode image := (project image).elim [] format.encode
  decode input := (format.decode input).map fun result => (inject result.1, result.2)
  decode_encode := by
    intro image rest given
    obtain ⟨value, projected, valid⟩ := given
    simp [projected, format.decode_encode value rest valid, inject_project value image valid projected]
  decode_sound := by
    intro input image rest decoded
    obtain ⟨result, found, same⟩ := Option.map_eq_some_iff.mp decoded
    cases same
    obtain ⟨valid, split⟩ := format.decode_sound _ _ _ found
    have projected := project_inject result.1 valid
    exact ⟨⟨result.1, projected, valid⟩, by rw [projected]; exact split⟩

section Sequence

/-- Encode the values one after the other, each with its own format. -/
def encodeAll : List (Format β α) → List α → List β
  | format :: formats, value :: values => format.encode value ++ encodeAll formats values
  | _, _ => []

def decodeAll : List (Format β α) → List β → Option (List α × List β)
  | [], input => some ([], input)
  | format :: formats, input =>
      (format.decode input).bind fun first =>
        (decodeAll formats first.2).map fun others => (first.1 :: others.1, others.2)

theorem decodeAll_encodeAll (formats : List (Format β α)) (values : List α) (rest : List β)
    (valid : List.Forall₂ Format.Valid formats values) :
    decodeAll formats (encodeAll formats values ++ rest) = some (values, rest) := by
  induction valid with
  | nil => rfl
  | @cons format value formats values headValid _ ih =>
      simp [encodeAll, decodeAll, List.append_assoc, format.decode_encode value _ headValid, ih]

theorem decodeAll_sound (formats : List (Format β α)) (input : List β) (values : List α)
    (rest : List β) (decoded : decodeAll formats input = some (values, rest)) :
    List.Forall₂ Format.Valid formats values ∧ input = encodeAll formats values ++ rest := by
  induction formats generalizing input values with
  | nil =>
      cases decoded
      exact ⟨.nil, rfl⟩
  | cons format formats ih =>
      obtain ⟨first, headDecoded, tailDecoded⟩ := Option.bind_eq_some_iff.mp decoded
      obtain ⟨others, othersDecoded, same⟩ := Option.map_eq_some_iff.mp tailDecoded
      cases same
      obtain ⟨headValid, front⟩ := format.decode_sound _ _ _ headDecoded
      obtain ⟨tailValid, back⟩ := ih _ _ othersDecoded
      exact ⟨.cons headValid tailValid, by rw [front, back, encodeAll, List.append_assoc]⟩

/-- One value for each format of the list, in order. -/
def sequence (formats : List (Format β α)) : Format β (List α) where
  Valid values := List.Forall₂ Format.Valid formats values
  encode := encodeAll formats
  decode := decodeAll formats
  decode_encode := decodeAll_encodeAll formats
  decode_sound := decodeAll_sound formats

end Sequence

/-- A little-endian `uint32_t`. -/
def word : Format Byte UInt32 where
  Valid _ := True
  encode := Byte.encodeUInt32
  decode input := (Byte.decodeUInt32 (input.take 4)).map fun value => (value, input.drop 4)
  decode_encode := by
    intro value rest _
    have front : (Byte.encodeUInt32 value ++ rest).take 4 = Byte.encodeUInt32 value :=
      List.take_left' (Byte.encodeUInt32_length value)
    have back : (Byte.encodeUInt32 value ++ rest).drop 4 = rest :=
      List.drop_left' (Byte.encodeUInt32_length value)
    rw [front, back, Byte.decodeUInt32_encodeUInt32]
    rfl
  decode_sound := by
    intro input value rest decoded
    obtain ⟨word, found, same⟩ := Option.map_eq_some_iff.mp decoded
    cases same
    refine ⟨trivial, ?_⟩
    rw [← Byte.encodeUInt32_of_decodeUInt32 found, List.take_append_drop]

end Format

end Dwadelib
