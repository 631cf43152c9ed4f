import Dwadelib.FileView

namespace Dwadelib.FileView

/-! # Numbers in hexadecimal

A number that its width has room for is written with exactly that many digits, and can be read back from them.
So can the bytes that a number of the machine stands for.
-/

variable {width value other : Nat} {bytes : List UInt8}

/-- What `strtoull` makes of digits, before it looks at the size of the number. -/
def readHex (acc : Nat) (digits : List UInt8) : Nat := digits.foldl (fun number byte => number * 16 + hexValue byte) acc

theorem hexDigit_read : ∀ digit, digit < 16 → hexValue (hexDigit digit) = digit ∧ isHexDigit (hexDigit digit) = true := by
  decide

theorem digits_count (room : value < 16 ^ width) (positive : 0 < width) : max width (value.log2 / 4 + 1) = width := by
  rcases Nat.eq_zero_or_pos value with rfl | some_
  · exact Nat.max_eq_left positive
  · have power : value < 2 ^ (4 * width) := by
      rw [Nat.pow_mul]
      exact room
    have bits := (Nat.log2_lt (Nat.ne_of_gt some_)).mpr power
    exact Nat.max_eq_left (by omega)

theorem hexPad_eq (room : value < 16 ^ width) (positive : 0 < width) :
    hexPad width value = (List.range width).reverse.map fun k => hexDigit (value / 16 ^ k % 16) := by
  rw [hexPad, digits_count room positive]

theorem length_hexPad (room : value < 16 ^ width) (positive : 0 < width) : (hexPad width value).length = width := by
  rw [hexPad_eq room positive, List.length_map, List.length_reverse, List.length_range]

theorem hexPad_digits {byte : UInt8} (member : byte ∈ hexPad width value) : isHexDigit byte = true := by
  obtain ⟨k, -, rfl⟩ := List.mem_map.mp member
  exact (hexDigit_read _ (Nat.mod_lt _ (by decide))).2

theorem readHex_digits (width value acc : Nat) :
    readHex acc ((List.range width).reverse.map fun k => hexDigit (value / 16 ^ k % 16)) =
      acc * 16 ^ width + value % 16 ^ width := by
  induction width generalizing acc with
  | zero => rw [Nat.pow_zero, Nat.mul_one, Nat.mod_one]; rfl
  | succ width ih =>
      rw [List.range_succ, List.reverse_append, List.reverse_singleton, List.singleton_append, List.map_cons]
      show readHex (acc * 16 + hexValue (hexDigit (value / 16 ^ width % 16))) _ = _
      rw [(hexDigit_read _ (Nat.mod_lt _ (by decide))).1, ih, Nat.pow_succ, Nat.mod_mul]
      ring

theorem readHex_hexPad (room : value < 16 ^ width) (positive : 0 < width) : readHex 0 (hexPad width value) = value := by
  rw [hexPad_eq room positive, readHex_digits, Nat.zero_mul, Nat.zero_add, Nat.mod_eq_of_lt room]

theorem hexPad_injective (room : value < 16 ^ width) (fits : other < 16 ^ width) (positive : 0 < width)
    (same : hexPad width value = hexPad width other) : value = other := by
  rw [← readHex_hexPad room positive, same, readHex_hexPad fits positive]

theorem digit_lt {digit : Nat} (member : digit ∈ bytes.map UInt8.toNat) : digit < 256 := by
  obtain ⟨byte, -, rfl⟩ := List.mem_map.mp member
  exact byte.toNat_lt

theorem littleEndian_lt (bytes : List UInt8) : littleEndian bytes < 16 ^ (2 * bytes.length) := by
  have bound : ∀ digit ∈ bytes.map UInt8.toNat, digit < 256 := fun digit => digit_lt
  have below := Nat.ofDigits_lt_base_pow_length (by decide) bound
  rw [List.length_map] at below
  rw [littleEndian, Nat.pow_mul]
  exact below

theorem littleEndian_injective {others : List UInt8} (sized : bytes.length = others.length)
    (same : littleEndian bytes = littleEndian others) : bytes = others := by
  have counted : (bytes.map UInt8.toNat).length = (others.map UInt8.toNat).length := by
    rw [List.length_map, List.length_map, sized]
  have digits := Nat.ofDigits_inj_of_len_eq (by decide) counted (fun digit => digit_lt) (fun digit => digit_lt) same
  exact List.map_injective_iff.mpr (fun _ _ => UInt8.toNat_inj.mp) digits

end Dwadelib.FileView
