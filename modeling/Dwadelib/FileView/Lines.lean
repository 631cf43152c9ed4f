import Dwadelib.FileView.Numerals

namespace Dwadelib.FileView

/-! # The lines of the screen

Each line has room in `outline`, in every format, and it says where its bytes are from and what they are.
-/

variable {format size margin behind j count location : Nat} {row other : List UInt8}

/-- The room of an element; the whole line has room for all of them. -/
theorem length_element (sized : row.length = BUFWIDE) (inside : (j + 1) * size ≤ BUFWIDE) :
    (element size j row).length = size := by
  rw [Nat.add_mul, Nat.one_mul] at inside
  rw [element, List.length_take, List.length_drop, sized]
  omega

theorem length_spaces : (spaces count).length = count := List.length_replicate

/-- The digits of an element. -/
theorem length_digits (sized : row.length = size) (positive : 0 < size) :
    (hexPad (2 * size) (littleEndian row)).length = 2 * size := by
  have room := littleEndian_lt row
  rw [sized] at room
  exact length_hexPad room (by omega)

theorem length_field (sized : row.length = BUFWIDE) (inside : (j + 1) * size ≤ BUFWIDE) (positive : 0 < size) :
    (field size margin behind row j).length = margin + 2 * size + behind := by
  rw [field, List.length_append, List.length_append, length_spaces, length_spaces,
    length_digits (length_element sized inside) positive]

/-- The elements that a line is divided into are inside it. -/
theorem element_inside (before : j < BUFWIDE / size) : (j + 1) * size ≤ BUFWIDE :=
  (Nat.mul_le_mul_right size before).trans (Nat.div_mul_le_self BUFWIDE size)

theorem length_fields (sized : row.length = BUFWIDE) (positive : 0 < size) :
    (fields size margin behind row).length = BUFWIDE / size * (margin + 2 * size + behind) := by
  have each : (List.range (BUFWIDE / size)).map (fun j => (field size margin behind row j).length) =
      (List.range (BUFWIDE / size)).map fun _ => margin + 2 * size + behind :=
    List.map_congr_left fun j member => length_field sized (element_inside (List.mem_range.mp member)) positive
  rw [fields, List.length_flatMap, each, List.map_const', List.sum_replicate_nat, List.length_range]

/-- The two numbers of an octaword. -/
theorem octaword_inside : ∀ j < 2, (j + 1) * 8 ≤ BUFWIDE := by
  decide

theorem length_hexFields (sized : row.length = BUFWIDE) (known : format ∈ [1, 2, 4, 8, 16]) :
    (hexFields format row).length = 48 := by
  simp only [List.mem_cons, List.not_mem_nil, or_false] at known
  rcases known with rfl | rfl | rfl | rfl | rfl
  · exact length_fields sized (by decide)
  · exact length_fields sized (by decide)
  · exact length_fields sized (by decide)
  · exact length_fields sized (by decide)
  · have parts : ∀ j < 2, (element 8 j row).length = 8 := fun j before => length_element sized (octaword_inside j before)
    have low := length_digits (parts 0 (by decide)) (by decide)
    have high := length_digits (parts 1 (by decide)) (by decide)
    simp only [hexFields, List.length_append, length_spaces]
    rw [low, high]

theorem flatMap_parts {f g : Nat → List UInt8} {js : List Nat} (sized : ∀ j ∈ js, (f j).length = (g j).length)
    (same : js.flatMap f = js.flatMap g) : ∀ j ∈ js, f j = g j := by
  induction js with
  | nil => exact fun j member => by contradiction
  | cons first rest ih =>
      rw [List.flatMap_cons, List.flatMap_cons] at same
      obtain ⟨here, further⟩ := List.append_inj same (sized first List.mem_cons_self)
      have others := ih (fun j member => sized j (List.mem_cons_of_mem _ member)) further
      intro j member
      rcases List.mem_cons.mp member with rfl | later
      · exact here
      · exact others j later

/-- The digits of an element are its own. -/
theorem digits_injective (sized : row.length = size) (equally : other.length = size) (positive : 0 < size)
    (same : hexPad (2 * size) (littleEndian row) = hexPad (2 * size) (littleEndian other)) : row = other := by
  have room := littleEndian_lt row
  have fits := littleEndian_lt other
  rw [sized] at room
  rw [equally] at fits
  exact littleEndian_injective (sized.trans equally.symm) (hexPad_injective room fits (by omega) same)

theorem field_injective (sized : row.length = BUFWIDE) (equally : other.length = BUFWIDE)
    (inside : (j + 1) * size ≤ BUFWIDE) (positive : 0 < size)
    (same : field size margin behind row j = field size margin behind other j) :
    element size j row = element size j other := by
  have mine := length_element sized inside
  have yours := length_element equally inside
  rw [field, field, List.append_cancel_right_eq, List.append_cancel_left_eq] at same
  exact digits_injective mine yours positive same

/-- A line is its elements. -/
theorem row_eq (sized : row.length = BUFWIDE) (equally : other.length = BUFWIDE) (whole : BUFWIDE / size * size = BUFWIDE)
    (positive : 0 < size) (same : ∀ j < BUFWIDE / size, element size j row = element size j other) : row = other := by
  refine List.ext_getElem? fun k => ?_
  by_cases inside : k < BUFWIDE
  · have part : k / size < BUFWIDE / size := by
      rw [Nat.div_lt_iff_lt_mul positive, whole]
      exact inside
    have place : k / size * size + k % size = k := Nat.div_add_mod' k size
    have found := congrArg (fun part : List UInt8 => part[k % size]?) (same (k / size) part)
    dsimp only [element] at found
    rw [List.getElem?_take, List.getElem?_take, if_pos (Nat.mod_lt k positive), if_pos (Nat.mod_lt k positive),
      List.getElem?_drop, List.getElem?_drop, place] at found
    exact found
  · rw [List.getElem?_eq_none (by omega), List.getElem?_eq_none (by omega)]

theorem fields_injective (sized : row.length = BUFWIDE) (equally : other.length = BUFWIDE)
    (whole : BUFWIDE / size * size = BUFWIDE) (positive : 0 < size)
    (same : fields size margin behind row = fields size margin behind other) : row = other := by
  have parts := flatMap_parts (fun j member => by
    have inside := element_inside (List.mem_range.mp member)
    rw [length_field sized inside positive, length_field equally inside positive]) same
  refine row_eq sized equally whole positive fun j before => ?_
  exact field_injective sized equally (element_inside before) positive (parts j (List.mem_range.mpr before))

theorem hexFields_injective (sized : row.length = BUFWIDE) (equally : other.length = BUFWIDE)
    (known : format ∈ [1, 2, 4, 8, 16]) (same : hexFields format row = hexFields format other) : row = other := by
  simp only [List.mem_cons, List.not_mem_nil, or_false] at known
  rcases known with rfl | rfl | rfl | rfl | rfl
  · exact fields_injective sized equally (by decide) (by decide) same
  · exact fields_injective sized equally (by decide) (by decide) same
  · exact fields_injective sized equally (by decide) (by decide) same
  · exact fields_injective sized equally (by decide) (by decide) same
  · -- The two numbers of an octaword stand behind each other, the later one first.
    have mine : ∀ j < 2, (element 8 j row).length = 8 := fun j before => length_element sized (octaword_inside j before)
    have yours : ∀ j < 2, (element 8 j other).length = 8 := fun j before =>
      length_element equally (octaword_inside j before)
    simp only [hexFields, List.append_cancel_left_eq, List.append_assoc] at same
    have parts := List.append_inj same (by
      rw [length_digits (mine 1 (by decide)) (by decide), length_digits (yours 1 (by decide)) (by decide)])
    have behind := (List.append_cancel_right_eq _ _ _).mp parts.2
    have whole : BUFWIDE / 8 * 8 = BUFWIDE := rfl
    refine row_eq sized equally whole (by decide) fun j before => ?_
    obtain rfl | rfl : j = 0 ∨ j = 1 := by
      have two : BUFWIDE / 8 = 2 := rfl
      omega
    · exact digits_injective (mine 0 (by decide)) (yours 0 (by decide)) (by decide) behind
    · exact digits_injective (mine 1 (by decide)) (yours 1 (by decide)) (by decide) parts.1

theorem location_eq (small : location < 16 ^ 13) : ((location : Int) % 2 ^ 64).toNat = location := by
  have wide : (16 : Nat) ^ 13 < 2 ^ 64 := by decide
  omega

theorem length_lineText (small : location < 16 ^ 13) (sized : row.length = BUFWIDE) (known : format ∈ [1, 2, 4, 8, 16]) :
    (lineText format location row).length = 78 := by
  rw [lineText, location_eq small, List.length_append, List.length_append, List.length_append, List.length_map,
    length_hexPad small (by decide), length_spaces, length_hexFields sized known, sized]
  rfl

theorem outline_eq (small : location < 16 ^ 13) (sized : row.length = BUFWIDE) (known : format ∈ [1, 2, 4, 8, 16]) :
    outline format location row = some (lineText format location row) := by
  rw [outline, length_lineText small sized known, if_pos (by decide)]

/-- Two lines of a format that look the same are the same bytes of the same place. -/
theorem lineText_injective {place : Nat} (small : location < 16 ^ 13) (near : place < 16 ^ 13)
    (sized : row.length = BUFWIDE) (equally : other.length = BUFWIDE) (known : format ∈ [1, 2, 4, 8, 16])
    (same : lineText format location row = lineText format place other) : location = place ∧ row = other := by
  rw [lineText, lineText, location_eq small, location_eq near, List.append_assoc, List.append_assoc, List.append_assoc,
    List.append_assoc] at same
  obtain ⟨digits, rest⟩ := List.append_inj same (by
    rw [length_hexPad small (by decide), length_hexPad near (by decide)])
  have shown := List.append_inj ((List.append_cancel_left_eq _ _ _).mp rest) (by
    rw [length_hexFields sized known, length_hexFields equally known])
  exact ⟨hexPad_injective small near (by decide) digits, hexFields_injective sized equally known shown.1⟩

end Dwadelib.FileView
