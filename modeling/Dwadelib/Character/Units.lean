import Dwadelib.Character.Inverse

namespace Dwadelib.Character

/-! # Sequences of units

What is written for a sequence of units is the shortest forms one behind the other, and the first bytes
tell where it is cut.
-/

variable {value rounds : Nat} {bytes rest written : List UInt8} {outSize : Int} {unit : UInt16}
  {unitSequence others : List UInt16}

/-- A number in two bytes, the high one first. -/
def bigEndian (value : Nat) : List UInt8 := [UInt8.ofNat (value / 256), UInt8.ofNat value]

theorem toNat_byte (bound : value < 256) : (UInt8.ofNat value).toNat = value := by
  rw [UInt8.toNat_ofNat', Nat.mod_eq_of_lt bound]

theorem byte_ne_zero (positive : 0 < value) (bound : value < 256) : UInt8.ofNat value ≠ 0 := by
  intro zero
  have same := congrArg UInt8.toNat zero
  rw [toNat_byte bound, UInt8.toNat_zero] at same
  omega

section Unit

variable (positive : 0 < value) (bound : value < 0x10000)
include positive bound

theorem unitFollows_bigEndian : unitFollows (bigEndian value ++ rest) = some true := by
  by_cases high : UInt8.ofNat (value / 256) = 0
  · have small : value < 256 := by
      have same := congrArg UInt8.toNat high
      rw [toNat_byte (by omega), UInt8.toNat_zero] at same
      omega
    have low : UInt8.ofNat value ≠ 0 := byte_ne_zero positive small
    simp [unitFollows, bigEndian, high, low]
  · simp [unitFollows, bigEndian, high]

theorem encodeRound_unit (encoded : encUnicodeToUtf8One value outSize = .returned bytes) :
    encodeRound outSize { unic := bigEndian value ++ rest, written := written } =
      .returned (.next { unic := rest, written := written ++ bytes }) := by
  have high : (UInt8.ofNat (value / 256)).toNat = value / 256 := toNat_byte (by omega)
  have low : (UInt8.ofNat value).toNat = value % 256 := UInt8.toNat_ofNat'
  have longCh : (value / 256) <<< 8 ||| value % 256 = value := by
    have joined : 2 ^ 8 * (value / 256) + value % 256 = 2 ^ 8 * (value / 256) ||| value % 256 :=
      Nat.two_pow_add_eq_or_of_lt (Nat.mod_lt value (by decide)) (value / 256)
    rw [Nat.shiftLeft_eq, Nat.mul_comm, ← joined]
    exact Nat.div_add_mod _ _
  have first : (bigEndian value ++ rest)[0]? = some (UInt8.ofNat (value / 256)) := rfl
  have second : (bigEndian value ++ rest)[1]? = some (UInt8.ofNat value) := rfl
  have passed : (bigEndian value ++ rest).drop 2 = rest := rfl
  simp only [encodeRound, unitFollows_bigEndian positive bound, first, second, passed, high, low, longCh, encoded,
    Outcome.ofOption_some, Outcome.returned_bind, if_true, Outcome.pure_eq]

end Unit

section Encoding

variable {α : Type} {code : α → Nat} {encoding : α → List UInt8} {items : List α}

theorem length_bigEndian : (items.flatMap fun item => bigEndian (code item)).length = 2 * items.length := by
  induction items with
  | nil => rfl
  | cons item items ih =>
      rw [List.flatMap_cons, List.length_append, ih, List.length_cons]
      simp only [bigEndian, List.length_cons, List.length_nil]
      omega

theorem encoding_returns (bounds : ∀ item ∈ items, 0 < code item ∧ code item < 0x10000)
    (encoded : ∀ item ∈ items, encUnicodeToUtf8One (code item) outSize = .returned (encoding item))
    (enough : items.length < rounds) :
    whileLoop (encodeRound outSize) rounds
        { unic := (items.flatMap fun item => bigEndian (code item)) ++ 0 :: 0 :: rest, written := written } =
      .returned { written := written ++ items.flatMap encoding, value := 0 } := by
  induction items generalizing written rounds with
  | nil =>
      obtain ⟨rounds, rfl⟩ : ∃ fewer, rounds = fewer + 1 := ⟨rounds - 1, by omega⟩
      rw [List.flatMap_nil, List.flatMap_nil, List.append_nil]
      exact whileLoop_stop rfl
  | cons item items ih =>
      obtain ⟨⟨positive, bound⟩, later⟩ := List.forall_mem_cons.mp bounds
      obtain ⟨here, encodedLater⟩ := List.forall_mem_cons.mp encoded
      obtain ⟨rounds, rfl⟩ : ∃ fewer, rounds = fewer + 1 := ⟨rounds - 1, by omega⟩
      rw [List.length_cons] at enough
      rw [List.flatMap_cons, List.append_assoc, whileLoop_next (encodeRound_unit positive bound here),
        ih later encodedLater (by omega), List.flatMap_cons, List.append_assoc]

/-- Items that the encoder takes are encoded one behind the other. -/
theorem unicodeToUtf8_items (bounds : ∀ item ∈ items, 0 < code item ∧ code item < 0x10000)
    (encoded : ∀ item ∈ items, encUnicodeToUtf8One (code item) outSize = .returned (encoding item)) :
    unicodeToUtf8 ((items.flatMap fun item => bigEndian (code item)) ++ 0 :: 0 :: rest) outSize =
      .returned { written := items.flatMap encoding, value := 0 } := by
  refine encoding_returns bounds encoded ?_
  rw [List.length_append, length_bigEndian]
  omega

end Encoding

def bigEndianUnits (unitSequence : List UInt16) : List UInt8 := unitSequence.flatMap fun unit => bigEndian unit.toNat

def shortestForms (unitSequence : List UInt16) : List (List UInt8) :=
  unitSequence.map fun unit => Utf8.shortest unit.toNat

theorem toNat_lt_unit (unit : UInt16) : unit.toNat < 0x80000000 := Nat.lt_trans unit.toNat_lt (by decide)

theorem toNat_pos_unit (nonzero : 0 ∉ unitSequence) (member : unit ∈ unitSequence) : 0 < unit.toNat := by
  apply Nat.pos_of_ne_zero
  intro zero
  have same : unit = 0 := UInt16.toNat_inj.mp zero
  exact nonzero (same ▸ member)

theorem unicodeToUtf8_forms (nonzero : 0 ∉ unitSequence) (room : 6 ≤ outSize) (rest : List UInt8) :
    unicodeToUtf8 (bigEndianUnits unitSequence ++ 0 :: 0 :: rest) outSize =
      .returned { written := (shortestForms unitSequence).flatten, value := 0 } := by
  have bounds : ∀ unit ∈ unitSequence, 0 < unit.toNat ∧ unit.toNat < 0x10000 := by
    intro unit member
    exact ⟨toNat_pos_unit nonzero member, unit.toNat_lt⟩
  have encoded : ∀ unit ∈ unitSequence,
      encUnicodeToUtf8One unit.toNat outSize = .returned (Utf8.shortest unit.toNat) :=
    fun unit _ => encUnicodeToUtf8One_shortest (toNat_lt_unit unit) room
  rw [bigEndianUnits, unicodeToUtf8_items bounds encoded, List.flatMap, shortestForms]

theorem announced_forms : ∀ form ∈ shortestForms unitSequence, Announced utf8Length form := by
  intro form member
  obtain ⟨unit, -, rfl⟩ := List.mem_map.mp member
  exact announced_shortest (toNat_lt_unit unit)

theorem shortestForms_injective (same : shortestForms unitSequence = shortestForms others) : unitSequence = others := by
  refine List.map_injective_iff.mpr (fun unit other forms => ?_) same
  exact UInt16.toNat_inj.mp (Utf8.shortest_injective (toNat_lt_unit unit) (toNat_lt_unit other) forms)

theorem zero_notMem_forms (nonzero : 0 ∉ unitSequence) : 0 ∉ (shortestForms unitSequence).flatten := by
  intro member
  obtain ⟨form, inside, zero⟩ := List.mem_flatten.mp member
  obtain ⟨unit, present, rfl⟩ := List.mem_map.mp inside
  exact Utf8.zero_notMem_shortest (toNat_pos_unit nonzero present) (toNat_lt_unit unit) zero

/-- The first bytes tell the shortest forms of the units, and thus the units. -/
theorem units_canonical (nonzero : 0 ∉ unitSequence) (room : 6 ≤ outSize) (rest : List UInt8) :
    ∃ output, unicodeToUtf8 (bigEndianUnits unitSequence ++ 0 :: 0 :: rest) outSize = .returned output ∧
      output.written = unitSequence.flatMap (fun unit => Utf8.shortest unit.toNat) ∧
      0 ∉ output.written ∧
      cut utf8Length output.written.length output.written =
        unitSequence.map (fun unit => Utf8.shortest unit.toNat) ∧
      ∀ others otherSize otherRest otherOutput, 0 ∉ others → 6 ≤ otherSize →
        unicodeToUtf8 (bigEndianUnits others ++ 0 :: 0 :: otherRest) otherSize = .returned otherOutput →
        otherOutput.written = output.written → others = unitSequence := by
  refine ⟨_, unicodeToUtf8_forms nonzero room rest, rfl, zero_notMem_forms nonzero,
    cut_flatten announced_forms (length_le_flatten announced_forms), ?_⟩
  intro others otherSize otherRest otherOutput otherNonzero otherRoom returned same
  rw [unicodeToUtf8_forms otherNonzero otherRoom otherRest, Outcome.returned.injEq] at returned
  rw [← returned] at same
  exact shortestForms_injective (uniquelyDecodable_announced utf8Length _ _ announced_forms announced_forms same)

theorem units_canonical_euro :
    ∃ output, unicodeToUtf8 ([0x20, 0xAC, 0, 0x61] ++ 0 :: 0 :: []) 6 = .returned output ∧
      output.written = [0x20AC, 0x61].flatMap (fun unit : UInt16 => Utf8.shortest unit.toNat) :=
  have nonzero : (0 : UInt16) ∉ [0x20AC, 0x61] := by decide
  have ⟨output, returned, written, _⟩ := units_canonical nonzero (Int.le_refl 6) []
  ⟨output, returned, written⟩

end Dwadelib.Character
