import Dwadelib.Memory.Word
import Dwadelib.Memory.Loop

namespace Dwadelib

/-! # Copies between equal places of two objects

`Copied` says that some places of the destination hold what the source has at the same places,
and that nothing else has changed. Copies from one source compose, whatever their order and
overlap, so a loop of them is described by the union of the places.
-/

namespace Memory

structure Copied (memory after : Memory) (destination source : Pointer) (places : Int → Prop) :
    Prop where
  inside : ∀ place, places place →
    after.byteAt (destination.advance place) = memory.byteAt (source.advance place)
  outside : ∀ query : Pointer,
    (query.block = destination.block → ¬ places (query.offset - destination.offset)) →
    after.byteAt query = memory.byteAt query

section Copied

variable {memory middle after : Memory} {destination source query : Pointer}
  {places others : Int → Prop} {first count : Nat} {word : UInt32}

theorem Copied.none (memory : Memory) (destination source : Pointer) :
    Copied memory memory destination source fun _ => False where
  inside := fun _ nowhere => nowhere.elim
  outside := fun _ _ => rfl

theorem Copied.congr (copied : Copied memory after destination source places)
    (same : ∀ place, places place ↔ others place) : Copied memory after destination source others where
  inside := fun place picked => copied.inside place ((same place).mpr picked)
  outside := fun query absent => copied.outside query fun here picked =>
    absent here ((same _).mp picked)

theorem Copied.elsewhere (copied : Copied memory after destination source places)
    (apart : query.block ≠ destination.block) : after.byteAt query = memory.byteAt query :=
  copied.outside query fun here => absurd here apart

theorem Copied.kept (copied : Copied memory after destination source places) {place : Int}
    (absent : ¬ places place) :
    after.byteAt (destination.advance place) = memory.byteAt (destination.advance place) := by
  refine copied.outside _ fun _ picked => absent ?_
  have position : destination.offset + place - destination.offset = place := by omega
  rwa [Pointer.advance_offset, position] at picked

theorem Copied.trans (earlier : Copied memory middle destination source places)
    (later : Copied middle after destination source others)
    (apart : source.block ≠ destination.block) :
    Copied memory after destination source fun place => places place ∨ others place where
  inside := by
    intro place picked
    by_cases again : others place
    · rw [later.inside place again]
      exact earlier.elsewhere apart
    · rw [later.kept again]
      rcases picked with here | there
      · exact earlier.inside place here
      · exact absurd there again
  outside := by
    intro query absent
    rw [later.outside query fun here picked => absent here (.inr picked)]
    exact earlier.outside query fun here picked => absent here (.inl picked)

theorem Copied.of_memcpy
    (copied : memory.memcpy (destination.advance first) (source.advance first) count = some after) :
    Copied memory after destination source fun place => first ≤ place ∧ place < first + count := by
  obtain ⟨bytes, loaded, stored⟩ := memcpy_eq_some.mp copied
  have length := length_of_read loaded
  refine ⟨fun place picked => ?_, fun query absent => ?_⟩
  · have position : source.advance place = (source.advance first).advance (place - first).toNat := by
      rw [Pointer.advance_advance]
      congr 1
      omega
    rw [byteAt_write stored, position, byteAt_of_read loaded (by omega), if_pos]
    · congr 1
      simp only [Pointer.advance_offset]
      omega
    · simp only [Pointer.advance_block, Pointer.advance_offset, length, true_and]
      omega
  · rw [byteAt_write stored, if_neg]
    intro inside
    obtain ⟨block, lower, upper⟩ := inside
    simp only [Pointer.advance_block, Pointer.advance_offset, length] at block lower upper
    exact absent block ⟨by omega, by omega⟩

/-- Loading a word and storing it elsewhere copies its four bytes. -/
theorem memcpy_of_load_store {target : Pointer} (loaded : memory.loadUInt32 query = some word)
    (stored : memory.storeUInt32 target word = some after) : memory.memcpy target query 4 = some after :=
  memcpy_eq_some.mpr ⟨_, loadUInt32_eq_some.mp loaded, stored⟩

theorem Copied.read_inside (copied : Copied memory after destination source places)
    (picked : ∀ index < count, places (first + index)) :
    after.read (destination.advance first) count = memory.read (source.advance first) count := by
  apply read_eq_of_bytes
  intro index bound
  rw [Pointer.advance_advance, Pointer.advance_advance]
  exact copied.inside _ (picked index bound)

theorem Copied.read_kept (copied : Copied memory after destination source places)
    (absent : ∀ index < count, ¬ places (first + index)) :
    after.read (destination.advance first) count = memory.read (destination.advance first) count := by
  apply read_congr
  intro index bound
  rw [Pointer.advance_advance]
  exact copied.kept (absent index bound)

theorem Copied.read_elsewhere (copied : Copied memory after destination source places)
    (apart : query.block ≠ destination.block) : after.read query count = memory.read query count :=
  read_congr fun _ _ => copied.elsewhere apart

theorem Copied.valid (copied : Copied memory after destination source places)
    (readable : ∀ place, places place → (memory.byteAt (source.advance place)).isSome)
    (valid : memory.Valid query count) : after.Valid query count := by
  intro index bound
  by_cases inside : query.block = destination.block ∧
      places ((query.advance index).offset - destination.offset)
  · have place : query.advance index =
        destination.advance ((query.advance index).offset - destination.offset) := by
      cases query
      cases destination
      simp only [Pointer.advance, Pointer.mk.injEq] at inside ⊢
      exact ⟨inside.1, by omega⟩
    rw [place, copied.inside _ inside.2]
    exact readable _ inside.2
  · rw [copied.outside (query.advance index) fun here picked => inside ⟨here, picked⟩]
    exact valid index bound

/-- A loop of copies that all complete. -/
theorem forRange_copied {body : Nat → Memory → Option Memory} {picks : Nat → Int → Prop}
    (apart : source.block ≠ destination.block)
    (completes : ∀ index state, index < count →
      Copied memory state destination source (fun place => ∃ earlier < index, picks earlier place) →
      ∃ next, body index state = some next ∧ Copied state next destination source (picks index)) :
    ∃ final, forRange 0 count body memory = some final ∧
      Copied memory final destination source fun place => ∃ index < count, picks index place := by
  have start : Copied memory memory destination source
      fun place => ∃ earlier < 0, picks earlier place :=
    (Copied.none memory destination source).congr fun place => by simp
  have looped : ∃ final, forRange 0 count body memory = some final ∧
      Copied memory final destination source fun place => ∃ index < 0 + count, picks index place :=
    forRange_total (fun index state => Copied memory state destination source
      fun place => ∃ earlier < index, picks earlier place) (fun index state _ upper copied => by
      obtain ⟨next, taken, step⟩ := completes index state (by omega) copied
      refine ⟨next, taken, (copied.trans step apart).congr fun place => ?_⟩
      exact Nat.exists_lt_succ_right.symm) start
  rwa [Nat.zero_add] at looped

end Copied

end Memory

end Dwadelib
