import Mathlib.Data.List.Basic
import Mathlib.Data.UInt

namespace Dwadelib

/-! # Byte-addressed object memory

A memory is a list of objects, each a sequence of bytes until it is freed. A pointer
names an object and an offset in it, so two objects never overlap and an offset outside
an object is not a byte of another one. A byte is an octet, one of the eight bytes of a
stored pointer, or undefined. Every access that C leaves undefined is `none`.
-/

/-- A byte offset in an object. -/
structure Pointer where
  block : Nat
  offset : Int
deriving DecidableEq, Repr

namespace Pointer

/-- Pointer arithmetic in bytes. -/
def advance (pointer : Pointer) (distance : Int) : Pointer :=
  { pointer with offset := pointer.offset + distance }

@[simp] theorem advance_block (pointer : Pointer) (distance : Int) :
    (pointer.advance distance).block = pointer.block := rfl

@[simp] theorem advance_offset (pointer : Pointer) (distance : Int) :
    (pointer.advance distance).offset = pointer.offset + distance := rfl

@[simp] theorem advance_zero (pointer : Pointer) : pointer.advance 0 = pointer := by
  simp [advance]

@[simp] theorem advance_advance (pointer : Pointer) (first second : Int) :
    (pointer.advance first).advance second = pointer.advance (first + second) := by
  simp [advance, Int.add_assoc]

end Pointer

/-- What one byte of memory holds. -/
inductive Byte where
  | undefined
  | octet (value : UInt8)
  | fragment (pointer : Pointer) (index : Nat)
deriving DecidableEq, Repr

structure Memory where
  blocks : List (Option (List Byte))
deriving DecidableEq, Repr

namespace Memory

/-- The byte a pointer points to; `none` outside its object and after `free`. -/
def byteAt (memory : Memory) (pointer : Pointer) : Option Byte :=
  if 0 ≤ pointer.offset then
    memory.blocks[pointer.block]?.join.bind fun bytes => bytes[pointer.offset.toNat]?
  else none

/-- Store one byte where there is one. -/
def setByte (memory : Memory) (pointer : Pointer) (byte : Byte) : Option Memory :=
  if (memory.byteAt pointer).isSome then
    some ⟨memory.blocks.modify pointer.block
      (Option.map fun bytes => bytes.set pointer.offset.toNat byte)⟩
  else none

/-- Load `count` bytes. -/
def read (memory : Memory) (pointer : Pointer) : Nat → Option (List Byte)
  | 0 => some []
  | count + 1 => do
      let byte ← memory.byteAt pointer
      let rest ← memory.read (pointer.advance 1) count
      return byte :: rest

/-- Store the bytes from `pointer` on. -/
def write (memory : Memory) (pointer : Pointer) : List Byte → Option Memory
  | [] => some memory
  | byte :: rest => do
      let next ← memory.setByte pointer byte
      next.write (pointer.advance 1) rest

/-- `memcpy(destination, source, count)`. -/
def memcpy (memory : Memory) (destination source : Pointer) (count : Nat) : Option Memory := do
  let bytes ← memory.read source count
  memory.write destination bytes

/-- A fresh object of undefined bytes. -/
def malloc (memory : Memory) (size : Nat) : Pointer × Memory :=
  ({ block := memory.blocks.length, offset := 0 },
    { blocks := memory.blocks ++ [some (List.replicate size Byte.undefined)] })

/-- `free` of a pointer to the start of a live object. -/
def free (memory : Memory) (pointer : Pointer) : Option Memory :=
  if pointer.offset = 0 ∧ (memory.blocks[pointer.block]?.join).isSome then
    some { blocks := memory.blocks.set pointer.block none }
  else none

variable {memory after : Memory} {pointer query : Pointer} {byte : Byte} {bytes rest : List Byte}
  {count more : Nat}

theorem byteAt_isSome_of_setByte (stored : memory.setByte pointer byte = some after) :
    (memory.byteAt pointer).isSome := by
  simp only [setByte] at stored
  split at stored
  · assumption
  · contradiction

theorem setByte_exists (valid : (memory.byteAt pointer).isSome) (byte : Byte) :
    ∃ after, memory.setByte pointer byte = some after := by
  simp only [setByte, if_pos valid]
  exact ⟨_, rfl⟩

private theorem nonnegative_of_byteAt (valid : (memory.byteAt pointer).isSome) :
    0 ≤ pointer.offset := by
  by_cases nonnegative : 0 ≤ pointer.offset
  · exact nonnegative
  · simp [byteAt, nonnegative] at valid

/-- The read-over-write law of one byte; everything below follows from it. -/
theorem byteAt_setByte (stored : memory.setByte pointer byte = some after) (query : Pointer) :
    after.byteAt query = if query = pointer then some byte else memory.byteAt query := by
  have valid := byteAt_isSome_of_setByte stored
  have nonnegative := nonnegative_of_byteAt valid
  simp only [setByte, if_pos valid, Option.some.injEq] at stored
  subst after
  by_cases sameBlock : query.block = pointer.block
  · cases found : memory.blocks[pointer.block]?.join with
    | none => simp [byteAt, found] at valid
    | some bytes =>
        have block : memory.blocks[pointer.block]? = some (some bytes) := by
          cases entry : memory.blocks[pointer.block]? with
          | none => simp [entry] at found
          | some content => simpa [entry] using found
        have inside : pointer.offset.toNat < bytes.length := by
          simpa [byteAt, nonnegative, found] using valid
        have updated : ((memory.blocks.modify pointer.block
            (Option.map fun bytes => bytes.set pointer.offset.toNat byte))[pointer.block]?).join =
              some (bytes.set pointer.offset.toNat byte) := by
          simp [List.getElem?_modify_eq, block]
        by_cases queryNonnegative : 0 ≤ query.offset
        · simp only [byteAt, if_pos queryNonnegative, sameBlock, updated, found, Option.bind_some]
          by_cases sameOffset : query.offset = pointer.offset
          · have same : query = pointer := by
              cases query; cases pointer; simp_all
            rw [if_pos same, sameOffset, List.getElem?_set_self inside]
          · have different : query ≠ pointer := fun same => sameOffset (by rw [same])
            have apart : pointer.offset.toNat ≠ query.offset.toNat := by omega
            rw [if_neg different, List.getElem?_set_ne apart]
        · have different : query ≠ pointer := fun same => queryNonnegative (by rw [same]; exact nonnegative)
          simp [byteAt, queryNonnegative, different]
  · have different : query ≠ pointer := fun same => sameBlock (by rw [same])
    have apart : pointer.block ≠ query.block := Ne.symm sameBlock
    simp only [byteAt, if_neg different, List.getElem?_modify_ne _ _ apart]

@[simp] theorem read_zero : memory.read pointer 0 = some [] := rfl

theorem read_succ :
    memory.read pointer (count + 1) = (memory.byteAt pointer).bind fun byte =>
      (memory.read (pointer.advance 1) count).bind fun rest => some (byte :: rest) := rfl

theorem read_eq_some_succ :
    memory.read pointer (count + 1) = some bytes ↔
      ∃ byte rest, memory.byteAt pointer = some byte ∧
        memory.read (pointer.advance 1) count = some rest ∧ bytes = byte :: rest := by
  simp only [read_succ, Option.bind_eq_some_iff, Option.some.injEq]
  constructor
  · intro given
    obtain ⟨byte, first, rest, tail, rfl⟩ := given
    exact ⟨byte, rest, first, tail, rfl⟩
  · intro given
    obtain ⟨byte, rest, first, tail, rfl⟩ := given
    exact ⟨byte, first, rest, tail, rfl⟩

theorem length_of_read (loaded : memory.read pointer count = some bytes) :
    bytes.length = count := by
  induction count generalizing pointer bytes with
  | zero => cases loaded; rfl
  | succ count ih =>
      obtain ⟨byte, rest, _, tail, rfl⟩ := read_eq_some_succ.mp loaded
      simp only [List.length_cons, ih tail]

/-- The bytes a load returns, one by one. -/
theorem byteAt_of_read (loaded : memory.read pointer count = some bytes) {index : Nat}
    (inside : index < count) : memory.byteAt (pointer.advance index) = bytes[index]? := by
  induction count generalizing pointer bytes index with
  | zero => omega
  | succ count ih =>
      obtain ⟨byte, rest, first, tail, rfl⟩ := read_eq_some_succ.mp loaded
      cases index with
      | zero => simpa using first
      | succ index =>
          have later := ih tail (show index < count by omega)
          rw [Pointer.advance_advance, Int.add_comm] at later
          simpa using later

/-- Two loads agree when their bytes do. -/
theorem read_eq_of_bytes (same : ∀ index < count,
    after.byteAt (query.advance index) = memory.byteAt (pointer.advance index)) :
    after.read query count = memory.read pointer count := by
  induction count generalizing query pointer with
  | zero => rfl
  | succ count ih =>
      have first := same 0 (by omega)
      have tail := @ih (pointer.advance 1) (query.advance 1) fun index inside => by
        have here := same (index + 1) (by omega)
        rw [Pointer.advance_advance, Pointer.advance_advance, Int.add_comm]
        simpa using here
      simp only [read_succ, tail]
      rw [show after.byteAt query = memory.byteAt pointer by simpa using first]

/-- A load depends only on the bytes in its range. -/
theorem read_congr (same : ∀ index < count,
    after.byteAt (pointer.advance index) = memory.byteAt (pointer.advance index)) :
    after.read pointer count = memory.read pointer count :=
  read_eq_of_bytes same

theorem read_add :
    memory.read pointer (count + more) = (memory.read pointer count).bind fun first =>
      (memory.read (pointer.advance count) more).bind fun second => some (first ++ second) := by
  induction count generalizing pointer with
  | zero => simp
  | succ count ih =>
      rw [Nat.succ_add, read_succ, read_succ, ih]
      have shifted : (pointer.advance 1).advance count = pointer.advance (count + 1 : Nat) := by
        rw [Pointer.advance_advance, Int.add_comm]; rfl
      rw [shifted]
      cases memory.byteAt pointer with
      | none => rfl
      | some byte =>
          cases memory.read (pointer.advance 1) count with
          | none => rfl
          | some first =>
              cases memory.read (pointer.advance (count + 1 : Nat)) more <;> rfl

/-- Every byte of the range exists. -/
def Valid (memory : Memory) (pointer : Pointer) (count : Nat) : Prop :=
  ∀ index < count, (memory.byteAt (pointer.advance index)).isSome

theorem Valid.of_read (loaded : memory.read pointer count = some bytes) :
    memory.Valid pointer count := by
  intro index inside
  rw [byteAt_of_read loaded inside,
    List.getElem?_eq_getElem (by rw [length_of_read loaded]; exact inside)]
  rfl

theorem Valid.read_exists (valid : memory.Valid pointer count) :
    ∃ bytes, memory.read pointer count = some bytes := by
  induction count generalizing pointer with
  | zero => exact ⟨[], rfl⟩
  | succ count ih =>
      obtain ⟨byte, first⟩ := Option.isSome_iff_exists.mp (valid 0 (by omega))
      obtain ⟨rest, tail⟩ := @ih (pointer.advance 1) fun index inside => by
        have here := valid (index + 1) (by omega)
        rw [Pointer.advance_advance, Int.add_comm]
        simpa using here
      exact ⟨byte :: rest, read_eq_some_succ.mpr ⟨byte, rest, by simpa using first, tail, rfl⟩⟩

theorem Valid.sub {start : Nat} (valid : memory.Valid pointer count)
    (room : start + more ≤ count) : memory.Valid (pointer.advance start) more := by
  intro index inside
  rw [Pointer.advance_advance]
  exact valid (start + index) (by omega)

theorem Valid.place (valid : memory.Valid pointer count) {place : Int} (lower : 0 ≤ place)
    (upper : place < count) : (memory.byteAt (pointer.advance place)).isSome := by
  have there := valid place.toNat (by omega)
  rwa [Int.toNat_of_nonneg lower] at there

@[simp] theorem write_nil : memory.write pointer [] = some memory := rfl

theorem write_cons_eq_some :
    memory.write pointer (byte :: rest) = some after ↔
      ∃ next, memory.setByte pointer byte = some next ∧
        next.write (pointer.advance 1) rest = some after := by
  simp only [write, bind, Option.bind_eq_some_iff]

/-- A store changes exactly the bytes of its range. -/
theorem byteAt_write (stored : memory.write pointer bytes = some after) (query : Pointer) :
    after.byteAt query =
      if query.block = pointer.block ∧ pointer.offset ≤ query.offset ∧
          query.offset < pointer.offset + bytes.length then
        bytes[(query.offset - pointer.offset).toNat]?
      else memory.byteAt query := by
  induction bytes generalizing memory pointer with
  | nil =>
      cases stored
      rw [if_neg (by simp only [List.length_nil]; omega)]
  | cons byte rest ih =>
      obtain ⟨next, first, tail⟩ := write_cons_eq_some.mp stored
      rw [ih tail, byteAt_setByte first query]
      simp only [Pointer.advance_block, Pointer.advance_offset, List.length_cons, Int.natCast_add,
        Int.natCast_one]
      by_cases sameBlock : query.block = pointer.block
      · simp only [sameBlock, true_and]
        by_cases later : pointer.offset + 1 ≤ query.offset ∧ query.offset < pointer.offset + 1 + rest.length
        · have inside : pointer.offset ≤ query.offset ∧
              query.offset < pointer.offset + (rest.length + 1) := by omega
          have position : (query.offset - pointer.offset).toNat =
              (query.offset - (pointer.offset + 1)).toNat + 1 := by omega
          rw [if_pos later, if_pos inside, position, List.getElem?_cons_succ]
        · rw [if_neg later]
          by_cases here : query.offset = pointer.offset
          · have same : query = pointer := by cases query; cases pointer; simp_all
            have inside : pointer.offset ≤ query.offset ∧
                query.offset < pointer.offset + (rest.length + 1) := by omega
            rw [if_pos same, if_pos inside, here]
            simp
          · have different : query ≠ pointer := fun same => here (by rw [same])
            rw [if_neg different, if_neg (by omega)]
      · have different : query ≠ pointer := fun same => sameBlock (by rw [same])
        simp only [sameBlock, false_and, if_false, if_neg different]

theorem write_exists (valid : memory.Valid pointer bytes.length) :
    ∃ after, memory.write pointer bytes = some after := by
  induction bytes generalizing memory pointer with
  | nil => exact ⟨memory, rfl⟩
  | cons byte rest ih =>
      obtain ⟨next, first⟩ := setByte_exists (by simpa using valid 0 (by simp)) byte
      obtain ⟨after, tail⟩ := @ih next (pointer.advance 1) (by
        intro index inside
        rw [byteAt_setByte first, Pointer.advance_advance, Int.add_comm]
        split
        · rfl
        · simpa using valid (index + 1) (by simp only [List.length_cons]; omega))
      exact ⟨after, write_cons_eq_some.mpr ⟨next, first, tail⟩⟩

theorem Valid.of_write (stored : memory.write pointer bytes = some after) :
    memory.Valid pointer bytes.length := by
  induction bytes generalizing memory pointer with
  | nil => intro index inside; simp at inside
  | cons byte rest ih =>
      obtain ⟨next, first, tail⟩ := write_cons_eq_some.mp stored
      intro index inside
      cases index with
      | zero => simpa using byteAt_isSome_of_setByte first
      | succ index =>
          have later := ih tail index (by simp only [List.length_cons] at inside; omega)
          rw [byteAt_setByte first, Pointer.advance_advance, Int.add_comm] at later
          split at later
          · rename_i same
            have offset := congrArg Pointer.offset same
            simp only [Pointer.advance_offset] at offset
            omega
          · simpa using later

/-- A store moves no object boundary. -/
theorem valid_write_iff (stored : memory.write pointer bytes = some after) :
    after.Valid query count ↔ memory.Valid query count := by
  have same : ∀ place, (after.byteAt place).isSome = (memory.byteAt place).isSome := by
    intro place
    rw [byteAt_write stored]
    split
    · rename_i inside
      obtain ⟨block, lower, upper⟩ := inside
      have covered := Valid.of_write stored (place.offset - pointer.offset).toNat (by omega)
      have position : pointer.advance (place.offset - pointer.offset).toNat = place := by
        cases place; cases pointer
        simp only [Pointer.advance, Pointer.mk.injEq] at *
        omega
      rw [position] at covered
      rw [covered, List.getElem?_eq_getElem (by omega)]
      rfl
    · rfl
  simp only [Valid, same]

/-- Loading a range that was just stored gives the stored bytes. -/
theorem read_write (stored : memory.write pointer bytes = some after) :
    after.read pointer bytes.length = some bytes := by
  obtain ⟨loaded, found⟩ := Valid.read_exists
    ((valid_write_iff stored).mpr (Valid.of_write stored))
  have length := length_of_read found
  have same : loaded = bytes := by
    apply List.ext_getElem?
    intro index
    by_cases inside : index < bytes.length
    · have position : (pointer.offset + index - pointer.offset).toNat = index := by omega
      rw [← byteAt_of_read found inside, byteAt_write stored]
      simp only [Pointer.advance_block, Pointer.advance_offset, position]
      exact if_pos ⟨trivial, by omega, by omega⟩
    · have outside : bytes.length ≤ index := by omega
      rw [List.getElem?_eq_none outside, List.getElem?_eq_none (by rw [length]; exact outside)]
  rw [found, same]

/-- Bytes that were loaded and are stored elsewhere begin there as they began. -/
theorem byteAt_write_read {before : Memory} (loaded : before.read query count = some bytes)
    (stored : memory.write pointer bytes = some after) (nonempty : count ≠ 0) :
    after.byteAt pointer = before.byteAt query := by
  have first := byteAt_of_read loaded (Nat.pos_of_ne_zero nonempty)
  have here : (pointer.offset - pointer.offset).toNat = 0 := by omega
  rw [byteAt_write stored, if_pos, here, ← first]
  · simp only [Int.natCast_zero, Pointer.advance_zero]
  · rw [length_of_read loaded]
    exact ⟨rfl, Int.le_refl _, by omega⟩

/-- The two ranges share no byte. -/
def Apart (first : Pointer) (firstCount : Nat) (second : Pointer) (secondCount : Nat) : Prop :=
  first.block ≠ second.block ∨ first.offset + firstCount ≤ second.offset ∨
    second.offset + secondCount ≤ first.offset

/-- The frame rule: a load outside the stored range is unchanged. -/
theorem read_write_apart (stored : memory.write pointer bytes = some after) (query : Pointer)
    (count : Nat) (apart : Apart query count pointer bytes.length) :
    after.read query count = memory.read query count := by
  apply read_congr
  intro index inside
  rw [byteAt_write stored, if_neg]
  intro given
  obtain ⟨block, lower, upper⟩ := given
  simp only [Pointer.advance_block, Pointer.advance_offset] at block lower upper
  rcases apart with different | before | beyond
  · exact different block
  · omega
  · omega

/-- The object `pointer` points to the start of consists of exactly these bytes. -/
def Object (memory : Memory) (pointer : Pointer) (content : List Byte) : Prop :=
  ∀ position : Int, memory.byteAt (pointer.advance position) =
    if 0 ≤ position then content[position.toNat]? else none

section Object

variable {content : List Byte}

theorem object_of_block {block : Nat} (live : memory.blocks[block]? = some (some content)) :
    memory.Object ⟨block, 0⟩ content := by
  intro position
  simp only [byteAt, Pointer.advance, Int.zero_add, live, Option.join_some, Option.bind_some]

/-- A load from an object succeeds exactly inside it. -/
theorem Object.read_eq_some (object : memory.Object pointer content) (position count : Nat) :
    memory.read (pointer.advance position) count = some bytes ↔
      (count = 0 ∨ position + count ≤ content.length) ∧ bytes = (content.drop position).take count := by
  induction count generalizing position bytes with
  | zero => simp [eq_comm]
  | succ count ih =>
      have here : memory.byteAt (pointer.advance position) = content[position]? := by
        rw [object position, if_pos (Int.natCast_nonneg position), Int.toNat_natCast]
      have shifted : (pointer.advance position).advance 1 = pointer.advance (position + 1 : Nat) := by
        simp
      rw [read_eq_some_succ, here, shifted]
      by_cases inside : position < content.length
      · rw [List.getElem?_eq_getElem inside, List.drop_eq_getElem_cons inside, List.take_succ_cons]
        constructor
        · intro given
          obtain ⟨byte, rest, first, tail, rfl⟩ := given
          obtain ⟨room, rfl⟩ := (ih (position + 1)).mp tail
          cases first
          exact ⟨.inr (by omega), rfl⟩
        · intro given
          obtain ⟨room, rfl⟩ := given
          exact ⟨_, _, rfl, (ih (position + 1)).mpr ⟨.inr (by omega), rfl⟩, rfl⟩
      · rw [List.getElem?_eq_none (by omega)]
        constructor
        · intro given
          obtain ⟨byte, rest, first, _⟩ := given
          contradiction
        · intro given
          obtain ⟨room, _⟩ := given
          omega

/-- The bytes at a position are these exactly when the object goes on with them there. -/
theorem Object.read_iff (object : memory.Object pointer content) (position : Nat) :
    memory.read (pointer.advance position) bytes.length = some bytes ↔
      bytes <+: content.drop position := by
  rw [object.read_eq_some, List.prefix_iff_eq_take]
  constructor
  · intro loaded
    exact loaded.2
  · intro same
    have length := congrArg List.length same
    rw [List.length_take, List.length_drop] at length
    exact ⟨by omega, same⟩

theorem Object.read_all (object : memory.Object pointer content) :
    memory.read pointer content.length = some content := by
  have whole := (object.read_eq_some 0 content.length).mpr ⟨.inr (by omega), rfl⟩
  simpa using whole

theorem Object.congr (object : memory.Object pointer content)
    (same : ∀ query : Pointer, query.block = pointer.block →
      after.byteAt query = memory.byteAt query) : after.Object pointer content := by
  intro position
  rw [same (pointer.advance position) rfl, object position]

/-- A store from the start of an object replaces its front. -/
theorem Object.overwrite (object : memory.Object pointer content)
    (stored : memory.write pointer bytes = some after) :
    after.Object pointer (bytes ++ content.drop bytes.length) := by
  intro position
  rw [byteAt_write stored, object position]
  simp only [Pointer.advance_block, Pointer.advance_offset, true_and]
  have shifted : pointer.offset + position - pointer.offset = position := by omega
  rw [shifted]
  by_cases front : 0 ≤ position ∧ position.toNat < bytes.length
  · rw [if_pos (by omega), if_pos front.1, List.getElem?_append_left front.2]
  · rw [if_neg (by omega)]
    by_cases nonnegative : 0 ≤ position
    · have later : bytes.length ≤ position.toNat := by omega
      rw [if_pos nonnegative, if_pos nonnegative, List.getElem?_append_right later,
        List.getElem?_drop, Nat.add_sub_cancel' later]
    · rw [if_neg nonnegative, if_neg nonnegative]

end Object

theorem memcpy_eq_some {destination source : Pointer} :
    memory.memcpy destination source count = some after ↔
      ∃ bytes, memory.read source count = some bytes ∧
        memory.write destination bytes = some after := by
  simp only [memcpy, bind, Option.bind_eq_some_iff]

theorem memcpy_exists {destination source : Pointer} (readable : memory.Valid source count)
    (writable : memory.Valid destination count) :
    ∃ after, memory.memcpy destination source count = some after := by
  obtain ⟨bytes, loaded⟩ := readable.read_exists
  have room : memory.Valid destination bytes.length := by rw [length_of_read loaded]; exact writable
  obtain ⟨after, stored⟩ := write_exists room
  exact ⟨after, memcpy_eq_some.mpr ⟨bytes, loaded, stored⟩⟩

theorem byteAt_malloc (size : Nat) (older : pointer.block < memory.blocks.length) :
    (memory.malloc size).2.byteAt pointer = memory.byteAt pointer := by
  simp only [malloc, byteAt, List.getElem?_append_left older]

theorem block_lt_of_byteAt (valid : (memory.byteAt pointer).isSome) :
    pointer.block < memory.blocks.length := by
  by_cases inside : pointer.block < memory.blocks.length
  · exact inside
  · simp only [byteAt, List.getElem?_eq_none (by omega : memory.blocks.length ≤ pointer.block)] at valid
    split at valid <;> simp at valid

/-- Nothing that existed in `memory` has changed. -/
def Extends (memory after : Memory) : Prop :=
  ∀ pointer : Pointer, pointer.block < memory.blocks.length →
    after.byteAt pointer = memory.byteAt pointer

theorem Extends.read (extends_ : memory.Extends after)
    (loaded : memory.read pointer count = some bytes) : after.read pointer count = some bytes := by
  rw [← loaded]
  apply read_congr
  intro index inside
  exact extends_ _ (block_lt_of_byteAt (Valid.of_read loaded index inside))

theorem Extends.refl (memory : Memory) : memory.Extends memory := fun _ _ => rfl

theorem Extends.valid (kept : memory.Extends after) (valid : memory.Valid pointer count) :
    after.Valid pointer count := by
  intro index inside
  rw [kept _ (block_lt_of_byteAt (valid index inside))]
  exact valid index inside

theorem Extends.object {content : List Byte} (kept : memory.Extends after)
    (object : memory.Object pointer content) (nonempty : 0 < content.length) :
    after.Object pointer content := by
  have first : (memory.byteAt (pointer.advance (0 : Nat))).isSome := by
    rw [object (0 : Nat), if_pos (Int.natCast_nonneg 0), Int.toNat_natCast,
      List.getElem?_eq_getElem nonempty]
    rfl
  have older := block_lt_of_byteAt first
  exact object.congr fun query same => kept query (by rw [same]; exact older)

theorem byteAt_free (freed : memory.free pointer = some after) (other : query.block ≠ pointer.block) :
    after.byteAt query = memory.byteAt query := by
  unfold free at freed
  split at freed
  · cases freed
    simp only [byteAt, List.getElem?_set_ne (Ne.symm other)]
  · contradiction

theorem free_exists (first : pointer.offset = 0) (valid : (memory.byteAt pointer).isSome) :
    ∃ after, memory.free pointer = some after := by
  have live : (memory.blocks[pointer.block]?.join).isSome := by
    cases found : memory.blocks[pointer.block]?.join with
    | none => simp [byteAt, found] at valid
    | some bytes => rfl
  exact ⟨_, by rw [free, if_pos ⟨first, live⟩]⟩

/-- Releasing a newer object keeps the older ones. -/
theorem Extends.free {origin : Memory} (kept : origin.Extends memory)
    (newer : origin.blocks.length ≤ pointer.block) (freed : memory.free pointer = some after) :
    origin.Extends after := by
  intro query older
  rw [byteAt_free freed (by omega), kept query older]

theorem extends_malloc (memory : Memory) (size : Nat) : memory.Extends (memory.malloc size).2 :=
  fun _ older => byteAt_malloc size older

/-- Stores to newer objects keep the older ones. -/
theorem Extends.write {origin : Memory} (kept : origin.Extends memory)
    (newer : origin.blocks.length ≤ pointer.block)
    (stored : memory.write pointer bytes = some after) : origin.Extends after := by
  intro place older
  rw [byteAt_write stored, if_neg (fun inside => by rw [inside.1] at older; omega)]
  exact kept place older

theorem valid_malloc (size : Nat) :
    (memory.malloc size).2.Valid (memory.malloc size).1 size := by
  intro index inside
  simp [malloc, byteAt, inside]

end Memory

end Dwadelib
