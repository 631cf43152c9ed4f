import Dwadelib.Memory
import Mathlib.Tactic.Ring

namespace Dwadelib

/-! # Words and pointers in memory

`uint32_t` objects are four little-endian octets. A stored pointer is eight fragments,
which read back as a pointer only together and in order: a pointer some of whose bytes
were overwritten is an address of no object.
-/

namespace Byte

def encodeUInt32 (word : UInt32) : List Byte :=
  [octet (UInt8.ofNat word.toNat), octet (UInt8.ofNat (word.toNat / 256)),
    octet (UInt8.ofNat (word.toNat / 65536)), octet (UInt8.ofNat (word.toNat / 16777216))]

/-- The integer four bytes hold; `none` unless they are all octets. -/
def decodeUInt32 : List Byte → Option UInt32
  | [octet first, octet second, octet third, octet fourth] =>
      some (UInt32.ofNat (first.toNat + 256 * second.toNat + 65536 * third.toNat +
        16777216 * fourth.toNat))
  | _ => none

@[simp] theorem encodeUInt32_length (word : UInt32) : (encodeUInt32 word).length = 4 := rfl

theorem decodeUInt32_encodeUInt32 (word : UInt32) :
    decodeUInt32 (encodeUInt32 word) = some word := by
  have bound := word.toNat_lt
  simp only [encodeUInt32, decodeUInt32, Option.some.injEq]
  apply UInt32.toNat_inj.mp
  simp only [UInt8.toNat_ofNat', UInt32.toNat_ofNat']
  omega

theorem encodeUInt32_of_decodeUInt32 {bytes : List Byte} {word : UInt32}
    (decoded : decodeUInt32 bytes = some word) : bytes = encodeUInt32 word := by
  unfold decodeUInt32 at decoded
  split at decoded
  · rename_i first second third fourth
    cases decoded
    have firstBound := first.toNat_lt
    have secondBound := second.toNat_lt
    have thirdBound := third.toNat_lt
    have fourthBound := fourth.toNat_lt
    have value : (UInt32.ofNat (first.toNat + 256 * second.toNat + 65536 * third.toNat +
        16777216 * fourth.toNat)).toNat = first.toNat + 256 * second.toNat +
          65536 * third.toNat + 16777216 * fourth.toNat := by
      rw [UInt32.toNat_ofNat']
      omega
    simp only [encodeUInt32, value, List.cons.injEq, octet.injEq, and_true]
    refine ⟨?_, ?_, ?_, ?_⟩ <;> apply UInt8.toNat_inj.mp <;> rw [UInt8.toNat_ofNat'] <;> omega
  · contradiction

/-- The bytes of a stored pointer. -/
def encodePointer (pointer : Pointer) : List Byte := (List.range 8).map (fragment pointer)

/-- The object address eight bytes hold, if they are the bytes of one pointer. -/
def decodePointer : List Byte → Option Pointer
  | fragment pointer index :: rest =>
      if fragment pointer index :: rest = encodePointer pointer then some pointer else none
  | _ => none

@[simp] theorem encodePointer_length (pointer : Pointer) : (encodePointer pointer).length = 8 := by
  simp [encodePointer]

@[simp] theorem decodePointer_encodePointer (pointer : Pointer) :
    decodePointer (encodePointer pointer) = some pointer := by
  simp [encodePointer, decodePointer, List.range, List.range.loop]

theorem encodePointer_of_decodePointer {bytes : List Byte} {pointer : Pointer}
    (decoded : decodePointer bytes = some pointer) : bytes = encodePointer pointer := by
  unfold decodePointer at decoded
  split at decoded
  · split at decoded
    · rename_i same
      cases decoded
      exact same
    · contradiction
  · contradiction

end Byte

namespace Memory

def loadUInt32 (memory : Memory) (pointer : Pointer) : Option UInt32 := do
  let bytes ← memory.read pointer 4
  Byte.decodeUInt32 bytes

def storeUInt32 (memory : Memory) (pointer : Pointer) (word : UInt32) : Option Memory :=
  memory.write pointer (Byte.encodeUInt32 word)

/-- The value of a `void *` object: `none` when its bytes are not those of one pointer. -/
def loadPointer (memory : Memory) (pointer : Pointer) : Option (Option Pointer) := do
  let bytes ← memory.read pointer 8
  return Byte.decodePointer bytes

def storePointer (memory : Memory) (pointer target : Pointer) : Option Memory :=
  memory.write pointer (Byte.encodePointer target)

/-- Load through a pointer value. An address of no object may be used for zero bytes only. -/
def readThrough (memory : Memory) (address : Option Pointer) (count : Nat) : Option (List Byte) :=
  if count = 0 then some [] else address.bind fun pointer => memory.read pointer count

/-- Store through a pointer value. -/
def writeThrough (memory : Memory) (address : Option Pointer) (bytes : List Byte) : Option Memory :=
  if bytes.length = 0 then some memory else address.bind fun pointer => memory.write pointer bytes

variable {memory after : Memory} {pointer query target : Pointer} {word : UInt32}
  {bytes : List Byte} {address : Option Pointer} {count : Nat}

theorem loadUInt32_eq_some :
    memory.loadUInt32 pointer = some word ↔
      memory.read pointer 4 = some (Byte.encodeUInt32 word) := by
  simp only [loadUInt32, bind, Option.bind_eq_some_iff]
  constructor
  · intro given
    obtain ⟨bytes, loaded, decoded⟩ := given
    rw [loaded, Byte.encodeUInt32_of_decodeUInt32 decoded]
  · intro loaded
    exact ⟨_, loaded, Byte.decodeUInt32_encodeUInt32 word⟩

theorem loadUInt32_storeUInt32 (stored : memory.storeUInt32 pointer word = some after) :
    after.loadUInt32 pointer = some word :=
  loadUInt32_eq_some.mpr (read_write stored)

theorem loadPointer_eq_some :
    memory.loadPointer pointer = some address ↔
      ∃ bytes, memory.read pointer 8 = some bytes ∧ Byte.decodePointer bytes = address := by
  simp only [loadPointer, bind, pure, Option.bind_eq_some_iff, Option.some.injEq]

theorem loadPointer_object :
    memory.loadPointer pointer = some (some target) ↔
      memory.read pointer 8 = some (Byte.encodePointer target) := by
  rw [loadPointer_eq_some]
  constructor
  · intro given
    obtain ⟨bytes, loaded, decoded⟩ := given
    rw [loaded, Byte.encodePointer_of_decodePointer decoded]
  · intro loaded
    exact ⟨_, loaded, Byte.decodePointer_encodePointer target⟩

theorem loadUInt32_congr (same : after.read pointer 4 = memory.read pointer 4) :
    after.loadUInt32 pointer = memory.loadUInt32 pointer := by
  simp only [loadUInt32, same]

theorem loadPointer_congr (same : after.read pointer 8 = memory.read pointer 8) :
    after.loadPointer pointer = memory.loadPointer pointer := by
  simp only [loadPointer, same]

theorem Valid.loadPointer_exists (valid : memory.Valid pointer 8) :
    ∃ address, memory.loadPointer pointer = some address := by
  obtain ⟨bytes, loaded⟩ := valid.read_exists
  exact ⟨_, loadPointer_eq_some.mpr ⟨bytes, loaded, rfl⟩⟩

/-- Each byte of a stored pointer tells which pointer it is. -/
theorem byteAt_of_loadPointer (loaded : memory.loadPointer pointer = some (some target)) {index : Nat}
    (inside : index < 8) : memory.byteAt (pointer.advance index) = some (.fragment target index) := by
  rw [byteAt_of_read (loadPointer_object.mp loaded) inside]
  simp only [Byte.encodePointer, List.getElem?_map, List.getElem?_range inside, Option.map_some]

theorem loadPointer_storePointer (stored : memory.storePointer pointer target = some after) :
    after.loadPointer pointer = some (some target) := by
  have loaded := read_write stored
  rw [Byte.encodePointer_length] at loaded
  exact loadPointer_object.mpr loaded

@[simp] theorem readThrough_zero : memory.readThrough address 0 = some [] := rfl

@[simp] theorem readThrough_some : memory.readThrough (some pointer) count = memory.read pointer count := by
  cases count <;> simp [readThrough]

theorem length_of_readThrough (loaded : memory.readThrough address count = some bytes) :
    bytes.length = count := by
  simp only [readThrough] at loaded
  split at loaded
  · cases loaded; symm; assumption
  · cases address with
    | none => contradiction
    | some pointer => exact length_of_read loaded

@[simp] theorem writeThrough_nil : memory.writeThrough address [] = some memory := rfl

@[simp] theorem writeThrough_some :
    memory.writeThrough (some pointer) bytes = memory.write pointer bytes := by
  cases bytes <;> simp [writeThrough]

theorem Extends.loadUInt32 (kept : memory.Extends after)
    (loaded : memory.loadUInt32 pointer = some word) : after.loadUInt32 pointer = some word :=
  loadUInt32_eq_some.mpr (kept.read (loadUInt32_eq_some.mp loaded))

theorem Extends.loadPointer (kept : memory.Extends after)
    (loaded : memory.loadPointer pointer = some address) :
    after.loadPointer pointer = some address := by
  obtain ⟨bytes, found, decoded⟩ := loadPointer_eq_some.mp loaded
  exact loadPointer_eq_some.mpr ⟨bytes, kept.read found, decoded⟩

theorem Extends.readThrough (kept : memory.Extends after)
    (loaded : memory.readThrough address count = some bytes) :
    after.readThrough address count = some bytes := by
  cases address with
  | none =>
      simp only [Memory.readThrough, Option.bind_none] at loaded ⊢
      exact loaded
  | some pointer =>
      rw [readThrough_some] at loaded ⊢
      exact kept.read loaded

end Memory

end Dwadelib
