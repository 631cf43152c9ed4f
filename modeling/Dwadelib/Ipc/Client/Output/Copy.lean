import Dwadelib.Ipc.Client.Output

namespace Dwadelib.Ipc.Client

/-! # What copying an output parameter by its union copies

A value is copied whole. Of a reference the size is copied, and from the pointer on as many
bytes of the arrays as it refers to.
-/

section Copy

variable {memory after : Memory} {destination source : Pointer} {paramTypes : UInt32}
  {index size count : Nat} {sizes : Nat → Nat}

/-- The places of an array that the copy of parameter `index` writes. -/
def outPlaces (paramTypes : UInt32) (size index : Nat) (place : Int) : Prop :=
  (isValueOut (paramTypeGet paramTypes index) = true ∧
    (paramSize * index : Nat) ≤ place ∧ place < (paramSize * index : Nat) + paramSize) ∨
  (isMemrefOut (paramTypeGet paramTypes index) = true ∧
    (((paramSize * index : Nat) + 8 ≤ place ∧ place < (paramSize * index : Nat) + 8 + uint32Size) ∨
      ((paramSize * index : Nat) ≤ place ∧ place < (paramSize * index : Nat) + size)))

/-- The places that the copies of the first parameters write. -/
def outPlacesBelow (paramTypes : UInt32) (sizes : Nat → Nat) (count : Nat) (place : Int) : Prop :=
  ∃ index < count, outPlaces paramTypes (sizes index) index place

/-- The reference `index` of the array refers to this many bytes. -/
def Sized (memory : Memory) (params : Pointer) (index size : Nat) : Prop :=
  ∃ word, memory.loadUInt32 (memrefSizeAt params index) = some word ∧ word.toNat = size

theorem Sized.toNat_eq {word : UInt32} (sized : Sized memory source index size)
    (loaded : memory.loadUInt32 (memrefSizeAt source index) = some word) : word.toNat = size := by
  obtain ⟨known, held, length⟩ := sized
  cases held.symm.trans loaded
  exact length

theorem Sized.congr (sized : Sized memory source index size)
    (same : ∀ query : Pointer, query.block = source.block → after.byteAt query = memory.byteAt query) :
    Sized after source index size := by
  obtain ⟨word, loaded, length⟩ := sized
  refine ⟨word, ?_, length⟩
  rw [← loaded]
  apply Memory.loadUInt32_congr
  apply Memory.read_congr
  intro shift _
  exact same _ rfl

theorem outPlaces_value {place : Int} (value : isValueOut (paramTypeGet paramTypes index) = true) :
    outPlaces paramTypes size index place ↔
      (paramSize * index : Nat) ≤ place ∧ place < (paramSize * index : Nat) + paramSize := by
  have notMemref : isMemrefOut (paramTypeGet paramTypes index) = false := by
    cases memref : isMemrefOut (paramTypeGet paramTypes index) with
    | false => rfl
    | true =>
        rw [isValueOut_eq_false_of_isMemrefOut memref] at value
        contradiction
  simp only [outPlaces, value, notMemref, true_and, Bool.false_eq_true, false_and, or_false]

theorem outPlaces_memref {place : Int} (memref : isMemrefOut (paramTypeGet paramTypes index) = true) :
    outPlaces paramTypes size index place ↔
      ((paramSize * index : Nat) + 8 ≤ place ∧ place < (paramSize * index : Nat) + 8 + uint32Size) ∨
        ((paramSize * index : Nat) ≤ place ∧ place < (paramSize * index : Nat) + size) := by
  have notValue := isValueOut_eq_false_of_isMemrefOut memref
  simp only [outPlaces, memref, notValue, true_and, Bool.false_eq_true, false_and, false_or]

theorem outPlaces_skipped {place : Int} (notValue : ¬ isValueOut (paramTypeGet paramTypes index) = true)
    (notMemref : ¬ isMemrefOut (paramTypeGet paramTypes index) = true) :
    ¬ outPlaces paramTypes size index place := by
  simp only [outPlaces, notValue, notMemref, Bool.false_eq_true, false_and, or_self,
    not_false_eq_true]

/-- While nothing is referred to, a parameter is written by its own copy only, and its pointer
by none. -/
theorem outPlaces_slot {other : Nat} {place : Int}
    (nothing : isMemrefOut (paramTypeGet paramTypes other) = true → size = 0)
    (lower : (paramSize * index : Nat) ≤ place) (upper : place < (paramSize * index : Nat) + paramSize)
    (picked : outPlaces paramTypes size other place) :
    other = index ∧ (isValueOut (paramTypeGet paramTypes index) = true ∨
      (isMemrefOut (paramTypeGet paramTypes index) = true ∧ (paramSize * index : Nat) + 8 ≤ place)) := by
  simp only [paramSize] at lower upper ⊢
  by_cases value : isValueOut (paramTypeGet paramTypes other) = true
  · rw [outPlaces_value value] at picked
    have same : other = index := by
      simp only [paramSize] at picked
      omega
    exact ⟨same, .inl (same ▸ value)⟩
  · by_cases memref : isMemrefOut (paramTypeGet paramTypes other) = true
    · rw [outPlaces_memref memref, nothing memref] at picked
      simp only [paramSize, uint32Size] at picked
      have same : other = index := by omega
      exact ⟨same, .inr ⟨same ▸ memref, by omega⟩⟩
    · exact absurd picked (outPlaces_skipped value memref)

theorem copyParamOut_value (value : isValueOut (paramTypeGet paramTypes index) = true) :
    copyParamOut destination source paramTypes index memory =
      memory.memcpy (paramAt destination index) (paramAt source index) paramSize := by
  simp only [copyParamOut, if_pos value]

theorem copyParamOut_memref (memref : isMemrefOut (paramTypeGet paramTypes index) = true) :
    copyParamOut destination source paramTypes index memory = some after ↔
      ∃ size middle again, memory.loadUInt32 (memrefSizeAt source index) = some size ∧
        memory.storeUInt32 (memrefSizeAt destination index) size = some middle ∧
        middle.loadUInt32 (memrefSizeAt source index) = some again ∧
        middle.memcpy (paramAt destination index) (paramAt source index) again.toNat = some after := by
  have notValue := isValueOut_eq_false_of_isMemrefOut memref
  simp only [copyParamOut, notValue, Bool.false_eq_true, if_false, if_pos memref, bind,
    Option.bind_eq_some_iff]
  constructor
  · intro completed
    obtain ⟨size, sized, middle, stored, again, resized, copied⟩ := completed
    exact ⟨size, middle, again, sized, stored, resized, copied⟩
  · intro completed
    obtain ⟨size, middle, again, sized, stored, resized, copied⟩ := completed
    exact ⟨size, sized, middle, stored, again, resized, copied⟩

theorem copyParamOut_skipped (notValue : ¬ isValueOut (paramTypeGet paramTypes index) = true)
    (notMemref : ¬ isMemrefOut (paramTypeGet paramTypes index) = true) :
    copyParamOut destination source paramTypes index memory = some memory := by
  simp only [copyParamOut, if_neg notValue, if_neg notMemref]

/-- A size is kept by a store into another array. -/
theorem loadUInt32_storeUInt32_apart {word stored : UInt32} (apart : source.block ≠ destination.block)
    (sized : memory.loadUInt32 (memrefSizeAt source index) = some word)
    (storing : memory.storeUInt32 (memrefSizeAt destination index) stored = some after) :
    after.loadUInt32 (memrefSizeAt source index) = some word := by
  rw [← sized]
  exact Memory.loadUInt32_congr (Memory.read_write_apart storing _ _ (.inl apart))

theorem storeSize_exists (writable : memory.Valid destination (paramSize * numParams))
    (known : index < numParams) (word : UInt32) :
    ∃ middle, memory.storeUInt32 (memrefSizeAt destination index) word = some middle := by
  have within : paramSize * index + 8 + uint32Size ≤ paramSize * numParams := by
    simp only [paramSize, numParams, uint32Size] at known ⊢
    omega
  have room := writable.sub within
  rw [Int.natCast_add, ← Pointer.advance_advance] at room
  exact Memory.write_exists room

theorem storeSize_copied {word : UInt32}
    (loaded : memory.loadUInt32 (memrefSizeAt source index) = some word)
    (stored : memory.storeUInt32 (memrefSizeAt destination index) word = some after) :
    Memory.Copied memory after destination source fun place =>
      (paramSize * index : Nat) + 8 ≤ place ∧ place < (paramSize * index : Nat) + 8 + uint32Size := by
  have moved : memory.memcpy (destination.advance (paramSize * index + 8 : Nat))
      (source.advance (paramSize * index + 8 : Nat)) uint32Size = some after := by
    rw [Int.natCast_add, ← Pointer.advance_advance, ← Pointer.advance_advance]
    exact Memory.memcpy_of_load_store loaded stored
  apply (Memory.Copied.of_memcpy moved).congr
  intro place
  rw [Int.natCast_add]
  rfl

/-- What a completed copy writes, and that a reference was readable at its place. -/
theorem copyParamOut_copied (apart : source.block ≠ destination.block)
    (sized : isMemrefOut (paramTypeGet paramTypes index) = true → Sized memory source index size)
    (completed : copyParamOut destination source paramTypes index memory = some after) :
    Memory.Copied memory after destination source (outPlaces paramTypes size index) ∧
      (isMemrefOut (paramTypeGet paramTypes index) = true →
        memory.Valid (paramAt source index) size) := by
  by_cases value : isValueOut (paramTypeGet paramTypes index) = true
  · have notMemref : ¬ isMemrefOut (paramTypeGet paramTypes index) = true := by
      intro memref
      rw [isValueOut_eq_false_of_isMemrefOut memref] at value
      contradiction
    rw [copyParamOut_value value] at completed
    exact ⟨(Memory.Copied.of_memcpy completed).congr fun place => (outPlaces_value value).symm,
      fun memref => absurd memref notMemref⟩
  · by_cases memref : isMemrefOut (paramTypeGet paramTypes index) = true
    · obtain ⟨word, middle, again, loaded, stored, reloaded, copying⟩ :=
        (copyParamOut_memref memref).mp completed
      rw [loadUInt32_storeUInt32_apart apart loaded stored] at reloaded
      cases reloaded
      rw [(sized memref).toNat_eq loaded] at copying
      have both := (storeSize_copied loaded stored).trans (Memory.Copied.of_memcpy copying) apart
      refine ⟨both.congr fun place => (outPlaces_memref memref).symm, fun _ => ?_⟩
      obtain ⟨bytes, read, _⟩ := Memory.memcpy_eq_some.mp copying
      exact (Memory.valid_write_iff stored).mp (Memory.Valid.of_read read)
    · rw [copyParamOut_skipped value memref] at completed
      cases completed
      exact ⟨(Memory.Copied.none memory destination source).congr fun place =>
          (iff_of_false id (outPlaces_skipped value memref)),
        fun isMemref => absurd isMemref memref⟩

theorem copyParamOut_exists (apart : source.block ≠ destination.block)
    (readable : memory.Valid source (paramSize * numParams))
    (writable : memory.Valid destination (paramSize * numParams)) (known : index < numParams)
    (sized : isMemrefOut (paramTypeGet paramTypes index) = true → Sized memory source index size)
    (room : isMemrefOut (paramTypeGet paramTypes index) = true →
      paramSize * index + size ≤ paramSize * numParams) :
    ∃ after, copyParamOut destination source paramTypes index memory = some after := by
  by_cases value : isValueOut (paramTypeGet paramTypes index) = true
  · rw [copyParamOut_value value]
    exact Memory.memcpy_exists (valid_param readable known) (valid_param writable known)
  · by_cases memref : isMemrefOut (paramTypeGet paramTypes index) = true
    · obtain ⟨word, loaded, length⟩ := sized memref
      obtain ⟨middle, stored⟩ := storeSize_exists writable known word
      obtain ⟨after, copied⟩ := Memory.memcpy_exists
        (((Memory.valid_write_iff stored).mpr readable).sub (room memref))
        (((Memory.valid_write_iff stored).mpr writable).sub (room memref))
      exact ⟨after, (copyParamOut_memref memref).mpr ⟨word, middle, word, loaded, stored,
        loadUInt32_storeUInt32_apart apart loaded stored, by rw [length]; exact copied⟩⟩
    · exact ⟨memory, copyParamOut_skipped value memref⟩

theorem outPlacesBelow_inside {place : Int} (known : count ≤ numParams)
    (room : ∀ index < count, isMemrefOut (paramTypeGet paramTypes index) = true →
      paramSize * index + sizes index ≤ paramSize * numParams)
    (picked : outPlacesBelow paramTypes sizes count place) :
    0 ≤ place ∧ place < (paramSize * numParams : Nat) := by
  obtain ⟨index, counted, picked⟩ := picked
  have reaches := room index counted
  simp only [paramSize, numParams] at reaches known ⊢
  by_cases value : isValueOut (paramTypeGet paramTypes index) = true
  · rw [outPlaces_value value] at picked
    simp only [paramSize] at picked
    omega
  · by_cases memref : isMemrefOut (paramTypeGet paramTypes index) = true
    · rw [outPlaces_memref memref] at picked
      have bound := reaches memref
      simp only [paramSize, uint32Size] at picked
      omega
    · exact absurd picked (outPlaces_skipped value memref)

theorem read_value_of_copied
    (copied : Memory.Copied memory after destination source (outPlacesBelow paramTypes sizes count))
    (counted : index < count) (value : isValueOut (paramTypeGet paramTypes index) = true) :
    after.read (paramAt destination index) paramSize = memory.read (paramAt source index) paramSize :=
  copied.read_inside fun shift inside =>
    ⟨index, counted, (outPlaces_value value).mpr ⟨by omega, by omega⟩⟩

theorem loadUInt32_size_eq {places : Int → Prop}
    (copied : Memory.Copied memory after destination source places)
    (picked : ∀ place : Int, (paramSize * index : Nat) + 8 ≤ place →
      place < (paramSize * index : Nat) + 8 + uint32Size → places place) :
    after.loadUInt32 (memrefSizeAt destination index) = memory.loadUInt32 (memrefSizeAt source index) := by
  have same : after.read (destination.advance (paramSize * index + 8 : Nat)) uint32Size =
      memory.read (source.advance (paramSize * index + 8 : Nat)) uint32Size :=
    copied.read_inside fun shift inside => picked _ (by omega) (by omega)
  rw [Int.natCast_add, ← Pointer.advance_advance, ← Pointer.advance_advance] at same
  simp only [Memory.loadUInt32]
  exact congrArg (Option.bind · Byte.decodeUInt32) same

/-- While nothing is referred to, the copy of a parameter keeps the pointers. -/
theorem read_pointer_kept {other : Nat}
    (copied : Memory.Copied memory after destination source (outPlaces paramTypes 0 other))
    (memref : isMemrefOut (paramTypeGet paramTypes index) = true) :
    after.read (paramAt destination index) 8 = memory.read (paramAt destination index) 8 := by
  apply copied.read_kept
  intro shift inside picked
  have lower : ((paramSize * index : Nat) : Int) ≤ (paramSize * index : Nat) + shift := by omega
  have upper : ((paramSize * index : Nat) : Int) + shift < (paramSize * index : Nat) + paramSize := by
    simp only [paramSize]
    omega
  rcases (outPlaces_slot (fun _ => rfl) lower upper picked).2 with value | ⟨_, beyond⟩
  · rw [isValueOut_eq_false_of_isMemrefOut memref] at value
    contradiction
  · omega

/-- While nothing is referred to, the copy of a parameter keeps the sizes of the others. -/
theorem loadUInt32_size_kept {other : Nat}
    (copied : Memory.Copied memory after destination source (outPlaces paramTypes 0 other))
    (different : index ≠ other) :
    after.loadUInt32 (memrefSizeAt destination index) = memory.loadUInt32 (memrefSizeAt destination index) := by
  apply Memory.loadUInt32_congr
  apply Memory.read_congr
  intro shift inside
  rw [memrefSizeAt, paramAt, Pointer.advance_advance, Pointer.advance_advance]
  have lower : ((paramSize * index : Nat) : Int) ≤ (paramSize * index : Nat) + (8 + shift) := by omega
  have upper : ((paramSize * index : Nat) : Int) + (8 + shift) < (paramSize * index : Nat) + paramSize := by
    simp only [paramSize]
    omega
  exact copied.kept fun picked => different (outPlaces_slot (fun _ => rfl) lower upper picked).1.symm

/-- The copy of a reference copies its size. -/
theorem loadUInt32_size_copied {size : Nat}
    (copied : Memory.Copied memory after destination source (outPlaces paramTypes size index))
    (memref : isMemrefOut (paramTypeGet paramTypes index) = true) :
    after.loadUInt32 (memrefSizeAt destination index) = memory.loadUInt32 (memrefSizeAt source index) :=
  loadUInt32_size_eq copied fun _ lower upper => (outPlaces_memref memref).mpr (.inl ⟨lower, upper⟩)

theorem loadUInt32_size_of_copied
    (copied : Memory.Copied memory after destination source (outPlacesBelow paramTypes sizes count))
    (counted : index < count) (memref : isMemrefOut (paramTypeGet paramTypes index) = true) :
    after.loadUInt32 (memrefSizeAt destination index) = memory.loadUInt32 (memrefSizeAt source index) :=
  loadUInt32_size_eq copied fun _ lower upper =>
    ⟨index, counted, (outPlaces_memref memref).mpr (.inl ⟨lower, upper⟩)⟩

theorem Sized.copied {places : Int → Prop} (sized : Sized memory source index size)
    (copied : Memory.Copied memory after destination source places)
    (apart : source.block ≠ destination.block) : Sized after source index size := by
  apply sized.congr
  intro query inSource
  exact copied.elsewhere (by rw [inSource]; exact apart)

/-- A completed loop has copied all its places, and every reference was readable. -/
theorem copyParamsOut_copied (apart : source.block ≠ destination.block)
    (sized : ∀ index < count, isMemrefOut (paramTypeGet paramTypes index) = true →
      Sized memory source index (sizes index))
    (completed : forRange 0 count (copyParamOut destination source paramTypes) memory = some after) :
    Memory.Copied memory after destination source (outPlacesBelow paramTypes sizes count) ∧
      ∀ index < count, isMemrefOut (paramTypeGet paramTypes index) = true →
        memory.Valid (paramAt source index) (sizes index) := by
  have start : Memory.Copied memory memory destination source (outPlacesBelow paramTypes sizes 0) :=
    (Memory.Copied.none memory destination source).congr fun place => by simp [outPlacesBelow]
  have looped := forRange_invariant
    (fun position state => Memory.Copied memory state destination source
        (outPlacesBelow paramTypes sizes position) ∧
      ∀ index < position, isMemrefOut (paramTypeGet paramTypes index) = true →
        memory.Valid (paramAt source index) (sizes index))
    (fun position state next _ upper held step => by
      obtain ⟨copied, readable⟩ := held
      obtain ⟨now, here⟩ := copyParamOut_copied apart
        (fun memref => (sized position (by omega) memref).copied copied apart) step
      refine ⟨(copied.trans now apart).congr fun place => ?_, fun index before memref => ?_⟩
      · rw [outPlacesBelow, outPlacesBelow, Nat.exists_lt_succ_right]
      · rcases Nat.lt_succ_iff_lt_or_eq.mp before with earlier | last
        · exact readable index earlier memref
        · subst last
          intro shift inside
          have unchanged : state.byteAt ((paramAt source index).advance shift) =
              memory.byteAt ((paramAt source index).advance shift) := copied.elsewhere apart
          rw [← unchanged]
          exact here memref shift inside)
    ⟨start, fun index before => absurd before (Nat.not_lt_zero index)⟩ completed
  simpa using looped

/-- The loop completes where every reference stays inside the arrays. The body may differ from
the copy where the loop does not get to. -/
theorem copyParamsOut_exists {body : Nat → Memory → Option Memory}
    (apart : source.block ≠ destination.block)
    (readable : memory.Valid source (paramSize * numParams))
    (writable : memory.Valid destination (paramSize * numParams)) (known : count ≤ numParams)
    (sized : ∀ index < count, isMemrefOut (paramTypeGet paramTypes index) = true →
      Sized memory source index (sizes index))
    (room : ∀ index < count, isMemrefOut (paramTypeGet paramTypes index) = true →
      paramSize * index + sizes index ≤ paramSize * numParams)
    (same : ∀ index state, index < count → state.Valid source (paramSize * numParams) →
      state.Valid destination (paramSize * numParams) →
      (isMemrefOut (paramTypeGet paramTypes index) = true → Sized state source index (sizes index)) →
      body index state = copyParamOut destination source paramTypes index state) :
    ∃ final, forRange 0 count body memory = some final ∧
      Memory.Copied memory final destination source (outPlacesBelow paramTypes sizes count) := by
  apply Memory.forRange_copied apart
  intro index state counted copied
  have inside : ∀ place, outPlacesBelow paramTypes sizes index place →
      (memory.byteAt (source.advance place)).isSome := by
    intro place picked
    obtain ⟨lower, upper⟩ := outPlacesBelow_inside (by omega) (fun earlier before =>
      room earlier (by omega)) picked
    exact readable.place lower upper
  have sizedNow : isMemrefOut (paramTypeGet paramTypes index) = true →
      Sized state source index (sizes index) := fun memref =>
    (sized index counted memref).copied copied apart
  have readableNow := copied.valid inside readable
  have writableNow := copied.valid inside writable
  obtain ⟨next, taken⟩ := copyParamOut_exists apart readableNow writableNow
    (by omega) sizedNow (room index counted)
  refine ⟨next, ?_, (copyParamOut_copied apart sizedNow taken).1⟩
  rw [same index state counted readableNow writableNow sizedNow]
  exact taken

/-- The places that copies for the references of the reply write. -/
def repliedPlaces (paramTypes : UInt32) (reply : Message) : Int → Prop :=
  outPlacesBelow paramTypes (replySize reply) (getParamCount paramTypes)

theorem Prepared.sized {arrays : Arrays} {reply : Message}
    (prepared : Prepared memory after arrays paramTypes reply) :
    ∀ index < getParamCount paramTypes, isMemrefOut (paramTypeGet paramTypes index) = true →
      Sized after arrays.params index (replySize reply index) := by
  intro index counted memref
  obtain ⟨bytes, size, _, placed, sized, length, _⟩ := prepared.memref index counted memref
  exact ⟨size, sized, by rw [replySize_eq placed, length]⟩

end Copy

end Dwadelib.Ipc.Client
