import Dwadelib.Ipc.Convert.Bounds

namespace Dwadelib.Ipc

/-! # The encoder's two passes

The size pass adds in an `int`, the copy pass writes the full lengths. The writes stay in
the allocated buffer, and end where it ends, exactly when the sum did not wrap on its way
to the size that was allocated.
-/

/-- What one iteration of the copy pass writes to the buffer. -/
def copyParamWrites (params : Pointer) (paramTypes : UInt32) (index : Nat) (cursor : Cursor) :
    List Extent :=
  let paramType := paramTypeGet paramTypes index
  if isValue paramType then
    [⟨cursor.pos, paramSize⟩]
  else if isMemref paramType then
    match cursor.memory.loadUInt32 (memrefSizeAt params index) with
    | some memrefSize =>
        [⟨cursor.pos, uint32Size⟩, ⟨CInt.convert (cursor.pos + uint32Size), memrefSize.toNat⟩]
    | none => [⟨cursor.pos, uint32Size⟩]
  else
    []

/-- The outcome of `ipc_convert_param`, with the writes of its copy pass and the final `pos`. -/
structure ConvertedParam where
  memory : Memory
  result : Option (Pointer × Int)
  writes : List Extent
  pos : Int

/-- `ipc_convert_param` together with everything it writes to the buffer. -/
def ipcConvertParamTraced (memory : Memory) (cmdId : UInt32) (params : Pointer)
    (paramTypes : UInt32) (mallocSucceeds : Bool) : Option ConvertedParam := do
  let count := getParamCount paramTypes
  let size ← forRange 0 count (addParamSize memory params paramTypes) (uint32Size + uint32Size : Nat)
  if mallocSucceeds && decide (0 ≤ size) then
    let (buff, memory) := memory.malloc size.toNat
    let memory ← memory.write buff (Byte.encodeUInt32 cmdId)
    let memory ← memory.write (buff.advance uint32Size) (Byte.encodeUInt32 paramTypes)
    let (filled, writes) ← forRangeTraced 0 count (copyParam buff params paramTypes)
      (copyParamWrites params paramTypes) { memory, pos := (uint32Size + uint32Size : Nat) }
    return { memory := filled.memory, result := some (buff, size), pos := filled.pos,
             writes := ⟨0, uint32Size⟩ :: ⟨uint32Size, uint32Size⟩ :: writes }
  else
    return { memory, result := none, writes := [], pos := 0 }

/-- When a buffer comes back, every write was inside the size it was allocated with, and the
final position is that size. -/
def PassesAgree (memory : Memory) (cmdId : UInt32) (params : Pointer) (paramTypes : UInt32)
    (mallocSucceeds : Bool) : Prop :=
  ∃ converted, ipcConvertParamTraced memory cmdId params paramTypes mallocSucceeds = some converted ∧
    ∀ buff size, converted.result = some (buff, size) →
      (∀ extent ∈ converted.writes, extent.Within size) ∧ converted.pos = size

section Passes

variable {memory after : Memory} {params buff : Pointer} {cmdId paramTypes : UInt32}
  {index start count total : Nat} {size : Int} {payload : Payload} {payloads : List Payload}
  {message : Message} {written bytes : List Byte} {cursor next final : Cursor}
  {mallocSucceeds : Bool}

/-- Nothing of the object is behind its first `total` bytes. -/
def Limited (memory : Memory) (buff : Pointer) (total : Nat) : Prop :=
  ∀ place : Nat, total ≤ place → memory.byteAt (buff.advance place) = none

theorem Limited.malloc (memory : Memory) (total : Nat) :
    Limited (memory.malloc total).2 (memory.malloc total).1 total := by
  intro place behind
  simp [Memory.malloc, Memory.byteAt, Pointer.advance, behind]

theorem Limited.write (limited : Limited memory buff total) {pointer : Pointer}
    (stored : memory.write pointer bytes = some after) : Limited after buff total := by
  intro place behind
  have outside := limited place behind
  have same : after.Valid (buff.advance place) 1 ↔ memory.Valid (buff.advance place) 1 :=
    Memory.valid_write_iff stored
  cases found : after.byteAt (buff.advance place) with
  | none => rfl
  | some byte =>
      have valid := same.mp (by
        intro shift first
        have here : shift = 0 := by omega
        simp [here, found])
      have first := valid 0 (by decide)
      simp [outside] at first

theorem Limited.room (limited : Limited memory buff total) {position : Nat}
    (stored : memory.write (buff.advance position) bytes = some after) (begins : position ≤ total) :
    position + bytes.length ≤ total := by
  by_cases fits : position + bytes.length ≤ total
  · exact fits
  · have covered := Memory.Valid.of_write stored (total - position) (by omega)
    have place : (buff.advance position).advance (total - position : Nat) = buff.advance total := by
      rw [Pointer.advance_advance]
      congr 1
      omega
    rw [place, limited total (Nat.le_refl total)] at covered
    contradiction

theorem Limited.copyParam (limited : Limited cursor.memory buff total)
    (copied : copyParam buff params paramTypes index cursor = some next) :
    Limited next.memory buff total := by
  by_cases value : isValue (paramTypeGet paramTypes index) = true
  · obtain ⟨bytes, after, _, stored, rfl⟩ := (copyParam_value value).mp copied
    exact limited.write stored
  · by_cases memref : isMemref (paramTypeGet paramTypes index) = true
    · obtain ⟨_, sized, _, _, _, after, _, sizeStored, _, _, _, stored, rfl⟩ :=
        (copyParam_memref memref).mp copied
      exact (limited.write sizeStored).write stored
    · simp only [Bool.not_eq_true] at value memref
      simp only [Ipc.copyParam, value, memref, Bool.false_eq_true, if_false, Option.some.injEq] at copied
      rw [← copied]
      exact limited

/-- An iteration completes only where its payload fits. -/
theorem copyParam_fits (encoding : Encoding memory buff total written cursor)
    (limited : Limited cursor.memory buff total) (begins : written.length ≤ total)
    (newer : memory.blocks.length ≤ buff.block) (bounded : total < 2147483648)
    (held : readPayload memory params paramTypes index = some payload)
    (copied : copyParam buff params paramTypes index cursor = some next) :
    written.length + payload.encodedSize ≤ total := by
  by_cases value : isValue (paramTypeGet paramTypes index) = true
  · obtain ⟨union, _, rfl⟩ := (readPayload_value value).mp held
    obtain ⟨bytes, after, loaded, stored, _⟩ := (copyParam_value value).mp copied
    rw [encoding.pos] at stored
    have fits := limited.room stored begins
    rwa [Memory.length_of_read loaded] at fits
  · by_cases memref : isMemref (paramTypeGet paramTypes index) = true
    · obtain ⟨memrefSize, address, bytes, sized, _, loaded, rfl⟩ := (readPayload_memref memref).mp held
      obtain ⟨header, middle, size, _, others, after, headerLoaded, headerStored, sizeLoaded, _,
        through, stored, _⟩ := (copyParam_memref memref).mp copied
      rw [encoding.pos] at headerStored stored
      have headed := limited.room headerStored begins
      rw [Memory.length_of_read headerLoaded] at headed
      simp only [uint32Size] at headed
      have behind : CInt.convert ((written.length : Int) + uint32Size) = (written.length + 4 : Nat) := by
        rw [CInt.convert_eq (by simp only [uint32Size]; omega) (by simp only [uint32Size]; omega)]
        rfl
      rw [behind] at stored
      have fits := (limited.write headerStored).room stored headed
      cases ((encoding.kept.write (by exact newer) headerStored).loadUInt32 sized).symm.trans sizeLoaded
      rw [Memory.length_of_readThrough through] at fits
      simp only [Payload.encodedSize, Memory.length_of_readThrough loaded, uint32Size]
      omega
    · simp only [Bool.not_eq_true] at value memref
      rw [readPayload_skipped value memref] at held
      cases held
      exact begins

theorem copyPass_fits (encoding : Encoding memory buff total written cursor)
    (limited : Limited cursor.memory buff total) (begins : written.length ≤ total)
    (newer : memory.blocks.length ≤ buff.block) (bounded : total < 2147483648)
    (held : readPayloads memory params paramTypes start count = some payloads)
    (copied : forRange start count (copyParam buff params paramTypes) cursor = some final) :
    written.length + (payloads.map Payload.encodedSize).sum ≤ total := by
  induction count generalizing start payloads written cursor with
  | zero =>
      cases held
      exact begins
  | succ count ih =>
      obtain ⟨payload, rest, first, others, rfl⟩ := readPayloads_eq_some_succ.mp held
      obtain ⟨next, taken, looped⟩ := forRange_succ_eq_some.mp copied
      have fits := copyParam_fits encoding limited begins newer bounded first taken
      have width := payloadFormat_encode_length (payload_valid first)
      obtain ⟨same, found, extended⟩ := copyParam_exists encoding newer bounded first
        (by rw [width]; exact fits)
      cases taken.symm.trans found
      have tail := ih extended (limited.copyParam taken)
        (by rw [List.length_append, width]; exact fits) others looped
      rw [List.length_append, width] at tail
      simp only [List.map_cons, List.sum_cons]
      omega

/-- Where its payload fits, an iteration writes inside the buffer. -/
theorem copyParamWrites_within (encoding : Encoding memory buff total written cursor)
    (bounded : total < 2147483648)
    (held : readPayload memory params paramTypes index = some payload)
    (fits : written.length + payload.encodedSize ≤ total) :
    ∀ extent ∈ copyParamWrites params paramTypes index cursor, extent.Within total := by
  intro extent member
  by_cases value : isValue (paramTypeGet paramTypes index) = true
  · obtain ⟨union, _, rfl⟩ := (readPayload_value value).mp held
    simp only [copyParamWrites, if_pos value, List.mem_singleton, encoding.pos] at member
    rw [member]
    exact Extent.within_of_le (Int.ofNat_le.mpr fits)
  · by_cases memref : isMemref (paramTypeGet paramTypes index) = true
    · obtain ⟨memrefSize, address, bytes, sized, _, loaded, rfl⟩ := (readPayload_memref memref).mp held
      simp only [Payload.encodedSize, Memory.length_of_readThrough loaded, uint32Size] at fits
      have behind : CInt.convert ((written.length : Int) + uint32Size) = (written.length + 4 : Nat) := by
        rw [CInt.convert_eq (by simp only [uint32Size]; omega) (by simp only [uint32Size]; omega)]
        rfl
      simp only [copyParamWrites, if_neg value, if_pos memref, encoding.kept.loadUInt32 sized,
        List.mem_cons, List.not_mem_nil, or_false, encoding.pos, behind] at member
      rcases member with header | body
      · rw [header]
        exact Extent.within_of_le (by simp only [uint32Size]; omega)
      · rw [body]
        exact Extent.within_of_le (by omega)
    · simp only [copyParamWrites, if_neg value, if_neg memref] at member
      cases member

theorem copyPass_writes {writes : List Extent}
    (encoding : Encoding memory buff total written cursor)
    (newer : memory.blocks.length ≤ buff.block) (bounded : total < 2147483648)
    (held : readPayloads memory params paramTypes start count = some payloads)
    (fits : written.length + (payloads.map Payload.encodedSize).sum ≤ total)
    (copied : forRangeTraced start count (copyParam buff params paramTypes)
      (copyParamWrites params paramTypes) cursor = some (final, writes)) :
    ∀ extent ∈ writes, extent.Within total := by
  induction count generalizing start payloads written cursor writes with
  | zero =>
      cases copied
      intro extent absent
      cases absent
  | succ count ih =>
      obtain ⟨payload, rest, first, others, rfl⟩ := readPayloads_eq_some_succ.mp held
      obtain ⟨next, later, taken, looped, rfl⟩ := forRangeTraced_succ_eq_some.mp copied
      simp only [List.map_cons, List.sum_cons] at fits
      have width := payloadFormat_encode_length (payload_valid first)
      obtain ⟨same, found, extended⟩ := copyParam_exists encoding newer bounded first
        (by rw [width]; omega)
      cases taken.symm.trans found
      intro extent member
      rcases List.mem_append.mp member with now | after
      · exact copyParamWrites_within encoding bounded first (by omega) extent now
      · exact ih extended others (by rw [List.length_append, width]; omega) looped extent after

/-- Whatever the parameters are, an iteration that completes adds to what is in the buffer. -/
theorem copyParam_extends (encoding : Encoding memory buff total written cursor)
    (limited : Limited cursor.memory buff total) (begins : written.length ≤ total)
    (newer : memory.blocks.length ≤ buff.block) (bounded : total < 2147483648)
    (copied : copyParam buff params paramTypes index cursor = some next) :
    ∃ more, written.length + more.length ≤ total ∧
      Encoding memory buff total (written ++ more) next := by
  by_cases value : isValue (paramTypeGet paramTypes index) = true
  · obtain ⟨bytes, after, loaded, stored, rfl⟩ := (copyParam_value value).mp copied
    have length := Memory.length_of_read loaded
    have fits := limited.room (by rw [← encoding.pos]; exact stored) begins
    obtain ⟨found, again, extended⟩ := encoding.append newer bytes fits bounded
    cases stored.symm.trans again
    rw [length] at extended
    exact ⟨bytes, fits, extended⟩
  · by_cases memref : isMemref (paramTypeGet paramTypes index) = true
    · obtain ⟨header, sized, size, address, bytes, after, headerLoaded, headerStored, _, _, through,
        stored, rfl⟩ := (copyParam_memref memref).mp copied
      have headed := limited.room (by rw [← encoding.pos]; exact headerStored) begins
      obtain ⟨found, again, extended⟩ := encoding.append newer header headed bounded
      cases headerStored.symm.trans again
      have position := extended.pos
      rw [Memory.length_of_read headerLoaded] at extended position
      simp only at position
      have fits := (limited.write headerStored).room (by rw [← position]; exact stored)
        (by rw [List.length_append]; exact headed)
      obtain ⟨last, found, finished⟩ := extended.append newer bytes fits bounded
      cases stored.symm.trans found
      rw [Memory.length_of_readThrough through] at finished
      rw [List.length_append] at fits
      refine ⟨header ++ bytes, ?_, ?_⟩
      · rw [List.length_append]
        omega
      · rwa [← List.append_assoc]
    · simp only [Bool.not_eq_true] at value memref
      simp only [copyParam, value, memref, Bool.false_eq_true, if_false, Option.some.injEq] at copied
      rw [← copied]
      exact ⟨[], begins, by rwa [List.append_nil]⟩

theorem copyPass_extends (encoding : Encoding memory buff total written cursor)
    (limited : Limited cursor.memory buff total) (begins : written.length ≤ total)
    (newer : memory.blocks.length ≤ buff.block) (bounded : total < 2147483648)
    (copied : forRange start count (copyParam buff params paramTypes) cursor = some final) :
    ∃ more, Encoding memory buff total (written ++ more) final := by
  induction count generalizing start written cursor with
  | zero =>
      cases copied
      exact ⟨[], by rwa [List.append_nil]⟩
  | succ count ih =>
      obtain ⟨next, taken, looped⟩ := forRange_succ_eq_some.mp copied
      obtain ⟨added, fits, extended⟩ :=
        copyParam_extends encoding limited begins newer bounded taken
      obtain ⟨more, finished⟩ := ih extended (limited.copyParam taken)
        (by rw [List.length_append]; exact fits) looped
      exact ⟨added ++ more, by rwa [← List.append_assoc]⟩

/-- The two header words are stored only where there is room for them. -/
theorem header_room {first second : Memory} (bounded : total < 2147483648)
    (cmdStored : (memory.malloc total).2.write (memory.malloc total).1 (Byte.encodeUInt32 cmdId) =
      some first)
    (typesStored : first.write ((memory.malloc total).1.advance uint32Size)
      (Byte.encodeUInt32 paramTypes) = some second) :
    8 ≤ total ∧ Limited second (memory.malloc total).1 total ∧
      Encoding memory (memory.malloc total).1 total
        (Byte.encodeUInt32 cmdId ++ Byte.encodeUInt32 paramTypes)
        { memory := second, pos := (uint32Size + uint32Size : Nat) } := by
  have limited := Limited.malloc memory total
  have cmdRoom := limited.room (by simpa using cmdStored) (Nat.zero_le total)
  rw [Nat.zero_add, Byte.encodeUInt32_length] at cmdRoom
  have room := (limited.write cmdStored).room typesStored cmdRoom
  simp only [Byte.encodeUInt32_length, uint32Size] at room
  obtain ⟨same, again, cmdFound, typesFound, encoding⟩ :=
    header_written memory cmdId paramTypes (by omega) bounded
  cases cmdStored.symm.trans cmdFound
  cases typesStored.symm.trans typesFound
  exact ⟨room, (limited.write cmdStored).write typesStored, encoding⟩

/-- A negative size is allocated as little as one that `malloc` refuses. -/
theorem traced_unallocated (held : readMessage memory cmdId params paramTypes = some message)
    (refused : mallocSucceeds = false ∨ CInt.convert message.encodedSize < 0) :
    ipcConvertParamTraced memory cmdId params paramTypes mallocSucceeds =
      some { memory, result := none, writes := [], pos := 0 } := by
  have skipped : ¬ (mallocSucceeds && decide (0 ≤ CInt.convert message.encodedSize)) = true := by
    rw [Bool.and_eq_true, decide_eq_true_eq]
    intro granted
    rcases refused with failed | negative
    · exact absurd (failed.symm.trans granted.1) (by decide)
    · omega
  simp only [ipcConvertParamTraced, sizePass_message held, bind, pure, Option.bind_some]
  exact if_neg skipped

/-- A copy pass that completes in `total` bytes had a frame of at most that length. -/
theorem fits_of_traced {converted : ConvertedParam}
    (held : readMessage memory cmdId params paramTypes = some message)
    (sized : CInt.convert message.encodedSize = total) (bounded : total < 2147483648)
    (traced : ipcConvertParamTraced memory cmdId params paramTypes true = some converted) :
    message.encodedSize ≤ total := by
  have granted : (true && decide ((0 : Int) ≤ total)) = true := by simp
  have counted := sizePass_message held
  rw [sized] at counted
  obtain ⟨payloads, read, rfl⟩ := readMessage_eq_some.mp held
  simp only [ipcConvertParamTraced, counted, bind, pure, Option.bind_some, granted, if_true,
    Int.toNat_natCast, Option.bind_eq_some_iff] at traced
  obtain ⟨first, cmdStored, second, typesStored, ⟨final, writes⟩, copied, _⟩ := traced
  obtain ⟨room, limited, encoding⟩ := header_room bounded cmdStored typesStored
  have fits := copyPass_fits encoding limited
    (by simp only [List.length_append, Byte.encodeUInt32_length]; omega) (Nat.le_refl _) bounded read
    (forRange_of_traced copied)
  simpa only [Message.encodedSize, uint32Size, List.length_append, Byte.encodeUInt32_length] using fits

/-- With an allocation of `total` bytes, they agree exactly when the frame has that length. -/
theorem passesAgree_allocated (held : readMessage memory cmdId params paramTypes = some message)
    (sized : CInt.convert message.encodedSize = total) (bounded : total < 2147483648) :
    PassesAgree memory cmdId params paramTypes true ↔ message.encodedSize ≤ total := by
  constructor
  · intro agree
    obtain ⟨converted, traced, _⟩ := agree
    exact fits_of_traced held sized bounded traced
  · intro fits
    have granted : (true && decide ((0 : Int) ≤ total)) = true := by simp
    have newer : memory.blocks.length ≤ (memory.malloc total).1.block := Nat.le_refl _
    have counted := sizePass_message held
    rw [sized] at counted
    obtain ⟨payloads, read, rfl⟩ := readMessage_eq_some.mp held
    simp only [Message.encodedSize, uint32Size] at sized fits
    have length := encodeAll_length (payloads_valid read)
    obtain ⟨first, second, cmdStored, typesStored, encoding⟩ :=
      header_written memory cmdId paramTypes (by omega) bounded
    have within : (Byte.encodeUInt32 cmdId ++ Byte.encodeUInt32 paramTypes).length +
        (payloads.map Payload.encodedSize).sum ≤ total := by
      simpa only [List.length_append, Byte.encodeUInt32_length] using fits
    obtain ⟨final, copied, finished⟩ := copyPass_exists encoding newer bounded read
      (by rw [length]; exact within)
    obtain ⟨writes, traced⟩ := forRangeTraced_exists (copyParamWrites params paramTypes) copied
    refine ⟨⟨final.memory, some ((memory.malloc total).1, total),
      ⟨0, uint32Size⟩ :: ⟨uint32Size, uint32Size⟩ :: writes, final.pos⟩, ?_, ?_⟩
    · simp only [ipcConvertParamTraced, counted, bind, pure, Option.bind_some, granted, if_true,
        Int.toNat_natCast, cmdStored, typesStored, traced]
    · intro buff size found
      cases found
      refine ⟨?_, ?_⟩
      · intro extent member
        rcases List.mem_cons.mp member with cmd | member
        · rw [cmd]
          exact Extent.within_of_le (by simp only [uint32Size]; omega)
        · rcases List.mem_cons.mp member with types | body
          · rw [types]
            exact Extent.within_of_le (by simp only [uint32Size]; omega)
          · exact copyPass_writes encoding newer bounded read within traced extent body
      · have full : (4 + 4 + (payloads.map Payload.encodedSize).sum : Nat) = total := by
          rw [CInt.convert_eq (by omega) (by omega)] at sized
          omega
        rw [finished.pos, List.length_append, length]
        simp only [List.length_append, Byte.encodeUInt32_length, full]

/-- The two passes agree exactly when the frame is short of 2^32 bytes, or nothing is
allocated for it: a sum that wraps to an `int` that can be allocated is the failing case. -/
theorem passesAgree_iff (held : readMessage memory cmdId params paramTypes = some message) :
    PassesAgree memory cmdId params paramTypes mallocSucceeds ↔
      message.encodedSize < 4294967296 ∨ 2147483648 ≤ message.encodedSize % 4294967296 ∨
        mallocSucceeds = false := by
  have wrapped := CInt.convert_natCast_mod message.encodedSize
  cases mallocSucceeds with
  | false =>
      exact ⟨fun _ => .inr (.inr rfl), fun _ =>
        ⟨_, traced_unallocated held (.inl rfl), fun _ _ found => by cases found⟩⟩
  | true =>
      by_cases allocated : message.encodedSize % 4294967296 < 2147483648
      · rw [if_pos allocated] at wrapped
        rw [passesAgree_allocated held wrapped allocated]
        simp only [Bool.true_eq_false, or_false]
        omega
      · rw [if_neg allocated] at wrapped
        exact ⟨fun _ => .inr (.inl (by omega)), fun _ =>
          ⟨_, traced_unallocated held (.inr (by omega)), fun _ _ found => by cases found⟩⟩

/-- Two references to one object of these bytes. -/
private def sharing (bytes : List Byte) : Memory :=
  ⟨[some ((Byte.encodePointer ⟨1, 0⟩ ++ Byte.encodeUInt32 (UInt32.ofNat bytes.length) ++
        List.replicate 4 .undefined) ++
      (Byte.encodePointer ⟨1, 0⟩ ++ Byte.encodeUInt32 (UInt32.ofNat bytes.length) ++
        List.replicate 4 .undefined) ++ List.replicate 64 .undefined),
    some bytes]⟩

private def sharingMessage (bytes : List Byte) : Message :=
  { cmdId := cmdRequestInit, paramTypes := 0x55, payloads := [.memref bytes, .memref bytes] }

private theorem sharing_read {bytes : List Byte} (bounded : bytes.length < 4294967296) :
    readMessage (sharing bytes) cmdRequestInit ⟨0, 0⟩ 0x55 = some (sharingMessage bytes) := by
  have size : (UInt32.ofNat bytes.length).toNat = bytes.length := by
    rw [UInt32.toNat_ofNat']
    omega
  have object : (sharing bytes).Object ⟨1, 0⟩ bytes := Memory.object_of_block rfl
  have through : (sharing bytes).readThrough (some ⟨1, 0⟩) bytes.length = some bytes := by
    rw [Memory.readThrough_some, object.read_all]
  have each : ∀ index < 2, readPayload (sharing bytes) ⟨0, 0⟩ 0x55 index = some (.memref bytes) := by
    intro index known
    have memref : isMemref (paramTypeGet 0x55 index) = true := by
      have types : ∀ index < 2, isMemref (paramTypeGet 0x55 index) = true := by decide
      exact types index known
    refine (readPayload_memref memref).mpr ⟨UInt32.ofNat bytes.length, some ⟨1, 0⟩, bytes, ?_, ?_, ?_, rfl⟩
    · rw [Memory.loadUInt32_eq_some]
      rcases (show index = 0 ∨ index = 1 by omega) with rfl | rfl <;> rfl
    · rw [Memory.loadPointer_object]
      rcases (show index = 0 ∨ index = 1 by omega) with rfl | rfl <;> rfl
    · rw [size, through]
  refine readMessage_eq_some.mpr ⟨_, ?_, rfl⟩
  exact readPayloads_eq_some_succ.mpr ⟨_, _, each 0 (by decide),
    readPayloads_eq_some_succ.mpr ⟨_, _, each 1 (by decide), rfl, rfl⟩, rfl⟩

theorem passesAgree_three :
    PassesAgree (sharing [.octet 7, .octet 8, .octet 9]) cmdRequestInit ⟨0, 0⟩ 0x55 true :=
  (passesAgree_iff (sharing_read (by decide))).mpr (.inl (by decide))

private theorem sharing_wraps {bytes : List Byte} (long : bytes.length = 2147483648) :
    ¬ PassesAgree (sharing bytes) cmdRequestInit ⟨0, 0⟩ 0x55 true := by
  have size : (sharingMessage bytes).encodedSize = 4294967312 := by
    simp only [sharingMessage, Message.encodedSize, List.map_cons, List.map_nil, Payload.encodedSize,
      long, List.sum_cons, List.sum_nil, uint32Size, Nat.reduceAdd]
  have sized : CInt.convert (sharingMessage bytes).encodedSize = (16 : Nat) := by
    rw [size]
    decide
  rw [passesAgree_allocated (sharing_read (by omega)) sized (by decide), size]
  omega

private theorem long_replicate : (List.replicate 2147483648 (Byte.octet 0)).length = 2147483648 :=
  List.length_replicate

/-- Two references to 2^31 bytes: the sum wraps to sixteen. -/
theorem passes_disagree_wrapped :
    readMessage (sharing (List.replicate 2147483648 (.octet 0))) cmdRequestInit ⟨0, 0⟩ 0x55 =
        some (sharingMessage (List.replicate 2147483648 (.octet 0))) ∧
      ¬ PassesAgree (sharing (List.replicate 2147483648 (.octet 0))) cmdRequestInit ⟨0, 0⟩ 0x55
        true :=
  ⟨sharing_read (Nat.lt_of_le_of_lt (Nat.le_of_eq long_replicate) (by decide)),
    sharing_wraps long_replicate⟩

/-- The account of the writes does not change what either side's encoder does. -/
theorem ipcConvertParamTraced_result (side : Side) :
    (ipcConvertParamTraced memory cmdId params paramTypes mallocSucceeds).map
        (fun converted => (converted.memory, converted.result)) =
      side.ipcConvertParam memory cmdId params paramTypes mallocSucceeds := by
  rw [Side.ipcConvertParam_eq]
  simp only [ipcConvertParamTraced, ipcConvertParam, bind, pure, Option.map_bind, Function.comp_def]
  congr 1
  funext size
  by_cases granted : (mallocSucceeds && decide (0 ≤ size)) = true
  · simp only [if_pos granted, Option.map_bind, Function.comp_def]
    congr 1
    funext first
    congr 1
    funext second
    have looped : (forRangeTraced 0 (getParamCount paramTypes)
        (copyParam (memory.malloc size.toNat).1 params paramTypes) (copyParamWrites params paramTypes)
        { memory := second, pos := (uint32Size + uint32Size : Nat) }).map Prod.fst = _ :=
      forRangeTraced_fst
    rw [← looped, Option.bind_map]
    rfl
  · simp only [if_neg granted, Option.map_some]

/-- The size pass leaves an `int`. -/
theorem sizePass_lt
    (counted : forRange 0 count (addParamSize memory params paramTypes) (uint32Size + uint32Size : Nat) =
      some size) : size < 2147483648 := by
  refine forRange_invariant (fun _ size => size < 2147483648) ?_ (by decide) counted
  intro index size next _ _ held step
  simp only [addParamSize] at step
  split at step
  · cases step
    exact CInt.convert_lt _
  · split at step
    · obtain ⟨memrefSize, _, same⟩ := Option.bind_eq_some_iff.mp step
      cases same
      exact CInt.convert_lt _
    · cases step
      exact held

/-- A buffer that comes back begins with the command and the type word. -/
theorem converted_header
    (converted : ipcConvertParam memory cmdId params paramTypes true = some (after, some (buff, size))) :
    8 ≤ size ∧ size < 2147483648 ∧
      after.read buff 8 = some (Byte.encodeUInt32 cmdId ++ Byte.encodeUInt32 paramTypes) := by
  simp only [ipcConvertParam, bind, pure, Option.bind_eq_some_iff] at converted
  obtain ⟨size, counted, converted⟩ := converted
  split at converted
  · rename_i granted
    obtain ⟨total, rfl⟩ : ∃ total : Nat, size = total := ⟨size.toNat, by simpa using granted⟩
    have bounded : total < 2147483648 := Int.ofNat_lt.mp (sizePass_lt counted)
    simp only [Int.toNat_natCast, Option.bind_eq_some_iff, Option.some.injEq, Prod.mk.injEq] at converted
    obtain ⟨first, cmdStored, second, typesStored, final, copied, rfl, rfl, rfl⟩ := converted
    obtain ⟨room, limited, encoding⟩ := header_room bounded cmdStored typesStored
    obtain ⟨more, finished⟩ := copyPass_extends encoding limited
      (by simp only [List.length_append, Byte.encodeUInt32_length]; omega) (Nat.le_refl _) bounded copied
    have filled := finished.filled
    rw [List.length_append, Memory.read_add] at filled
    obtain ⟨front, found, rest⟩ := Option.bind_eq_some_iff.mp filled
    obtain ⟨back, _, whole⟩ := Option.bind_eq_some_iff.mp rest
    have split := List.append_inj_left (Option.some.inj whole) (Memory.length_of_read found)
    rw [split] at found
    exact ⟨by omega, by omega, found⟩
  · cases converted

/-- A buffer comes back for frames shorter than 2^31 bytes only. -/
theorem fits_of_converted {result : Pointer × Int}
    (held : readMessage memory cmdId params paramTypes = some message)
    (converted : ipcConvertParam memory cmdId params paramTypes true = some (after, some result)) :
    message.encodedSize < 2147483648 := by
  have wrapped := CInt.convert_natCast_mod message.encodedSize
  have same : _ = ipcConvertParam memory cmdId params paramTypes true :=
    ipcConvertParamTraced_result .client
  rw [converted] at same
  obtain ⟨outcome, traced, found⟩ := Option.map_eq_some_iff.mp same
  by_cases allocated : message.encodedSize % 4294967296 < 2147483648
  · rw [if_pos allocated] at wrapped
    have fits := fits_of_traced held wrapped allocated traced
    omega
  · rw [if_neg allocated] at wrapped
    have unallocated := traced_unallocated held (show true = false ∨ _ from .inr (by omega))
    cases traced.symm.trans unallocated
    cases found

theorem ipcConvertParam_unallocated (held : readMessage memory cmdId params paramTypes = some message)
    (refused : mallocSucceeds = false ∨ CInt.convert message.encodedSize < 0) :
    ipcConvertParam memory cmdId params paramTypes mallocSucceeds = some (memory, none) := by
  have same : _ = ipcConvertParam memory cmdId params paramTypes mallocSucceeds :=
    ipcConvertParamTraced_result .client
  rw [← same, traced_unallocated held refused, Option.map_some]

/-- A sum that wraps to what can be allocated ends outside of it. -/
theorem ipcConvertParam_overflows (held : readMessage memory cmdId params paramTypes = some message)
    (beyond : 4294967296 ≤ message.encodedSize)
    (allocated : message.encodedSize % 4294967296 < 2147483648) :
    ipcConvertParam memory cmdId params paramTypes true = none := by
  have wrapped := CInt.convert_natCast_mod message.encodedSize
  rw [if_pos allocated] at wrapped
  have same : _ = ipcConvertParam memory cmdId params paramTypes true :=
    ipcConvertParamTraced_result .client
  cases traced : ipcConvertParamTraced memory cmdId params paramTypes true with
  | none => rw [← same, traced, Option.map_none]
  | some converted =>
      have fits := fits_of_traced held wrapped allocated traced
      omega

end Passes

end Dwadelib.Ipc
