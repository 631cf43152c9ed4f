import Dwadelib.Ipc.Convert

namespace Dwadelib.Ipc

/-! # The encoder writes the frame of what the parameters say -/

section Encode

variable {memory after : Memory} {params buff : Pointer} {cmdId paramTypes : UInt32}
  {index start count total : Nat} {size : Int} {payload : Payload} {payloads : List Payload}
  {message : Message} {written bytes : List Byte} {cursor next : Cursor}

theorem payloadFormat_encode_value (value : isValue (paramTypeGet paramTypes index) = true)
    (union : List Byte) :
    (payloadFormat (paramTypeGet paramTypes index)).encode (.value union) = union := by
  rw [payloadFormat, if_pos value, valueFormat_encode]

theorem payloadFormat_encode_memref (memref : isMemref (paramTypeGet paramTypes index) = true)
    (bytes : List Byte) :
    (payloadFormat (paramTypeGet paramTypes index)).encode (.memref bytes) =
      Byte.encodeUInt32 (UInt32.ofNat bytes.length) ++ bytes := by
  rw [payloadFormat, isValue_eq_false_of_isMemref memref, if_neg Bool.false_ne_true, if_pos memref,
    memrefFormat_encode]

theorem payloadFormat_encode_skipped (notValue : isValue (paramTypeGet paramTypes index) = false)
    (notMemref : isMemref (paramTypeGet paramTypes index) = false) (payload : Payload) :
    (payloadFormat (paramTypeGet paramTypes index)).encode payload = [] := by
  rw [payloadFormat, notValue, notMemref]
  rfl

theorem payloadFormats_succ :
    payloadFormats paramTypes start (count + 1) =
      payloadFormat (paramTypeGet paramTypes start) :: payloadFormats paramTypes (start + 1) count :=
  rfl

theorem addParamSize_wraps (held : readPayload memory params paramTypes index = some payload) :
    addParamSize memory params paramTypes index (CInt.convert size) =
      some (CInt.convert (size + payload.encodedSize)) := by
  by_cases value : isValue (paramTypeGet paramTypes index) = true
  · obtain ⟨union, _, rfl⟩ := (readPayload_value value).mp held
    simp only [addParamSize, if_pos value, CInt.convert_add]
    rfl
  · by_cases memref : isMemref (paramTypeGet paramTypes index) = true
    · obtain ⟨memrefSize, address, bytes, sized, _, loaded, rfl⟩ := (readPayload_memref memref).mp held
      have length := Memory.length_of_readThrough loaded
      simp only [addParamSize, if_neg value, if_pos memref, sized, bind, pure, Option.bind_some,
        CInt.convert_add, Payload.encodedSize, length, Int.natCast_add]
    · simp only [Bool.not_eq_true] at value memref
      rw [readPayload_skipped value memref] at held
      cases held
      simp [addParamSize, value, memref, Payload.encodedSize]

/-- The size pass finds the length of the frame modulo 2^32. -/
theorem sizePass_wraps (held : readPayloads memory params paramTypes start count = some payloads) :
    forRange start count (addParamSize memory params paramTypes) (CInt.convert size) =
      some (CInt.convert (size + (payloads.map Payload.encodedSize).sum)) := by
  induction count generalizing start payloads size with
  | zero =>
      cases held
      simp
  | succ count ih =>
      obtain ⟨payload, rest, first, others, rfl⟩ := readPayloads_eq_some_succ.mp held
      rw [forRange_succ, addParamSize_wraps first, Option.bind_some, ih others]
      simp only [List.map_cons, List.sum_cons, Int.natCast_add, Int.add_assoc]

theorem sizePass_message (held : readMessage memory cmdId params paramTypes = some message) :
    forRange 0 (getParamCount paramTypes) (addParamSize memory params paramTypes)
      (uint32Size + uint32Size : Nat) = some (CInt.convert message.encodedSize) := by
  obtain ⟨payloads, read, rfl⟩ := readMessage_eq_some.mp held
  have start : CInt.convert (uint32Size + uint32Size : Nat) = (uint32Size + uint32Size : Nat) := by decide
  rw [← start, sizePass_wraps read]
  simp only [Message.encodedSize, Int.natCast_add]

/-- The copy pass so far: `written` is in the buffer, and the caller's objects are as they were. -/
structure Encoding (memory : Memory) (buff : Pointer) (total : Nat) (written : List Byte)
    (cursor : Cursor) : Prop where
  pos : cursor.pos = written.length
  filled : cursor.memory.read buff written.length = some written
  room : cursor.memory.Valid buff total
  kept : memory.Extends cursor.memory

theorem Encoding.append (encoding : Encoding memory buff total written cursor)
    (newer : memory.blocks.length ≤ buff.block) (bytes : List Byte)
    (fits : written.length + bytes.length ≤ total) (bounded : total < 2147483648) :
    ∃ after, cursor.memory.write (buff.advance cursor.pos) bytes = some after ∧
      Encoding memory buff total (written ++ bytes)
        { memory := after, pos := CInt.convert (cursor.pos + bytes.length) } := by
  have valid : cursor.memory.Valid (buff.advance cursor.pos) bytes.length := by
    rw [encoding.pos]
    exact encoding.room.sub fits
  obtain ⟨after, stored⟩ := Memory.write_exists valid
  refine ⟨after, stored, ?_, ?_, ?_, ?_⟩
  · simp only [encoding.pos, List.length_append]
    rw [CInt.convert_eq (by omega) (by omega)]
    omega
  · have front := Memory.read_write_apart stored buff written.length
      (.inr (.inl (by simp only [Pointer.advance_offset, encoding.pos]; omega)))
    have back := Memory.read_write stored
    rw [encoding.pos] at back
    rw [List.length_append, Memory.read_add, front, encoding.filled, Option.bind_some, back]
    rfl
  · exact (Memory.valid_write_iff stored).mpr encoding.room
  · exact Memory.Extends.write encoding.kept (by simpa using newer) stored

theorem copyParam_exists (encoding : Encoding memory buff total written cursor)
    (newer : memory.blocks.length ≤ buff.block) (bounded : total < 2147483648)
    (held : readPayload memory params paramTypes index = some payload)
    (fits : written.length +
      ((payloadFormat (paramTypeGet paramTypes index)).encode payload).length ≤ total) :
    ∃ next, copyParam buff params paramTypes index cursor = some next ∧
      Encoding memory buff total
        (written ++ (payloadFormat (paramTypeGet paramTypes index)).encode payload) next := by
  by_cases value : isValue (paramTypeGet paramTypes index) = true
  · obtain ⟨union, loaded, rfl⟩ := (readPayload_value value).mp held
    rw [payloadFormat_encode_value value] at fits ⊢
    obtain ⟨after, stored, extended⟩ := encoding.append newer union fits bounded
    have copied : cursor.memory.memcpy (buff.advance cursor.pos) (paramAt params index) paramSize =
        some after := Memory.memcpy_eq_some.mpr ⟨union, encoding.kept.read loaded, stored⟩
    rw [Memory.length_of_read loaded] at extended
    exact ⟨_, by simp only [copyParam, if_pos value, copied, bind, pure, Option.bind_some], extended⟩
  · by_cases memref : isMemref (paramTypeGet paramTypes index) = true
    · obtain ⟨memrefSize, address, bytes, sized, pointed, loaded, rfl⟩ :=
        (readPayload_memref memref).mp held
      have length := Memory.length_of_readThrough loaded
      have header : UInt32.ofNat bytes.length = memrefSize := by rw [length, UInt32.ofNat_toNat]
      rw [payloadFormat_encode_memref memref, header, ← List.append_assoc] at *
      simp only [List.length_append, Byte.encodeUInt32_length] at fits
      obtain ⟨middle, sizeStored, sizeWritten⟩ := encoding.append newer
        (Byte.encodeUInt32 memrefSize) (by simp only [Byte.encodeUInt32_length]; omega) bounded
      obtain ⟨after, bytesStored, extended⟩ := sizeWritten.append newer bytes
        (by simp only [List.length_append, Byte.encodeUInt32_length]; omega) bounded
      have sizeCopied : cursor.memory.memcpy (buff.advance cursor.pos) (memrefSizeAt params index)
          uint32Size = some middle :=
        Memory.memcpy_eq_some.mpr
          ⟨_, encoding.kept.read (Memory.loadUInt32_eq_some.mp sized), sizeStored⟩
      have kept := sizeWritten.kept
      simp only [Byte.encodeUInt32_length] at bytesStored extended kept
      refine ⟨_, ?_, extended⟩
      have position : CInt.convert (cursor.pos + uint32Size) = CInt.convert (cursor.pos + (4 : Nat)) := rfl
      simp only [copyParam, if_neg value, if_pos memref, sizeCopied, kept.loadUInt32 sized,
        kept.loadPointer pointed, kept.readThrough loaded, bind, pure, Option.bind_some, position,
        bytesStored, length]
    · simp only [Bool.not_eq_true] at value memref
      rw [payloadFormat_encode_skipped value memref, List.append_nil]
      exact ⟨cursor, by simp [copyParam, value, memref], encoding⟩

theorem copyPass_exists (encoding : Encoding memory buff total written cursor)
    (newer : memory.blocks.length ≤ buff.block) (bounded : total < 2147483648)
    (held : readPayloads memory params paramTypes start count = some payloads)
    (fits : written.length +
      (Format.encodeAll (payloadFormats paramTypes start count) payloads).length ≤ total) :
    ∃ final, forRange start count (copyParam buff params paramTypes) cursor = some final ∧
      Encoding memory buff total
        (written ++ Format.encodeAll (payloadFormats paramTypes start count) payloads) final := by
  induction count generalizing start payloads written cursor with
  | zero =>
      cases held
      exact ⟨cursor, rfl, by simpa [payloadFormats, Format.encodeAll] using encoding⟩
  | succ count ih =>
      obtain ⟨payload, rest, first, others, rfl⟩ := readPayloads_eq_some_succ.mp held
      rw [payloadFormats_succ] at fits ⊢
      simp only [Format.encodeAll, List.length_append] at fits ⊢
      obtain ⟨next, copied, extended⟩ := copyParam_exists encoding newer bounded first (by omega)
      obtain ⟨final, completed, finished⟩ := ih extended others
        (by simp only [List.length_append]; omega)
      refine ⟨final, forRange_succ_eq_some.mpr ⟨next, copied, completed⟩, ?_⟩
      rwa [List.append_assoc] at finished

/-- The size pass counts the whole frame. -/
theorem sizePass_frame (held : readMessage memory cmdId params paramTypes = some message)
    (fits : message.encodedSize < 2147483648) :
    forRange 0 (getParamCount paramTypes) (addParamSize memory params paramTypes)
      (uint32Size + uint32Size : Nat) = some (message.encodedSize : Int) := by
  rw [sizePass_message held, CInt.convert_eq (by omega) (by omega)]

/-- The two header words, in a fresh buffer with room for them. -/
theorem header_written (memory : Memory) (cmdId paramTypes : UInt32) (room : 8 ≤ total)
    (bounded : total < 2147483648) :
    ∃ first second, (memory.malloc total).2.write (memory.malloc total).1 (Byte.encodeUInt32 cmdId) =
        some first ∧
      first.write ((memory.malloc total).1.advance uint32Size) (Byte.encodeUInt32 paramTypes) =
        some second ∧
      Encoding memory (memory.malloc total).1 total
        (Byte.encodeUInt32 cmdId ++ Byte.encodeUInt32 paramTypes)
        { memory := second, pos := (uint32Size + uint32Size : Nat) } := by
  have fresh : Encoding memory (memory.malloc total).1 total []
      { memory := (memory.malloc total).2, pos := 0 } :=
    ⟨rfl, rfl, Memory.valid_malloc total, Memory.extends_malloc memory total⟩
  have newer : memory.blocks.length ≤ (memory.malloc total).1.block := Nat.le_refl _
  obtain ⟨first, cmdStored, cmdWritten⟩ := fresh.append newer (Byte.encodeUInt32 cmdId)
    (by simp only [List.length_nil, Byte.encodeUInt32_length]; omega) bounded
  obtain ⟨second, typesStored, typesWritten⟩ := cmdWritten.append newer (Byte.encodeUInt32 paramTypes)
    (by simp only [List.nil_append, Byte.encodeUInt32_length]; omega) bounded
  have cmdPosition : CInt.convert (0 + ((Byte.encodeUInt32 cmdId).length : Int)) = uint32Size :=
    CInt.convert_eq (by simp) (by simp)
  have typesPosition : CInt.convert (uint32Size + ((Byte.encodeUInt32 paramTypes).length : Int)) =
      (uint32Size + uint32Size : Nat) := CInt.convert_eq (by simp [uint32Size]) (by simp [uint32Size])
  simp only [cmdPosition, typesPosition, Pointer.advance_zero, List.nil_append] at cmdStored typesStored typesWritten
  exact ⟨first, second, cmdStored, typesStored, typesWritten⟩

/-- The encoder refines the format: the buffer it returns is a fresh object that holds
exactly the frame of what the parameters say, and nothing else changes. -/
theorem ipcConvertParam_frame (held : readMessage memory cmdId params paramTypes = some message)
    (fits : message.encodedSize < 2147483648) :
    ∃ after buff, ipcConvertParam memory cmdId params paramTypes true =
        some (after, some (buff, (message.encodedSize : Int))) ∧
      buff = { block := memory.blocks.length, offset := 0 } ∧
      after.read buff message.encodedSize = some message.frame ∧ memory.Extends after := by
  have sized := sizePass_frame held fits
  have length := Message.frame_length (message_valid held)
  obtain ⟨payloads, read, rfl⟩ := readMessage_eq_some.mp held
  obtain ⟨body, encoded⟩ : ∃ body, Format.encodeAll
      (payloadFormats paramTypes 0 (getParamCount paramTypes)) payloads = body := ⟨_, rfl⟩
  have frame : Message.frame { cmdId, paramTypes, payloads } =
      Byte.encodeUInt32 cmdId ++ Byte.encodeUInt32 paramTypes ++ body := by
    rw [Message.frame_eq, ← List.append_assoc, encoded]
  obtain ⟨total, size⟩ : ∃ total,
      Message.encodedSize { cmdId, paramTypes, payloads } = total := ⟨_, rfl⟩
  rw [size] at fits sized length ⊢
  have sum : total = 8 + body.length := by
    rw [← length, frame]
    simp only [List.length_append, Byte.encodeUInt32_length]
  have newer : memory.blocks.length ≤ (memory.malloc total).1.block := Nat.le_refl _
  obtain ⟨first, second, cmdStored, typesStored, encoding⟩ :=
    header_written memory cmdId paramTypes (by omega) fits
  obtain ⟨final, copied, finished⟩ := copyPass_exists encoding newer fits read
    (by rw [encoded]; simp only [List.length_append, Byte.encodeUInt32_length]; omega)
  rw [encoded, ← frame] at finished
  have filled := finished.filled
  rw [length] at filled
  refine ⟨final.memory, (memory.malloc total).1, ?_, rfl, filled, finished.kept⟩
  simp only [ipcConvertParam, sized, bind, pure, Option.bind_some, Int.natCast_nonneg, decide_true,
    Bool.and_self, if_true, Int.toNat_natCast, cmdStored, typesStored, copied]

theorem ipcConvertParam_malloc_fails
    (held : readMessage memory cmdId params paramTypes = some message)
    (fits : message.encodedSize < 2147483648) :
    ipcConvertParam memory cmdId params paramTypes false = some (memory, none) := by
  simp only [ipcConvertParam, sizePass_frame held fits, bind, pure, Option.bind_some,
    Bool.false_and, Bool.false_eq_true, if_false]

theorem copyParam_value (value : isValue (paramTypeGet paramTypes index) = true) :
    copyParam buff params paramTypes index cursor = some next ↔
      ∃ bytes after, cursor.memory.read (paramAt params index) paramSize = some bytes ∧
        cursor.memory.write (buff.advance cursor.pos) bytes = some after ∧
        { memory := after, pos := CInt.convert (cursor.pos + paramSize) } = next := by
  simp only [copyParam, if_pos value, bind, pure, Option.bind_eq_some_iff, Memory.memcpy_eq_some,
    Option.some.injEq]
  constructor
  · intro given
    obtain ⟨after, ⟨bytes, loaded, stored⟩, same⟩ := given
    exact ⟨bytes, after, loaded, stored, same⟩
  · intro given
    obtain ⟨bytes, after, loaded, stored, same⟩ := given
    exact ⟨after, ⟨bytes, loaded, stored⟩, same⟩

theorem copyParam_memref (memref : isMemref (paramTypeGet paramTypes index) = true) :
    copyParam buff params paramTypes index cursor = some next ↔
      ∃ header sized size address bytes after,
        cursor.memory.read (memrefSizeAt params index) uint32Size = some header ∧
        cursor.memory.write (buff.advance cursor.pos) header = some sized ∧
        sized.loadUInt32 (memrefSizeAt params index) = some size ∧
        sized.loadPointer (paramAt params index) = some address ∧
        sized.readThrough address size.toNat = some bytes ∧
        sized.write (buff.advance (CInt.convert (cursor.pos + uint32Size))) bytes = some after ∧
        { memory := after, pos := CInt.convert (CInt.convert (cursor.pos + uint32Size) + size.toNat) } = next := by
  have notValue := isValue_eq_false_of_isMemref memref
  simp only [copyParam, notValue, Bool.false_eq_true, if_false, if_pos memref, bind, pure,
    Option.bind_eq_some_iff, Memory.memcpy_eq_some, Option.some.injEq]
  constructor
  · intro given
    obtain ⟨sized, ⟨header, loaded, stored⟩, size, sizeLoaded, address, pointed, bytes, through, after, written, same⟩ := given
    exact ⟨header, sized, size, address, bytes, after, loaded, stored, sizeLoaded, pointed, through,
      written, same⟩
  · intro given
    obtain ⟨header, sized, size, address, bytes, after, loaded, stored, sizeLoaded, pointed, through, written, same⟩ := given
    exact ⟨sized, ⟨header, loaded, stored⟩, size, sizeLoaded, address, pointed, bytes, through,
      after, written, same⟩

theorem copyParam_kept (newer : memory.blocks.length ≤ buff.block)
    (kept : memory.Extends cursor.memory)
    (copied : copyParam buff params paramTypes index cursor = some next) :
    memory.Extends next.memory := by
  by_cases value : isValue (paramTypeGet paramTypes index) = true
  · obtain ⟨bytes, after, _, stored, rfl⟩ := (copyParam_value value).mp copied
    exact kept.write (by exact newer) stored
  · by_cases memref : isMemref (paramTypeGet paramTypes index) = true
    · obtain ⟨_, sized, _, _, _, after, _, sizeStored, _, _, _, stored, rfl⟩ :=
        (copyParam_memref memref).mp copied
      exact (kept.write (by exact newer) sizeStored).write (by exact newer) stored
    · simp only [Bool.not_eq_true] at value memref
      simp only [copyParam, value, memref, Bool.false_eq_true, if_false, Option.some.injEq] at copied
      rw [← copied]
      exact kept

/-- Whatever it is given, the encoder changes nothing that existed, and a buffer it returns
is a new object. -/
theorem ipcConvertParam_kept {mallocSucceeds : Bool} {result : Option (Pointer × Int)}
    (converted : ipcConvertParam memory cmdId params paramTypes mallocSucceeds =
      some (after, result)) :
    memory.Extends after ∧
      ∀ buff size, result = some (buff, size) → buff.block = memory.blocks.length := by
  simp only [ipcConvertParam, bind, pure, Option.bind_eq_some_iff] at converted
  obtain ⟨size, _, converted⟩ := converted
  split at converted
  · have newer : memory.blocks.length ≤ (memory.malloc size.toNat).1.block := Nat.le_refl _
    simp only [Option.bind_eq_some_iff, Option.some.injEq, Prod.mk.injEq] at converted
    obtain ⟨first, cmdStored, second, typesStored, filled, copied, same, rfl⟩ := converted
    have start : memory.Extends second :=
      ((Memory.extends_malloc memory _).write newer cmdStored).write (by exact newer) typesStored
    refine ⟨?_, ?_⟩
    · rw [← same]
      exact forRange_invariant (fun _ state => memory.Extends state.memory)
        (fun index state next _ _ kept step => copyParam_kept newer kept step) start copied
    · intro buff size found
      cases found
      rfl
  · cases converted
    exact ⟨Memory.Extends.refl memory, fun _ _ found => by contradiction⟩

/-- No buffer comes back when the bytes of a non-empty reference are not those of a pointer. -/
theorem ipcConvertParam_no_pointer {mallocSucceeds : Bool} {memrefSize : UInt32}
    {result : Pointer × Int}
    (counted : index < getParamCount paramTypes)
    (memref : isMemref (paramTypeGet paramTypes index) = true)
    (sized : memory.loadUInt32 (memrefSizeAt params index) = some memrefSize)
    (nonempty : memrefSize ≠ 0) (noPointer : memory.loadPointer (paramAt params index) = some none) :
    ipcConvertParam memory cmdId params paramTypes mallocSucceeds ≠ some (after, some result) := by
  intro converted
  simp only [ipcConvertParam, bind, pure, Option.bind_eq_some_iff] at converted
  obtain ⟨size, _, converted⟩ := converted
  split at converted
  · have newer : memory.blocks.length ≤ (memory.malloc size.toNat).1.block := Nat.le_refl _
    simp only [Option.bind_eq_some_iff] at converted
    obtain ⟨first, cmdStored, second, typesStored, filled, copied, _⟩ := converted
    have start : memory.Extends second :=
      ((Memory.extends_malloc memory _).write newer cmdStored).write (by exact newer) typesStored
    have reached := forRange_invariant
      (fun position state => memory.Extends state.memory ∧ position ≤ index)
      (by
        intro position state next _ _ held step
        obtain ⟨kept, before⟩ := held
        refine ⟨copyParam_kept newer kept step, Nat.succ_le_of_lt (Nat.lt_of_le_of_ne before ?_)⟩
        intro here
        subst here
        obtain ⟨_, middle, found, address, bytes, _, _, sizeStored, sizeLoaded, pointed, through, _⟩ :=
          (copyParam_memref memref).mp step
        have same := kept.write (by exact newer) sizeStored
        cases (same.loadUInt32 sized).symm.trans sizeLoaded
        cases (same.loadPointer noPointer).symm.trans pointed
        have positive : memrefSize.toNat ≠ 0 := fun zero =>
          nonempty (UInt32.toNat_inj.mp (by simpa using zero))
        simp [Memory.readThrough, positive] at through)
      ⟨start, Nat.zero_le index⟩ copied
    omega
  · cases converted

end Encode

end Dwadelib.Ipc
