import Dwadelib.Ipc.Convert.Encode

namespace Dwadelib.Ipc

/-! # The decoder refines the format

On a receive buffer, `ipc_convert_data` leaves parameters that say exactly what the
format decodes from the whole buffer, or parameters that are not readable where the
format rejects it. How many bytes were received does not enter.
-/

section Decode

variable {memory after : Memory} {params buff : Pointer} {cmdId paramTypes : UInt32}
  {index start count position : Nat} {payload : Payload} {payloads : List Payload}
  {message : Message} {content rest : List Byte} {cursor next final : Cursor} {query : Pointer}

theorem decodeParam_value (value : isValue (paramTypeGet paramTypes index) = true) :
    decodeParam buff params paramTypes index cursor = some next ↔
      ∃ bytes after, cursor.memory.read (buff.advance cursor.pos) paramSize = some bytes ∧
        cursor.memory.write (paramAt params index) bytes = some after ∧
        { memory := after, pos := CInt.convert (cursor.pos + paramSize) } = next := by
  simp only [decodeParam, if_pos value, bind, pure, Option.bind_eq_some_iff, Memory.memcpy_eq_some,
    Option.some.injEq]
  constructor
  · intro given
    obtain ⟨after, ⟨bytes, loaded, stored⟩, same⟩ := given
    exact ⟨bytes, after, loaded, stored, same⟩
  · intro given
    obtain ⟨bytes, after, loaded, stored, same⟩ := given
    exact ⟨after, ⟨bytes, loaded, stored⟩, same⟩

theorem decodeParam_memref (memref : isMemref (paramTypeGet paramTypes index) = true) :
    decodeParam buff params paramTypes index cursor = some next ↔
      ∃ bytes sized pointed size, cursor.memory.read (buff.advance cursor.pos) uint32Size = some bytes ∧
        cursor.memory.write (memrefSizeAt params index) bytes = some sized ∧
        sized.storePointer (paramAt params index)
          (buff.advance (CInt.convert (cursor.pos + uint32Size))) = some pointed ∧
        pointed.loadUInt32 (memrefSizeAt params index) = some size ∧
        { memory := pointed,
          pos := CInt.convert (CInt.convert (cursor.pos + uint32Size) + size.toNat) } = next := by
  have notValue := isValue_eq_false_of_isMemref memref
  simp only [decodeParam, notValue, Bool.false_eq_true, if_false, if_pos memref, bind, pure,
    Option.bind_eq_some_iff, Memory.memcpy_eq_some, Option.some.injEq]
  constructor
  · intro given
    obtain ⟨sized, ⟨bytes, loaded, stored⟩, pointed, pointerStored, size, sizeLoaded, same⟩ := given
    exact ⟨bytes, sized, pointed, size, loaded, stored, pointerStored, sizeLoaded, same⟩
  · intro given
    obtain ⟨bytes, sized, pointed, size, loaded, stored, pointerStored, sizeLoaded, same⟩ := given
    exact ⟨sized, ⟨bytes, loaded, stored⟩, pointed, pointerStored, size, sizeLoaded, same⟩

theorem decodeParam_skipped (notValue : isValue (paramTypeGet paramTypes index) = false)
    (notMemref : isMemref (paramTypeGet paramTypes index) = false) :
    decodeParam buff params paramTypes index cursor = some cursor := by
  simp [decodeParam, notValue, notMemref]

/-- The bytes of no parameter but `index`, and of no other object, are touched. -/
def OutsideParam (params : Pointer) (index : Nat) (query : Pointer) : Prop :=
  query.block ≠ params.block ∨ query.offset < params.offset + (paramSize * index : Nat) ∨
    params.offset + (paramSize * (index + 1) : Nat) ≤ query.offset

theorem decodeParam_frame (completed : decodeParam buff params paramTypes index cursor = some next)
    (outside : OutsideParam params index query) :
    next.memory.byteAt query = cursor.memory.byteAt query := by
  simp only [OutsideParam, paramSize] at outside
  by_cases value : isValue (paramTypeGet paramTypes index) = true
  · obtain ⟨bytes, after, loaded, stored, rfl⟩ := (decodeParam_value value).mp completed
    have length := Memory.length_of_read loaded
    rw [Memory.byteAt_write stored, if_neg]
    intro given
    obtain ⟨block, lower, upper⟩ := given
    simp only [paramAt_block, paramAt_offset, length, paramSize] at block lower upper
    rcases outside with different | before | beyond
    · exact different block
    · omega
    · omega
  · by_cases memref : isMemref (paramTypeGet paramTypes index) = true
    · obtain ⟨bytes, sized, pointed, size, loaded, stored, pointerStored, _, rfl⟩ :=
        (decodeParam_memref memref).mp completed
      have length := Memory.length_of_read loaded
      rw [Memory.byteAt_write pointerStored, if_neg, Memory.byteAt_write stored, if_neg]
      · intro given
        obtain ⟨block, lower, upper⟩ := given
        simp only [memrefSizeAt_block, memrefSizeAt_offset, length, paramSize, uint32Size]
          at block lower upper
        rcases outside with different | before | beyond
        · exact different block
        · omega
        · omega
      · intro given
        obtain ⟨block, lower, upper⟩ := given
        simp only [paramAt_block, paramAt_offset, Byte.encodePointer_length, paramSize]
          at block lower upper
        rcases outside with different | before | beyond
        · exact different block
        · omega
        · omega
    · rw [decodeParam_skipped (by simpa using value) (by simpa using memref)] at completed
      cases completed
      rfl

theorem decodeLoop_frame
    (completed : forRange start count (decodeParam buff params paramTypes) cursor = some final)
    (outside : query.block ≠ params.block ∨
      query.offset < params.offset + (paramSize * start : Nat) ∨
      params.offset + (paramSize * (start + count) : Nat) ≤ query.offset) :
    final.memory.byteAt query = cursor.memory.byteAt query := by
  refine forRange_invariant (fun _ state => state.memory.byteAt query = cursor.memory.byteAt query)
    ?_ rfl completed
  intro index state next lower upper kept step
  rw [decodeParam_frame step, kept]
  simp only [OutsideParam, paramSize] at outside ⊢
  rcases outside with different | before | beyond
  · exact .inl different
  · exact .inr (.inl (by omega))
  · exact .inr (.inr (by omega))

/-- A receive buffer with exactly this content, and an array of six parameters elsewhere. -/
structure Decodable (memory : Memory) (buff params : Pointer) (content : List Byte) : Prop where
  object : memory.Object buff content
  bounded : content.length < 2147483648
  room : memory.Valid params (paramSize * numParams)
  separate : params.block ≠ buff.block

theorem Decodable.write (decodable : Decodable memory buff params content) {bytes : List Byte}
    (stored : memory.write query bytes = some after) (inParams : query.block = params.block) :
    Decodable after buff params content := by
  refine ⟨decodable.object.congr ?_, decodable.bounded,
    (Memory.valid_write_iff stored).mpr decodable.room, decodable.separate⟩
  intro place inBuff
  rw [Memory.byteAt_write stored, if_neg]
  intro given
  obtain ⟨block, _⟩ := given
  exact decodable.separate (by rw [← inParams, ← block, inBuff])

theorem Decodable.param_room (decodable : Decodable memory buff params content)
    (known : index < numParams) : memory.Valid (paramAt params index) paramSize :=
  valid_param decodable.room known

theorem Decodable.decodeParam (decodable : Decodable cursor.memory buff params content)
    (completed : decodeParam buff params paramTypes index cursor = some next) :
    Decodable next.memory buff params content := by
  by_cases value : isValue (paramTypeGet paramTypes index) = true
  · obtain ⟨bytes, after, _, stored, rfl⟩ := (decodeParam_value value).mp completed
    exact decodable.write stored rfl
  · by_cases memref : isMemref (paramTypeGet paramTypes index) = true
    · obtain ⟨bytes, sized, pointed, size, _, stored, pointerStored, _, rfl⟩ :=
        (decodeParam_memref memref).mp completed
      exact (decodable.write stored rfl).write pointerStored rfl
    · rw [decodeParam_skipped (by simpa using value) (by simpa using memref)] at completed
      cases completed
      exact decodable

theorem payloadFormat_decode_value (value : isValue (paramTypeGet paramTypes index) = true)
    (input : List Byte) :
    (payloadFormat (paramTypeGet paramTypes index)).decode input =
      if paramSize ≤ input.length then some (.value (input.take paramSize), input.drop paramSize)
      else none := by
  rw [payloadFormat, if_pos value]
  simp only [valueFormat, Format.embed, Format.chunk]
  split <;> rfl

theorem payloadFormat_decode_memref (memref : isMemref (paramTypeGet paramTypes index) = true)
    (input : List Byte) :
    (payloadFormat (paramTypeGet paramTypes index)).decode input =
      (Byte.decodeUInt32 (input.take 4)).bind fun size =>
        if size.toNat ≤ (input.drop 4).length then
          some (.memref ((input.drop 4).take size.toNat), (input.drop 4).drop size.toNat)
        else none := by
  rw [payloadFormat, isValue_eq_false_of_isMemref memref, if_neg Bool.false_ne_true, if_pos memref]
  simp only [memrefFormat, Format.embed, Format.bind, Format.word, Format.chunk]
  cases Byte.decodeUInt32 (input.take 4) with
  | none => rfl
  | some size =>
      simp only [Option.map_some, Option.bind_some]
      split <;> rfl

theorem payloadFormat_decode_skipped (notValue : isValue (paramTypeGet paramTypes index) = false)
    (notMemref : isMemref (paramTypeGet paramTypes index) = false) (input : List Byte) :
    (payloadFormat (paramTypeGet paramTypes index)).decode input = some (.skipped, input) := by
  rw [payloadFormat, notValue, notMemref]
  rfl

/-- Where the format accepts, the loop body runs to completion. -/
theorem decodeParam_exists (decodable : Decodable cursor.memory buff params content)
    (known : index < numParams) (here : cursor.pos = position) (inside : position ≤ content.length)
    (accepted : (payloadFormat (paramTypeGet paramTypes index)).decode (content.drop position) =
      some (payload, rest)) :
    ∃ next, Ipc.decodeParam buff params paramTypes index cursor = some next := by
  by_cases value : isValue (paramTypeGet paramTypes index) = true
  · rw [payloadFormat_decode_value value] at accepted
    split at accepted
    · rename_i enough
      rw [List.length_drop] at enough
      have loaded := (decodable.object.read_eq_some position paramSize).mpr
        ⟨.inr (by simp only [paramSize] at enough ⊢; omega), rfl⟩
      have room : cursor.memory.Valid (paramAt params index)
          ((content.drop position).take paramSize).length := by
        rw [Memory.length_of_read loaded]
        exact decodable.param_room known
      obtain ⟨after, stored⟩ := Memory.write_exists room
      exact ⟨_, (decodeParam_value value).mpr ⟨_, after, by rw [here]; exact loaded, stored, rfl⟩⟩
    · contradiction
  · by_cases memref : isMemref (paramTypeGet paramTypes index) = true
    · rw [payloadFormat_decode_memref memref] at accepted
      obtain ⟨size, sized, _⟩ := Option.bind_eq_some_iff.mp accepted
      have encoded := Byte.encodeUInt32_of_decodeUInt32 sized
      have enough := congrArg List.length encoded
      rw [List.length_take, List.length_drop, Byte.encodeUInt32_length] at enough
      have loaded := (decodable.object.read_eq_some position uint32Size).mpr
        ⟨.inr (by simp only [uint32Size]; omega), rfl⟩
      have sizeRoom : cursor.memory.Valid (memrefSizeAt params index)
          ((content.drop position).take uint32Size).length := by
        rw [Memory.length_of_read loaded]
        exact (decodable.param_room known).sub (show 8 + uint32Size ≤ paramSize by decide)
      obtain ⟨middle, stored⟩ := Memory.write_exists sizeRoom
      have pointerRoom : middle.Valid (paramAt params index)
          (Byte.encodePointer (buff.advance (CInt.convert (cursor.pos + uint32Size)))).length := by
        have first := ((decodable.write stored rfl).param_room known).sub
          (show 0 + 8 ≤ paramSize by decide)
        simpa using first
      obtain ⟨after, pointerStored⟩ := Memory.write_exists pointerRoom
      have kept : after.loadUInt32 (memrefSizeAt params index) = some size := by
        have back := Memory.read_write stored
        rw [show (content.drop position).take uint32Size = Byte.encodeUInt32 size from encoded] at back
        rw [Memory.loadUInt32_eq_some, ← back]
        exact Memory.read_write_apart pointerStored _ _ (.inr (.inr (by simp)))
      exact ⟨_, (decodeParam_memref memref).mpr ⟨_, middle, after, size,
        by rw [here]; exact loaded, stored, pointerStored, kept, rfl⟩⟩
    · exact ⟨cursor, decodeParam_skipped (by simpa using value) (by simpa using memref)⟩

theorem read_param_congr (same : ∀ query, ¬ OutsideParam params index query →
      after.byteAt query = memory.byteAt query) {shift width : Nat}
    (within : shift + width ≤ paramSize) :
    after.read ((paramAt params index).advance shift) width =
      memory.read ((paramAt params index).advance shift) width := by
  apply Memory.read_congr
  intro offset bound
  apply same
  simp only [OutsideParam, Pointer.advance_block, Pointer.advance_offset, paramAt_block,
    paramAt_offset, paramSize] at within ⊢
  omega

/-- What the loop body does with a memory reference: the size comes from the frame, the
pointer points behind it into the receive buffer, and `pos` moves by a size not checked. -/
theorem decodeParam_memref_content (decodable : Decodable cursor.memory buff params content)
    (here : cursor.pos = position) (memref : isMemref (paramTypeGet paramTypes index) = true)
    (completed : Ipc.decodeParam buff params paramTypes index cursor = some next) :
    ∃ size, position + 4 ≤ content.length ∧
      Byte.decodeUInt32 ((content.drop position).take 4) = some size ∧
      next.pos = CInt.convert (position + 4 + size.toNat) ∧
      next.memory.loadUInt32 (memrefSizeAt params index) = some size ∧
      next.memory.loadPointer (paramAt params index) =
        some (some (buff.advance (position + 4 : Nat))) := by
  obtain ⟨bytes, sized, pointed, size, loaded, written, pointerStored, sizeLoaded, rfl⟩ :=
    (decodeParam_memref memref).mp completed
  rw [here, decodable.object.read_eq_some] at loaded
  obtain ⟨room, rfl⟩ := loaded
  simp only [uint32Size] at room written pointerStored
  have inside : position + 4 ≤ content.length := by omega
  have bounded := decodable.bounded
  have behind : CInt.convert (cursor.pos + (4 : Nat)) = (position + 4 : Nat) := by
    rw [here, CInt.convert_eq (by omega) (by omega)]
    rfl
  have width : ((content.drop position).take 4).length = 4 := by
    rw [List.length_take, List.length_drop]
    omega
  have sizeBytes : pointed.read (memrefSizeAt params index) 4 =
      some ((content.drop position).take 4) := by
    have back := Memory.read_write written
    rw [width] at back
    rw [← back]
    exact Memory.read_write_apart pointerStored _ _ (.inr (.inr (by simp)))
  have header := (Memory.loadUInt32_eq_some.mp sizeLoaded).symm.trans sizeBytes
  have pointerBytes := Memory.read_write pointerStored
  rw [Byte.encodePointer_length, behind] at pointerBytes
  refine ⟨size, inside, ?_, ?_, sizeLoaded, Memory.loadPointer_object.mpr pointerBytes⟩
  · rw [← Option.some.inj header, Byte.decodeUInt32_encodeUInt32]
  · simp only [uint32Size, behind]
    rfl

/-- After the loop body, the parameter says what the format decodes at this position, also
once the remaining parameters have been filled in. -/
theorem readPayload_decodeParam (decodable : Decodable cursor.memory buff params content)
    (here : cursor.pos = position) (inside : position ≤ content.length)
    (completed : Ipc.decodeParam buff params paramTypes index cursor = some next)
    (same : ∀ query, ¬ OutsideParam params index query →
      after.byteAt query = next.memory.byteAt query)
    (object : after.Object buff content) :
    readPayload after params paramTypes index =
      ((payloadFormat (paramTypeGet paramTypes index)).decode (content.drop position)).map Prod.fst := by
  have whole : ∀ width ≤ paramSize, after.read (paramAt params index) width =
      next.memory.read (paramAt params index) width := by
    intro width within
    simpa using read_param_congr same (show 0 + width ≤ paramSize by omega)
  by_cases value : isValue (paramTypeGet paramTypes index) = true
  · obtain ⟨bytes, stored, loaded, written, rfl⟩ := (decodeParam_value value).mp completed
    rw [here, decodable.object.read_eq_some] at loaded
    obtain ⟨room, rfl⟩ := loaded
    have enough : paramSize ≤ (content.drop position).length := by
      simp only [paramSize, List.length_drop] at room ⊢
      omega
    have back := Memory.read_write written
    rw [List.length_take, Nat.min_eq_left enough] at back
    rw [payloadFormat_decode_value value, if_pos enough, Option.map_some]
    exact (readPayload_value value).mpr ⟨_, (whole _ (Nat.le_refl _)).trans back, rfl⟩
  · by_cases memref : isMemref (paramTypeGet paramTypes index) = true
    · obtain ⟨size, inside, decoded, _, sizeLoaded, pointerLoaded⟩ :=
        decodeParam_memref_content decodable here memref completed
      have sizeKept : after.loadUInt32 (memrefSizeAt params index) = some size := by
        rw [Memory.loadUInt32_eq_some, ← Memory.loadUInt32_eq_some.mp sizeLoaded]
        exact read_param_congr same (show 8 + 4 ≤ paramSize by decide)
      have pointerKept : after.loadPointer (paramAt params index) =
          some (some (buff.advance (position + 4 : Nat))) := by
        rw [Memory.loadPointer_object, whole 8 (by decide)]
        exact Memory.loadPointer_object.mp pointerLoaded
      rw [payloadFormat_decode_memref memref, decoded, Option.bind_some]
      by_cases enough : size.toNat ≤ ((content.drop position).drop 4).length
      · rw [if_pos enough, Option.map_some]
        refine (readPayload_memref memref).mpr ⟨size, _, _, sizeKept, pointerKept, ?_, rfl⟩
        rw [Memory.readThrough_some, object.read_eq_some]
        simp only [List.length_drop] at enough
        exact ⟨by omega, by rw [List.drop_drop]⟩
      · rw [if_neg enough, Option.map_none, Option.eq_none_iff_forall_not_mem]
        intro payload held
        obtain ⟨found, address, bytes, sizeFound, pointerFound, bytesFound, _⟩ :=
          (readPayload_memref memref).mp held
        cases sizeKept.symm.trans sizeFound
        cases pointerKept.symm.trans pointerFound
        rw [Memory.readThrough_some, object.read_eq_some] at bytesFound
        simp only [List.length_drop] at enough
        omega
    · simp only [Bool.not_eq_true] at value memref
      rw [payloadFormat_decode_skipped value memref, readPayload_skipped value memref]
      rfl

/-- Where the format accepts, `pos` moves to where the format's rest begins. -/
theorem decodeParam_pos (decodable : Decodable cursor.memory buff params content)
    (here : cursor.pos = position) (inside : position ≤ content.length)
    (completed : Ipc.decodeParam buff params paramTypes index cursor = some next)
    (accepted : (payloadFormat (paramTypeGet paramTypes index)).decode (content.drop position) =
      some (payload, rest)) :
    ∃ later : Nat, later ≤ content.length ∧ next.pos = later ∧ rest = content.drop later := by
  have bounded := decodable.bounded
  by_cases value : isValue (paramTypeGet paramTypes index) = true
  · obtain ⟨bytes, stored, _, _, rfl⟩ := (decodeParam_value value).mp completed
    rw [payloadFormat_decode_value value] at accepted
    split at accepted
    · rename_i enough
      cases accepted
      simp only [List.length_drop, paramSize] at enough
      refine ⟨position + paramSize, by simp only [paramSize]; omega, ?_, by rw [List.drop_drop]⟩
      rw [here, CInt.convert_eq (by simp only [paramSize]; omega) (by simp only [paramSize]; omega)]
      rfl
    · contradiction
  · by_cases memref : isMemref (paramTypeGet paramTypes index) = true
    · obtain ⟨size, room, decoded, moved, _⟩ :=
        decodeParam_memref_content decodable here memref completed
      rw [payloadFormat_decode_memref memref, decoded, Option.bind_some] at accepted
      split at accepted
      · rename_i enough
        cases accepted
        simp only [List.length_drop] at enough
        refine ⟨position + 4 + size.toNat, by omega, ?_, by simp only [List.drop_drop]⟩
        rw [moved, CInt.convert_eq (by omega) (by omega)]
        omega
      · contradiction
    · simp only [Bool.not_eq_true] at value memref
      rw [decodeParam_skipped value memref] at completed
      rw [payloadFormat_decode_skipped value memref] at accepted
      cases completed
      cases accepted
      exact ⟨position, inside, here, rfl⟩

/-- Filling in later parameters changes neither an earlier one nor the receive buffer. -/
theorem readPayload_after_loop (decodable : Decodable cursor.memory buff params content)
    (here : cursor.pos = position) (inside : position ≤ content.length)
    (first : Ipc.decodeParam buff params paramTypes start cursor = some next)
    (others : forRange (start + 1) count (Ipc.decodeParam buff params paramTypes) next = some final) :
    readPayload final.memory params paramTypes start =
      ((payloadFormat (paramTypeGet paramTypes start)).decode (content.drop position)).map Prod.fst := by
  apply readPayload_decodeParam decodable here inside first
  · intro query within
    apply decodeLoop_frame others
    simp only [OutsideParam, not_or, Decidable.not_not, not_lt, not_le] at within
    exact .inr (.inl within.2.2)
  · apply (decodable.decodeParam first).object.congr
    intro query inBuff
    exact decodeLoop_frame others (.inl fun inParams => decodable.separate (inParams.symm.trans inBuff))

/-- The loop and the format agree, on acceptance and on what is said. -/
theorem decodeLoop_readPayloads (cursor : Cursor) (paramTypes : UInt32)
    (decodable : Decodable cursor.memory buff params content)
    (here : cursor.pos = position) (inside : position ≤ content.length)
    (known : start + count ≤ numParams) :
    ((forRange start count (Ipc.decodeParam buff params paramTypes) cursor).bind fun final =>
        readPayloads final.memory params paramTypes start count) =
      (Format.decodeAll (payloadFormats paramTypes start count) (content.drop position)).map
        Prod.fst := by
  induction count generalizing start cursor position with
  | zero => rfl
  | succ count ih =>
      rw [payloadFormats_succ, Format.decodeAll]
      cases accepted : (payloadFormat (paramTypeGet paramTypes start)).decode
          (content.drop position) with
      | none =>
          rw [Option.bind_none, Option.map_none, Option.bind_eq_none_iff]
          intro final completed
          obtain ⟨next, first, others⟩ := forRange_succ_eq_some.mp completed
          have unreadable := readPayload_after_loop decodable here inside first others
          rw [accepted, Option.map_none] at unreadable
          simp only [readPayloads, unreadable, bind, Option.bind_none]
      | some result =>
          obtain ⟨payload, rest⟩ := result
          obtain ⟨next, first⟩ := decodeParam_exists decodable (by omega) here inside accepted
          obtain ⟨later, room, moved, rfl⟩ := decodeParam_pos decodable here inside first accepted
          have tail := ih next (decodable.decodeParam first) moved room
            (by omega : start + 1 + count ≤ numParams)
          rw [forRange_succ, first, Option.bind_some, Option.bind_some]
          cases completed : forRange (start + 1) count (Ipc.decodeParam buff params paramTypes) next with
          | none =>
              rw [completed, Option.bind_none] at tail
              rw [Option.bind_none, Option.map_map]
              exact (Option.map_eq_none_iff.mpr (Option.map_eq_none_iff.mp tail.symm)).symm
          | some final =>
              have head := readPayload_after_loop decodable here inside first completed
              rw [accepted, Option.map_some] at head
              rw [completed, Option.bind_some] at tail
              simp only [readPayloads, head, tail, bind, pure, Option.bind_some, Option.map_map]
              cases Format.decodeAll (payloadFormats paramTypes (start + 1) count)
                (content.drop later) <;> rfl

theorem decodeLoop_accepts (cursor : Cursor)
    (decodable : Decodable cursor.memory buff params content)
    (here : cursor.pos = position) (inside : position ≤ content.length)
    (known : start + count ≤ numParams)
    (accepted : Format.decodeAll (payloadFormats paramTypes start count) (content.drop position) =
      some (payloads, rest)) :
    ∃ final, ∃ later : Nat, forRange start count (Ipc.decodeParam buff params paramTypes) cursor = some final ∧
      later ≤ content.length ∧ final.pos = later ∧ rest = content.drop later := by
  induction count generalizing start cursor position payloads with
  | zero =>
      cases accepted
      exact ⟨cursor, position, rfl, inside, here, rfl⟩
  | succ count ih =>
      rw [payloadFormats_succ, Format.decodeAll] at accepted
      obtain ⟨⟨payload, middle⟩, head, tail⟩ := Option.bind_eq_some_iff.mp accepted
      obtain ⟨⟨others, remaining⟩, tailAccepted, same⟩ := Option.map_eq_some_iff.mp tail
      cases same
      obtain ⟨next, first⟩ := decodeParam_exists decodable (by omega) here inside head
      obtain ⟨between, room, moved, rfl⟩ := decodeParam_pos decodable here inside first head
      obtain ⟨final, later, completed, bound, stopped, split⟩ :=
        ih next (decodable.decodeParam first) moved room (by omega) tailAccepted
      exact ⟨final, later, forRange_succ_eq_some.mpr ⟨next, first, completed⟩, bound, stopped, split⟩

theorem messageFormat_decode_eq_some {input : List Byte} :
    messageFormat.decode input = some (message, rest) ↔
      ∃ cmdId paramTypes payloads, Byte.decodeUInt32 (input.take 4) = some cmdId ∧
        Byte.decodeUInt32 ((input.drop 4).take 4) = some paramTypes ∧
        Format.decodeAll (payloadFormats paramTypes 0 (getParamCount paramTypes))
          ((input.drop 4).drop 4) = some (payloads, rest) ∧
        message = { cmdId, paramTypes, payloads } := by
  simp only [messageFormat, Format.embed, Format.bind, Format.word, Format.sequence,
    Option.map_eq_some_iff, Option.bind_eq_some_iff, Prod.mk.injEq]
  constructor
  · intro decoded
    obtain ⟨⟨⟨cmdId, paramTypes, payloads⟩, remaining⟩, ⟨first, ⟨_, cmdDecoded, rfl⟩, second,
      ⟨third, ⟨_, typesDecoded, rfl⟩, fourth, payloadsDecoded, rfl⟩, same⟩, rfl, rfl⟩ := decoded
    cases same
    exact ⟨_, _, _, cmdDecoded, typesDecoded, payloadsDecoded, rfl⟩
  · intro parts
    obtain ⟨cmdId, paramTypes, payloads, cmdDecoded, typesDecoded, payloadsDecoded, rfl⟩ := parts
    exact ⟨_, ⟨_, ⟨_, cmdDecoded, rfl⟩, _, ⟨_, ⟨_, typesDecoded, rfl⟩, _, payloadsDecoded, rfl⟩, rfl⟩,
      rfl, rfl⟩

theorem loadUInt32_of_object (object : memory.Object buff content) (position : Nat)
    {word : UInt32} :
    memory.loadUInt32 (buff.advance position) = some word ↔
      Byte.decodeUInt32 ((content.drop position).take 4) = some word := by
  rw [Memory.loadUInt32_eq_some, object.read_eq_some]
  constructor
  · intro found
    rw [← found.2, Byte.decodeUInt32_encodeUInt32]
  · intro decoded
    have bytes := Byte.encodeUInt32_of_decodeUInt32 decoded
    have length := congrArg List.length bytes
    rw [List.length_take, List.length_drop, Byte.encodeUInt32_length] at length
    exact ⟨.inr (by omega), bytes.symm⟩

theorem ipcConvertData_eq_some {size : Int} {data : ConvertedData} :
    ipcConvertData memory buff size params = some data ↔
      ∃ cmdId paramTypes final, memory.loadUInt32 buff = some cmdId ∧
        memory.loadUInt32 (buff.advance uint32Size) = some paramTypes ∧
        forRange 0 (getParamCount paramTypes) (Ipc.decodeParam buff params paramTypes)
          { memory, pos := (uint32Size + uint32Size : Nat) } = some final ∧
        data = { status := 0, cmdId, paramTypes, memory := final.memory, pos := final.pos } := by
  simp only [ipcConvertData, bind, pure, Option.bind_eq_some_iff, Option.some.injEq]
  constructor
  · intro given
    obtain ⟨cmdId, cmdLoaded, paramTypes, typesLoaded, final, looped, rfl⟩ := given
    exact ⟨cmdId, paramTypes, final, cmdLoaded, typesLoaded, looped, rfl⟩
  · intro given
    obtain ⟨cmdId, paramTypes, final, cmdLoaded, typesLoaded, looped, rfl⟩ := given
    exact ⟨cmdId, cmdLoaded, paramTypes, typesLoaded, final, looped, rfl⟩

/-- Only the parameters are written. -/
theorem ipcConvertData_decodable (decodable : Decodable memory buff params content) {size : Int}
    {data : ConvertedData} (completed : ipcConvertData memory buff size params = some data) :
    Decodable data.memory buff params content := by
  obtain ⟨cmdId, paramTypes, final, _, _, looped, rfl⟩ := ipcConvertData_eq_some.mp completed
  exact forRange_invariant (fun _ state => Decodable state.memory buff params content)
    (fun index state next _ _ kept step => kept.decodeParam step) decodable looped

/-- Only the counted parameters are written. -/
theorem ipcConvertData_frame {size : Int} {data : ConvertedData}
    (completed : ipcConvertData memory buff size params = some data)
    (outside : query.block ≠ params.block ∨
      params.offset + (paramSize * numParams : Nat) ≤ query.offset) :
    data.memory.byteAt query = memory.byteAt query := by
  obtain ⟨cmdId, paramTypes, final, _, _, looped, rfl⟩ := ipcConvertData_eq_some.mp completed
  refine decodeLoop_frame looped ?_
  have bound := getParamCount_le paramTypes
  rcases outside with elsewhere | beyond
  · exact .inl elsewhere
  · refine .inr (.inr ?_)
    simp only [paramSize, numParams] at beyond bound ⊢
    omega

/-- Every decoded reference points into the receive buffer. -/
theorem ipcConvertData_inside {size : Int} {data : ConvertedData}
    (completed : ipcConvertData memory buff size params = some data)
    (counted : index < getParamCount data.paramTypes)
    (memref : isMemref (paramTypeGet data.paramTypes index) = true) :
    ∃ offset, data.memory.loadPointer (paramAt params index) = some (some (buff.advance offset)) := by
  obtain ⟨cmdId, paramTypes, final, _, _, looped, rfl⟩ := ipcConvertData_eq_some.mp completed
  have reached := forRange_invariant
    (fun position state => ∀ index < position, isMemref (paramTypeGet paramTypes index) = true →
      ∃ offset, state.memory.loadPointer (paramAt params index) = some (some (buff.advance offset)))
    (by
      intro position state next _ _ held step index before memref
      by_cases here : index = position
      · subst here
        obtain ⟨_, _, pointed, _, _, _, pointerStored, _, rfl⟩ := (decodeParam_memref memref).mp step
        exact ⟨_, Memory.loadPointer_storePointer pointerStored⟩
      · obtain ⟨offset, loaded⟩ := held index (by omega) memref
        refine ⟨offset, Memory.loadPointer_object.mpr ?_⟩
        rw [← Memory.loadPointer_object.mp loaded]
        apply Memory.read_congr
        intro shift inside
        apply decodeParam_frame step
        simp only [OutsideParam, Pointer.advance_offset, paramAt_offset, paramSize]
        omega)
    (fun index before => absurd before (Nat.not_lt_zero index)) looped
  rw [Nat.zero_add] at reached
  exact reached index counted memref

/-- Where the format accepts the buffer, the decoder returns 0 and its outputs say the
message; it stops where the frame ends, and only the parameters are written. -/
theorem ipcConvertData_accepts (decodable : Decodable memory buff params content) (size : Int)
    (accepted : messageFormat.decode content = some (message, rest)) :
    ∃ data, ipcConvertData memory buff size params = some data ∧ data.status = 0 ∧
      data.cmdId = message.cmdId ∧ data.paramTypes = message.paramTypes ∧
      data.pos = content.length - rest.length ∧
      readMessage data.memory data.cmdId params data.paramTypes = some message ∧
      Decodable data.memory buff params content := by
  obtain ⟨cmdId, paramTypes, payloads, cmdDecoded, typesDecoded, payloadsDecoded, rfl⟩ :=
    messageFormat_decode_eq_some.mp accepted
  have cmdLoaded : memory.loadUInt32 buff = some cmdId := by
    simpa using (loadUInt32_of_object decodable.object 0).mpr (by simpa using cmdDecoded)
  have typesLoaded : memory.loadUInt32 (buff.advance uint32Size) = some paramTypes :=
    (loadUInt32_of_object decodable.object 4).mpr typesDecoded
  have inside : 8 ≤ content.length := by
    have length := congrArg List.length (Byte.encodeUInt32_of_decodeUInt32 typesDecoded)
    simp only [List.length_take, List.length_drop, Byte.encodeUInt32_length] at length
    omega
  rw [List.drop_drop] at payloadsDecoded
  have here : (Cursor.mk memory (uint32Size + uint32Size : Nat)).pos = (8 : Nat) := rfl
  have whole : 0 + getParamCount paramTypes ≤ numParams := by
    simpa using getParamCount_le paramTypes
  obtain ⟨final, later, completed, bound, stopped, split⟩ :=
    decodeLoop_accepts ⟨memory, (uint32Size + uint32Size : Nat)⟩ decodable here inside whole
      payloadsDecoded
  have agree := decodeLoop_readPayloads ⟨memory, (uint32Size + uint32Size : Nat)⟩ paramTypes
    decodable here inside whole
  rw [completed, payloadsDecoded, Option.bind_some, Option.map_some] at agree
  have converted : ipcConvertData memory buff size params =
      some { status := 0, cmdId, paramTypes, memory := final.memory, pos := final.pos } :=
    ipcConvertData_eq_some.mpr ⟨cmdId, paramTypes, final, cmdLoaded, typesLoaded, completed, rfl⟩
  refine ⟨_, converted, rfl, rfl, rfl, ?_, ?_, ipcConvertData_decodable decodable converted⟩
  · have length := congrArg List.length split
    rw [List.length_drop] at length
    simp only [stopped]
    omega
  · exact readMessage_eq_some.mpr ⟨payloads, agree, rfl⟩

/-- What the outputs say was in the buffer: nothing is readable that the format rejects. -/
theorem ipcConvertData_sound (decodable : Decodable memory buff params content) {size : Int}
    {data : ConvertedData} (completed : ipcConvertData memory buff size params = some data)
    (held : readMessage data.memory data.cmdId params data.paramTypes = some message) :
    ∃ rest, messageFormat.decode content = some (message, rest) := by
  obtain ⟨cmdId, paramTypes, final, cmdLoaded, typesLoaded, looped, rfl⟩ :=
    ipcConvertData_eq_some.mp completed
  obtain ⟨payloads, read, rfl⟩ := readMessage_eq_some.mp held
  have cmdDecoded := (loadUInt32_of_object decodable.object 0).mp
    (by simpa using cmdLoaded)
  have typesDecoded := (loadUInt32_of_object decodable.object 4).mp typesLoaded
  have inside : 8 ≤ content.length := by
    have length := congrArg List.length (Byte.encodeUInt32_of_decodeUInt32 typesDecoded)
    simp only [List.length_take, List.length_drop, Byte.encodeUInt32_length] at length
    omega
  have whole : 0 + getParamCount paramTypes ≤ numParams := by
    simpa using getParamCount_le paramTypes
  have agree := decodeLoop_readPayloads ⟨memory, (uint32Size + uint32Size : Nat)⟩ paramTypes
    decodable (show _ = ((8 : Nat) : Int) from rfl) inside whole
  rw [looped, Option.bind_some, read] at agree
  obtain ⟨⟨found, rest⟩, payloadsDecoded, same⟩ := Option.map_eq_some_iff.mp agree.symm
  have foundSame : found = payloads := same
  rw [foundSame] at payloadsDecoded
  refine ⟨rest, messageFormat_decode_eq_some.mpr ⟨cmdId, paramTypes, payloads,
    by simpa using cmdDecoded, typesDecoded, ?_, rfl⟩⟩
  rw [List.drop_drop]
  exact payloadsDecoded

end Decode

end Dwadelib.Ipc
