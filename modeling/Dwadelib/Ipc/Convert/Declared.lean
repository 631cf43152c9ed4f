import Dwadelib.Ipc.Convert.Passes
import Dwadelib.Ipc.Param.Types

namespace Dwadelib.Ipc

/-! # Declared parameters on the wire

What a message carries is decided by its type word. Under the word of the macros that is
every declared parameter as long as no type was shifted onto another one.
-/

/-- Parameter `index` can be read as a parameter of this type. -/
def ReadableAs (memory : Memory) (params : Pointer) (paramType : UInt32) (index : Nat) : Prop :=
  (isValue paramType = true → ∃ union, memory.read (paramAt params index) paramSize = some union) ∧
  (isMemref paramType = true → ∃ size address bytes,
    memory.loadUInt32 (memrefSizeAt params index) = some size ∧
    memory.loadPointer (paramAt params index) = some address ∧
    memory.readThrough address size.toNat = some bytes)

/-- The receiving side decodes as many parameters as were declared, each with the type and
the contents it was declared and sent with. -/
def Travels (side : Side) (declared : Declared) (memory : Memory) (params : Pointer)
    (received : Memory) (rbuff : Pointer) (size : Int) (rparams : Pointer) : Prop :=
  ∃ data, side.ipcConvertData received rbuff size rparams = some data ∧ data.status = 0 ∧
    getParamCount data.paramTypes = declared.types.length ∧
    ∀ index < declared.types.length,
      declared.types[index]? = some (paramTypeGet data.paramTypes index) ∧
      SameParam memory params data.memory rparams data.paramTypes index

section Declared

variable {memory after received : Memory} {params rparams buff rbuff : Pointer}
  {cmdId paramTypes : UInt32} {index start count : Nat} {size : Int} {bytes : List Byte}
  {declared : Declared} {side : Side} {data : ConvertedData}

theorem ReadableAs.readPayload
    (readable : ReadableAs memory params (paramTypeGet paramTypes index) index) :
    ∃ payload, readPayload memory params paramTypes index = some payload := by
  by_cases value : isValue (paramTypeGet paramTypes index) = true
  · obtain ⟨union, loaded⟩ := readable.1 value
    exact ⟨_, (readPayload_value value).mpr ⟨union, loaded, rfl⟩⟩
  · by_cases memref : isMemref (paramTypeGet paramTypes index) = true
    · obtain ⟨size, address, bytes, sized, pointed, loaded⟩ := readable.2 memref
      exact ⟨_, (readPayload_memref memref).mpr ⟨size, address, bytes, sized, pointed, loaded, rfl⟩⟩
    · exact ⟨_, readPayload_skipped (by simpa using value) (by simpa using memref)⟩

theorem readPayloads_exists
    (readable : ∀ index, start ≤ index → index < start + count →
      ReadableAs memory params (paramTypeGet paramTypes index) index) :
    ∃ payloads, readPayloads memory params paramTypes start count = some payloads := by
  induction count generalizing start with
  | zero => exact ⟨[], rfl⟩
  | succ count ih =>
      obtain ⟨payload, first⟩ := (readable start (Nat.le_refl start) (by omega)).readPayload
      obtain ⟨rest, others⟩ := @ih (start + 1) fun index lower upper => readable index (by omega) (by omega)
      exact ⟨payload :: rest, readPayloads_eq_some_succ.mpr ⟨payload, rest, first, others, rfl⟩⟩

/-- Where no type was shifted onto another one, the parameters make a message. -/
theorem Declared.readMessage_exists (cmdId : UInt32) (four : declared.types.length ≤ 4)
    (readable : ∀ index < declared.types.length,
      ReadableAs memory params (declared.typeAt index) index) :
    ∃ message, readMessage memory cmdId params declared.paramTypes = some message := by
  have each : ∀ index, 0 ≤ index → index < 0 + getParamCount declared.paramTypes →
      ReadableAs memory params (paramTypeGet declared.paramTypes index) index := by
    intro index _ counted
    rw [declared.getParamCount_paramTypes] at counted
    rw [declared.paramTypeGet_declared four (by omega)]
    exact readable index (by omega)
  obtain ⟨payloads, read⟩ := readPayloads_exists each
  exact ⟨_, readMessage_eq_some.mpr ⟨payloads, read, rfl⟩⟩

/-- The decoder finds the type word the encoder was given. -/
theorem paramTypes_received
    (encoded : ipcConvertParam memory cmdId params paramTypes true = some (after, some (buff, size)))
    (sent : after.read buff size.toNat = some bytes) (arrived : received.Object rbuff bytes)
    (decoded : ipcConvertData received rbuff size rparams = some data) :
    data.paramTypes = paramTypes := by
  obtain ⟨room, _, header⟩ := converted_header encoded
  rw [show size.toNat = 8 + (size.toNat - 8) by omega, Memory.read_add, header, Option.bind_some] at sent
  obtain ⟨rest, _, whole⟩ := Option.bind_eq_some_iff.mp sent
  obtain ⟨cmdLoaded, found, final, _, typesLoaded, _, rfl⟩ := ipcConvertData_eq_some.mp decoded
  have typesDecoded := (loadUInt32_of_object arrived 4).mp typesLoaded
  have front : (bytes.drop 4).take 4 = Byte.encodeUInt32 paramTypes := by
    rw [← Option.some.inj whole]
    rfl
  rw [front, Byte.decodeUInt32_encodeUInt32] at typesDecoded
  exact (Option.some.inj typesDecoded).symm

/-- Every declared parameter arrives as it was declared and sent exactly when at most four
were declared. -/
theorem declared_travel_iff (side : Side)
    (readable : ∀ index < declared.types.length,
      ReadableAs memory params (declared.typeAt index) index)
    (encoded : side.ipcConvertParam memory cmdId params declared.paramTypes true =
      some (after, some (buff, size)))
    (sent : after.read buff size.toNat = some bytes) (arrived : received.Object rbuff bytes)
    (room : received.Valid rparams (paramSize * numParams)) (separate : rparams.block ≠ rbuff.block) :
    Travels side.other declared memory params received rbuff size rparams ↔
      declared.types.length ≤ 4 := by
  rw [Side.ipcConvertParam_eq] at encoded
  constructor
  · intro travels
    obtain ⟨data, decoded, _, counted, _⟩ := travels
    rw [Side.ipcConvertData_eq] at decoded
    rw [paramTypes_received encoded sent arrived decoded, declared.getParamCount_paramTypes] at counted
    omega
  · intro four
    obtain ⟨message, held⟩ := declared.readMessage_exists cmdId four readable
    have fits := fits_of_converted held encoded
    obtain ⟨same, fresh, again, _, filled, _⟩ := ipcConvertParam_frame held fits
    cases encoded.symm.trans again
    have frame : bytes = message.frame := Option.some.inj (sent.symm.trans filled)
    subst frame
    have valid := message_valid held
    have decodable : Decodable received rbuff rparams message.frame :=
      ⟨arrived, by rw [Message.frame_length valid]; exact fits, room, separate⟩
    have accepted := messageFormat.decode_encode message [] valid
    rw [List.append_nil] at accepted
    obtain ⟨data, decoded, status, sameCmdId, sameTypes, _, said, _⟩ :=
      ipcConvertData_accepts decodable message.encodedSize accepted
    obtain ⟨payloads, _, rfl⟩ := readMessage_eq_some.mp held
    have count := declared.getParamCount_paramTypes
    rw [sameCmdId, sameTypes] at said
    refine ⟨data, by rw [Side.ipcConvertData_eq, decoded], status, ?_, ?_⟩
    · rw [sameTypes, count]
      omega
    · intro index inside
      rw [sameTypes]
      refine ⟨?_, sameParam_of_readMessage held said (by rw [count]; omega)⟩
      rw [declared.paramTypeGet_declared four inside]
      exact declared.typeAt_eq inside

/-- Six parameters that are all zero. -/
private def zeroParams : Memory := ⟨[some (List.replicate 96 (.octet 0))]⟩

/-- So many of them declared as values. -/
private def zeroValues (count : Nat) (some : 0 < count) (most : count ≤ numParams) : Declared where
  types := List.replicate count paramTypeValueInput
  assigned := by
    intro paramType member
    rw [List.eq_of_mem_replicate member]
    decide
  nonempty := by rwa [List.length_replicate]
  most := by rwa [List.length_replicate]

private def zeroMessage (paramTypes : UInt32) (count : Nat) : Message :=
  { cmdId := cmdRequestInit, paramTypes,
    payloads := List.replicate count (.value (List.replicate 16 (.octet 0))) }

private def receivedFrame (message : Message) : Memory :=
  ⟨[some message.frame, some (List.replicate 96 .undefined)]⟩

private theorem receivedFrame_room (message : Message) :
    (receivedFrame message).Valid ⟨1, 0⟩ (paramSize * numParams) := by
  intro index inside
  have known : index < 96 := inside
  simp [receivedFrame, Memory.byteAt, Pointer.advance, known]

private theorem zeroValues_typeAt {count : Nat} (some : 0 < count) (most : count ≤ numParams)
    (inside : index < count) : (zeroValues count some most).typeAt index = paramTypeValueInput := by
  simp only [Declared.typeAt, zeroValues, List.getD_eq_getElem?_getD, List.getElem?_replicate,
    if_pos inside, Option.getD_some]

private theorem zeroParams_readable (known : index < numParams) :
    ReadableAs zeroParams ⟨0, 0⟩ paramTypeValueInput index := by
  have zeros : ∀ index < numParams, zeroParams.read (paramAt ⟨0, 0⟩ index) paramSize =
      some (List.replicate 16 (.octet 0)) := by decide
  exact ⟨fun _ => ⟨_, zeros index known⟩, fun memref => absurd memref (by decide)⟩

theorem declared_travel_two :
    ∃ after buff,
      Side.client.ipcConvertParam zeroParams cmdRequestInit ⟨0, 0⟩
          (zeroValues 2 (by decide) (by decide)).paramTypes true = some (after, some (buff, 40)) ∧
      Travels .server (zeroValues 2 (by decide) (by decide)) zeroParams ⟨0, 0⟩
        (receivedFrame (zeroMessage 0x11 2)) ⟨0, 0⟩ 40 ⟨1, 0⟩ := by
  have held : readMessage zeroParams cmdRequestInit ⟨0, 0⟩ 0x11 = some (zeroMessage 0x11 2) := by
    decide
  have size : (zeroMessage 0x11 2).encodedSize = 40 := by decide
  obtain ⟨after, buff, encoded, _, filled, _⟩ := ipcConvertParam_frame held (by rw [size]; decide)
  rw [size] at encoded filled
  have arrived : (receivedFrame (zeroMessage 0x11 2)).Object ⟨0, 0⟩ (zeroMessage 0x11 2).frame :=
    Memory.object_of_block rfl
  have readable : ∀ index < (zeroValues 2 (by decide) (by decide)).types.length,
      ReadableAs zeroParams ⟨0, 0⟩ ((zeroValues 2 (by decide) (by decide)).typeAt index) index := by
    intro index inside
    have known : index < 2 := inside
    rw [zeroValues_typeAt _ _ known]
    exact zeroParams_readable (by simp only [numParams]; omega)
  have travels : Travels Side.client.other (zeroValues 2 (by decide) (by decide)) zeroParams ⟨0, 0⟩
      (receivedFrame (zeroMessage 0x11 2)) ⟨0, 0⟩ 40 ⟨1, 0⟩ ↔ _ :=
    declared_travel_iff .client readable encoded filled arrived (receivedFrame_room _) (by decide)
  exact ⟨after, buff, encoded, travels.mpr (by decide)⟩

/-- Five values are declared, the fourth and fifth type fall together, and four arrive. -/
theorem declared_five_lost :
    ∃ after buff,
      Side.client.ipcConvertParam zeroParams cmdRequestInit ⟨0, 0⟩
          (zeroValues 5 (by decide) (by decide)).paramTypes true = some (after, some (buff, 72)) ∧
      after.read buff 72 = some (zeroMessage 0x1111 4).frame ∧
      ¬ Travels .server (zeroValues 5 (by decide) (by decide)) zeroParams ⟨0, 0⟩
        (receivedFrame (zeroMessage 0x1111 4)) ⟨0, 0⟩ 72 ⟨1, 0⟩ := by
  have held : readMessage zeroParams cmdRequestInit ⟨0, 0⟩ 0x1111 = some (zeroMessage 0x1111 4) := by
    decide
  have fits : (zeroMessage 0x1111 4).encodedSize < 2147483648 := by decide
  obtain ⟨after, buff, encoded, _, filled, _⟩ := ipcConvertParam_frame held fits
  refine ⟨after, buff, encoded, filled, fun travels => ?_⟩
  obtain ⟨data, decoded, _, counted, _⟩ := travels
  have types := paramTypes_received encoded filled
    (show (receivedFrame (zeroMessage 0x1111 4)).Object ⟨0, 0⟩ _ from Memory.object_of_block rfl) decoded
  rw [types] at counted
  exact absurd counted (by decide)

end Declared

end Dwadelib.Ipc
