import Dwadelib.Ipc.Convert.Decode

namespace Dwadelib.Ipc

/-! # The round trip between the two sides -/

inductive Side where
  | client
  | server
deriving DecidableEq, Repr

namespace Side

def other : Side → Side
  | client => server
  | server => client

def ipcConvertParam : Side → Memory → UInt32 → Pointer → UInt32 → Bool →
    Option (Memory × Option (Pointer × Int))
  | client => Client.ipcConvertParam
  | server => Server.ipcConvertParam

def ipcConvertData : Side → Memory → Pointer → Int → Pointer → Option ConvertedData
  | client => Client.ipcConvertData
  | server => Server.ipcConvertData

theorem ipcConvertParam_eq (side : Side) : side.ipcConvertParam = Ipc.ipcConvertParam := by
  cases side <;> rfl

theorem ipcConvertData_eq (side : Side) : side.ipcConvertData = Ipc.ipcConvertData := by
  cases side <;> rfl

end Side

section RoundTrip

variable {memory received : Memory} {params rparams rbuff : Pointer} {cmdId paramTypes : UInt32}
  {index : Nat} {message : Message} {payload : Payload}

/-- One parameter as the two sides see it: equal unions under a value type, equal sizes and
equal referenced bytes under a memory reference type. -/
def SameParam (memory : Memory) (params : Pointer) (received : Memory) (rparams : Pointer)
    (paramTypes : UInt32) (index : Nat) : Prop :=
  (isValue (paramTypeGet paramTypes index) = true → ∃ union,
    memory.read (paramAt params index) paramSize = some union ∧
    received.read (paramAt rparams index) paramSize = some union) ∧
  (isMemref (paramTypeGet paramTypes index) = true → ∃ size bytes buffer rbuffer,
    memory.loadUInt32 (memrefSizeAt params index) = some size ∧
    memory.loadPointer (paramAt params index) = some buffer ∧
    memory.readThrough buffer size.toNat = some bytes ∧
    received.loadUInt32 (memrefSizeAt rparams index) = some size ∧
    received.loadPointer (paramAt rparams index) = some rbuffer ∧
    received.readThrough rbuffer size.toNat = some bytes)

theorem sameParam_of_readPayload (held : readPayload memory params paramTypes index = some payload)
    (arrived : readPayload received rparams paramTypes index = some payload) :
    SameParam memory params received rparams paramTypes index := by
  refine ⟨?_, ?_⟩
  · intro value
    obtain ⟨union, loaded, rfl⟩ := (readPayload_value value).mp held
    obtain ⟨other, receivedUnion, same⟩ := (readPayload_value value).mp arrived
    cases same
    exact ⟨_, loaded, receivedUnion⟩
  · intro memref
    obtain ⟨size, buffer, bytes, sized, pointed, loaded, rfl⟩ := (readPayload_memref memref).mp held
    obtain ⟨rsize, rbuffer, rbytes, rsized, rpointed, rloaded, same⟩ :=
      (readPayload_memref memref).mp arrived
    cases same
    have sizes : size.toNat = rsize.toNat := by
      rw [← Memory.length_of_readThrough loaded, ← Memory.length_of_readThrough rloaded]
    cases UInt32.toNat_inj.mp sizes
    exact ⟨size, bytes, buffer, rbuffer, sized, pointed, loaded, rsized, rpointed, rloaded⟩

theorem sameParam_of_readMessage
    (held : readMessage memory cmdId params paramTypes = some message)
    (arrived : readMessage received cmdId rparams paramTypes = some message)
    (counted : index < getParamCount paramTypes) :
    SameParam memory params received rparams paramTypes index := by
  obtain ⟨payload, placed, said⟩ := readMessage_payload held counted
  obtain ⟨other, otherPlaced, otherSaid⟩ := readMessage_payload arrived counted
  cases placed.symm.trans otherPlaced
  exact sameParam_of_readPayload said otherSaid

/-- What one side encodes the other side decodes: the command, the type word, every counted
parameter and the length of the frame, under every type word. -/
theorem ipcConvertData_ipcConvertParam (side : Side)
    (held : readMessage memory cmdId params paramTypes = some message)
    (fits : message.encodedSize < 2147483648)
    (arrived : received.Object rbuff message.frame)
    (room : received.Valid rparams (paramSize * numParams))
    (separate : rparams.block ≠ rbuff.block) :
    ∃ after buff data,
      side.ipcConvertParam memory cmdId params paramTypes true =
        some (after, some (buff, (message.encodedSize : Int))) ∧
      after.read buff message.encodedSize = some message.frame ∧
      side.other.ipcConvertData received rbuff message.encodedSize rparams = some data ∧
      data.status = 0 ∧ data.cmdId = cmdId ∧ data.paramTypes = paramTypes ∧
      data.pos = message.encodedSize ∧
      ∀ index < getParamCount paramTypes,
        SameParam memory params data.memory rparams paramTypes index := by
  have valid := message_valid held
  have length := Message.frame_length valid
  obtain ⟨after, buff, encoded, _, filled, _⟩ := ipcConvertParam_frame held fits
  have decodable : Decodable received rbuff rparams message.frame :=
    ⟨arrived, by rw [length]; exact fits, room, separate⟩
  have accepted := messageFormat.decode_encode message [] valid
  rw [List.append_nil] at accepted
  obtain ⟨data, decoded, status, sameCmdId, sameTypes, stopped, said, _⟩ :=
    ipcConvertData_accepts decodable message.encodedSize accepted
  obtain ⟨payloads, _, rfl⟩ := readMessage_eq_some.mp held
  rw [sameCmdId, sameTypes] at said
  rw [length] at stopped
  refine ⟨after, buff, data, ?_, filled, ?_, status, sameCmdId, sameTypes, ?_, ?_⟩
  · rw [Side.ipcConvertParam_eq, encoded]
  · rw [Side.ipcConvertData_eq, decoded]
  · simpa using stopped
  · intro index counted
    exact sameParam_of_readMessage held said counted

/-- A value, three referenced bytes and an unassigned type, with the asynchronous mark. -/
private def exampleParams : Memory :=
  ⟨[some (Byte.encodeUInt32 10 ++ Byte.encodeUInt32 20 ++ List.replicate 8 .undefined ++
      (Byte.encodePointer ⟨1, 0⟩ ++ Byte.encodeUInt32 3 ++ List.replicate 4 .undefined) ++
      List.replicate 64 .undefined),
    some [.octet 7, .octet 8, .octet 9]]⟩

private def exampleMessage : Message :=
  { cmdId := cmdRequestInit, paramTypes := 0x80000451,
    payloads := [.value (Byte.encodeUInt32 10 ++ Byte.encodeUInt32 20 ++ List.replicate 8 .undefined),
      .memref [.octet 7, .octet 8, .octet 9], .skipped] }

private def exampleReceived : Memory :=
  ⟨[some exampleMessage.frame, some (List.replicate 96 .undefined)]⟩

theorem ipcConvertData_ipcConvertParam_callback :
    ∃ after buff data,
      Side.client.ipcConvertParam exampleParams cmdRequestInit ⟨0, 0⟩ 0x80000451 true =
        some (after, some (buff, 31)) ∧
      after.read buff 31 = some exampleMessage.frame ∧
      Side.server.ipcConvertData exampleReceived ⟨0, 0⟩ 31 ⟨1, 0⟩ = some data ∧
      data.status = 0 ∧ data.cmdId = cmdRequestInit ∧ data.paramTypes = 0x80000451 ∧ data.pos = 31 ∧
      ∀ index < 3, SameParam exampleParams ⟨0, 0⟩ data.memory ⟨1, 0⟩ 0x80000451 index := by
  have held : readMessage exampleParams cmdRequestInit ⟨0, 0⟩ 0x80000451 = some exampleMessage := by
    decide
  have fits : exampleMessage.encodedSize < 2147483648 := by decide
  have arrived : exampleReceived.Object ⟨0, 0⟩ exampleMessage.frame := Memory.object_of_block rfl
  have room : exampleReceived.Valid ⟨1, 0⟩ (paramSize * numParams) := by
    unfold Memory.Valid
    decide
  exact ipcConvertData_ipcConvertParam .client held fits arrived room (by decide)

end RoundTrip

end Dwadelib.Ipc
