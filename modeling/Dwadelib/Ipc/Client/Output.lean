import Dwadelib.Ipc.Convert.Decode
import Dwadelib.Ipc.Transport
import Dwadelib.Memory.Copied

namespace Dwadelib.Ipc.Client

/-! # How output parameters travel back

The copies between the four objects that hold parameters: the array of the caller, the one in
its node, and the receive buffer and array of `start_receive`.
-/

structure Arrays where
  caller : Pointer
  node : Pointer
  buff : Pointer
  params : Pointer
  distinct : [caller.block, node.block, buff.block, params.block].Nodup

/-- A pointer to none of the four objects. -/
def Arrays.Outside (arrays : Arrays) (pointer : Pointer) : Prop :=
  pointer.block ∉ [arrays.caller.block, arrays.node.block, arrays.buff.block, arrays.params.block]

/-- `callback_node->params[i] = params[i]`, for all six. -/
def storeParams (memory : Memory) (arrays : Arrays) : Option Memory :=
  forRange 0 numParams (fun index memory =>
    memory.memcpy (paramAt arrays.node index) (paramAt arrays.caller index) paramSize) memory

/-- `start_receive` up to the decoded parameters. -/
def receiveReply (memory : Memory) (arrays : Arrays) (received : Received) : Option ConvertedData := do
  let (memory, n) ← recv memory arrays.buff received
  Client.ipcConvertData memory arrays.buff n arrays.params

/-- One iteration of `process_sync_call`: its `memcpy` reads from the address of the pointer. -/
def processSyncParam (arrays : Arrays) (paramTypes : UInt32) (index : Nat) (memory : Memory) :
    Option Memory :=
  let paramType := paramTypeGet paramTypes index
  if isValueOut paramType then
    memory.memcpy (paramAt arrays.node index) (paramAt arrays.params index) paramSize
  else if isMemrefOut paramType then do
    let size ← memory.loadUInt32 (memrefSizeAt arrays.params index)
    let memory ← memory.storeUInt32 (memrefSizeAt arrays.node index) size
    let buffer ← memory.loadPointer (paramAt arrays.node index)
    let size ← memory.loadUInt32 (memrefSizeAt arrays.params index)
    let bytes ← memory.read (paramAt arrays.params index) size.toNat
    memory.writeThrough buffer bytes
  else
    some memory

/-- Copy an output parameter with the bytes of its union, the pointer included. -/
def copyParamOut (destination source : Pointer) (paramTypes : UInt32) (index : Nat)
    (memory : Memory) : Option Memory :=
  let paramType := paramTypeGet paramTypes index
  if isValueOut paramType then
    memory.memcpy (paramAt destination index) (paramAt source index) paramSize
  else if isMemrefOut paramType then do
    let size ← memory.loadUInt32 (memrefSizeAt source index)
    let memory ← memory.storeUInt32 (memrefSizeAt destination index) size
    let size ← memory.loadUInt32 (memrefSizeAt source index)
    memory.memcpy (paramAt destination index) (paramAt source index) size.toNat
  else
    some memory

/-- One iteration of `process_async_call`: its `memcpy` also writes to the address of the
pointer. -/
def processAsyncParam (arrays : Arrays) : UInt32 → Nat → Memory → Option Memory :=
  copyParamOut arrays.node arrays.params

/-- One iteration of the last loop of `ipc_client_request`: its `memcpy` writes to the address
of the pointer. -/
def returnParam (arrays : Arrays) (paramTypes : UInt32) (index : Nat) (memory : Memory) :
    Option Memory :=
  let paramType := paramTypeGet paramTypes index
  if isValueOut paramType then
    memory.memcpy (paramAt arrays.caller index) (paramAt arrays.node index) paramSize
  else if isMemrefOut paramType then do
    let size ← memory.loadUInt32 (memrefSizeAt arrays.node index)
    let memory ← memory.storeUInt32 (memrefSizeAt arrays.caller index) size
    let buffer ← memory.loadPointer (paramAt arrays.node index)
    let size ← memory.loadUInt32 (memrefSizeAt arrays.caller index)
    let bytes ← memory.readThrough buffer size.toNat
    memory.write (paramAt arrays.caller index) bytes
  else
    some memory

/-- `ipc_client_request` without a callback, from the copy into its node to its return 0. -/
def synchronousRequest (memory : Memory) (arrays : Arrays) (paramTypes : UInt32)
    (received : Received) : Option Memory := do
  let count := getParamCount paramTypes
  let memory ← storeParams memory arrays
  let data ← receiveReply memory arrays received
  let memory ← forRange 0 count (processSyncParam arrays paramTypes) data.memory
  forRange 0 count (returnParam arrays paramTypes) memory

/-- `ipc_client_request` with a callback, to the memory the callback is called in. -/
def asynchronousRequest (memory : Memory) (arrays : Arrays) (paramTypes : UInt32)
    (received : Received) : Option Memory := do
  let paramTypes := paramTypes ||| paramTypeCallback
  let memory ← storeParams memory arrays
  let data ← receiveReply memory arrays received
  forRange 0 (getParamCount paramTypes) (processAsyncParam arrays paramTypes) data.memory

/-- What parameter `index` of the caller has to be after the return. -/
def ParamReturned (memory final : Memory) (arrays : Arrays) (paramTypes : UInt32) (reply : Message)
    (index : Nat) : Prop :=
  if isValueOut (paramTypeGet paramTypes index) then
    ∃ union, reply.payloads[index]? = some (.value union) ∧
      final.read (paramAt arrays.caller index) paramSize = some union
  else if isMemrefOut (paramTypeGet paramTypes index) then
    ∃ bytes address, reply.payloads[index]? = some (.memref bytes) ∧
      final.loadUInt32 (memrefSizeAt arrays.caller index) = some (UInt32.ofNat bytes.length) ∧
      memory.loadPointer (paramAt arrays.caller index) = some address ∧
      final.read (paramAt arrays.caller index) 8 = memory.read (paramAt arrays.caller index) 8 ∧
      final.readThrough address bytes.length = some bytes
  else
    final.read (paramAt arrays.caller index) paramSize =
        memory.read (paramAt arrays.caller index) paramSize ∧
      readPayload final arrays.caller paramTypes index =
        readPayload memory arrays.caller paramTypes index

/-- What output parameter `index` given to the callback has to be. -/
def ParamGiven (final : Memory) (arrays : Arrays) (paramTypes : UInt32) (reply : Message)
    (index : Nat) : Prop :=
  (isValueOut (paramTypeGet paramTypes index) = true →
    ∃ union, reply.payloads[index]? = some (.value union) ∧
      final.read (paramAt arrays.node index) paramSize = some union) ∧
  (isMemrefOut (paramTypeGet paramTypes index) = true →
    ∃ bytes address, reply.payloads[index]? = some (.memref bytes) ∧
      final.loadUInt32 (memrefSizeAt arrays.node index) = some (UInt32.ofNat bytes.length) ∧
      final.loadPointer (paramAt arrays.node index) = some address ∧
      final.readThrough address bytes.length = some bytes)

def SynchronousOutputs (memory : Memory) (arrays : Arrays) (paramTypes : UInt32)
    (received : Received) (reply : Message) : Prop :=
  ∃ final, synchronousRequest memory arrays paramTypes received = some final ∧
    ∀ index < getParamCount paramTypes, ParamReturned memory final arrays paramTypes reply index

def AsynchronousOutputs (memory : Memory) (arrays : Arrays) (paramTypes : UInt32)
    (received : Received) (reply : Message) : Prop :=
  ∃ final, asynchronousRequest memory arrays paramTypes received = some final ∧
    ∀ index < getParamCount paramTypes, ParamGiven final arrays paramTypes reply index

/-- The number of bytes a reference of the reply refers to. -/
def replySize (reply : Message) (index : Nat) : Nat :=
  match reply.payloads[index]? with
  | some (.memref bytes) => bytes.length
  | _ => 0

/-- The objects of a request whose parameters are readable. -/
structure Supplied (memory : Memory) (arrays : Arrays) (paramTypes : UInt32) : Prop where
  caller : memory.Valid arrays.caller (paramSize * numParams)
  node : memory.Valid arrays.node (paramSize * numParams)
  params : memory.Valid arrays.params (paramSize * numParams)
  paramsEnd : memory.byteAt (arrays.params.advance (paramSize * numParams : Nat)) = none
  buff : ∃ content, memory.Object arrays.buff content ∧ content.length = buffMaxNum
  memrefs : ∀ index < getParamCount paramTypes, isMemref (paramTypeGet paramTypes index) = true →
    ∃ address size, memory.loadPointer (paramAt arrays.caller index) = some address ∧
      memory.loadUInt32 (memrefSizeAt arrays.caller index) = some size ∧
      (size.toNat ≠ 0 → ∃ pointer, address = some pointer ∧ memory.Valid pointer size.toNat ∧
        arrays.Outside pointer)

/-- The received bytes are the frame of a reply to the request, with references of at most
the supplied sizes. -/
structure Answers (memory : Memory) (arrays : Arrays) (paramTypes : UInt32) (received : Received)
    (reply : Message) : Prop where
  decoded : messageFormat.decode received.content = some (reply, [])
  whole : received.content.length ≤ buffMaxNum
  types : ∀ index < numParams, paramTypeGet reply.paramTypes index = paramTypeGet paramTypes index
  fits : ∀ index < getParamCount paramTypes, isMemrefOut (paramTypeGet paramTypes index) = true →
    ∀ size, memory.loadUInt32 (memrefSizeAt arrays.caller index) = some size →
      replySize reply index ≤ size.toNat

section Stages

variable {origin memory stored : Memory} {arrays : Arrays} {paramTypes : UInt32} {received : Received}
  {reply : Message}

theorem Arrays.apart (arrays : Arrays) :
    arrays.caller.block ≠ arrays.node.block ∧ arrays.caller.block ≠ arrays.buff.block ∧
      arrays.caller.block ≠ arrays.params.block ∧ arrays.node.block ≠ arrays.buff.block ∧
      arrays.node.block ≠ arrays.params.block ∧ arrays.buff.block ≠ arrays.params.block := by
  have distinct := arrays.distinct
  simp only [List.nodup_cons, List.mem_cons, List.not_mem_nil, or_false, not_or,
    List.nodup_nil, not_false_eq_true, and_true] at distinct
  tauto

/-- The node holds the caller's parameters, and outside it only the receiver has been written. -/
structure Landed (origin memory : Memory) (arrays : Arrays) : Prop where
  node : ∀ place : Int, 0 ≤ place → place < (paramSize * numParams : Nat) →
    memory.byteAt (arrays.node.advance place) = origin.byteAt (arrays.caller.advance place)
  elsewhere : ∀ query : Pointer, query.block ≠ arrays.node.block → query.block ≠ arrays.buff.block →
    query.block ≠ arrays.params.block → memory.byteAt query = origin.byteAt query
  params : memory.Valid arrays.params (paramSize * numParams)
  paramsEnd : memory.byteAt (arrays.params.advance (paramSize * numParams : Nat)) = none

/-- The node holds the caller's parameters, the receiver the reply, all else is unchanged. -/
structure Prepared (origin memory : Memory) (arrays : Arrays) (paramTypes : UInt32) (reply : Message) :
    Prop where
  node : ∀ place : Int, 0 ≤ place → place < (paramSize * numParams : Nat) →
    memory.byteAt (arrays.node.advance place) = origin.byteAt (arrays.caller.advance place)
  elsewhere : ∀ query : Pointer, query.block ≠ arrays.node.block → query.block ≠ arrays.buff.block →
    query.block ≠ arrays.params.block → memory.byteAt query = origin.byteAt query
  params : memory.Valid arrays.params (paramSize * numParams)
  paramsEnd : memory.byteAt (arrays.params.advance (paramSize * numParams : Nat)) = none
  value : ∀ index < getParamCount paramTypes, isValueOut (paramTypeGet paramTypes index) = true →
    ∃ union, reply.payloads[index]? = some (.value union) ∧
      memory.read (paramAt arrays.params index) paramSize = some union
  memref : ∀ index < getParamCount paramTypes, isMemrefOut (paramTypeGet paramTypes index) = true →
    ∃ bytes size offset, reply.payloads[index]? = some (.memref bytes) ∧
      memory.loadUInt32 (memrefSizeAt arrays.params index) = some size ∧ size.toNat = bytes.length ∧
      memory.loadPointer (paramAt arrays.params index) = some (some (arrays.buff.advance offset)) ∧
      memory.read (arrays.buff.advance offset) bytes.length = some bytes

theorem storeParams_copied (caller : memory.Valid arrays.caller (paramSize * numParams))
    (node : memory.Valid arrays.node (paramSize * numParams)) :
    ∃ stored, storeParams memory arrays = some stored ∧
      Memory.Copied memory stored arrays.node arrays.caller
        fun place => 0 ≤ place ∧ place < (paramSize * numParams : Nat) := by
  obtain ⟨callerNode, _⟩ := arrays.apart
  let picks (index : Nat) (place : Int) : Prop :=
    (paramSize * index : Nat) ≤ place ∧ place < (paramSize * index : Nat) + (paramSize : Nat)
  obtain ⟨stored, looped, copied⟩ : ∃ stored, storeParams memory arrays = some stored ∧
      Memory.Copied memory stored arrays.node arrays.caller
        fun place => ∃ index < numParams, picks index place := by
    apply Memory.forRange_copied callerNode
    intro index state known copied
    have readable : ∀ place : Int, (∃ earlier < index, picks earlier place) →
        (memory.byteAt (arrays.caller.advance place)).isSome := by
      intro place picked
      obtain ⟨earlier, before, lower, upper⟩ := picked
      simp only [paramSize, numParams] at lower upper known
      exact caller.place (by omega) (by simp only [paramSize, numParams]; omega)
    obtain ⟨next, taken⟩ := Memory.memcpy_exists (valid_param (copied.valid readable caller) known)
      (valid_param (copied.valid readable node) known)
    exact ⟨next, taken, Memory.Copied.of_memcpy taken⟩
  refine ⟨stored, looped, copied.congr fun place => ?_⟩
  simp only [picks, paramSize, numParams]
  constructor
  · intro picked
    obtain ⟨index, known, lower, upper⟩ := picked
    omega
  · intro inside
    exact ⟨(place / 16).toNat, by omega, by omega, by omega⟩

theorem receiveReply_eq_some {data : ConvertedData} :
    receiveReply memory arrays received = some data ↔
      ∃ written, memory.write arrays.buff received.content = some written ∧
        Client.ipcConvertData written arrays.buff received.result arrays.params = some data := by
  simp only [receiveReply, recv, bind, pure, Option.bind_eq_some_iff, Option.some.injEq]
  constructor
  · intro completed
    obtain ⟨_, ⟨written, stored, rfl⟩, converted⟩ := completed
    exact ⟨written, stored, converted⟩
  · intro completed
    obtain ⟨written, stored, converted⟩ := completed
    exact ⟨_, ⟨written, stored, rfl⟩, converted⟩

/-- What `recv` stores is at most the receive buffer. -/
theorem received_length {content : List Byte} {written : Memory}
    (object : memory.Object arrays.buff content)
    (stored : memory.write arrays.buff received.content = some written) :
    received.content.length ≤ content.length := by
  obtain ⟨bytes, loaded⟩ := (Memory.Valid.of_write stored).read_exists
  have whole : received.content.length = 0 ∨ 0 + received.content.length ≤ content.length :=
    ((object.read_eq_some 0 _).mp (by simpa using loaded)).1
  omega

theorem received_decodable {content : List Byte} {written : Memory}
    (object : memory.Object arrays.buff content) (full : content.length = buffMaxNum)
    (room : memory.Valid arrays.params (paramSize * numParams))
    (stored : memory.write arrays.buff received.content = some written) :
    Decodable written arrays.buff arrays.params
      (received.content ++ content.drop received.content.length) := by
  obtain ⟨_, _, _, _, _, buffParams⟩ := arrays.apart
  have whole := received_length object stored
  refine ⟨object.overwrite stored, ?_, (Memory.valid_write_iff stored).mpr room, Ne.symm buffParams⟩
  rw [List.length_append, List.length_drop]
  simp only [full, buffMaxNum] at whole ⊢
  omega

theorem receiveReply_decodable {content : List Byte} {data : ConvertedData}
    (object : memory.Object arrays.buff content) (full : content.length = buffMaxNum)
    (room : memory.Valid arrays.params (paramSize * numParams))
    (arrived : receiveReply memory arrays received = some data) :
    Decodable data.memory arrays.buff arrays.params
      (received.content ++ content.drop received.content.length) := by
  obtain ⟨written, stored, converted⟩ := receiveReply_eq_some.mp arrived
  exact ipcConvertData_decodable (received_decodable object full room stored) converted

theorem receiveReply_frame {query : Pointer} {data : ConvertedData}
    (arrived : receiveReply memory arrays received = some data)
    (outsideBuff : query.block ≠ arrays.buff.block)
    (outsideParams : query.block ≠ arrays.params.block ∨
      arrays.params.offset + (paramSize * numParams : Nat) ≤ query.offset) :
    data.memory.byteAt query = memory.byteAt query := by
  obtain ⟨written, stored, converted⟩ := receiveReply_eq_some.mp arrived
  rw [ipcConvertData_frame converted outsideParams, Memory.byteAt_write stored, if_neg]
  intro inside
  exact outsideBuff inside.1

theorem receiveReply_decodes {content : List Byte} (object : memory.Object arrays.buff content)
    (full : content.length = buffMaxNum) (room : memory.Valid arrays.params (paramSize * numParams))
    (decoded : messageFormat.decode received.content = some (reply, []))
    (whole : received.content.length ≤ buffMaxNum) :
    ∃ data, receiveReply memory arrays received = some data ∧
      data.paramTypes = reply.paramTypes ∧
      readMessage data.memory data.cmdId arrays.params data.paramTypes = some reply ∧
      data.memory.Valid arrays.params (paramSize * numParams) ∧
      (∀ index < getParamCount data.paramTypes,
        isMemref (paramTypeGet data.paramTypes index) = true →
        ∃ offset, data.memory.loadPointer (paramAt arrays.params index) =
          some (some (arrays.buff.advance offset))) ∧
      ∀ query : Pointer, query.block ≠ arrays.buff.block →
        (query.block ≠ arrays.params.block ∨
          arrays.params.offset + (paramSize * numParams : Nat) ≤ query.offset) →
        data.memory.byteAt query = memory.byteAt query := by
  obtain ⟨written, _, stored, _⟩ := recv_object received object (by rw [full]; exact whole)
  obtain ⟨valid, split⟩ := messageFormat.decode_sound _ _ _ decoded
  rw [List.append_nil] at split
  have accepted := messageFormat.decode_encode reply (content.drop received.content.length) valid
  rw [← split] at accepted
  obtain ⟨data, converted, _, _, types, _, held, kept⟩ :=
    ipcConvertData_accepts (received_decodable object full room stored) received.result accepted
  have arrived : receiveReply memory arrays received = some data :=
    receiveReply_eq_some.mpr ⟨written, stored, converted⟩
  exact ⟨data, arrived, types, held, kept.room, fun index counted memref =>
    ipcConvertData_inside converted counted memref, fun _ => receiveReply_frame arrived⟩

theorem landed_of_stored (supplied : Supplied memory arrays paramTypes)
    (storing : storeParams memory arrays = some stored) : Landed memory stored arrays := by
  obtain ⟨_, _, _, _, nodeParams, _⟩ := arrays.apart
  obtain ⟨_, known, copied⟩ := storeParams_copied supplied.caller supplied.node
  cases known.symm.trans storing
  refine ⟨fun place lower upper => copied.inside place ⟨lower, upper⟩,
    fun query outsideNode _ _ => copied.elsewhere outsideNode, fun index inside => ?_, ?_⟩
  · rw [copied.elsewhere (by simpa using Ne.symm nodeParams)]
    exact supplied.params index inside
  · have unstored : stored.byteAt (arrays.params.advance (paramSize * numParams : Nat)) =
        memory.byteAt (arrays.params.advance (paramSize * numParams : Nat)) :=
      copied.elsewhere (Ne.symm nodeParams)
    rw [unstored]
    exact supplied.paramsEnd

/-- Receiving a message, for whichever request, writes to the receiver only. -/
theorem Landed.receive {content : List Byte} {data : ConvertedData}
    (landed : Landed origin memory arrays) (object : memory.Object arrays.buff content)
    (full : content.length = buffMaxNum)
    (arrived : receiveReply memory arrays received = some data) :
    Landed origin data.memory arrays := by
  obtain ⟨_, _, _, nodeBuff, nodeParams, buffParams⟩ := arrays.apart
  refine ⟨?_, ?_, ?_, ?_⟩
  · intro place lower upper
    have kept : data.memory.byteAt (arrays.node.advance place) =
        memory.byteAt (arrays.node.advance place) :=
      receiveReply_frame arrived nodeBuff (.inl nodeParams)
    rw [kept, landed.node place lower upper]
  · intro query outsideNode outsideBuff outsideParams
    rw [receiveReply_frame arrived outsideBuff (.inl outsideParams),
      landed.elsewhere query outsideNode outsideBuff outsideParams]
  · exact (receiveReply_decodable object full landed.params arrived).room
  · have unwritten : data.memory.byteAt (arrays.params.advance (paramSize * numParams : Nat)) =
        memory.byteAt (arrays.params.advance (paramSize * numParams : Nat)) :=
      receiveReply_frame arrived (Ne.symm buffParams) (.inr (Int.le_refl _))
    rw [unwritten]
    exact landed.paramsEnd

theorem prepared_exists (supplied : Supplied memory arrays paramTypes)
    (answers : Answers memory arrays paramTypes received reply) :
    ∃ stored data, storeParams memory arrays = some stored ∧
      receiveReply stored arrays received = some data ∧
      Prepared memory data.memory arrays paramTypes reply := by
  obtain ⟨_, _, _, nodeBuff, _⟩ := arrays.apart
  obtain ⟨content, object, full⟩ := supplied.buff
  obtain ⟨stored, storing, copied⟩ := storeParams_copied supplied.caller supplied.node
  have landed := landed_of_stored supplied storing
  have objectStored : stored.Object arrays.buff content := object.congr fun query same =>
    copied.elsewhere (by rw [same]; exact Ne.symm nodeBuff)
  obtain ⟨data, receives, types, held, _, inside, _⟩ :=
    receiveReply_decodes objectStored full landed.params answers.decoded answers.whole
  have sameTypes := answers.types
  rw [← types] at sameTypes
  have counts : getParamCount data.paramTypes = getParamCount paramTypes :=
    getParamCount_congr sameTypes
  have known : ∀ index < getParamCount paramTypes,
      paramTypeGet data.paramTypes index = paramTypeGet paramTypes index := fun index counted =>
    sameTypes index (Nat.lt_of_lt_of_le counted (getParamCount_le paramTypes))
  have landed := landed.receive objectStored full receives
  refine ⟨stored, data, storing, receives, landed.node, landed.elsewhere, landed.params,
    landed.paramsEnd, ?_, ?_⟩
  · intro index counted value
    obtain ⟨payload, placed, reads⟩ := readMessage_payload held (counts ▸ counted)
    obtain ⟨union, loaded, rfl⟩ := (readPayload_value (by
      rw [known index counted]; exact isValue_of_isValueOut value)).mp reads
    exact ⟨union, placed, loaded⟩
  · intro index counted memref
    have memref' : isMemref (paramTypeGet data.paramTypes index) = true := by
      rw [known index counted]
      exact isMemref_of_isMemrefOut memref
    obtain ⟨payload, placed, reads⟩ := readMessage_payload held (counts ▸ counted)
    obtain ⟨size, address, bytes, sized, pointed, loaded, rfl⟩ :=
      (readPayload_memref memref').mp reads
    obtain ⟨offset, intoBuff⟩ := inside index (by rw [counts]; exact counted) memref'
    have length := Memory.length_of_readThrough loaded
    rw [intoBuff] at pointed
    cases pointed
    rw [Memory.readThrough_some, ← length] at loaded
    exact ⟨bytes, size, offset, placed, sized, length.symm, intoBuff, loaded⟩

theorem replySize_eq {index : Nat} {bytes : List Byte}
    (placed : reply.payloads[index]? = some (.memref bytes)) : replySize reply index = bytes.length := by
  simp only [replySize, placed]

theorem Prepared.landed (prepared : Prepared origin memory arrays paramTypes reply) :
    Landed origin memory arrays :=
  ⟨prepared.node, prepared.elsewhere, prepared.params, prepared.paramsEnd⟩

theorem Landed.node_valid (landed : Landed origin memory arrays)
    (caller : origin.Valid arrays.caller (paramSize * numParams)) :
    memory.Valid arrays.node (paramSize * numParams) := by
  intro index inside
  rw [landed.node index (Int.natCast_nonneg index) (by omega)]
  exact caller index inside

theorem Landed.loadPointer {index : Nat} (landed : Landed origin memory arrays)
    (known : index < numParams) :
    memory.loadPointer (paramAt arrays.node index) = origin.loadPointer (paramAt arrays.caller index) := by
  have same : memory.read (paramAt arrays.node index) 8 = origin.read (paramAt arrays.caller index) 8 := by
    apply Memory.read_eq_of_bytes
    intro shift inside
    rw [paramAt, paramAt, Pointer.advance_advance, Pointer.advance_advance]
    apply landed.node
    · omega
    · simp only [paramSize, numParams] at known ⊢
      omega
  simp only [Memory.loadPointer, same]

/-- A reference that is answered with bytes refers to an object of the caller. -/
theorem Supplied.pointer {index : Nat} (supplied : Supplied memory arrays paramTypes)
    (answers : Answers memory arrays paramTypes received reply)
    (counted : index < getParamCount paramTypes)
    (memref : isMemrefOut (paramTypeGet paramTypes index) = true)
    (nonempty : replySize reply index ≠ 0) :
    ∃ pointer, memory.loadPointer (paramAt arrays.caller index) = some (some pointer) ∧
      arrays.Outside pointer := by
  obtain ⟨address, size, pointed, sized, target⟩ :=
    supplied.memrefs index counted (isMemref_of_isMemrefOut memref)
  have fits := answers.fits index counted memref size sized
  obtain ⟨pointer, rfl, _, outside⟩ := target (by omega)
  exact ⟨pointer, pointed, outside⟩

end Stages

end Dwadelib.Ipc.Client
