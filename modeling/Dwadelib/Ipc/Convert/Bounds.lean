import Dwadelib.Ipc.Convert.RoundTrip

namespace Dwadelib.Ipc

/-! # What the decoder touches

`ipc_convert_data` takes the number of received bytes and does not look at it. Its copies
out of the receive buffer and the references it makes stay among the received bytes exactly
when those begin with a whole frame.
-/

/-- The bytes of a buffer from `start` on. -/
structure Extent where
  start : Int
  count : Nat
deriving DecidableEq, Repr

/-- Every byte of the extent is one of the first `size` bytes. -/
def Extent.Within (extent : Extent) (size : Int) : Prop :=
  ∀ shift : Nat, shift < extent.count → 0 ≤ extent.start + shift ∧ extent.start + shift < size

theorem Extent.within_of_le {start count : Nat} {size : Int} (inside : (start + count : Nat) ≤ size) :
    Within ⟨start, count⟩ size := by
  intro shift bound
  simp only at bound ⊢
  omega

theorem Extent.le_of_within {start count : Nat} {size : Int} (within : Within ⟨start, count⟩ size)
    (nonempty : count ≠ 0) : (start + count : Nat) ≤ size := by
  have last := within (count - 1) (by simp only; omega)
  simp only at last
  omega

/-- What one iteration of the decoding loop copies out of the buffer. -/
def decodeParamCopies (paramTypes : UInt32) (index : Nat) (cursor : Cursor) : List Extent :=
  let paramType := paramTypeGet paramTypes index
  if isValue paramType then
    [⟨cursor.pos, paramSize⟩]
  else if isMemref paramType then
    [⟨cursor.pos, uint32Size⟩]
  else
    []

/-- `ipc_convert_data` together with everything it copies out of the buffer. -/
def ipcConvertDataTraced (memory : Memory) (buff : Pointer) (_size : Int) (params : Pointer) :
    Option (ConvertedData × List Extent) := do
  let cmdId ← memory.loadUInt32 buff
  let paramTypes ← memory.loadUInt32 (buff.advance uint32Size)
  let (decoded, copies) ← forRangeTraced 0 (getParamCount paramTypes)
    (decodeParam buff params paramTypes) (decodeParamCopies paramTypes)
    { memory, pos := (uint32Size + uint32Size : Nat) }
  return ({ status := 0, cmdId, paramTypes, memory := decoded.memory, pos := decoded.pos },
    ⟨0, uint32Size⟩ :: ⟨uint32Size, uint32Size⟩ :: copies)

/-- Where parameter `index` is a memory reference, it refers to received bytes only. -/
def MemrefWithin (memory : Memory) (buff params : Pointer) (paramTypes : UInt32) (size : Int)
    (index : Nat) : Prop :=
  isMemref (paramTypeGet paramTypes index) = true → ∃ offset memrefSize,
    memory.loadPointer (paramAt params index) = some (some (buff.advance offset)) ∧
    memory.loadUInt32 (memrefSizeAt params index) = some memrefSize ∧
    Extent.Within ⟨offset, memrefSize.toNat⟩ size

/-- On this buffer, of which `size` bytes were received, the decoder fails or copies received
bytes only and makes references to received bytes only. -/
def StaysInside (memory : Memory) (buff : Pointer) (size : Int) (params : Pointer) : Prop :=
  ∃ data copies, ipcConvertDataTraced memory buff size params = some (data, copies) ∧
    (data.status ≠ 0 ∨ (∀ extent ∈ copies, extent.Within size) ∧
      ∀ index < getParamCount data.paramTypes,
        MemrefWithin data.memory buff params data.paramTypes size index)

section Bounds

variable {memory after : Memory} {params buff : Pointer} {paramTypes : UInt32}
  {index start count position later : Nat} {size : Int} {payload : Payload} {payloads : List Payload}
  {message : Message} {content rest : List Byte} {cursor next final : Cursor} {copies : List Extent}
  {data : ConvertedData}

theorem ipcConvertDataTraced_eq_some :
    ipcConvertDataTraced memory buff size params = some (data, copies) ↔
      ∃ cmdId paramTypes final tail, memory.loadUInt32 buff = some cmdId ∧
        memory.loadUInt32 (buff.advance uint32Size) = some paramTypes ∧
        forRangeTraced 0 (getParamCount paramTypes) (decodeParam buff params paramTypes)
          (decodeParamCopies paramTypes) { memory, pos := (uint32Size + uint32Size : Nat) } =
            some (final, tail) ∧
        data = { status := 0, cmdId, paramTypes, memory := final.memory, pos := final.pos } ∧
        copies = ⟨0, uint32Size⟩ :: ⟨uint32Size, uint32Size⟩ :: tail := by
  simp only [ipcConvertDataTraced, bind, pure, Option.bind_eq_some_iff, Option.some.injEq,
    Prod.mk.injEq]
  constructor
  · intro given
    obtain ⟨cmdId, cmdLoaded, paramTypes, typesLoaded, ⟨final, tail⟩, looped, rfl, rfl⟩ := given
    exact ⟨cmdId, paramTypes, final, tail, cmdLoaded, typesLoaded, looped, rfl, rfl⟩
  · intro given
    obtain ⟨cmdId, paramTypes, final, tail, cmdLoaded, typesLoaded, looped, rfl, rfl⟩ := given
    exact ⟨cmdId, cmdLoaded, paramTypes, typesLoaded, (final, tail), looped, rfl, rfl⟩

/-- The account of the copies does not change what either side's decoder does. -/
theorem ipcConvertDataTraced_fst (side : Side) :
    (ipcConvertDataTraced memory buff size params).map Prod.fst =
      side.ipcConvertData memory buff size params := by
  rw [Side.ipcConvertData_eq]
  ext data
  rw [ipcConvertData_eq_some, Option.map_eq_some_iff]
  constructor
  · intro given
    obtain ⟨⟨_, copies⟩, traced, rfl⟩ := given
    obtain ⟨cmdId, paramTypes, final, tail, cmdLoaded, typesLoaded, looped, same, _⟩ :=
      ipcConvertDataTraced_eq_some.mp traced
    exact ⟨cmdId, paramTypes, final, cmdLoaded, typesLoaded, forRange_of_traced looped, same⟩
  · intro given
    obtain ⟨cmdId, paramTypes, final, cmdLoaded, typesLoaded, looped, same⟩ := given
    obtain ⟨tail, traced⟩ := forRangeTraced_exists (decodeParamCopies paramTypes) looped
    exact ⟨(data, _), ipcConvertDataTraced_eq_some.mpr
      ⟨cmdId, paramTypes, final, tail, cmdLoaded, typesLoaded, traced, same, rfl⟩, rfl⟩

theorem MemrefWithin.congr (within : MemrefWithin memory buff params paramTypes size index)
    (same : ∀ query, ¬ OutsideParam params index query →
      after.byteAt query = memory.byteAt query) :
    MemrefWithin after buff params paramTypes size index := by
  intro memref
  obtain ⟨offset, memrefSize, pointed, sized, inside⟩ := within memref
  refine ⟨offset, memrefSize, ?_, ?_, inside⟩
  · rw [Memory.loadPointer_object, ← Memory.loadPointer_object.mp pointed]
    simpa using read_param_congr same (show 0 + 8 ≤ paramSize by decide)
  · rw [Memory.loadUInt32_eq_some, ← Memory.loadUInt32_eq_some.mp sized]
    exact read_param_congr same (show 8 + 4 ≤ paramSize by decide)

/-- Later iterations keep what an earlier one left in its parameter. -/
theorem MemrefWithin.after_loop
    (looped : forRange (start + 1) count (decodeParam buff params paramTypes) next = some final) :
    MemrefWithin final.memory buff params paramTypes size start ↔
      MemrefWithin next.memory buff params paramTypes size start := by
  have same : ∀ query, ¬ OutsideParam params start query →
      final.memory.byteAt query = next.memory.byteAt query := by
    intro query touched
    simp only [OutsideParam, not_or, Decidable.not_not, not_lt, not_le] at touched
    exact decodeLoop_frame looped (.inr (.inl touched.2.2))
  constructor
  · intro within
    exact within.congr fun query touched => (same query touched).symm
  · intro within
    exact within.congr same

/-- An iteration that stays among the received bytes takes a payload the format accepts. -/
theorem accepted_of_within (decodable : Decodable cursor.memory buff params content)
    (here : cursor.pos = position) (received : (position : Int) ≤ size)
    (enough : size ≤ content.length)
    (completed : decodeParam buff params paramTypes index cursor = some next)
    (copied : ∀ extent ∈ decodeParamCopies paramTypes index cursor, extent.Within size)
    (referred : MemrefWithin next.memory buff params paramTypes size index) :
    ∃ payload, ∃ later : Nat, (payloadFormat (paramTypeGet paramTypes index)).decode (content.drop position) =
      some (payload, content.drop later) ∧ later ≤ size := by
  by_cases value : isValue (paramTypeGet paramTypes index) = true
  · simp only [decodeParamCopies, if_pos value, List.mem_singleton, forall_eq, here] at copied
    have inside := Extent.le_of_within copied (by decide)
    refine ⟨.value ((content.drop position).take paramSize), position + paramSize, ?_, inside⟩
    rw [payloadFormat_decode_value value, if_pos, List.drop_drop]
    rw [List.length_drop]
    omega
  · by_cases memref : isMemref (paramTypeGet paramTypes index) = true
    · simp only [decodeParamCopies, if_neg value, if_pos memref, List.mem_singleton, forall_eq,
        here] at copied
      have headed := Extent.le_of_within copied (by decide)
      obtain ⟨memrefSize, room, decoded, _, sized, pointed⟩ :=
        decodeParam_memref_content decodable here memref completed
      obtain ⟨offset, found, foundPointer, foundSize, inside⟩ := referred memref
      cases sized.symm.trans foundSize
      have same := congrArg (Option.map (Option.map Pointer.offset)) (pointed.symm.trans foundPointer)
      simp only [Option.map_some, Pointer.advance_offset, Option.some.injEq] at same
      have shifted : offset = (position + 4 : Nat) := by omega
      rw [shifted] at inside
      have fits : (position + 4 + memrefSize.toNat : Nat) ≤ size := by
        by_cases empty : memrefSize.toNat = 0
        · simp only [uint32Size] at headed
          omega
        · exact Extent.le_of_within inside empty
      refine ⟨.memref (((content.drop position).drop 4).take memrefSize.toNat),
        position + 4 + memrefSize.toNat, ?_, fits⟩
      rw [payloadFormat_decode_memref memref, decoded, Option.bind_some, if_pos, List.drop_drop,
        List.drop_drop]
      simp only [List.length_drop]
      omega
    · simp only [Bool.not_eq_true] at value memref
      exact ⟨_, position, payloadFormat_decode_skipped value memref _, received⟩

/-- Where the format's payload ends among the received bytes, so does all the iteration touches. -/
theorem within_of_accepted (decodable : Decodable cursor.memory buff params content)
    (here : cursor.pos = position) (inside : position ≤ content.length)
    (completed : decodeParam buff params paramTypes index cursor = some next)
    (accepted : (payloadFormat (paramTypeGet paramTypes index)).decode (content.drop position) =
      some (payload, rest)) (ends : next.pos ≤ size) :
    (∀ extent ∈ decodeParamCopies paramTypes index cursor, extent.Within size) ∧
      MemrefWithin next.memory buff params paramTypes size index := by
  have bounded := decodable.bounded
  by_cases value : isValue (paramTypeGet paramTypes index) = true
  · have notMemref : isMemref (paramTypeGet paramTypes index) = false := by
      cases memref : isMemref (paramTypeGet paramTypes index) with
      | false => rfl
      | true => rw [isValue_eq_false_of_isMemref memref] at value; contradiction
    rw [payloadFormat_decode_value value] at accepted
    split at accepted
    · rename_i enough
      obtain ⟨bytes, stored, _, _, rfl⟩ := (decodeParam_value value).mp completed
      simp only [List.length_drop, paramSize] at enough
      simp only [here, paramSize] at ends
      rw [CInt.convert_eq (by omega) (by omega)] at ends
      simp only [decodeParamCopies, if_pos value, List.mem_singleton, forall_eq, here]
      refine ⟨Extent.within_of_le (by simp only [paramSize]; omega), fun memref => ?_⟩
      rw [notMemref] at memref
      contradiction
    · contradiction
  · by_cases memref : isMemref (paramTypeGet paramTypes index) = true
    · obtain ⟨memrefSize, room, decoded, moved, sized, pointed⟩ :=
        decodeParam_memref_content decodable here memref completed
      rw [payloadFormat_decode_memref memref, decoded, Option.bind_some] at accepted
      split at accepted
      · rename_i enough
        simp only [List.length_drop] at enough
        rw [moved, CInt.convert_eq (by omega) (by omega)] at ends
        simp only [decodeParamCopies, if_neg value, if_pos memref, List.mem_singleton, forall_eq, here]
        refine ⟨Extent.within_of_le (by simp only [uint32Size]; omega), fun _ => ?_⟩
        exact ⟨(position + 4 : Nat), memrefSize, pointed, sized, Extent.within_of_le (by omega)⟩
      · contradiction
    · refine ⟨?_, fun is => absurd is memref⟩
      simp only [decodeParamCopies, if_neg value, if_neg memref]
      intro extent absent
      cases absent

/-- A loop that stays among the received bytes takes payloads the format accepts. -/
theorem accepted_of_loop_within (decodable : Decodable cursor.memory buff params content)
    (here : cursor.pos = position) (received : (position : Int) ≤ size)
    (enough : size ≤ content.length) (known : start + count ≤ numParams)
    (looped : forRangeTraced start count (decodeParam buff params paramTypes)
      (decodeParamCopies paramTypes) cursor = some (final, copies))
    (copied : ∀ extent ∈ copies, extent.Within size)
    (referred : ∀ index, start ≤ index → index < start + count →
      MemrefWithin final.memory buff params paramTypes size index) :
    ∃ payloads, ∃ later : Nat, Format.decodeAll (payloadFormats paramTypes start count)
      (content.drop position) = some (payloads, content.drop later) ∧ later ≤ size := by
  induction count generalizing start cursor position copies with
  | zero => exact ⟨[], position, rfl, received⟩
  | succ count ih =>
      obtain ⟨next, others, first, rest, rfl⟩ := forRangeTraced_succ_eq_some.mp looped
      have kept := (MemrefWithin.after_loop (forRange_of_traced rest)).mp
        (referred start (Nat.le_refl start) (by omega))
      obtain ⟨payload, middle, head, fits⟩ := accepted_of_within decodable here received enough
        first (fun extent taken => copied extent (List.mem_append_left _ taken)) kept
      obtain ⟨reached, room, moved, same⟩ := decodeParam_pos decodable here (by omega) first head
      have position : reached = middle := by
        have length := congrArg List.length same
        rw [List.length_drop, List.length_drop] at length
        omega
      subst position
      obtain ⟨payloads, later, tail, ends⟩ := ih (decodable.decodeParam first) moved fits (by omega)
        rest (fun extent taken => copied extent (List.mem_append_right _ taken))
        fun index lower upper => referred index (by omega) (by omega)
      refine ⟨payload :: payloads, later, ?_, ends⟩
      rw [payloadFormats_succ, Format.decodeAll, head, Option.bind_some, tail, Option.map_some]

/-- Where the payloads end among the received bytes, so does all the loop touches. -/
theorem loop_within_of_accepted (decodable : Decodable cursor.memory buff params content)
    (here : cursor.pos = position) (received : (position : Int) ≤ size)
    (enough : size ≤ content.length) (known : start + count ≤ numParams)
    (accepted : Format.decodeAll (payloadFormats paramTypes start count) (content.drop position) =
      some (payloads, content.drop later)) (ends : (later : Int) ≤ size) :
    ∃ final copies, forRangeTraced start count (decodeParam buff params paramTypes)
        (decodeParamCopies paramTypes) cursor = some (final, copies) ∧
      (∀ extent ∈ copies, extent.Within size) ∧
      ∀ index, start ≤ index → index < start + count →
        MemrefWithin final.memory buff params paramTypes size index := by
  induction count generalizing start cursor position payloads with
  | zero =>
      refine ⟨cursor, [], rfl, ?_, fun index lower upper => by omega⟩
      intro extent absent
      cases absent
  | succ count ih =>
      rw [payloadFormats_succ, Format.decodeAll] at accepted
      obtain ⟨⟨payload, middle⟩, head, tail⟩ := Option.bind_eq_some_iff.mp accepted
      obtain ⟨⟨others, remaining⟩, tailAccepted, same⟩ := Option.map_eq_some_iff.mp tail
      cases same
      obtain ⟨next, first⟩ := decodeParam_exists decodable (by omega) here (by omega) head
      obtain ⟨reached, room, moved, rfl⟩ := decodeParam_pos decodable here (by omega) first head
      have split := (Format.decodeAll_sound _ _ _ _ tailAccepted).2
      have lengths := congrArg List.length split
      rw [List.length_append, List.length_drop, List.length_drop] at lengths
      have fits : (reached : Int) ≤ size := by omega
      obtain ⟨final, copies, rest, copied, referred⟩ :=
        ih (decodable.decodeParam first) moved fits (by omega) tailAccepted
      obtain ⟨taken, kept⟩ := within_of_accepted decodable here (by omega) first head
        (show next.pos ≤ size by rw [moved]; exact fits)
      refine ⟨final, decodeParamCopies paramTypes start cursor ++ copies,
        forRangeTraced_succ_eq_some.mpr ⟨next, copies, first, rest, rfl⟩, ?_, ?_⟩
      · intro extent member
        rcases List.mem_append.mp member with early | late
        · exact taken extent early
        · exact copied extent late
      · intro index lower upper
        by_cases now : index = start
        · subst now
          exact (MemrefWithin.after_loop (forRange_of_traced rest)).mpr kept
        · exact referred index (by omega) (by omega)

/-- The header is copied whatever was received. -/
theorem StaysInside.header (inside : StaysInside memory buff size params) : 8 ≤ size := by
  obtain ⟨data, copies, traced, safe⟩ := inside
  obtain ⟨cmdId, paramTypes, final, tail, _, _, _, rfl, rfl⟩ := ipcConvertDataTraced_eq_some.mp traced
  rcases safe with failed | ⟨copied, _⟩
  · exact absurd rfl failed
  · exact Extent.le_of_within (copied ⟨(4 : Nat), 4⟩ (.tail _ (.head _))) (by decide)

theorem decode_of_frame (valid : messageFormat.Valid message)
    (begins : message.frame <+: content.take size.toNat) :
    ∃ later : Nat, messageFormat.decode content = some (message, content.drop later) ∧
      8 ≤ later ∧ (later : Int) ≤ size := by
  obtain ⟨rest, whole⟩ := begins.trans (List.take_prefix _ _)
  have short := begins.length_le
  have header := Message.frame_length valid
  simp only [Message.encodedSize, uint32Size] at header
  rw [List.length_take] at short
  refine ⟨message.frame.length, ?_, by omega, by omega⟩
  rw [← whole, List.drop_left]
  exact messageFormat.decode_encode message rest valid

theorem begins_of_staysInside (decodable : Decodable memory buff params content)
    (enough : size ≤ content.length) (inside : StaysInside memory buff size params) :
    ∃ message, messageFormat.Valid message ∧ message.frame <+: content.take size.toNat := by
  have header := inside.header
  obtain ⟨data, copies, traced, safe⟩ := inside
  obtain ⟨cmdId, paramTypes, final, tail, cmdLoaded, typesLoaded, looped, rfl, rfl⟩ :=
    ipcConvertDataTraced_eq_some.mp traced
  have whole : 0 + getParamCount paramTypes ≤ numParams := by
    simpa using getParamCount_le paramTypes
  obtain ⟨copied, referred⟩ := safe.resolve_left fun failed => failed rfl
  obtain ⟨payloads, later, accepted, ends⟩ := accepted_of_loop_within decodable
    (show _ = ((8 : Nat) : Int) from rfl) (by omega) enough whole looped
    (fun extent taken => copied extent (.tail _ (.tail _ taken)))
    fun index _ upper => referred index (by simpa using upper)
  have cmdDecoded := (loadUInt32_of_object decodable.object 0).mp (by simpa using cmdLoaded)
  have typesDecoded := (loadUInt32_of_object decodable.object 4).mp typesLoaded
  have decoded : messageFormat.decode content =
      some ({ cmdId, paramTypes, payloads }, content.drop later) :=
    messageFormat_decode_eq_some.mpr ⟨cmdId, paramTypes, payloads, by simpa using cmdDecoded,
      typesDecoded, by rw [List.drop_drop]; exact accepted, rfl⟩
  obtain ⟨valid, split⟩ := messageFormat.decode_sound _ _ _ decoded
  refine ⟨_, valid, ?_⟩
  have short : (content.take size.toNat).take later = content.take later := by
    rw [List.take_take, Nat.min_eq_left (by omega)]
  have front : Message.frame { cmdId, paramTypes, payloads } = content.take later := by
    have both := (List.take_append_drop later content).trans split
    exact (List.append_cancel_right both).symm
  rw [front, ← short]
  exact List.take_prefix _ _

theorem staysInside_of_begins (decodable : Decodable memory buff params content)
    (enough : size ≤ content.length) (valid : messageFormat.Valid message)
    (begins : message.frame <+: content.take size.toNat) :
    StaysInside memory buff size params := by
  obtain ⟨later, decoded, behind, ends⟩ := decode_of_frame valid begins
  obtain ⟨cmdId, paramTypes, payloads, cmdDecoded, typesDecoded, payloadsDecoded, rfl⟩ :=
    messageFormat_decode_eq_some.mp decoded
  rw [List.drop_drop] at payloadsDecoded
  have whole : 0 + getParamCount paramTypes ≤ numParams := by
    simpa using getParamCount_le paramTypes
  have object : Decodable (Cursor.mk memory (uint32Size + uint32Size : Nat)).memory buff params content :=
    decodable
  obtain ⟨final, copies, looped, copied, referred⟩ := loop_within_of_accepted object
    (show _ = ((8 : Nat) : Int) from rfl) (by omega) enough whole payloadsDecoded ends
  have cmdLoaded : memory.loadUInt32 buff = some cmdId := by
    simpa using (loadUInt32_of_object decodable.object 0).mpr (by simpa using cmdDecoded)
  have typesLoaded : memory.loadUInt32 (buff.advance uint32Size) = some paramTypes :=
    (loadUInt32_of_object decodable.object 4).mpr typesDecoded
  refine ⟨_, _, ipcConvertDataTraced_eq_some.mpr
    ⟨cmdId, paramTypes, final, copies, cmdLoaded, typesLoaded, looped, rfl, rfl⟩, .inr ⟨?_, ?_⟩⟩
  · intro extent member
    rcases List.mem_cons.mp member with rfl | member
    · have room : ((0 + uint32Size : Nat) : Int) ≤ size := by simp only [uint32Size]; omega
      exact Extent.within_of_le room
    · rcases List.mem_cons.mp member with rfl | member
      · exact Extent.within_of_le (by simp only [uint32Size]; omega)
      · exact copied extent member
  · intro index counted
    exact referred index (Nat.zero_le index) (by simpa using counted)

/-- The decoder stays among the received bytes exactly when they begin with a whole frame:
the count it is given rules nothing out. -/
theorem convertData_stays_iff (decodable : Decodable memory buff params content)
    (enough : size ≤ content.length) :
    StaysInside memory buff size params ↔
      ∃ message, messageFormat.Valid message ∧ message.frame <+: content.take size.toNat := by
  constructor
  · intro inside
    exact begins_of_staysInside decodable enough inside
  · intro ⟨message, valid, begins⟩
    exact staysInside_of_begins decodable enough valid begins

/-- The receive buffer after these bytes came into a cleared one, and an array of parameters. -/
private def receiving (bytes : List Byte) : Memory :=
  ⟨[some (bytes ++ List.replicate (buffMaxNum - bytes.length) (.octet 0)),
    some (List.replicate 96 .undefined)]⟩

private theorem receiving_decodable {bytes : List Byte} (fits : bytes.length ≤ buffMaxNum) :
    Decodable (receiving bytes) ⟨0, 0⟩ ⟨1, 0⟩
      (bytes ++ List.replicate (buffMaxNum - bytes.length) (.octet 0)) where
  object := Memory.object_of_block rfl
  bounded := by
    simp only [List.length_append, List.length_replicate, buffMaxNum] at fits ⊢
    omega
  room := by
    intro index inside
    have known : index < 96 := inside
    simp [receiving, Memory.byteAt, Pointer.advance, known]
  separate := by decide

/-- A command with one reference to three bytes. -/
private def shortFrame : List Byte :=
  Byte.encodeUInt32 cmdRequestInit ++ Byte.encodeUInt32 paramTypeMemrefInput ++
    Byte.encodeUInt32 3 ++ [.octet 7, .octet 8, .octet 9]

theorem convertData_stays_frame : StaysInside (receiving shortFrame) ⟨0, 0⟩ 15 ⟨1, 0⟩ := by
  have decoded : messageFormat.decode shortFrame =
      some (⟨cmdRequestInit, paramTypeMemrefInput, [.memref [.octet 7, .octet 8, .octet 9]]⟩, []) := by
    decide
  obtain ⟨valid, same⟩ := messageFormat.decode_sound _ _ _ decoded
  rw [List.append_nil] at same
  refine (convertData_stays_iff (receiving_decodable (by decide)) ?_).mpr ⟨_, valid, ?_⟩
  · have length : shortFrame.length = 15 := rfl
    simp only [List.length_append, length]
    omega
  · rw [show (15 : Int).toNat = shortFrame.length from rfl, List.take_left, Message.frame, ← same]

/-- A failed `recv` leaves nothing received, and the decoder still reads a header. -/
theorem convertData_leaves_failed :
    Decodable (receiving []) ⟨0, 0⟩ ⟨1, 0⟩ (List.replicate buffMaxNum (.octet 0)) ∧
      ¬ StaysInside (receiving []) ⟨0, 0⟩ (-1) ⟨1, 0⟩ := by
  refine ⟨receiving_decodable (Nat.zero_le _), fun inside => ?_⟩
  have header := inside.header
  omega

end Bounds

end Dwadelib.Ipc
