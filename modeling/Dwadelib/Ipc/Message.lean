import Dwadelib.Ipc.Param
import Dwadelib.Format

namespace Dwadelib.Ipc

/-! # Messages and their wire format

What a frame says, apart from how the codec walks over it: a command, the type word and
one payload for each counted parameter. `readMessage` is what six parameters in memory
say under a type word.
-/

/-- What one parameter carries across: its sixteen bytes, or the bytes it refers to. -/
inductive Payload where
  | value (union : List Byte)
  | memref (bytes : List Byte)
  | skipped
deriving DecidableEq, Repr

structure Message where
  cmdId : UInt32
  paramTypes : UInt32
  payloads : List Payload
deriving DecidableEq, Repr

def valueFormat : Format Byte Payload :=
  (Format.chunk paramSize).embed Payload.value
    (fun | .value union => some union | _ => none)
    (fun _ _ => rfl)
    (by
      intro value image _ projected
      cases image <;> simp_all)

/-- The bytes of a memory reference behind their length. -/
def memrefFormat : Format Byte Payload :=
  (Format.word.bind fun size => Format.chunk size.toNat).embed
    (fun pair => Payload.memref pair.2)
    (fun | .memref bytes => some (UInt32.ofNat bytes.length, bytes) | _ => none)
    (by
      intro given other
      obtain ⟨size, bytes⟩ := given
      obtain ⟨_, length⟩ := other
      have same : bytes.length = size.toNat := length
      simp only [same, UInt32.ofNat_toNat])
    (by
      intro value image _ projected
      cases image with
      | memref bytes =>
          cases projected
          rfl
      | value union => contradiction
      | skipped => contradiction)

/-- The layout a type nibble selects; both sides pass over the types they do not know. -/
def payloadFormat (paramType : UInt32) : Format Byte Payload :=
  if isValue paramType then valueFormat
  else if isMemref paramType then memrefFormat
  else Format.nothing .skipped

def payloadFormats (paramTypes : UInt32) (start count : Nat) : List (Format Byte Payload) :=
  (List.range' start count).map fun index => payloadFormat (paramTypeGet paramTypes index)

def messageFormat : Format Byte Message :=
  (Format.word.bind fun _ => Format.word.bind fun paramTypes =>
    Format.sequence (payloadFormats paramTypes 0 (getParamCount paramTypes))).embed
    (fun parts => ⟨parts.1, parts.2.1, parts.2.2⟩)
    (fun message => some (message.cmdId, message.paramTypes, message.payloads))
    (fun _ _ => rfl)
    (by
      intro value image _ projected
      cases projected
      rfl)

/-- The bytes of a message on the wire. -/
def Message.frame (message : Message) : List Byte := messageFormat.encode message

theorem Message.frame_eq (message : Message) :
    message.frame = Byte.encodeUInt32 message.cmdId ++ (Byte.encodeUInt32 message.paramTypes ++
      Format.encodeAll (payloadFormats message.paramTypes 0 (getParamCount message.paramTypes))
        message.payloads) := rfl

theorem valueFormat_encode (union : List Byte) : valueFormat.encode (.value union) = union := rfl

theorem memrefFormat_encode (bytes : List Byte) :
    memrefFormat.encode (.memref bytes) =
      Byte.encodeUInt32 (UInt32.ofNat bytes.length) ++ bytes := rfl

theorem valueFormat_valid {union : List Byte} :
    valueFormat.Valid (.value union) ↔ union.length = paramSize := by
  constructor
  · intro given
    obtain ⟨value, projected, valid⟩ := given
    cases projected
    exact valid
  · intro length
    exact ⟨union, rfl, length⟩

theorem memrefFormat_valid {bytes : List Byte} :
    memrefFormat.Valid (.memref bytes) ↔ bytes.length < 4294967296 := by
  constructor
  · intro given
    obtain ⟨value, projected, _, valid⟩ := given
    cases projected
    have length : bytes.length = (UInt32.ofNat bytes.length).toNat := valid
    have bound := (UInt32.ofNat bytes.length).toNat_lt
    omega
  · intro bound
    refine ⟨_, rfl, trivial, ?_⟩
    change bytes.length = (UInt32.ofNat bytes.length).toNat
    rw [UInt32.toNat_ofNat']
    omega

/-- `sizeof` of what the copy pass writes for one parameter. -/
def Payload.encodedSize : Payload → Nat
  | .value _ => paramSize
  | .memref bytes => uint32Size + bytes.length
  | .skipped => 0

/-- Two words, and what each parameter takes. -/
def Message.encodedSize (message : Message) : Nat :=
  uint32Size + uint32Size + (message.payloads.map Payload.encodedSize).sum

theorem payloadFormat_encode_length {paramType : UInt32} {payload : Payload}
    (valid : (payloadFormat paramType).Valid payload) :
    ((payloadFormat paramType).encode payload).length = payload.encodedSize := by
  unfold payloadFormat at valid ⊢
  split at valid
  · rename_i value
    rw [if_pos value]
    obtain ⟨union, projected, length⟩ := valid
    cases payload with
    | value held =>
        cases projected
        exact length
    | memref bytes => contradiction
    | skipped => contradiction
  · rename_i notValue
    rw [if_neg notValue]
    split at valid
    · rename_i memref
      rw [if_pos memref]
      obtain ⟨pair, projected, _⟩ := valid
      cases payload with
      | value held => contradiction
      | memref bytes =>
          simp only [memrefFormat_encode, List.length_append, Byte.encodeUInt32_length]
          rfl
      | skipped => contradiction
    · rename_i notMemref
      rw [if_neg notMemref]
      have same : payload = .skipped := valid
      rw [same]
      rfl

theorem encodeAll_length {paramTypes : UInt32} {start count : Nat} {payloads : List Payload}
    (valid : List.Forall₂ Format.Valid (payloadFormats paramTypes start count) payloads) :
    (Format.encodeAll (payloadFormats paramTypes start count) payloads).length =
      (payloads.map Payload.encodedSize).sum := by
  induction count generalizing start payloads with
  | zero =>
      cases valid
      rfl
  | succ count ih =>
      cases valid with
      | cons first others =>
          have head := payloadFormat_encode_length first
          have tail := ih others
          simp only [payloadFormats, List.range'_succ, List.map_cons, Format.encodeAll,
            List.length_append, List.sum_cons, head] at tail ⊢
          rw [tail]

/-- The encoder's size pass counts the bytes of the frame. -/
theorem Message.frame_length {message : Message} (valid : messageFormat.Valid message) :
    message.frame.length = message.encodedSize := by
  obtain ⟨parts, projected, _, _, payloads⟩ := valid
  cases projected
  rw [Message.frame_eq, List.length_append, List.length_append, encodeAll_length payloads,
    Byte.encodeUInt32_length, Byte.encodeUInt32_length, Message.encodedSize, ← Nat.add_assoc]
  rfl

theorem encodedSize_le_of_decode {message : Message} {input rest : List Byte}
    (accepted : messageFormat.decode input = some (message, rest)) :
    message.encodedSize ≤ input.length := by
  obtain ⟨valid, split⟩ := messageFormat.decode_sound _ _ _ accepted
  have length := Message.frame_length valid
  rw [split, ← length]
  exact (List.prefix_append _ rest).length_le

section Reading

variable {memory after : Memory} {params : Pointer} {paramTypes cmdId : UInt32}
  {index start count : Nat} {payload : Payload} {payloads : List Payload} {message : Message}

/-- What parameter `index` says under the type word. -/
def readPayload (memory : Memory) (params : Pointer) (paramTypes : UInt32) (index : Nat) :
    Option Payload :=
  if isValue (paramTypeGet paramTypes index) then
    (memory.read (paramAt params index) paramSize).map .value
  else if isMemref (paramTypeGet paramTypes index) then do
    let size ← memory.loadUInt32 (memrefSizeAt params index)
    let address ← memory.loadPointer (paramAt params index)
    let bytes ← memory.readThrough address size.toNat
    return .memref bytes
  else some .skipped

def readPayloads (memory : Memory) (params : Pointer) (paramTypes : UInt32) (start : Nat) :
    Nat → Option (List Payload)
  | 0 => some []
  | count + 1 => do
      let payload ← readPayload memory params paramTypes start
      let rest ← readPayloads memory params paramTypes (start + 1) count
      return payload :: rest

/-- What the counted parameters say; `none` when one of them is not readable. -/
def readMessage (memory : Memory) (cmdId : UInt32) (params : Pointer) (paramTypes : UInt32) :
    Option Message := do
  let payloads ← readPayloads memory params paramTypes 0 (getParamCount paramTypes)
  return { cmdId, paramTypes, payloads }

theorem readPayloads_eq_some_succ :
    readPayloads memory params paramTypes start (count + 1) = some payloads ↔
      ∃ payload rest, readPayload memory params paramTypes start = some payload ∧
        readPayloads memory params paramTypes (start + 1) count = some rest ∧
        payloads = payload :: rest := by
  simp only [readPayloads, bind, pure, Option.bind_eq_some_iff, Option.some.injEq]
  constructor
  · intro given
    obtain ⟨payload, first, rest, others, rfl⟩ := given
    exact ⟨payload, rest, first, others, rfl⟩
  · intro given
    obtain ⟨payload, rest, first, others, rfl⟩ := given
    exact ⟨payload, first, rest, others, rfl⟩

theorem readMessage_eq_some :
    readMessage memory cmdId params paramTypes = some message ↔
      ∃ payloads, readPayloads memory params paramTypes 0 (getParamCount paramTypes) = some payloads ∧
        { cmdId, paramTypes, payloads } = message := by
  simp only [readMessage, bind, pure, Option.bind_eq_some_iff, Option.some.injEq]

theorem readPayload_value (value : isValue (paramTypeGet paramTypes index) = true) :
    readPayload memory params paramTypes index = some payload ↔
      ∃ union, memory.read (paramAt params index) paramSize = some union ∧ .value union = payload := by
  simp only [readPayload, if_pos value, Option.map_eq_some_iff]

theorem readPayload_memref (memref : isMemref (paramTypeGet paramTypes index) = true) :
    readPayload memory params paramTypes index = some payload ↔
      ∃ size address bytes, memory.loadUInt32 (memrefSizeAt params index) = some size ∧
        memory.loadPointer (paramAt params index) = some address ∧
        memory.readThrough address size.toNat = some bytes ∧ payload = .memref bytes := by
  have notValue := isValue_eq_false_of_isMemref memref
  simp only [readPayload, notValue, Bool.false_eq_true, if_false, if_pos memref, bind, pure,
    Option.bind_eq_some_iff, Option.some.injEq]
  constructor
  · intro given
    obtain ⟨size, sized, address, pointed, bytes, loaded, rfl⟩ := given
    exact ⟨size, address, bytes, sized, pointed, loaded, rfl⟩
  · intro given
    obtain ⟨size, address, bytes, sized, pointed, loaded, rfl⟩ := given
    exact ⟨size, sized, address, pointed, bytes, loaded, rfl⟩

theorem readPayload_skipped (notValue : isValue (paramTypeGet paramTypes index) = false)
    (notMemref : isMemref (paramTypeGet paramTypes index) = false) :
    readPayload memory params paramTypes index = some .skipped := by
  simp [readPayload, notValue, notMemref]

/-- Whatever parameters in memory say is well formed for their type word. -/
theorem payload_valid (held : readPayload memory params paramTypes index = some payload) :
    (payloadFormat (paramTypeGet paramTypes index)).Valid payload := by
  by_cases value : isValue (paramTypeGet paramTypes index) = true
  · obtain ⟨union, loaded, rfl⟩ := (readPayload_value value).mp held
    rw [payloadFormat, if_pos value]
    exact valueFormat_valid.mpr (Memory.length_of_read loaded)
  · by_cases memref : isMemref (paramTypeGet paramTypes index) = true
    · obtain ⟨size, address, bytes, _, _, loaded, rfl⟩ := (readPayload_memref memref).mp held
      rw [payloadFormat, if_neg value, if_pos memref]
      rw [memrefFormat_valid, Memory.length_of_readThrough loaded]
      exact size.toNat_lt
    · rw [readPayload_skipped (by simpa using value) (by simpa using memref)] at held
      cases held
      rw [payloadFormat, if_neg value, if_neg memref]
      exact rfl

theorem payloads_valid
    (held : readPayloads memory params paramTypes start count = some payloads) :
    List.Forall₂ Format.Valid (payloadFormats paramTypes start count) payloads := by
  induction count generalizing start payloads with
  | zero =>
      cases held
      exact .nil
  | succ count ih =>
      obtain ⟨payload, rest, first, others, rfl⟩ := readPayloads_eq_some_succ.mp held
      exact .cons (payload_valid first) (ih others)

/-- Each counted parameter says the payload at its place in the message. -/
theorem readPayload_of_readPayloads
    (held : readPayloads memory params paramTypes start count = some payloads)
    (lower : start ≤ index) (upper : index < start + count) :
    ∃ payload, payloads[index - start]? = some payload ∧
      readPayload memory params paramTypes index = some payload := by
  induction count generalizing start payloads with
  | zero => omega
  | succ count ih =>
      obtain ⟨payload, rest, first, others, rfl⟩ := readPayloads_eq_some_succ.mp held
      by_cases here : index = start
      · subst here
        exact ⟨payload, by simp, first⟩
      · obtain ⟨later, placed, said⟩ := ih others (by omega) (by omega)
        have position : index - start = index - (start + 1) + 1 := by omega
        exact ⟨later, by rw [position, List.getElem?_cons_succ, placed], said⟩

theorem readMessage_payload (held : readMessage memory cmdId params paramTypes = some message)
    (counted : index < getParamCount paramTypes) :
    ∃ payload, message.payloads[index]? = some payload ∧
      readPayload memory params paramTypes index = some payload := by
  obtain ⟨payloads, read, rfl⟩ := readMessage_eq_some.mp held
  obtain ⟨payload, placed, said⟩ := readPayload_of_readPayloads read (Nat.zero_le index) (by omega)
  exact ⟨payload, placed, said⟩

theorem message_valid (held : readMessage memory cmdId params paramTypes = some message) :
    messageFormat.Valid message := by
  obtain ⟨payloads, read, rfl⟩ := readMessage_eq_some.mp held
  exact ⟨_, rfl, trivial, trivial, payloads_valid read⟩

end Reading

end Dwadelib.Ipc
