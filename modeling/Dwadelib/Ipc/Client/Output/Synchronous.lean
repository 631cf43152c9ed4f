import Dwadelib.Ipc.Client.Output.Copy

namespace Dwadelib.Ipc.Client

/-! # The parameters of a synchronous request

While nothing is referred to, both loops are copies of unions. The last reference that is
answered with bytes gets its own pointer overwritten by the first of them.
-/

/-- Every output reference of the reply is empty. -/
def ReferencesEmpty (paramTypes : UInt32) (reply : Message) : Prop :=
  ∀ index < getParamCount paramTypes, isMemrefOut (paramTypeGet paramTypes index) = true →
    replySize reply index = 0

section Synchronous

variable {memory final after : Memory} {arrays : Arrays} {paramTypes : UInt32} {received : Received}
  {reply : Message} {index : Nat}

theorem synchronousRequest_eq {stored : Memory} {data : ConvertedData}
    (storing : storeParams memory arrays = some stored)
    (receives : receiveReply stored arrays received = some data) :
    synchronousRequest memory arrays paramTypes received =
      (forRange 0 (getParamCount paramTypes) (processSyncParam arrays paramTypes) data.memory).bind
        (forRange 0 (getParamCount paramTypes) (returnParam arrays paramTypes)) := by
  simp only [synchronousRequest, storing, receives, bind, Option.bind_some]

theorem processSyncParam_value (value : isValueOut (paramTypeGet paramTypes index) = true) :
    processSyncParam arrays paramTypes index memory =
      memory.memcpy (paramAt arrays.node index) (paramAt arrays.params index) paramSize := by
  simp only [processSyncParam, if_pos value]

theorem processSyncParam_memref (memref : isMemrefOut (paramTypeGet paramTypes index) = true) :
    processSyncParam arrays paramTypes index memory = some after ↔
      ∃ size middle buffer again bytes,
        memory.loadUInt32 (memrefSizeAt arrays.params index) = some size ∧
        memory.storeUInt32 (memrefSizeAt arrays.node index) size = some middle ∧
        middle.loadPointer (paramAt arrays.node index) = some buffer ∧
        middle.loadUInt32 (memrefSizeAt arrays.params index) = some again ∧
        middle.read (paramAt arrays.params index) again.toNat = some bytes ∧
        middle.writeThrough buffer bytes = some after := by
  have notValue := isValueOut_eq_false_of_isMemrefOut memref
  simp only [processSyncParam, notValue, Bool.false_eq_true, if_false, if_pos memref, bind,
    Option.bind_eq_some_iff]
  constructor
  · intro completed
    obtain ⟨size, sized, middle, stored, buffer, pointed, again, resized, bytes, read, written⟩ :=
      completed
    exact ⟨size, middle, buffer, again, bytes, sized, stored, pointed, resized, read, written⟩
  · intro completed
    obtain ⟨size, middle, buffer, again, bytes, sized, stored, pointed, resized, read, written⟩ :=
      completed
    exact ⟨size, sized, middle, stored, buffer, pointed, again, resized, bytes, read, written⟩

theorem processSyncParam_skipped (notValue : ¬ isValueOut (paramTypeGet paramTypes index) = true)
    (notMemref : ¬ isMemrefOut (paramTypeGet paramTypes index) = true) :
    processSyncParam arrays paramTypes index memory = some memory := by
  simp only [processSyncParam, if_neg notValue, if_neg notMemref]

theorem returnParam_value (value : isValueOut (paramTypeGet paramTypes index) = true) :
    returnParam arrays paramTypes index memory =
      memory.memcpy (paramAt arrays.caller index) (paramAt arrays.node index) paramSize := by
  simp only [returnParam, if_pos value]

theorem returnParam_memref (memref : isMemrefOut (paramTypeGet paramTypes index) = true) :
    returnParam arrays paramTypes index memory = some after ↔
      ∃ size middle buffer again bytes,
        memory.loadUInt32 (memrefSizeAt arrays.node index) = some size ∧
        memory.storeUInt32 (memrefSizeAt arrays.caller index) size = some middle ∧
        middle.loadPointer (paramAt arrays.node index) = some buffer ∧
        middle.loadUInt32 (memrefSizeAt arrays.caller index) = some again ∧
        middle.readThrough buffer again.toNat = some bytes ∧
        middle.write (paramAt arrays.caller index) bytes = some after := by
  have notValue := isValueOut_eq_false_of_isMemrefOut memref
  simp only [returnParam, notValue, Bool.false_eq_true, if_false, if_pos memref, bind,
    Option.bind_eq_some_iff]
  constructor
  · intro completed
    obtain ⟨size, sized, middle, stored, buffer, pointed, again, resized, bytes, read, written⟩ :=
      completed
    exact ⟨size, middle, buffer, again, bytes, sized, stored, pointed, resized, read, written⟩
  · intro completed
    obtain ⟨size, middle, buffer, again, bytes, sized, stored, pointed, resized, read, written⟩ :=
      completed
    exact ⟨size, sized, middle, stored, buffer, pointed, again, resized, bytes, read, written⟩

theorem returnParam_skipped (notValue : ¬ isValueOut (paramTypeGet paramTypes index) = true)
    (notMemref : ¬ isMemrefOut (paramTypeGet paramTypes index) = true) :
    returnParam arrays paramTypes index memory = some memory := by
  simp only [returnParam, if_neg notValue, if_neg notMemref]

theorem processSyncParam_eq_copy (known : index < numParams)
    (writable : memory.Valid arrays.node (paramSize * numParams))
    (empty : isMemrefOut (paramTypeGet paramTypes index) = true → Sized memory arrays.params index 0) :
    processSyncParam arrays paramTypes index memory =
      copyParamOut arrays.node arrays.params paramTypes index memory := by
  obtain ⟨_, _, _, _, nodeParams, _⟩ := arrays.apart
  by_cases value : isValueOut (paramTypeGet paramTypes index) = true
  · rw [processSyncParam_value value, copyParamOut_value value]
  · by_cases memref : isMemrefOut (paramTypeGet paramTypes index) = true
    · obtain ⟨word, loaded, zero⟩ := empty memref
      obtain ⟨middle, stored⟩ := storeSize_exists writable known word
      have reloaded := loadUInt32_storeUInt32_apart (Ne.symm nodeParams) loaded stored
      obtain ⟨buffer, pointed⟩ :=
        (valid_pointer ((Memory.valid_write_iff stored).mpr writable) known).loadPointer_exists
      have processed := (processSyncParam_memref memref).mpr ⟨word, middle, buffer, word, [], loaded,
        stored, pointed, reloaded, by rw [zero]; rfl, rfl⟩
      have copied := (copyParamOut_memref memref).mpr ⟨word, middle, word, loaded, stored, reloaded,
        by rw [zero]; rfl⟩
      rw [processed, copied]
    · rw [processSyncParam_skipped value memref, copyParamOut_skipped value memref]

theorem returnParam_eq_copy (known : index < numParams)
    (readable : memory.Valid arrays.node (paramSize * numParams))
    (writable : memory.Valid arrays.caller (paramSize * numParams))
    (empty : isMemrefOut (paramTypeGet paramTypes index) = true → Sized memory arrays.node index 0) :
    returnParam arrays paramTypes index memory =
      copyParamOut arrays.caller arrays.node paramTypes index memory := by
  obtain ⟨callerNode, _⟩ := arrays.apart
  by_cases value : isValueOut (paramTypeGet paramTypes index) = true
  · rw [returnParam_value value, copyParamOut_value value]
  · by_cases memref : isMemrefOut (paramTypeGet paramTypes index) = true
    · obtain ⟨word, loaded, zero⟩ := empty memref
      obtain ⟨middle, stored⟩ := storeSize_exists writable known word
      have reloaded := loadUInt32_storeUInt32_apart (Ne.symm callerNode) loaded stored
      obtain ⟨buffer, pointed⟩ :=
        (valid_pointer ((Memory.valid_write_iff stored).mpr readable) known).loadPointer_exists
      have returned := (returnParam_memref memref).mpr ⟨word, middle, buffer, word, [], loaded, stored,
        pointed, Memory.loadUInt32_storeUInt32 stored, by rw [zero]; rfl, rfl⟩
      have copied := (copyParamOut_memref memref).mpr ⟨word, middle, word, loaded, stored, reloaded,
        by rw [zero]; rfl⟩
      rw [returned, copied]
    · rw [returnParam_skipped value memref, copyParamOut_skipped value memref]

/-- Both loops copy the values and the sizes, and nothing else. -/
theorem copied_of_referencesEmpty (caller : memory.Valid arrays.caller (paramSize * numParams))
    (prepared : Prepared memory after arrays paramTypes reply)
    (empty : ReferencesEmpty paramTypes reply) :
    ∃ processed final,
      forRange 0 (getParamCount paramTypes) (processSyncParam arrays paramTypes) after =
        some processed ∧
      forRange 0 (getParamCount paramTypes) (returnParam arrays paramTypes) processed = some final ∧
      Memory.Copied after processed arrays.node arrays.params (repliedPlaces paramTypes reply) ∧
      Memory.Copied processed final arrays.caller arrays.node (repliedPlaces paramTypes reply) := by
  obtain ⟨callerNode, callerBuff, callerParams, _, nodeParams, _⟩ := arrays.apart
  have bound := getParamCount_le paramTypes
  have room : ∀ index < getParamCount paramTypes, isMemrefOut (paramTypeGet paramTypes index) = true →
      paramSize * index + replySize reply index ≤ paramSize * numParams := by
    intro index counted memref
    rw [empty index counted memref]
    simp only [paramSize, numParams] at bound ⊢
    omega
  have node := prepared.landed.node_valid caller
  obtain ⟨processed, processing, first⟩ := copyParamsOut_exists (Ne.symm nodeParams) prepared.params
    node bound prepared.sized room fun index state counted _ writable sized =>
      processSyncParam_eq_copy (by omega) writable fun memref =>
        empty index counted memref ▸ sized memref
  have inside : ∀ place, repliedPlaces paramTypes reply place →
      (after.byteAt (arrays.params.advance place)).isSome := by
    intro place picked
    obtain ⟨lower, upper⟩ := outPlacesBelow_inside bound room picked
    exact prepared.params.place lower upper
  have callerNow : processed.Valid arrays.caller (paramSize * numParams) := by
    apply first.valid inside
    intro index within
    rw [prepared.elsewhere (arrays.caller.advance index) callerNode callerBuff callerParams]
    exact caller index within
  obtain ⟨final, returning, second⟩ := copyParamsOut_exists (Ne.symm callerNode)
    (first.valid inside node) callerNow bound (fun index counted memref => by
      obtain ⟨word, loaded, length⟩ := prepared.sized index counted memref
      exact ⟨word, (loadUInt32_size_of_copied first counted memref).trans loaded, length⟩)
    room fun index state counted readable writable sized =>
      returnParam_eq_copy (by omega) readable writable fun memref =>
        empty index counted memref ▸ sized memref
  exact ⟨processed, final, processing, returning, first, second⟩

/-- A parameter says the same while its bytes and the caller's other objects stay. -/
theorem readPayload_unchanged (supplied : Supplied memory arrays paramTypes)
    (counted : index < getParamCount paramTypes)
    (kept : ∀ place : Int, (paramSize * index : Nat) ≤ place →
      place < (paramSize * index : Nat) + paramSize →
      final.byteAt (arrays.caller.advance place) = memory.byteAt (arrays.caller.advance place))
    (outside : ∀ query, arrays.Outside query → final.byteAt query = memory.byteAt query) :
    readPayload final arrays.caller paramTypes index =
      readPayload memory arrays.caller paramTypes index := by
  have union : ∀ first count, first + count ≤ paramSize →
      final.read ((paramAt arrays.caller index).advance (first : Nat)) count =
        memory.read ((paramAt arrays.caller index).advance (first : Nat)) count := by
    intro first count within
    apply Memory.read_congr
    intro shift inside
    rw [paramAt, Pointer.advance_advance, Pointer.advance_advance]
    exact kept _ (by omega) (by omega)
  have pointerKept := Memory.loadPointer_congr (union 0 8 (by decide))
  rw [Int.natCast_zero, Pointer.advance_zero] at pointerKept
  have sizeKept : final.loadUInt32 (memrefSizeAt arrays.caller index) =
      memory.loadUInt32 (memrefSizeAt arrays.caller index) :=
    Memory.loadUInt32_congr (union 8 4 (by decide))
  have unionKept := union 0 paramSize (by decide)
  rw [Int.natCast_zero, Pointer.advance_zero] at unionKept
  cases memref : isMemref (paramTypeGet paramTypes index) with
  | false => simp only [readPayload, unionKept, memref]; rfl
  | true =>
      obtain ⟨address, size, pointed, sized, target⟩ := supplied.memrefs index counted memref
      have bytesKept : final.readThrough address size.toNat = memory.readThrough address size.toNat := by
        by_cases nothing : size.toNat = 0
        · rw [nothing, Memory.readThrough_zero, Memory.readThrough_zero]
        · obtain ⟨pointer, rfl, _, apart⟩ := target nothing
          rw [Memory.readThrough_some, Memory.readThrough_some]
          exact Memory.read_congr fun shift _ => outside _ apart
      simp only [readPayload, unionKept, pointerKept, sizeKept, pointed, sized, bytesKept, bind,
        Option.bind_some]

section Empty

variable {processed : Memory} (prepared : Prepared memory after arrays paramTypes reply)
  (first : Memory.Copied after processed arrays.node arrays.params (repliedPlaces paramTypes reply))
  (second : Memory.Copied processed final arrays.caller arrays.node (repliedPlaces paramTypes reply))
include prepared first second

/-- Of a parameter the caller finds changed a value, or what is behind a pointer. -/
theorem caller_kept (empty : ReferencesEmpty paramTypes reply) {place : Int}
    (lower : (paramSize * index : Nat) ≤ place) (upper : place < (paramSize * index : Nat) + paramSize)
    (unwritten : ¬ (isValueOut (paramTypeGet paramTypes index) = true ∨
      (isMemrefOut (paramTypeGet paramTypes index) = true ∧ (paramSize * index : Nat) + 8 ≤ place))) :
    final.byteAt (arrays.caller.advance place) = memory.byteAt (arrays.caller.advance place) := by
  obtain ⟨callerNode, callerBuff, callerParams, _⟩ := arrays.apart
  have absent : ¬ repliedPlaces paramTypes reply place := by
    intro picked
    obtain ⟨other, counts, picked⟩ := picked
    exact unwritten (outPlaces_slot (empty other counts) lower upper picked).2
  have unprocessed : processed.byteAt (arrays.caller.advance place) =
      after.byteAt (arrays.caller.advance place) := first.elsewhere callerNode
  rw [second.kept absent, unprocessed]
  exact prepared.elsewhere _ callerNode callerBuff callerParams

theorem outside_kept {query : Pointer} (outside : arrays.Outside query) :
    final.byteAt query = memory.byteAt query := by
  simp only [Arrays.Outside, List.mem_cons, List.not_mem_nil, or_false, not_or] at outside
  rw [second.elsewhere outside.1, first.elsewhere outside.2.1]
  exact prepared.elsewhere query outside.2.1 outside.2.2.1 outside.2.2.2

theorem returned_of_referencesEmpty (supplied : Supplied memory arrays paramTypes)
    (empty : ReferencesEmpty paramTypes reply) (counted : index < getParamCount paramTypes) :
    ParamReturned memory final arrays paramTypes reply index := by
  unfold ParamReturned
  split
  · rename_i value
    obtain ⟨union, placed, loaded⟩ := prepared.value index counted value
    refine ⟨union, placed, ?_⟩
    rw [read_value_of_copied second counted value, read_value_of_copied first counted value, loaded]
  · rename_i notValue
    split
    · rename_i memref
      obtain ⟨bytes, size, offset, placed, sized, length, _⟩ := prepared.memref index counted memref
      have nothing : bytes.length = 0 := by rw [← replySize_eq placed, empty index counted memref]
      obtain ⟨address, given, pointed, _⟩ :=
        supplied.memrefs index counted (isMemref_of_isMemrefOut memref)
      refine ⟨bytes, address, placed, ?_, pointed, ?_, ?_⟩
      · rw [loadUInt32_size_of_copied second counted memref,
          loadUInt32_size_of_copied first counted memref, sized, ← length, UInt32.ofNat_toNat]
      · apply Memory.read_congr
        intro shift inside
        rw [paramAt, Pointer.advance_advance]
        have lower : ((paramSize * index : Nat) : Int) ≤ (paramSize * index : Nat) + shift := by omega
        have upper : ((paramSize * index : Nat) : Int) + shift < (paramSize * index : Nat) + paramSize := by
          simp only [paramSize]
          omega
        apply caller_kept prepared first second empty lower upper
        intro written
        rcases written with value | ⟨_, beyond⟩
        · exact notValue value
        · omega
      · rw [nothing, Memory.readThrough_zero, List.eq_nil_of_length_eq_zero nothing]
    · rename_i notMemref
      have unwritten : ∀ place : Int, ¬ (isValueOut (paramTypeGet paramTypes index) = true ∨
          (isMemrefOut (paramTypeGet paramTypes index) = true ∧ (paramSize * index : Nat) + 8 ≤ place)) := by
        intro place written
        rcases written with value | ⟨memref, _⟩
        · exact notValue value
        · exact notMemref memref
      constructor
      · apply Memory.read_congr
        intro shift inside
        rw [paramAt, Pointer.advance_advance]
        exact caller_kept prepared first second empty (by omega) (by omega) (unwritten _)
      · exact readPayload_unchanged supplied counted
          (fun place lower upper => caller_kept prepared first second empty lower upper (unwritten place))
          fun _ outside => outside_kept prepared first second outside

end Empty

/-- One iteration copies the value or the size, and what a reference of some size is answered
with goes to the object its pointer in the node points to. -/
theorem processSyncParam_writes {size : Nat}
    (sized : isMemrefOut (paramTypeGet paramTypes index) = true → Sized memory arrays.params index size)
    (completed : processSyncParam arrays paramTypes index memory = some after) :
    ∃ middle, Memory.Copied memory middle arrays.node arrays.params (outPlaces paramTypes 0 index) ∧
      (((isMemrefOut (paramTypeGet paramTypes index) = true → size = 0) ∧ after = middle) ∨
        (isMemrefOut (paramTypeGet paramTypes index) = true ∧ size ≠ 0 ∧
          ∃ pointer bytes, middle.loadPointer (paramAt arrays.node index) = some (some pointer) ∧
            middle.read (paramAt arrays.params index) size = some bytes ∧
            middle.write pointer bytes = some after)) := by
  obtain ⟨_, _, _, _, nodeParams, _⟩ := arrays.apart
  by_cases value : isValueOut (paramTypeGet paramTypes index) = true
  · rw [processSyncParam_value value] at completed
    have copied : Memory.Copied memory after arrays.node arrays.params (outPlaces paramTypes 0 index) :=
      (Memory.Copied.of_memcpy completed).congr fun place => (outPlaces_value value).symm
    have notMemref : isMemrefOut (paramTypeGet paramTypes index) = true → size = 0 := by
      intro memref
      rw [isValueOut_eq_false_of_isMemrefOut memref] at value
      contradiction
    exact ⟨after, copied, .inl ⟨notMemref, rfl⟩⟩
  · by_cases memref : isMemrefOut (paramTypeGet paramTypes index) = true
    · obtain ⟨word, middle, buffer, again, bytes, loaded, stored, pointed, reloaded, read, written⟩ :=
        (processSyncParam_memref memref).mp completed
      rw [loadUInt32_storeUInt32_apart (Ne.symm nodeParams) loaded stored] at reloaded
      cases reloaded
      rw [(sized memref).toNat_eq loaded] at read
      have bytesLength := Memory.length_of_read read
      refine ⟨middle, ?_, ?_⟩
      · apply (storeSize_copied loaded stored).congr
        intro place
        rw [outPlaces_memref memref]
        omega
      · by_cases nothing : size = 0
        · rw [List.eq_nil_of_length_eq_zero (bytesLength.trans nothing), Memory.writeThrough_nil] at written
          exact .inl ⟨fun _ => nothing, (Option.some.inj written).symm⟩
        · cases buffer with
          | none =>
              simp only [Memory.writeThrough, bytesLength, if_neg nothing, Option.bind_none] at written
              contradiction
          | some pointer =>
              rw [Memory.writeThrough_some] at written
              exact .inr ⟨memref, nothing, pointer, bytes, pointed, read, written⟩
    · rw [processSyncParam_skipped value memref] at completed
      cases completed
      exact ⟨memory, (Memory.Copied.none memory arrays.node arrays.params).congr fun place =>
          (iff_of_false id (outPlaces_skipped value memref)),
        .inl ⟨fun isMemref => absurd isMemref memref, rfl⟩⟩

/-- While `process_sync_call` runs, with `pointer` the object that reference `index` refers to:
after its iteration the object begins with the first byte of the receiver's pointer. -/
structure Processing (after state : Memory) (arrays : Arrays) (paramTypes : UInt32) (reply : Message)
    (index : Nat) (pointer : Pointer) (position : Nat) : Prop where
  params : ∀ query : Pointer, query.block = arrays.params.block → state.byteAt query = after.byteAt query
  pointers : ∀ other, isMemrefOut (paramTypeGet paramTypes other) = true →
    state.read (paramAt arrays.node other) 8 = after.read (paramAt arrays.node other) 8
  sized : index < position → Sized state arrays.node index (replySize reply index)
  delivered : index < position →
    state.byteAt pointer = after.byteAt (paramAt arrays.params index)

section Processing

variable {state next middle : Memory} {pointer target : Pointer} {bytes : List Byte} {position : Nat}

/-- The copy to the node, with the reference of the iteration if it has one. -/
theorem Processing.copied (prepared : Prepared memory after arrays paramTypes reply)
    (memref : isMemrefOut (paramTypeGet paramTypes index) = true)
    (held : Processing after state arrays paramTypes reply index pointer position)
    (reached : position < getParamCount paramTypes)
    (copied : Memory.Copied state middle arrays.node arrays.params (outPlaces paramTypes 0 position)) :
    (∀ query : Pointer, query.block = arrays.params.block →
        middle.byteAt query = after.byteAt query) ∧
      (∀ other, isMemrefOut (paramTypeGet paramTypes other) = true →
        middle.read (paramAt arrays.node other) 8 = after.read (paramAt arrays.node other) 8) ∧
      (index < position + 1 → Sized middle arrays.node index (replySize reply index)) := by
  obtain ⟨_, _, _, _, nodeParams, _⟩ := arrays.apart
  refine ⟨?_, ?_, ?_⟩
  · intro query inParams
    rw [copied.elsewhere (by rw [inParams]; exact Ne.symm nodeParams), held.params query inParams]
  · intro other otherMemref
    rw [← held.pointers other otherMemref]
    exact read_pointer_kept copied otherMemref
  · intro before
    by_cases now : index = position
    · subst now
      obtain ⟨word, loaded, length⟩ := (prepared.sized index reached memref).congr held.params
      exact ⟨word, (loadUInt32_size_copied copied memref).trans loaded, length⟩
    · obtain ⟨word, loaded, length⟩ := held.sized (by omega)
      exact ⟨word, (loadUInt32_size_kept copied now).trans loaded, length⟩

theorem processing_step (supplied : Supplied memory arrays paramTypes)
    (answers : Answers memory arrays paramTypes received reply)
    (prepared : Prepared memory after arrays paramTypes reply)
    (memref : isMemrefOut (paramTypeGet paramTypes index) = true)
    (nonempty : replySize reply index ≠ 0)
    (pointed : memory.loadPointer (paramAt arrays.caller index) = some (some pointer))
    (outside : arrays.Outside pointer)
    (last : ∀ other, index < other → other < getParamCount paramTypes →
      isMemrefOut (paramTypeGet paramTypes other) = true → replySize reply other = 0)
    (held : Processing after state arrays paramTypes reply index pointer position)
    (reached : position < getParamCount paramTypes)
    (step : processSyncParam arrays paramTypes position state = some next) :
    Processing after next arrays paramTypes reply index pointer (position + 1) := by
  have sized : isMemrefOut (paramTypeGet paramTypes position) = true →
      Sized state arrays.params position (replySize reply position) := fun isMemref =>
    (prepared.sized position reached isMemref).congr held.params
  simp only [Arrays.Outside, List.mem_cons, List.not_mem_nil, or_false, not_or] at outside
  obtain ⟨middle, copied, moved⟩ := processSyncParam_writes sized step
  obtain ⟨params, pointers, sizes⟩ := held.copied prepared memref reached copied
  rcases moved with ⟨nothing, rfl⟩ | ⟨isMemref, something, target, bytes, targeted, read, written⟩
  · refine ⟨params, pointers, sizes, ?_⟩
    intro before
    by_cases now : index = position
    · subst now
      exact absurd (nothing memref) nonempty
    · rw [copied.elsewhere outside.2.1]
      exact held.delivered (by omega)
  · have known := Nat.lt_of_lt_of_le reached (getParamCount_le paramTypes)
    rw [Memory.loadPointer_congr (pointers position isMemref), prepared.landed.loadPointer known] at targeted
    obtain ⟨object, given, apart⟩ := supplied.pointer answers reached isMemref something
    rw [given] at targeted
    cases targeted
    simp only [Arrays.Outside, List.mem_cons, List.not_mem_nil, or_false, not_or] at apart
    have frame : ∀ query : Pointer, query.block ≠ target.block →
        next.byteAt query = middle.byteAt query := by
      intro query different
      rw [Memory.byteAt_write written, if_neg fun inside => different inside.1]
    exact {
      params := by
        intro query inParams
        rw [frame query (by rw [inParams]; exact Ne.symm apart.2.2.2), params query inParams]
      pointers := by
        intro other otherMemref
        rw [← pointers other otherMemref]
        exact Memory.read_congr fun _ _ => frame _ (Ne.symm apart.2.1)
      sized := by
        intro before
        exact (sizes before).congr fun query inNode =>
          frame query (by rw [inNode]; exact Ne.symm apart.2.1)
      delivered := by
        -- A later reference is empty, so this is the iteration of the reference itself.
        intro before
        by_cases now : index = position
        · subst now
          rw [pointed] at given
          cases given
          rw [Memory.byteAt_write_read read written something]
          exact params _ rfl
        · exact absurd (last position (by omega) reached isMemref) something }

theorem processing_run {processed : Memory} (supplied : Supplied memory arrays paramTypes)
    (answers : Answers memory arrays paramTypes received reply)
    (prepared : Prepared memory after arrays paramTypes reply)
    (memref : isMemrefOut (paramTypeGet paramTypes index) = true)
    (nonempty : replySize reply index ≠ 0)
    (pointed : memory.loadPointer (paramAt arrays.caller index) = some (some pointer))
    (outside : arrays.Outside pointer)
    (last : ∀ other, index < other → other < getParamCount paramTypes →
      isMemrefOut (paramTypeGet paramTypes other) = true → replySize reply other = 0)
    (completed : forRange 0 (getParamCount paramTypes) (processSyncParam arrays paramTypes) after =
      some processed) :
    Processing after processed arrays paramTypes reply index pointer (getParamCount paramTypes) := by
  have start : Processing after after arrays paramTypes reply index pointer 0 :=
    ⟨fun _ _ => rfl, fun _ _ => rfl, fun before => absurd before (Nat.not_lt_zero index),
      fun before => absurd before (Nat.not_lt_zero index)⟩
  have reached := forRange_invariant
    (fun position state => Processing after state arrays paramTypes reply index pointer position)
    (fun position state next _ upper held step => processing_step supplied answers prepared memref
      nonempty pointed outside last held (by omega) step) start completed
  rwa [Nat.zero_add] at reached

end Processing

section Returning

variable {state next processed : Memory} {pointer query : Pointer} {size position : Nat}

/-- An iteration writes to the caller's array only, from its parameter on. -/
theorem returnParam_frame (completed : returnParam arrays paramTypes index memory = some after)
    (outside : query.block ≠ arrays.caller.block ∨
      query.offset < arrays.caller.offset + (paramSize * index : Nat)) :
    after.byteAt query = memory.byteAt query := by
  by_cases value : isValueOut (paramTypeGet paramTypes index) = true
  · rw [returnParam_value value] at completed
    obtain ⟨bytes, _, written⟩ := Memory.memcpy_eq_some.mp completed
    rw [Memory.byteAt_write written, if_neg]
    intro inside
    simp only [paramAt_block, paramAt_offset] at inside
    rcases outside with elsewhere | before
    · exact elsewhere inside.1
    · omega
  · by_cases memref : isMemrefOut (paramTypeGet paramTypes index) = true
    · obtain ⟨word, middle, buffer, again, bytes, _, stored, _, _, _, written⟩ :=
        (returnParam_memref memref).mp completed
      rw [Memory.byteAt_write written, if_neg, Memory.byteAt_write stored, if_neg]
      · intro inside
        simp only [memrefSizeAt_block, memrefSizeAt_offset] at inside
        rcases outside with elsewhere | before
        · exact elsewhere inside.1
        · omega
      · intro inside
        simp only [paramAt_block, paramAt_offset] at inside
        rcases outside with elsewhere | before
        · exact elsewhere inside.1
        · omega
    · rw [returnParam_skipped value memref] at completed
      cases completed
      rfl

/-- What is referred to is copied over the pointer. -/
theorem returnParam_pointer (memref : isMemrefOut (paramTypeGet paramTypes index) = true)
    (sized : Sized memory arrays.node index size) (nonempty : size ≠ 0)
    (pointed : memory.loadPointer (paramAt arrays.node index) = some (some pointer))
    (outside : pointer.block ≠ arrays.caller.block)
    (completed : returnParam arrays paramTypes index memory = some after) :
    after.byteAt (paramAt arrays.caller index) = memory.byteAt pointer := by
  obtain ⟨callerNode, _⟩ := arrays.apart
  obtain ⟨word, middle, buffer, again, bytes, loaded, stored, buffered, reloaded, read, written⟩ :=
    (returnParam_memref memref).mp completed
  rw [Memory.loadUInt32_storeUInt32 stored] at reloaded
  cases reloaded
  have pointerKept : middle.read (paramAt arrays.node index) 8 = memory.read (paramAt arrays.node index) 8 :=
    Memory.read_write_apart stored _ _ (.inl (Ne.symm callerNode))
  rw [Memory.loadPointer_congr pointerKept, pointed] at buffered
  cases buffered
  rw [Memory.readThrough_some, sized.toNat_eq loaded] at read
  rw [Memory.byteAt_write_read read written nonempty, Memory.byteAt_write stored,
    if_neg fun inside => outside inside.1]

/-- While the last loop of `ipc_client_request` runs: after its iteration the pointer of reference
`index` begins with the first byte of the object that `pointer` points to. -/
structure Overwriting (processed state : Memory) (arrays : Arrays) (index : Nat) (pointer : Pointer)
    (position : Nat) : Prop where
  elsewhere : ∀ query : Pointer, query.block ≠ arrays.caller.block →
    state.byteAt query = processed.byteAt query
  overwritten : index < position →
    state.byteAt (paramAt arrays.caller index) = processed.byteAt pointer

theorem overwriting_step (memref : isMemrefOut (paramTypeGet paramTypes index) = true)
    (sized : Sized processed arrays.node index size) (nonempty : size ≠ 0)
    (pointed : processed.loadPointer (paramAt arrays.node index) = some (some pointer))
    (outside : pointer.block ≠ arrays.caller.block)
    (held : Overwriting processed state arrays index pointer position)
    (step : returnParam arrays paramTypes position state = some next) :
    Overwriting processed next arrays index pointer (position + 1) := by
  obtain ⟨callerNode, _⟩ := arrays.apart
  exact {
    elsewhere := by
      intro query apart
      rw [returnParam_frame step (.inl apart), held.elsewhere query apart]
    overwritten := by
      intro before
      by_cases now : index = position
      · subst now
        have nodeKept : ∀ query : Pointer, query.block = arrays.node.block →
            state.byteAt query = processed.byteAt query := by
          intro query inNode
          exact held.elsewhere query (by rw [inNode]; exact Ne.symm callerNode)
        have pointerKept : state.read (paramAt arrays.node index) 8 =
            processed.read (paramAt arrays.node index) 8 :=
          Memory.read_congr fun _ _ => nodeKept _ rfl
        rw [← Memory.loadPointer_congr pointerKept] at pointed
        rw [returnParam_pointer memref (sized.congr nodeKept) nonempty pointed outside step,
          held.elsewhere pointer outside]
      · rw [returnParam_frame step (.inr _)]
        · exact held.overwritten (by omega)
        · simp only [paramAt_offset, paramSize]
          omega }

theorem overwriting_run (counted : index < getParamCount paramTypes)
    (memref : isMemrefOut (paramTypeGet paramTypes index) = true)
    (sized : Sized processed arrays.node index size) (nonempty : size ≠ 0)
    (pointed : processed.loadPointer (paramAt arrays.node index) = some (some pointer))
    (outside : pointer.block ≠ arrays.caller.block)
    (completed : forRange 0 (getParamCount paramTypes) (returnParam arrays paramTypes) processed =
      some final) :
    final.byteAt (paramAt arrays.caller index) = processed.byteAt pointer := by
  have start : Overwriting processed processed arrays index pointer 0 :=
    ⟨fun _ _ => rfl, fun before => absurd before (Nat.not_lt_zero index)⟩
  have reached := forRange_invariant
    (fun position state => Overwriting processed state arrays index pointer position)
    (fun _ _ _ _ _ held step => overwriting_step memref sized nonempty pointed outside held step)
    start completed
  exact reached.overwritten (by omega)

end Returning

/-- The last reference answered with bytes loses its pointer. -/
theorem empty_of_returned {processed : Memory} (supplied : Supplied memory arrays paramTypes)
    (answers : Answers memory arrays paramTypes received reply)
    (prepared : Prepared memory after arrays paramTypes reply)
    (processing : forRange 0 (getParamCount paramTypes) (processSyncParam arrays paramTypes) after =
      some processed)
    (returning : forRange 0 (getParamCount paramTypes) (returnParam arrays paramTypes) processed =
      some final)
    (counted : index < getParamCount paramTypes)
    (memref : isMemrefOut (paramTypeGet paramTypes index) = true)
    (returned : ParamReturned memory final arrays paramTypes reply index)
    (last : ∀ other, index < other → other < getParamCount paramTypes →
      isMemrefOut (paramTypeGet paramTypes other) = true → replySize reply other = 0) :
    replySize reply index = 0 := by
  by_contra nonempty
  obtain ⟨pointer, pointed, outside⟩ := supplied.pointer answers counted memref nonempty
  have known := Nat.lt_of_lt_of_le counted (getParamCount_le paramTypes)
  have delivered := processing_run supplied answers prepared memref nonempty pointed outside last processing
  have held : processed.loadPointer (paramAt arrays.node index) = some (some pointer) := by
    rw [Memory.loadPointer_congr (delivered.pointers index memref), prepared.landed.loadPointer known, pointed]
  have apart := outside
  simp only [Arrays.Outside, List.mem_cons, not_or] at apart
  have overwritten :=
    overwriting_run counted memref (delivered.sized counted) nonempty held apart.1 returning
  obtain ⟨bytes, size, offset, _, _, _, intoBuff, _⟩ := prepared.memref index counted memref
  have receivers := Memory.byteAt_of_loadPointer intoBuff (show 0 < 8 by decide)
  simp only [ParamReturned, isValueOut_eq_false_of_isMemrefOut memref, Bool.false_eq_true, if_false,
    if_pos memref] at returned
  obtain ⟨_, _, _, _, _, unchanged, _⟩ := returned
  rw [← Memory.loadPointer_congr unchanged] at pointed
  have callers := Memory.byteAt_of_loadPointer pointed (show 0 < 8 by decide)
  simp only [Int.natCast_zero, Pointer.advance_zero] at receivers callers
  rw [overwritten, delivered.delivered counted, receivers] at callers
  simp only [Option.some.injEq, Byte.fragment.injEq, and_true] at callers
  rw [← callers] at outside
  exact outside (by simp)

theorem synchronousOutputs_iff (supplied : Supplied memory arrays paramTypes)
    (answers : Answers memory arrays paramTypes received reply) :
    SynchronousOutputs memory arrays paramTypes received reply ↔ ReferencesEmpty paramTypes reply := by
  obtain ⟨stored, data, storing, receives, prepared⟩ := prepared_exists supplied answers
  have requested : synchronousRequest memory arrays paramTypes received = _ :=
    synchronousRequest_eq storing receives
  constructor
  · intro outputs index counted memref
    obtain ⟨final, completed, returned⟩ := outputs
    rw [requested] at completed
    obtain ⟨processed, processing, returning⟩ := Option.bind_eq_some_iff.mp completed
    -- From the last reference down, each is empty because all later ones are.
    induction remaining : getParamCount paramTypes - index using Nat.strong_induction_on
      generalizing index with
    | _ remaining ih =>
        apply empty_of_returned supplied answers prepared processing returning counted memref
          (returned index counted)
        intro other later otherCounted otherMemref
        exact ih (getParamCount paramTypes - other) (by omega) other otherCounted otherMemref rfl
  · intro empty
    obtain ⟨processed, final, processing, returning, first, second⟩ :=
      copied_of_referencesEmpty supplied.caller prepared empty
    refine ⟨final, ?_, ?_⟩
    · rw [requested, processing]
      exact returning
    · intro index counted
      exact returned_of_referencesEmpty prepared first second supplied empty counted

end Synchronous

end Dwadelib.Ipc.Client
