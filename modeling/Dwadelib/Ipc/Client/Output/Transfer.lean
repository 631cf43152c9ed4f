import Dwadelib.Ipc.Client.Output.Synchronous
import Dwadelib.Ipc.Convert.Bounds

namespace Dwadelib.Ipc.Client

/-! # What a reply copies

The two loops that carry a reply back take the types from the request and the sizes from the
reply, and the array they read keeps what earlier messages left in it. Each iteration is
accounted for by what it uses of that array, the address it writes through, and how many
bytes it writes for a reference.
-/

structure Transfer where
  index : Nat
  used : List Extent
  through : Option (Option Pointer)
  written : Option Nat

/-- The byte is written through the address. -/
def Transfer.Reaches (transfer : Transfer) (query : Pointer) : Prop :=
  ∃ pointer count, transfer.through = some (some pointer) ∧ transfer.written = some count ∧
    query.block = pointer.block ∧ pointer.offset ≤ query.offset ∧
    query.offset < pointer.offset + (count : Nat)

/-- What one iteration of `process_sync_call` copies. -/
def processSyncTransfer (arrays : Arrays) (paramTypes : UInt32) (index : Nat) (memory : Memory) :
    List Transfer :=
  let paramType := paramTypeGet paramTypes index
  if isValueOut paramType then
    [{ index, used := [⟨(paramSize * index : Nat), paramSize⟩], through := none, written := none }]
  else if isMemrefOut paramType then
    match memory.loadUInt32 (memrefSizeAt arrays.params index) with
    | some size => [{
        index
        used := [⟨(paramSize * index : Nat) + 8, uint32Size⟩, ⟨(paramSize * index : Nat), size.toNat⟩]
        through := memory.loadPointer (paramAt arrays.node index)
        written := some size.toNat }]
    | none => []
  else
    []

/-- What one iteration of the last loop of `ipc_client_request` copies; it writes to the array
of the caller. -/
def returnTransfer (arrays : Arrays) (paramTypes : UInt32) (index : Nat) (memory : Memory) :
    List Transfer :=
  let paramType := paramTypeGet paramTypes index
  if isValueOut paramType then
    [{ index, used := [], through := none, written := none }]
  else if isMemrefOut paramType then
    match memory.loadUInt32 (memrefSizeAt arrays.node index) with
    | some size => [{ index, used := [], through := none, written := some size.toNat }]
    | none => []
  else
    []

/-- A waiting request is answered: the received message is decoded, `process_sync_call` copies
to the node, and `ipc_client_request` copies to the caller. -/
def synchronousAnswerTraced (memory : Memory) (arrays : Arrays) (paramTypes : UInt32)
    (received : Received) : Option (Memory × List Transfer) := do
  let count := getParamCount paramTypes
  let data ← receiveReply memory arrays received
  let (memory, processed) ← forRangeTraced 0 count (processSyncParam arrays paramTypes)
    (processSyncTransfer arrays paramTypes) data.memory
  let (memory, returned) ← forRangeTraced 0 count (returnParam arrays paramTypes)
    (returnTransfer arrays paramTypes) memory
  return (memory, processed ++ returned)

section Transfer

variable {memory stored state next final : Memory} {arrays : Arrays} {paramTypes : UInt32}
  {received : Received} {data : ConvertedData} {index : Nat} {transfers : List Transfer}

/-- A request is to store its parameters and to be answered. -/
theorem synchronousRequest_answer :
    synchronousRequest memory arrays paramTypes received =
      (storeParams memory arrays).bind fun stored =>
        (synchronousAnswerTraced stored arrays paramTypes received).map Prod.fst := by
  simp only [synchronousAnswerTraced, synchronousRequest, bind, pure, Option.map_bind,
    Function.comp_def]
  congr 1
  funext stored
  congr 1
  funext data
  have first : (forRangeTraced 0 (getParamCount paramTypes) (processSyncParam arrays paramTypes)
      (processSyncTransfer arrays paramTypes) data.memory).map Prod.fst = _ := forRangeTraced_fst
  rw [← first, Option.bind_map]
  congr 1
  funext processed
  have second : (forRangeTraced 0 (getParamCount paramTypes) (returnParam arrays paramTypes)
      (returnTransfer arrays paramTypes) processed.1).map Prod.fst = _ := forRangeTraced_fst
  rw [Function.comp_apply, ← second]
  cases forRangeTraced 0 (getParamCount paramTypes) (returnParam arrays paramTypes)
    (returnTransfer arrays paramTypes) processed.1 <;> rfl

theorem synchronousAnswerTraced_eq_some
    (arrived : receiveReply memory arrays received = some data) :
    synchronousAnswerTraced memory arrays paramTypes received = some (final, transfers) ↔
      ∃ processed first second,
        forRangeTraced 0 (getParamCount paramTypes) (processSyncParam arrays paramTypes)
          (processSyncTransfer arrays paramTypes) data.memory = some (processed, first) ∧
        forRangeTraced 0 (getParamCount paramTypes) (returnParam arrays paramTypes)
          (returnTransfer arrays paramTypes) processed = some (final, second) ∧
        transfers = first ++ second := by
  simp only [synchronousAnswerTraced, arrived, bind, pure, Option.bind_some,
    Option.bind_eq_some_iff, Option.some.injEq, Prod.mk.injEq]
  constructor
  · intro completed
    obtain ⟨⟨processed, first⟩, processing, ⟨_, second⟩, returning, rfl, rfl⟩ := completed
    exact ⟨processed, first, second, processing, returning, rfl⟩
  · intro completed
    obtain ⟨processed, first, second, processing, returning, rfl⟩ := completed
    exact ⟨(processed, first), processing, (final, second), returning, rfl, rfl⟩

theorem processSyncTransfer_value (value : isValueOut (paramTypeGet paramTypes index) = true) :
    processSyncTransfer arrays paramTypes index state =
      [⟨index, [⟨(paramSize * index : Nat), paramSize⟩], none, none⟩] := by
  simp only [processSyncTransfer, if_pos value]

theorem processSyncTransfer_memref {size : UInt32}
    (memref : isMemrefOut (paramTypeGet paramTypes index) = true)
    (sized : state.loadUInt32 (memrefSizeAt arrays.params index) = some size) :
    processSyncTransfer arrays paramTypes index state =
      [⟨index, [⟨(paramSize * index : Nat) + 8, uint32Size⟩, ⟨(paramSize * index : Nat), size.toNat⟩],
        state.loadPointer (paramAt arrays.node index), some size.toNat⟩] := by
  have notValue := isValueOut_eq_false_of_isMemrefOut memref
  simp only [processSyncTransfer, notValue, Bool.false_eq_true, if_false, if_pos memref, sized]

theorem processSyncTransfer_skipped
    (notValue : ¬ isValueOut (paramTypeGet paramTypes index) = true)
    (notMemref : ¬ isMemrefOut (paramTypeGet paramTypes index) = true) :
    processSyncTransfer arrays paramTypes index state = [] := by
  simp only [processSyncTransfer, if_neg notValue, if_neg notMemref]

theorem processSyncParam_readable (memref : isMemrefOut (paramTypeGet paramTypes index) = true)
    (step : processSyncParam arrays paramTypes index state = some next) :
    ∃ size, state.loadUInt32 (memrefSizeAt arrays.params index) = some size := by
  obtain ⟨size, _, _, _, _, sized, _⟩ := (processSyncParam_memref memref).mp step
  exact ⟨size, sized⟩

/-- The copy to the node uses what the account says. -/
theorem processSyncTransfer_node {place : Int}
    (readable : isMemrefOut (paramTypeGet paramTypes index) = true →
      ∃ size, state.loadUInt32 (memrefSizeAt arrays.params index) = some size)
    (picked : outPlaces paramTypes 0 index place) :
    ∃ transfer ∈ processSyncTransfer arrays paramTypes index state, ∃ extent ∈ transfer.used,
      ∃ shift < extent.count, place = extent.start + shift := by
  by_cases value : isValueOut (paramTypeGet paramTypes index) = true
  · rw [outPlaces_value value] at picked
    rw [processSyncTransfer_value value]
    exact ⟨_, List.mem_singleton_self _, _, List.mem_singleton_self _,
      (place - (paramSize * index : Nat)).toNat, by simp only; omega, by simp only; omega⟩
  · by_cases memref : isMemrefOut (paramTypeGet paramTypes index) = true
    · obtain ⟨size, sized⟩ := readable memref
      rw [outPlaces_memref memref] at picked
      rw [processSyncTransfer_memref memref sized]
      exact ⟨_, List.mem_singleton_self _, _, List.mem_cons_self,
        (place - ((paramSize * index : Nat) + 8)).toNat, by simp only; omega, by simp only; omega⟩
    · exact absurd picked (outPlaces_skipped value memref)

theorem copied_accounted {middle : Memory} {query : Pointer}
    (copied : Memory.Copied state middle arrays.node arrays.params (outPlaces paramTypes 0 index))
    (readable : isMemrefOut (paramTypeGet paramTypes index) = true →
      ∃ size, state.loadUInt32 (memrefSizeAt arrays.params index) = some size) :
    middle.byteAt query = state.byteAt query ∨
      ∃ transfer ∈ processSyncTransfer arrays paramTypes index state,
        (query.block = arrays.node.block ∨ transfer.Reaches query) ∧
        ∃ extent ∈ transfer.used, ∃ shift < extent.count,
          middle.byteAt query = state.byteAt (arrays.params.advance (extent.start + shift)) := by
  by_cases inside : query.block = arrays.node.block ∧
      outPlaces paramTypes 0 index (query.offset - arrays.node.offset)
  · obtain ⟨transfer, present, extent, inUsed, shift, within, place⟩ :=
      processSyncTransfer_node readable inside.2
    have here : query = arrays.node.advance (query.offset - arrays.node.offset) := by
      cases query
      simp only [Pointer.advance, Pointer.mk.injEq]
      exact ⟨inside.1, by omega⟩
    refine .inr ⟨transfer, present, .inl inside.1, extent, inUsed, shift, within, ?_⟩
    rw [here, copied.inside _ inside.2, place]
  · exact .inl (copied.outside query fun inNode picked => inside ⟨inNode, picked⟩)

/-- An iteration writes only to the node and through the address, and only bytes that it uses. -/
theorem processSync_accounted (step : processSyncParam arrays paramTypes index state = some next)
    (query : Pointer) :
    next.byteAt query = state.byteAt query ∨
      ∃ transfer ∈ processSyncTransfer arrays paramTypes index state,
        (query.block = arrays.node.block ∨ transfer.Reaches query) ∧
        ∃ extent ∈ transfer.used, ∃ shift < extent.count,
          next.byteAt query = state.byteAt (arrays.params.advance (extent.start + shift)) := by
  obtain ⟨_, _, _, _, nodeParams, _⟩ := arrays.apart
  have readable : isMemrefOut (paramTypeGet paramTypes index) = true →
      ∃ size, state.loadUInt32 (memrefSizeAt arrays.params index) = some size :=
    fun memref => processSyncParam_readable memref step
  obtain ⟨size, sized⟩ : ∃ size, isMemrefOut (paramTypeGet paramTypes index) = true →
      Sized state arrays.params index size := by
    by_cases memref : isMemrefOut (paramTypeGet paramTypes index) = true
    · obtain ⟨size, loaded⟩ := readable memref
      exact ⟨size.toNat, fun _ => ⟨size, loaded, rfl⟩⟩
    · exact ⟨0, fun isMemref => absurd isMemref memref⟩
  obtain ⟨middle, copied, moved⟩ := processSyncParam_writes sized step
  rcases moved with ⟨_, rfl⟩ | ⟨memref, _, pointer, bytes, pointed, read, written⟩
  · exact copied_accounted copied readable
  · have unwritten := Memory.byteAt_write written query
    have length := Memory.length_of_read read
    split at unwritten
    · rename_i inside
      obtain ⟨word, loaded, same⟩ := sized memref
      rw [Memory.loadPointer_congr (read_pointer_kept copied memref)] at pointed
      rw [processSyncTransfer_memref memref loaded, pointed]
      refine .inr ⟨_, List.mem_singleton_self _, .inr ⟨pointer, word.toNat, rfl, rfl, inside.1,
        inside.2.1, by omega⟩, _, List.mem_cons_of_mem _ List.mem_cons_self,
        (query.offset - pointer.offset).toNat, by simp only; omega, ?_⟩
      rw [unwritten, ← Memory.byteAt_of_read read (by omega), paramAt, Pointer.advance_advance]
      exact copied.elsewhere (Ne.symm nodeParams)
    · rw [unwritten]
      exact copied_accounted copied readable

/-- An iteration writes to its parameter of the caller only, or as far as it says. -/
theorem returnParam_accounted (step : returnParam arrays paramTypes index state = some next)
    (query : Pointer) :
    next.byteAt query = state.byteAt query ∨
      ∃ transfer ∈ returnTransfer arrays paramTypes index state, query.block = arrays.caller.block ∧
        arrays.caller.offset + (paramSize * index : Nat) ≤ query.offset ∧
        (query.offset < arrays.caller.offset + (paramSize * (index + 1) : Nat) ∨
          ∃ count, transfer.written = some count ∧
            query.offset < arrays.caller.offset + (paramSize * index : Nat) + (count : Nat)) := by
  by_cases value : isValueOut (paramTypeGet paramTypes index) = true
  · rw [returnParam_value value] at step
    obtain ⟨bytes, read, written⟩ := Memory.memcpy_eq_some.mp step
    have length := Memory.length_of_read read
    have unwritten := Memory.byteAt_write written query
    split at unwritten
    · rename_i inside
      simp only [paramAt_block, paramAt_offset, length, paramSize] at inside
      simp only [returnTransfer, if_pos value]
      refine .inr ⟨_, List.mem_singleton_self _, inside.1, ?_, .inl ?_⟩
      · simp only [paramSize]
        omega
      · simp only [paramSize]
        omega
    · exact .inl unwritten
  · by_cases memref : isMemrefOut (paramTypeGet paramTypes index) = true
    · obtain ⟨word, middle, buffer, again, bytes, loaded, stored, _, reloaded, read, written⟩ :=
        (returnParam_memref memref).mp step
      rw [Memory.loadUInt32_storeUInt32 stored] at reloaded
      cases reloaded
      have length := Memory.length_of_readThrough read
      have unwritten := Memory.byteAt_write written query
      have unstored := Memory.byteAt_write stored query
      simp only [returnTransfer, if_neg value, if_pos memref, loaded]
      split at unwritten
      · rename_i inside
        simp only [paramAt_block, paramAt_offset, length] at inside
        exact .inr ⟨_, List.mem_singleton_self _, inside.1, inside.2.1,
          .inr ⟨word.toNat, rfl, inside.2.2⟩⟩
      · split at unstored
        · rename_i inside
          simp only [memrefSizeAt_block, memrefSizeAt_offset, Byte.encodeUInt32_length] at inside
          refine .inr ⟨_, List.mem_singleton_self _, inside.1, by omega, .inl ?_⟩
          simp only [paramSize] at inside ⊢
          omega
        · exact .inl (unwritten.trans unstored)
    · rw [returnParam_skipped value memref] at step
      cases step
      exact .inl rfl

end Transfer

end Dwadelib.Ipc.Client
