import Dwadelib.Ipc.Client.Output.Copy

namespace Dwadelib.Ipc.Client

/-! # The parameters of a callback -/

/-- No reference of the reply is copied from beyond the arrays, and the pointer of each nonempty
one is inside the bytes copied for it or for one before it. -/
def PointersCopied (paramTypes : UInt32) (reply : Message) : Prop :=
  (∀ index < getParamCount paramTypes, isMemrefOut (paramTypeGet paramTypes index) = true →
    paramSize * index + replySize reply index ≤ paramSize * numParams) ∧
  ∀ index < getParamCount paramTypes, isMemrefOut (paramTypeGet paramTypes index) = true →
    replySize reply index ≠ 0 →
    ∃ earlier ≤ index, isMemrefOut (paramTypeGet paramTypes earlier) = true ∧
      paramSize * index + 8 ≤ paramSize * earlier + replySize reply earlier

section Asynchronous

variable {memory final after : Memory} {arrays : Arrays} {paramTypes : UInt32} {received : Received}
  {reply : Message} {index : Nat}

/-- The mark of the request makes no difference to the copies. -/
theorem asynchronousRequest_eq {stored : Memory} {data : ConvertedData}
    (storing : storeParams memory arrays = some stored)
    (receives : receiveReply stored arrays received = some data) :
    asynchronousRequest memory arrays paramTypes received =
      forRange 0 (getParamCount paramTypes) (copyParamOut arrays.node arrays.params paramTypes)
        data.memory := by
  have counts : getParamCount (paramTypes ||| paramTypeCallback) = getParamCount paramTypes :=
    getParamCount_congr fun index known => paramTypeGet_callback known
  simp only [asynchronousRequest, storing, receives, bind, Option.bind_some, counts]
  apply forRange_congr
  intro index _ counted
  have bound := getParamCount_le paramTypes
  funext state
  simp only [processAsyncParam, copyParamOut, paramTypeGet_callback (by omega : index < numParams)]

theorem pointerStart_copied
    (copied : Memory.Copied after final arrays.node arrays.params (repliedPlaces paramTypes reply))
    (counted : index < getParamCount paramTypes)
    (memref : isMemrefOut (paramTypeGet paramTypes index) = true)
    (nonempty : replySize reply index ≠ 0) :
    final.byteAt (paramAt arrays.node index) = after.byteAt (paramAt arrays.params index) :=
  copied.inside _ ⟨index, counted, (outPlaces_memref memref).mpr (.inr ⟨Int.le_refl _, by omega⟩)⟩

theorem pointerEnd_kept (prepared : Prepared memory after arrays paramTypes reply)
    (copied : Memory.Copied after final arrays.node arrays.params (repliedPlaces paramTypes reply))
    (counted : index < getParamCount paramTypes)
    (memref : isMemrefOut (paramTypeGet paramTypes index) = true)
    (uncovered : ¬ ∃ earlier ≤ index, isMemrefOut (paramTypeGet paramTypes earlier) = true ∧
      paramSize * index + 8 ≤ paramSize * earlier + replySize reply earlier) :
    final.byteAt ((paramAt arrays.node index).advance (7 : Nat)) =
      memory.byteAt ((paramAt arrays.caller index).advance (7 : Nat)) := by
  have known := Nat.lt_of_lt_of_le counted (getParamCount_le paramTypes)
  have absent : ¬ repliedPlaces paramTypes reply ((paramSize * index : Nat) + (7 : Nat)) := by
    intro picked
    obtain ⟨other, _, picked⟩ := picked
    by_cases value : isValueOut (paramTypeGet paramTypes other) = true
    · rw [outPlaces_value value] at picked
      have same : other = index := by
        simp only [paramSize] at picked
        omega
      rw [same, isValueOut_eq_false_of_isMemrefOut memref] at value
      contradiction
    · by_cases other_memref : isMemrefOut (paramTypeGet paramTypes other) = true
      · rcases (outPlaces_memref other_memref).mp picked with size | pointed
        · simp only [paramSize, uint32Size] at size
          omega
        · simp only [paramSize] at pointed uncovered
          exact uncovered ⟨other, by omega, other_memref, by omega⟩
      · exact outPlaces_skipped value other_memref picked
  rw [paramAt, paramAt, Pointer.advance_advance, Pointer.advance_advance, copied.kept absent]
  apply prepared.node
  · omega
  · simp only [paramSize, numParams] at known ⊢
    omega

theorem pointersCopied_of_given (supplied : Supplied memory arrays paramTypes)
    (answers : Answers memory arrays paramTypes received reply)
    (prepared : Prepared memory after arrays paramTypes reply)
    (copied : Memory.Copied after final arrays.node arrays.params (repliedPlaces paramTypes reply))
    (readable : ∀ index < getParamCount paramTypes,
      isMemrefOut (paramTypeGet paramTypes index) = true →
      after.Valid (paramAt arrays.params index) (replySize reply index))
    (given : ∀ index < getParamCount paramTypes, ParamGiven final arrays paramTypes reply index) :
    PointersCopied paramTypes reply := by
  constructor
  · intro index counted memref
    have known := Nat.lt_of_lt_of_le counted (getParamCount_le paramTypes)
    by_contra beyond
    have there := readable index counted memref (paramSize * (numParams - index)) (by
      simp only [paramSize, numParams] at beyond known ⊢
      omega)
    have position : (paramAt arrays.params index).advance (paramSize * (numParams - index) : Nat) =
        arrays.params.advance (paramSize * numParams : Nat) := by
      rw [paramAt, Pointer.advance_advance]
      congr 1
      simp only [paramSize, numParams] at known ⊢
      omega
    rw [position, prepared.paramsEnd] at there
    contradiction
  · intro index counted memref nonempty
    by_contra uncovered
    obtain ⟨pointer, pointed, outside⟩ := supplied.pointer answers counted memref nonempty
    obtain ⟨bytes, size, offset, placed, _, _, intoBuff, _⟩ := prepared.memref index counted memref
    obtain ⟨held, address, heldPlaced, _, loaded, reads⟩ := (given index counted).2 memref
    rw [placed] at heldPlaced
    cases heldPlaced
    rw [replySize_eq placed] at nonempty
    cases address with
    | none =>
        simp only [Memory.readThrough, if_neg nonempty, Option.bind_none] at reads
        contradiction
    | some target =>
        -- The first byte is the receiver's, the last one still the caller's.
        have first := Memory.byteAt_of_loadPointer loaded (show 0 < 8 by decide)
        have last := Memory.byteAt_of_loadPointer loaded (show 7 < 8 by decide)
        have receivers := Memory.byteAt_of_loadPointer intoBuff (show 0 < 8 by decide)
        have callers := Memory.byteAt_of_loadPointer pointed (show 7 < 8 by decide)
        simp only [Int.natCast_zero, Pointer.advance_zero] at first receivers
        rw [pointerStart_copied copied counted memref (by rwa [replySize_eq placed]), receivers] at first
        rw [pointerEnd_kept prepared copied counted memref uncovered, callers] at last
        simp only [Option.some.injEq, Byte.fragment.injEq, and_true] at first last
        rw [last, ← first] at outside
        exact outside (by simp)

theorem given_of_pointersCopied (prepared : Prepared memory after arrays paramTypes reply)
    (caller : memory.Valid arrays.caller (paramSize * numParams))
    (copied : Memory.Copied after final arrays.node arrays.params (repliedPlaces paramTypes reply))
    (pointers : PointersCopied paramTypes reply) :
    ∀ index < getParamCount paramTypes, ParamGiven final arrays paramTypes reply index := by
  obtain ⟨_, _, _, nodeBuff, _⟩ := arrays.apart
  intro index counted
  have known := Nat.lt_of_lt_of_le counted (getParamCount_le paramTypes)
  constructor
  · intro value
    obtain ⟨union, placed, loaded⟩ := prepared.value index counted value
    exact ⟨union, placed, (read_value_of_copied copied counted value).trans loaded⟩
  · intro memref
    obtain ⟨bytes, size, offset, placed, sized, length, intoBuff, loaded⟩ :=
      prepared.memref index counted memref
    have sizeGiven : final.loadUInt32 (memrefSizeAt arrays.node index) =
        some (UInt32.ofNat bytes.length) := by
      rw [loadUInt32_size_of_copied copied counted memref, sized, ← length, UInt32.ofNat_toNat]
    by_cases empty : bytes.length = 0
    · have readable : ∀ place, repliedPlaces paramTypes reply place →
          (after.byteAt (arrays.params.advance place)).isSome := by
        intro place picked
        obtain ⟨lower, upper⟩ :=
          outPlacesBelow_inside (getParamCount_le paramTypes) pointers.1 picked
        exact prepared.params.place lower upper
      have whole := copied.valid readable (prepared.landed.node_valid caller)
      obtain ⟨address, held⟩ := (valid_pointer whole known).loadPointer_exists
      refine ⟨bytes, address, placed, sizeGiven, held, ?_⟩
      rw [empty, Memory.readThrough_zero, List.eq_nil_of_length_eq_zero empty]
    · obtain ⟨earlier, before, earlierMemref, covers⟩ :=
        pointers.2 index counted memref (by rwa [replySize_eq placed])
      have pointerGiven : final.read (paramAt arrays.node index) 8 =
          after.read (paramAt arrays.params index) 8 := by
        apply copied.read_inside
        intro shift inside
        refine ⟨earlier, by omega, ?_⟩
        rw [outPlaces_memref earlierMemref]
        simp only [paramSize] at covers ⊢
        omega
      refine ⟨bytes, some (arrays.buff.advance offset), placed, sizeGiven, ?_, ?_⟩
      · exact Memory.loadPointer_object.mpr (pointerGiven.trans (Memory.loadPointer_object.mp intoBuff))
      · rw [Memory.readThrough_some, ← loaded]
        exact copied.read_elsewhere (Ne.symm nodeBuff)

theorem asynchronousOutputs_iff (supplied : Supplied memory arrays paramTypes)
    (answers : Answers memory arrays paramTypes received reply) :
    AsynchronousOutputs memory arrays paramTypes received reply ↔ PointersCopied paramTypes reply := by
  obtain ⟨_, _, _, _, nodeParams, _⟩ := arrays.apart
  obtain ⟨stored, data, storing, receives, prepared⟩ := prepared_exists supplied answers
  have requested : asynchronousRequest memory arrays paramTypes received = _ :=
    asynchronousRequest_eq storing receives
  constructor
  · intro outputs
    obtain ⟨final, completed, given⟩ := outputs
    rw [requested] at completed
    obtain ⟨copied, readable⟩ :=
      copyParamsOut_copied (Ne.symm nodeParams) prepared.sized completed
    exact pointersCopied_of_given supplied answers prepared copied readable given
  · intro pointers
    obtain ⟨final, completed, copied⟩ := copyParamsOut_exists (Ne.symm nodeParams) prepared.params
      (prepared.landed.node_valid supplied.caller) (getParamCount_le paramTypes) prepared.sized pointers.1
      (fun _ _ _ _ _ _ => rfl)
    exact ⟨final, requested.trans completed,
      given_of_pointersCopied prepared supplied.caller copied pointers⟩

end Asynchronous

end Dwadelib.Ipc.Client
