import Dwadelib.Memory.Word

namespace Dwadelib.Ipc

/-! # Commands and parameters of the IPC protocol

The constants of `ipc_common.h` and `ipc_comm_command.h`, and the object layout of
`ipc_param_t`: a union of sixteen bytes whose `memref` view has the pointer at offset 0
and the size at offset 8, and whose `value` view has `a` at offset 0 and `b` at offset 4.
-/

def cmdRespondMask : UInt32 := 0xFFFFFF00
def cmdUnsoliciteMask : UInt32 := 0xFE
def cmdRespond : UInt32 := 0x1
def cmdUnsolicite : UInt32 := 0x2
def cmdInitUnsolicite : UInt32 := 0x4

/-- `n << IPC_CMD_RESPOND_BIT_NUM`, the form of a request command. -/
def cmdRequest (number : UInt32) : UInt32 := number <<< 8

def cmdRequestInit : UInt32 := cmdRequest 1
def cmdRequestOpen : UInt32 := cmdRequest 2
def cmdRequestClose : UInt32 := cmdRequest 3

def paramTypeNone : UInt32 := 0
def paramTypeValueInput : UInt32 := 1
def paramTypeValueOutput : UInt32 := 2
def paramTypeValueInout : UInt32 := 3
def paramTypeMemrefInput : UInt32 := 5
def paramTypeMemrefOutput : UInt32 := 6
def paramTypeMemrefInout : UInt32 := 7
def paramTypeCallback : UInt32 := 0x80000000

def numParams : Nat := 6

/-- `sizeof(ipc_param_t)` -/
def paramSize : Nat := 16

/-- `sizeof(uint32_t)` -/
def uint32Size : Nat := 4

/-- `BUFF_MAX_NUM` -/
def buffMaxNum : Nat := 4096

/-- `IPC_PARAM_TYPE_GET(t, i)` -/
def paramTypeGet (paramTypes : UInt32) (index : Nat) : UInt32 :=
  (paramTypes >>> UInt32.ofNat (index * 4)) &&& 0xF

/-- The test of the codec for the three value types. -/
def isValue (paramType : UInt32) : Bool :=
  paramType == paramTypeValueInput || paramType == paramTypeValueOutput ||
    paramType == paramTypeValueInout

/-- The test of the codec for the three memory reference types. -/
def isMemref (paramType : UInt32) : Bool :=
  paramType == paramTypeMemrefInput || paramType == paramTypeMemrefOutput ||
    paramType == paramTypeMemrefInout

/-- The test of the copy loops for the value types that travel back. -/
def isValueOut (paramType : UInt32) : Bool :=
  paramType == paramTypeValueOutput || paramType == paramTypeValueInout

/-- The test of the copy loops for the memory reference types that travel back. -/
def isMemrefOut (paramType : UInt32) : Bool :=
  paramType == paramTypeMemrefOutput || paramType == paramTypeMemrefInout

theorem isValue_of_isValueOut {paramType : UInt32} (out : isValueOut paramType = true) :
    isValue paramType = true := by
  simp only [isValueOut, isValue, Bool.or_eq_true] at out ⊢
  rcases out with output | inout
  · exact .inl (.inr output)
  · exact .inr inout

theorem isMemref_of_isMemrefOut {paramType : UInt32} (out : isMemrefOut paramType = true) :
    isMemref paramType = true := by
  simp only [isMemrefOut, isMemref, Bool.or_eq_true] at out ⊢
  rcases out with output | inout
  · exact .inl (.inr output)
  · exact .inr inout

theorem isValue_eq_false_of_isMemref {paramType : UInt32} (memref : isMemref paramType = true) :
    isValue paramType = false := by
  simp only [isMemref, Bool.or_eq_true, beq_iff_eq] at memref
  rcases memref with (input | output) | inout
  · subst input; decide
  · subst output; decide
  · subst inout; decide

theorem isValueOut_eq_false_of_isMemrefOut {paramType : UInt32} (memref : isMemrefOut paramType = true) :
    isValueOut paramType = false := by
  simp only [isMemrefOut, Bool.or_eq_true, beq_iff_eq] at memref
  rcases memref with output | inout
  · subst output; decide
  · subst inout; decide

/-- `get_param_count`: the number of parameters before the first `IPC_PARAM_TYPE_NONE`. -/
def getParamCount (paramTypes : UInt32) : Nat :=
  ((List.range numParams).takeWhile fun index => paramTypeGet paramTypes index != paramTypeNone).length

theorem getParamCount_le (paramTypes : UInt32) : getParamCount paramTypes ≤ numParams := by
  have bound := (List.takeWhile_prefix (l := List.range numParams) fun index =>
    paramTypeGet paramTypes index != paramTypeNone).length_le
  simpa only [getParamCount, List.length_range] using bound

theorem getParamCount_congr {paramTypes other : UInt32}
    (same : ∀ index < numParams, paramTypeGet paramTypes index = paramTypeGet other index) :
    getParamCount paramTypes = getParamCount other := by
  have known : List.range numParams = [0, 1, 2, 3, 4, 5] := rfl
  simp only [getParamCount, known, List.takeWhile_cons, List.takeWhile_nil, same 0 (by decide),
    same 1 (by decide), same 2 (by decide), same 3 (by decide), same 4 (by decide), same 5 (by decide)]

/-- The count is where the types end. -/
theorem getParamCount_eq {paramTypes : UInt32} {count : Nat} (most : count ≤ numParams)
    (typed : ∀ index < count, paramTypeGet paramTypes index ≠ paramTypeNone)
    (ends : count < numParams → paramTypeGet paramTypes count = paramTypeNone) :
    getParamCount paramTypes = count := by
  have split : List.range numParams = List.range' 0 count ++ List.range' count (numParams - count) := by
    have whole : List.range' 0 count ++ List.range' (0 + count) (numParams - count) =
        List.range' 0 (count + (numParams - count)) := List.range'_append_1
    rw [Nat.zero_add, Nat.add_sub_cancel' most] at whole
    rw [List.range_eq_range', whole]
  have before : ∀ index ∈ List.range' 0 count,
      (paramTypeGet paramTypes index != paramTypeNone) = true := by
    intro index member
    simpa using typed index (by simpa using member)
  have behind : (List.range' count (numParams - count)).takeWhile
      (fun index => paramTypeGet paramTypes index != paramTypeNone) = [] := by
    cases left : numParams - count with
    | zero => rfl
    | succ more => simp [List.range'_succ, ends (by omega)]
  rw [getParamCount, split, List.takeWhile_append_of_pos before, behind, List.append_nil,
    List.length_range']

theorem paramTypeGet_or (paramTypes others : UInt32) (index : Nat) :
    paramTypeGet (paramTypes ||| others) index =
      paramTypeGet paramTypes index ||| paramTypeGet others index := by
  simp only [paramTypeGet, UInt32.shiftRight_or]
  apply UInt32.toBitVec_inj.mp
  ext position
  simp only [UInt32.toBitVec_and, UInt32.toBitVec_or, BitVec.getElem_and, BitVec.getElem_or,
    Bool.and_or_distrib_right]

/-- The mark of an asynchronous request is beyond the types of the six parameters. -/
theorem paramTypeGet_callback {paramTypes : UInt32} {index : Nat} (known : index < numParams) :
    paramTypeGet (paramTypes ||| paramTypeCallback) index = paramTypeGet paramTypes index := by
  have unmarked : ∀ index < numParams, paramTypeGet paramTypeCallback index = 0 := by decide
  rw [paramTypeGet_or, unmarked index known, UInt32.or_zero]

/-- `&params[index]` -/
def paramAt (params : Pointer) (index : Nat) : Pointer := params.advance (paramSize * index : Nat)

/-- `&params[index].memref.size` -/
def memrefSizeAt (params : Pointer) (index : Nat) : Pointer := (paramAt params index).advance 8

@[simp] theorem paramAt_block (params : Pointer) (index : Nat) :
    (paramAt params index).block = params.block := rfl

@[simp] theorem paramAt_offset (params : Pointer) (index : Nat) :
    (paramAt params index).offset = params.offset + (paramSize * index : Nat) := rfl

@[simp] theorem memrefSizeAt_block (params : Pointer) (index : Nat) :
    (memrefSizeAt params index).block = params.block := rfl

@[simp] theorem memrefSizeAt_offset (params : Pointer) (index : Nat) :
    (memrefSizeAt params index).offset = params.offset + (paramSize * index : Nat) + 8 := rfl

theorem valid_param {memory : Memory} {params : Pointer} {index : Nat}
    (valid : memory.Valid params (paramSize * numParams)) (known : index < numParams) :
    memory.Valid (paramAt params index) paramSize :=
  valid.sub (by simp only [paramSize, numParams] at known ⊢; omega)

theorem valid_pointer {memory : Memory} {params : Pointer} {index : Nat}
    (valid : memory.Valid params (paramSize * numParams)) (known : index < numParams) :
    memory.Valid (paramAt params index) 8 :=
  valid.sub (by simp only [paramSize, numParams] at known ⊢; omega)

end Dwadelib.Ipc
