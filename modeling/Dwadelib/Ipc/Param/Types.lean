import Dwadelib.Ipc.Param

namespace Dwadelib.Ipc

/-! # The type word of a declaration

`IPC_PARAM_TYPES` and its shorter forms give the first three types a nibble each and shift
the other three alike, so a declaration of more than four types loses some of them.
-/

/-- `IPC_PARAM_TYPES(t0, t1, t2, t3, t4, t5)` -/
def ipcParamTypes (t0 t1 t2 t3 t4 t5 : UInt32) : UInt32 :=
  t0 ||| (t1 <<< 4) ||| (t2 <<< 8) ||| (t3 <<< 12) ||| (t4 <<< 12) ||| (t5 <<< 12)

/-- `IPC_ONE_PARAM_TYPES(t0)` -/
def ipcOneParamTypes (t0 : UInt32) : UInt32 :=
  ipcParamTypes t0 paramTypeNone paramTypeNone paramTypeNone paramTypeNone paramTypeNone

/-- `IPC_TWO_PARAM_TYPES(t0, t1)` -/
def ipcTwoParamTypes (t0 t1 : UInt32) : UInt32 :=
  ipcParamTypes t0 t1 paramTypeNone paramTypeNone paramTypeNone paramTypeNone

/-- `IPC_THREE_PARAM_TYPES(t0, t1, t2)` -/
def ipcThreeParamTypes (t0 t1 t2 : UInt32) : UInt32 :=
  ipcParamTypes t0 t1 t2 paramTypeNone paramTypeNone paramTypeNone

/-- `IPC_FOUR_PARAM_TYPES(t0, t1, t2, t3)` -/
def ipcFourParamTypes (t0 t1 t2 t3 : UInt32) : UInt32 :=
  ipcParamTypes t0 t1 t2 t3 paramTypeNone paramTypeNone

/-- `IPC_FIVE_PARAM_TYPES(t0, t1, t2, t3, t4)` -/
def ipcFiveParamTypes (t0 t1 t2 t3 t4 : UInt32) : UInt32 :=
  ipcParamTypes t0 t1 t2 t3 t4 paramTypeNone

/-- The types of one to six parameters, each a value or a memory reference. -/
structure Declared where
  types : List UInt32
  assigned : ∀ paramType ∈ types, isValue paramType = true ∨ isMemref paramType = true
  nonempty : 0 < types.length
  most : types.length ≤ numParams

namespace Declared

variable (declared : Declared) {index : Nat}

/-- The macro for as many types as are declared. -/
def paramTypes : UInt32 :=
  match declared.types with
  | [t0] => ipcOneParamTypes t0
  | [t0, t1] => ipcTwoParamTypes t0 t1
  | [t0, t1, t2] => ipcThreeParamTypes t0 t1 t2
  | [t0, t1, t2, t3] => ipcFourParamTypes t0 t1 t2 t3
  | [t0, t1, t2, t3, t4] => ipcFiveParamTypes t0 t1 t2 t3 t4
  | [t0, t1, t2, t3, t4, t5] => ipcParamTypes t0 t1 t2 t3 t4 t5
  | _ => paramTypeNone

/-- The type at an index, `IPC_PARAM_TYPE_NONE` behind the last one. -/
def typeAt (index : Nat) : UInt32 := declared.types.getD index paramTypeNone

theorem paramTypes_eq :
    declared.paramTypes = ipcParamTypes (declared.typeAt 0) (declared.typeAt 1) (declared.typeAt 2)
      (declared.typeAt 3) (declared.typeAt 4) (declared.typeAt 5) := by
  obtain ⟨types, assigned, nonempty, most⟩ := declared
  rcases types with _ | ⟨t0, _ | ⟨t1, _ | ⟨t2, _ | ⟨t3, _ | ⟨t4, _ | ⟨t5, _ | ⟨t6, rest⟩⟩⟩⟩⟩⟩⟩
  · simp at nonempty
  · rfl
  · rfl
  · rfl
  · rfl
  · rfl
  · rfl
  · simp only [List.length_cons, numParams] at most
    omega

end Declared

/-- What `IPC_PARAM_TYPE_GET` may find under the macros. -/
def knownTypes : List UInt32 :=
  [paramTypeNone, paramTypeValueInput, paramTypeValueOutput, paramTypeValueInout,
    paramTypeMemrefInput, paramTypeMemrefOutput, paramTypeMemrefInout]

theorem mem_knownTypes {paramType : UInt32} :
    paramType ∈ knownTypes ↔
      paramType = paramTypeNone ∨ isValue paramType = true ∨ isMemref paramType = true := by
  simp [knownTypes, isValue, isMemref, or_assoc]

/-- A known type is one nibble, found where it was shifted to. -/
theorem paramTypeGet_shifted :
    ∀ paramType ∈ knownTypes, ∀ index < numParams,
      paramTypeGet paramType index = (if index = 0 then paramType else paramTypeNone) ∧
      paramTypeGet (paramType <<< 4) index = (if index = 1 then paramType else paramTypeNone) ∧
      paramTypeGet (paramType <<< 8) index = (if index = 2 then paramType else paramTypeNone) ∧
      paramTypeGet (paramType <<< 12) index = (if index = 3 then paramType else paramTypeNone) := by
  intro paramType known
  simp only [knownTypes, List.mem_cons, List.not_mem_nil, or_false] at known
  rcases known with rfl | rfl | rfl | rfl | rfl | rfl | rfl <;> decide

namespace Declared

variable (declared : Declared) {index : Nat}

theorem typeAt_known (index : Nat) : declared.typeAt index ∈ knownTypes := by
  rw [typeAt, List.getD_eq_getElem?_getD]
  cases found : declared.types[index]? with
  | none => exact mem_knownTypes.mpr (.inl rfl)
  | some paramType =>
      exact mem_knownTypes.mpr (.inr (declared.assigned paramType (List.mem_of_getElem? found)))

theorem typeAt_eq (inside : index < declared.types.length) :
    declared.types[index]? = some (declared.typeAt index) := by
  rw [typeAt, List.getD_eq_getElem?_getD, List.getElem?_eq_getElem inside]
  rfl

theorem typeAt_beyond (beyond : declared.types.length ≤ index) :
    declared.typeAt index = paramTypeNone := by
  rw [typeAt, List.getD_eq_getElem?_getD, List.getElem?_eq_none beyond]
  rfl

theorem typeAt_ne (inside : index < declared.types.length) :
    declared.typeAt index ≠ paramTypeNone := by
  have typed := declared.assigned (declared.typeAt index)
    (List.mem_of_getElem? (declared.typeAt_eq inside))
  intro none
  rw [none] at typed
  exact absurd typed (by decide)

/-- What the word says at an index: the three types behind the third are merged. -/
theorem paramTypeGet_paramTypes (known : index < numParams) :
    paramTypeGet declared.paramTypes index =
      if index < 3 then declared.typeAt index
      else if index = 3 then declared.typeAt 3 ||| declared.typeAt 4 ||| declared.typeAt 5
      else paramTypeNone := by
  obtain ⟨first, _⟩ := paramTypeGet_shifted _ (declared.typeAt_known 0) index known
  obtain ⟨_, second, _⟩ := paramTypeGet_shifted _ (declared.typeAt_known 1) index known
  obtain ⟨_, _, third, _⟩ := paramTypeGet_shifted _ (declared.typeAt_known 2) index known
  obtain ⟨_, _, _, fourth⟩ := paramTypeGet_shifted _ (declared.typeAt_known 3) index known
  obtain ⟨_, _, _, fifth⟩ := paramTypeGet_shifted _ (declared.typeAt_known 4) index known
  obtain ⟨_, _, _, sixth⟩ := paramTypeGet_shifted _ (declared.typeAt_known 5) index known
  rw [paramTypes_eq, ipcParamTypes]
  simp only [paramTypeGet_or, first, second, third, fourth, fifth, sixth, paramTypeNone]
  rcases (show index = 0 ∨ index = 1 ∨ index = 2 ∨ index = 3 ∨ 3 < index by omega) with
    rfl | rfl | rfl | rfl | later
  · simp
  · simp
  · simp
  · simp
  · simp [show index ≠ 0 by omega, show index ≠ 1 by omega, show index ≠ 2 by omega,
      show index ≠ 3 by omega, show ¬ index < 3 by omega]

/-- Up to four declared types are found where they were declared. -/
theorem paramTypeGet_declared (four : declared.types.length ≤ 4)
    (inside : index < declared.types.length) :
    paramTypeGet declared.paramTypes index = declared.typeAt index := by
  rw [declared.paramTypeGet_paramTypes (by simp only [numParams]; omega)]
  split
  · rfl
  · have last : index = 3 := by omega
    rw [if_pos last, declared.typeAt_beyond (by omega : _ ≤ 4), declared.typeAt_beyond (by omega : _ ≤ 5),
      last, paramTypeNone, UInt32.or_zero, UInt32.or_zero]

/-- At most four of the declared types are counted. -/
theorem getParamCount_paramTypes :
    getParamCount declared.paramTypes = min declared.types.length 4 := by
  apply getParamCount_eq
  · simp only [numParams]
    omega
  · intro index counted
    rw [declared.paramTypeGet_paramTypes (by simp only [numParams]; omega)]
    split
    · exact declared.typeAt_ne (by omega)
    · rw [if_pos (by omega)]
      intro merged
      obtain ⟨⟨fourth, _⟩, _⟩ : (declared.typeAt 3 = 0 ∧ declared.typeAt 4 = 0) ∧ declared.typeAt 5 = 0 := by
        rwa [paramTypeNone, UInt32.or_eq_zero_iff, UInt32.or_eq_zero_iff] at merged
      exact declared.typeAt_ne (by omega) fourth
  · intro known
    rw [declared.paramTypeGet_paramTypes known]
    split
    · exact declared.typeAt_beyond (by omega)
    · split
      · rw [declared.typeAt_beyond (by omega : _ ≤ 3), declared.typeAt_beyond (by omega : _ ≤ 4),
          declared.typeAt_beyond (by omega : _ ≤ 5)]
        rfl
      · rfl

end Declared

end Dwadelib.Ipc
