import Dwadelib.CInt
import Dwadelib.Memory.Loop
import Dwadelib.Ipc.Message
import Mathlib.Tactic.Ring

namespace Dwadelib.Ipc

/-! # The codec

`ipc_convert_param` and `ipc_convert_data`. The two files that hold them are the same
text up to their log lines, so each side names the one definition.
-/

/-- One iteration of the size pass. -/
def addParamSize (memory : Memory) (params : Pointer) (paramTypes : UInt32) (index : Nat)
    (size : Int) : Option Int :=
  let paramType := paramTypeGet paramTypes index
  if isValue paramType then
    some (CInt.convert (size + paramSize))
  else if isMemref paramType then do
    let memrefSize ← memory.loadUInt32 (memrefSizeAt params index)
    return CInt.convert (size + (uint32Size + memrefSize.toNat))
  else
    some size

/-- A copying loop: the memory, and the `int pos` it advances. -/
structure Cursor where
  memory : Memory
  pos : Int

/-- One iteration of the copy pass. -/
def copyParam (buff params : Pointer) (paramTypes : UInt32) (index : Nat) (cursor : Cursor) :
    Option Cursor :=
  let paramType := paramTypeGet paramTypes index
  if isValue paramType then do
    let memory ← cursor.memory.memcpy (buff.advance cursor.pos) (paramAt params index) paramSize
    return { memory, pos := CInt.convert (cursor.pos + paramSize) }
  else if isMemref paramType then do
    let memory ← cursor.memory.memcpy (buff.advance cursor.pos) (memrefSizeAt params index) uint32Size
    let pos := CInt.convert (cursor.pos + uint32Size)
    let memrefSize ← memory.loadUInt32 (memrefSizeAt params index)
    let address ← memory.loadPointer (paramAt params index)
    let bytes ← memory.readThrough address memrefSize.toNat
    let memory ← memory.write (buff.advance pos) bytes
    return { memory, pos := CInt.convert (pos + memrefSize.toNat) }
  else
    some cursor

/-- `ipc_convert_param(cmd_id, params, param_types, &out_size)`. The result is the buffer
and `*out_size`, or `NULL` when `malloc` fails, as it must for a negative size. -/
def ipcConvertParam (memory : Memory) (cmdId : UInt32) (params : Pointer) (paramTypes : UInt32)
    (mallocSucceeds : Bool) : Option (Memory × Option (Pointer × Int)) := do
  let count := getParamCount paramTypes
  let size ← forRange 0 count (addParamSize memory params paramTypes) (uint32Size + uint32Size : Nat)
  if mallocSucceeds && decide (0 ≤ size) then
    let (buff, memory) := memory.malloc size.toNat
    let memory ← memory.write buff (Byte.encodeUInt32 cmdId)
    let memory ← memory.write (buff.advance uint32Size) (Byte.encodeUInt32 paramTypes)
    let filled ← forRange 0 count (copyParam buff params paramTypes)
      { memory, pos := (uint32Size + uint32Size : Nat) }
    return (filled.memory, some (buff, size))
  else
    return (memory, none)

/-- One iteration of the decoding loop. -/
def decodeParam (buff params : Pointer) (paramTypes : UInt32) (index : Nat) (cursor : Cursor) :
    Option Cursor :=
  let paramType := paramTypeGet paramTypes index
  if isValue paramType then do
    let memory ← cursor.memory.memcpy (paramAt params index) (buff.advance cursor.pos) paramSize
    return { memory, pos := CInt.convert (cursor.pos + paramSize) }
  else if isMemref paramType then do
    let memory ← cursor.memory.memcpy (memrefSizeAt params index) (buff.advance cursor.pos) uint32Size
    let pos := CInt.convert (cursor.pos + uint32Size)
    let memory ← memory.storePointer (paramAt params index) (buff.advance pos)
    let memrefSize ← memory.loadUInt32 (memrefSizeAt params index)
    return { memory, pos := CInt.convert (pos + memrefSize.toNat) }
  else
    some cursor

/-- What `ipc_convert_data` leaves in its output parameters, and its final `pos`. -/
structure ConvertedData where
  status : Int
  cmdId : UInt32
  paramTypes : UInt32
  memory : Memory
  pos : Int

/-- `ipc_convert_data(buff, size, &cmd_id, params, &param_types)`; `size` is not looked at. -/
def ipcConvertData (memory : Memory) (buff : Pointer) (_size : Int) (params : Pointer) :
    Option ConvertedData := do
  let cmdId ← memory.loadUInt32 buff
  let paramTypes ← memory.loadUInt32 (buff.advance uint32Size)
  let decoded ← forRange 0 (getParamCount paramTypes) (decodeParam buff params paramTypes)
    { memory, pos := (uint32Size + uint32Size : Nat) }
  return { status := 0, cmdId, paramTypes, memory := decoded.memory, pos := decoded.pos }

namespace Client

def ipcConvertParam := Ipc.ipcConvertParam
def ipcConvertData := Ipc.ipcConvertData

end Client

namespace Server

def ipcConvertParam := Ipc.ipcConvertParam
def ipcConvertData := Ipc.ipcConvertData

end Server

end Dwadelib.Ipc
