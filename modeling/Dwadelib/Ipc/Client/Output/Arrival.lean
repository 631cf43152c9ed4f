import Dwadelib.Ipc.Client.Output.Synchronous
import Dwadelib.Ipc.Client.Output.Asynchronous

namespace Dwadelib.Ipc.Client

/-! # When output parameters arrive -/

section OneReference

/-- A request with one `IPC_PARAM_TYPE_MEMREF_OUTPUT` of four bytes. -/
def oneReference : UInt32 := paramTypeMemrefOutput

def fourArrays : Arrays where
  caller := ⟨0, 0⟩
  node := ⟨1, 0⟩
  buff := ⟨2, 0⟩
  params := ⟨3, 0⟩
  distinct := by decide

def referenceToFour : List Byte :=
  Byte.encodePointer ⟨4, 0⟩ ++ Byte.encodeUInt32 4 ++ List.replicate 84 .undefined

def referenceMemory : Memory where
  blocks := [some referenceToFour, some (List.replicate 96 .undefined),
    some (List.replicate buffMaxNum (.octet 0)), some (List.replicate 96 .undefined),
    some (List.replicate 4 .undefined)]

def fourBytes : List Byte := [.octet 1, .octet 2, .octet 3, .octet 4]

def fourBytesReply : Message := ⟨cmdRequestInit ||| cmdRespond, oneReference, [.memref fourBytes]⟩

def fourBytesReceived : Received :=
  .bytes [1, 1, 0, 0, 6, 0, 0, 0, 4, 0, 0, 0, 1, 2, 3, 4]

theorem valid_of_block {memory : Memory} {block : Nat} {content : List Byte}
    (live : memory.blocks[block]? = some (some content)) {count : Nat} (length : content.length = count) :
    memory.Valid ⟨block, 0⟩ count :=
  length ▸ Memory.Valid.of_read (Memory.object_of_block live).read_all

theorem supplied_oneReference : Supplied referenceMemory fourArrays oneReference where
  caller := valid_of_block rfl (by decide)
  node := valid_of_block rfl (by decide)
  params := valid_of_block rfl (by decide)
  paramsEnd := by decide
  buff := ⟨_, Memory.object_of_block rfl, List.length_replicate⟩
  memrefs := by
    intro index counted _
    have first : index = 0 := by
      have count : getParamCount oneReference = 1 := by decide
      omega
    subst first
    exact ⟨some ⟨4, 0⟩, 4, by decide, by decide, fun _ =>
      ⟨⟨4, 0⟩, rfl, valid_of_block rfl (by decide),
        show _ ∉ _ by decide⟩⟩

theorem answers_oneReference :
    Answers referenceMemory fourArrays oneReference fourBytesReceived fourBytesReply where
  decoded := by decide
  whole := by decide
  types := by decide
  fits := by
    intro index counted _ size sized
    have first : index = 0 := by
      have count : getParamCount oneReference = 1 := by decide
      omega
    subst first
    have four : referenceMemory.loadUInt32 (memrefSizeAt fourArrays.caller 0) = some 4 := by decide
    cases four.symm.trans sized
    decide

end OneReference

end Dwadelib.Ipc.Client
