import Dwadelib.Ipc.CallbackList
import Dwadelib.Ipc.Convert
import Dwadelib.Ipc.Transport

namespace Dwadelib.Ipc.Server

/-! # The server

`ipc_server.c` and `ipc_server_command.c`. Every function is a function on the state; `none`
is an access C leaves undefined. The traces `dispatched` and `replies` record what the
command handlers were given and what went out to the client.
-/

/-- `ipc_callback_node_t`, without the fields the server never sets or reads. -/
structure Node where
  cmdId : UInt32
  params : List Byte
  paramTypes : UInt32
  live : Bool
deriving DecidableEq, Repr

/-- The two functions `start_receive` hands a message to. -/
inductive Handler where
  | processRegister
  | processCommandCall
deriving DecidableEq, Repr

/-- One call of a handler; the payloads are `none` when the parameters are not readable. -/
structure Dispatch where
  handler : Handler
  cmdId : UInt32
  paramTypes : UInt32
  payloads : Option (List Payload)
deriving DecidableEq, Repr

structure State where
  memory : Memory
  nodes : List Node
  responseCallbackList : List Nat
  registerCallbackList : List Nat
  dispatched : List Dispatch
  replies : List (List Byte)
  running : Bool
deriving DecidableEq, Repr

/-- What the allocator and the sockets do while one message is handled. -/
structure Environment where
  nodeAllocated : Bool
  replyAllocated : Bool
  sending : Sending
deriving DecidableEq, Repr

/-- `static char buff[BUFF_MAX_NUM]` -/
def buff : Pointer := { block := 0, offset := 0 }

/-- The array `params` of `start_receive`. -/
def params : Pointer := { block := 1, offset := 0 }

/-- The state in which `start_receive` begins: a zeroed buffer and uninitialised parameters. -/
def initial : State where
  memory := ⟨[some (List.replicate buffMaxNum (.octet 0)),
    some (List.replicate (paramSize * numParams) .undefined)]⟩
  nodes := []
  responseCallbackList := []
  registerCallbackList := []
  dispatched := []
  replies := []
  running := true

namespace State

/-- The id of a node that is not freed. -/
def cmdIdOf (state : State) (id : Nat) : Option UInt32 :=
  state.nodes[id]?.bind fun node => if node.live then some node.cmdId else none

/-- `free(callback_node)`: nothing for `NULL`, undefined unless it points to a live node. -/
def freeNode (state : State) : NodePointer → Option State
  | .null => some state
  | .wild => none
  | .node id =>
      if (state.cmdIdOf id).isSome then
        some { state with nodes := state.nodes.modify id fun node => { node with live := false } }
      else none

variable {next : State} {other : Nat}

theorem cmdIdOf_append (state : State) (node : Node) (nodes : next.nodes = state.nodes ++ [node]) :
    next.cmdIdOf other = if other = state.nodes.length then
      (if node.live then some node.cmdId else none) else state.cmdIdOf other := by
  simp only [cmdIdOf, nodes]
  by_cases newest : other = state.nodes.length
  · rw [if_pos newest, newest, List.getElem?_append_right (Nat.le_refl _), Nat.sub_self]
    rfl
  · rw [if_neg newest]
    by_cases older : other < state.nodes.length
    · rw [List.getElem?_append_left older]
    · rw [List.getElem?_eq_none (by rw [List.length_append, List.length_singleton]; omega),
        List.getElem?_eq_none (by omega)]

theorem cmdIdOf_release (state : State) (id : Nat)
    (nodes : next.nodes = state.nodes.modify id fun node => { node with live := false }) :
    next.cmdIdOf other = if other = id then none else state.cmdIdOf other := by
  simp only [cmdIdOf, nodes]
  by_cases same : other = id
  · rw [if_pos same, same, List.getElem?_modify_eq]
    cases state.nodes[id]? <;> rfl
  · rw [if_neg same, List.getElem?_modify_ne _ _ (Ne.symm same)]

theorem lt_of_cmdIdOf {state : State} {id : Nat} (live : (state.cmdIdOf id).isSome) : id < state.nodes.length := by
  by_cases inside : id < state.nodes.length
  · exact inside
  · simp [cmdIdOf, List.getElem?_eq_none (by omega : state.nodes.length ≤ id)] at live

end State

/-- What the three answering functions do before they look at a list: encode and send. The
buffer is `none` where they return 1. -/
structure Answer where
  memory : Memory
  buff : Option Pointer
  wire : List Byte

def convertAndSend (memory : Memory) (cmdId : UInt32) (params : Pointer) (paramTypes : UInt32)
    (environment : Environment) : Option Answer := do
  let (memory, result) ← ipcConvertParam memory cmdId params paramTypes environment.replyAllocated
  match result with
  | none => return { memory, buff := none, wire := [] }
  | some (buff, size) =>
      if size = 0 then
        return { memory, buff := none, wire := [] }
      else
        let bytes ← memory.read buff size.toNat
        let (status, wire) := ipcSendData bytes environment.sending
        if status = 1 then
          return { memory, buff := none, wire }
        else
          return { memory, buff := some buff, wire }

/-- `ipc_server_respond_call`; a buffer that was not sent is not freed. -/
def ipcServerRespondCall (state : State) (cmdId : UInt32) (params : Pointer) (paramTypes : UInt32)
    (environment : Environment) : Option (State × Int) := do
  let answer ← convertAndSend state.memory cmdId params paramTypes environment
  match answer.buff with
  | none => return ({ state with memory := answer.memory }, 1)
  | some buff =>
      let memory ← answer.memory.free buff
      return ({ state with memory, replies := state.replies ++ [answer.wire] }, 0)

/-- `ipc_server_respond_async_call`. `callbackNode` is the value its uninitialised variable
happens to have; the loop body may never assign it. -/
def ipcServerRespondAsyncCall (state : State) (cmdId : UInt32) (params : Pointer)
    (paramTypes : UInt32) (environment : Environment) (callbackNode : NodePointer) :
    Option (State × Int) := do
  let answer ← convertAndSend state.memory cmdId params paramTypes environment
  match answer.buff with
  | none => return ({ state with memory := answer.memory }, 1)
  | some buff =>
      let sent := { state with memory := answer.memory, replies := state.replies ++ [answer.wire] }
      let (callbackNode, found) ←
        searchList sent.cmdIdOf cmdId sent.responseCallbackList callbackNode
      let responseCallbackList ←
        match found, callbackNode with
        | true, .node id => listDelete sent.cmdIdOf sent.responseCallbackList id
        | _, _ => some sent.responseCallbackList
      let unlinked := { sent with responseCallbackList }
      let freed ← unlinked.freeNode callbackNode
      let memory ← freed.memory.free buff
      return ({ freed with memory }, 0)

/-- `ipc_server_respond_register`. `callbackNode` is the value its uninitialised variable happens
to have; what follows the test of it is the text of `ipc_server_respond_call`. -/
def ipcServerRespondRegister (state : State) (cmdId : UInt32) (params : Pointer)
    (paramTypes : UInt32) (environment : Environment) (callbackNode : NodePointer) :
    Option (State × Int) := do
  let (callbackNode, _) ← searchList state.cmdIdOf cmdId state.registerCallbackList callbackNode
  if callbackNode = .null then
    return (state, 1)
  else
    ipcServerRespondCall state cmdId params paramTypes environment

/-- `process_sync_command`: a fixed answer in the second parameter, sent if `isSync`. -/
def processSyncCommand (state : State) (cmdId : UInt32) (params : Pointer) (paramTypes : UInt32)
    (isSync : Bool) (environment : Environment) : Option State := do
  let memory ← state.memory.storeUInt32 (paramAt params 1) 80
  let memory ← memory.storeUInt32 ((paramAt params 1).advance 4) 90
  let state := { state with memory }
  if isSync then
    let (state, _) ← ipcServerRespondCall state (cmdId ||| cmdRespond) params paramTypes environment
    return state
  else
    return state

/-- The node the two recording functions build, at the end of `nodes`. -/
def recordNode (state : State) (cmdId : UInt32) (params : Pointer) (paramTypes : UInt32) :
    Option (State × Nat) := do
  let copied ← state.memory.read params (paramSize * numParams)
  let node := { cmdId, params := copied, paramTypes, live := true }
  return ({ state with nodes := state.nodes ++ [node] }, state.nodes.length)

/-- `process_async_command` -/
def processAsyncCommand (state : State) (cmdId : UInt32) (params : Pointer) (paramTypes : UInt32)
    (environment : Environment) : Option State :=
  if environment.nodeAllocated then do
    let (state, id) ← recordNode state cmdId params paramTypes
    let responseCallbackList ← listAddTail state.cmdIdOf state.responseCallbackList id
    processSyncCommand { state with responseCallbackList } cmdId params paramTypes false environment
  else
    some state

/-- `process_command_call` -/
def processCommandCall (state : State) (cmdId : UInt32) (params : Pointer) (paramTypes : UInt32)
    (environment : Environment) : Option State :=
  if paramTypes &&& paramTypeCallback > 0 then
    processAsyncCommand state cmdId params paramTypes environment
  else
    processSyncCommand state cmdId params paramTypes true environment

/-- `process_register`; `process_register_call` only logs. -/
def processRegister (state : State) (cmdId : UInt32) (params : Pointer) (paramTypes : UInt32)
    (environment : Environment) : Option State :=
  if environment.nodeAllocated then do
    let (state, id) ← recordNode state cmdId params paramTypes
    let registerCallbackList ← listAddTail state.cmdIdOf state.registerCallbackList id
    return { state with registerCallbackList }
  else
    some state

def handlerOf (cmdId : UInt32) : Handler :=
  if cmdId &&& cmdUnsoliciteMask > 0 then .processRegister else .processCommandCall

def Handler.call : Handler → State → UInt32 → Pointer → UInt32 → Environment → Option State
  | processRegister => Server.processRegister
  | processCommandCall => Server.processCommandCall

/-- The body of the loop of `start_receive` after a successful `accept`. The server stops
running at the first undefined access. -/
def startReceive (state : State) (received : Received) (environment : Environment) : State :=
  let converted := (recv state.memory buff received).bind fun (memory, n) =>
    ipcConvertData memory buff n params
  match converted with
  | none => { state with running := false }
  | some data =>
      if data.status = 0 then
        let handler := handlerOf data.cmdId
        let payloads := readPayloads data.memory params data.paramTypes 0 (getParamCount data.paramTypes)
        let dispatch := { handler, cmdId := data.cmdId, paramTypes := data.paramTypes, payloads }
        let handed := { state with memory := data.memory, dispatched := state.dispatched ++ [dispatch] }
        (handler.call handed data.cmdId params data.paramTypes environment).getD
          { handed with running := false }
      else
        { state with memory := data.memory }

end Dwadelib.Ipc.Server
