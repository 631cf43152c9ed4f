import Dwadelib.Ipc.System.Serving
import Dwadelib.Ipc.Client.Output.Synchronous
import Dwadelib.Simulation

namespace Dwadelib.Ipc.System

open Client (Delivery)

/-! # A client that makes one synchronous request after another

Here both programs run as they are, from the parameters in the memory of the caller to the server
and back. The answer, if there is one, comes while the caller waits; the other orders are those of
`System`.
-/

/-- The bytes of a message as `recv` returns them; what was never written has no value. -/
def octetsOf : List Byte → Option (List UInt8)
  | [] => some []
  | .octet octet :: bytes => (octetsOf bytes).map (octet :: ·)
  | _ :: _ => none

/-- Every byte has been written, and not as part of a pointer. -/
def Octets (bytes : List Byte) : Prop := ∀ byte ∈ bytes, ∃ octet, byte = .octet octet

/-- A call of `ipc_client_request` without a callback, and how the calls on its way turn out. -/
structure Request where
  memory : Memory
  arrays : Client.Arrays
  cmdId : UInt32
  paramTypes : UInt32
  nodeAllocated : Bool
  frameAllocated : Bool
  sending : Sending
  environment : Server.Environment

namespace Request

/-- What the parameters say. -/
def message (request : Request) : Option Message :=
  readMessage request.memory request.cmdId request.arrays.caller request.paramTypes

/-- `ipc_client_request` up to `ipc_send_data`: the bytes on the wire, or nothing where it returns 1. -/
def send (request : Request) : Option (Memory × Option (List Byte)) :=
  if request.nodeAllocated then do
    let (memory, converted) ← Client.ipcConvertParam request.memory request.cmdId request.arrays.caller
      request.paramTypes request.frameAllocated
    match converted with
    | none => return (memory, none)
    | some (buff, size) =>
        if size = 0 then
          return (memory, none)
        else
          let bytes ← memory.read buff size.toNat
          let (status, wire) := ipcSendData bytes request.sending
          if status = 1 then
            let memory ← memory.free buff
            return (memory, none)
          else
            return (memory, some wire)
  else
    some (request.memory, none)

/-- The server accepts the connection: what it sends back, if anything. -/
def serve (request : Request) (server : Server.State) (wire : List Byte) :
    Option (Server.State × Option (List UInt8)) := do
  let octets ← octetsOf wire
  let served := Server.startReceive server (.bytes (octets.take buffMaxNum)) request.environment
  if served.running then
    match served.replies.drop server.replies.length with
    | [] => return (served, none)
    | reply :: _ =>
        let octets ← octetsOf reply
        return (served, some (octets.take buffMaxNum))
  else
    none

/-- Every call up to the sending of the frame succeeds. -/
def sends (request : Request) : Bool :=
  request.nodeAllocated && request.frameAllocated && request.sending.socketOpened &&
    request.sending.addressParsed && request.sending.connected && request.sending.sent.isSome

end Request

structure Session where
  client : Client.State
  server : Server.State

namespace Session

def start (isNull : Bool) : Session := { client := Client.initial isNull, server := Server.initial }

/-- The events of a caller up to its wait. -/
def waits (client : Client.State) (request : Request) : List Client.Event :=
  [.begin .request request.cmdId none, .send client.calls.length, .link client.calls.length,
    .wait client.calls.length]

/-- One request from its call to its return: what it returns, and the memory of the caller. There is
no step after an undefined access. -/
def step (session : Session) (request : Request) : Option (Session × Int × Memory) := do
  let id := session.client.calls.length
  let (memory, sent) ← request.send
  match sent with
  | none =>
      let client ← Run.run Client.step session.client [.begin .request request.cmdId none, .fail id]
      return ({ session with client }, 1, memory)
  | some wire =>
      let (server, answer) ← request.serve session.server wire
      let stored ← Client.storeParams memory request.arrays
      match answer with
      | none =>
          let client ← Run.run Client.step session.client (waits session.client request ++ [.timeout id])
          return ({ client, server }, 1, stored)
      | some octets =>
          let data ← Client.receiveReply stored request.arrays (.bytes octets)
          let delivery := { cmdId := data.cmdId, origin := id }
          let client ← Run.run Client.step session.client
            (waits session.client request ++ [.receive delivery, .search, .dispatch, .finish id])
          let memory ← Client.synchronousRequest memory request.arrays request.paramTypes (.bytes octets)
          return ({ client, server }, 0, memory)

end Session

/-- A request with readable parameters that fit the buffer of the receiver. What is sent is sent whole, also by the
server. -/
structure Request.Posed (request : Request) (message : Message) : Prop where
  supplied : Client.Supplied request.memory request.arrays request.paramTypes
  said : request.message = some message
  fits : message.encodedSize ≤ buffMaxNum
  octets : Octets message.frame
  command : ∃ number, request.cmdId = cmdRequest number
  synchronous : ¬ request.paramTypes &&& paramTypeCallback > 0
  whole : ∀ count, request.sending.sent = some count → message.encodedSize ≤ count
  answers : request.environment.sends = true
  answerWhole : ∀ count, request.environment.sending.sent = some count → message.encodedSize ≤ count

/-- Neither an output nor the second parameter refers to any bytes. -/
def Request.Plain (request : Request) (message : Message) : Prop :=
  ∀ index bytes, message.payloads[index]? = some (.memref bytes) →
    index = 1 ∨ isMemrefOut (paramTypeGet request.paramTypes index) = true → bytes = []

/-- A request that is sent returns 0 with the outputs of its answer; one that is not returns 1 and changes nothing. -/
def Request.Right (request : Request) (result : Int × Memory) : Prop :=
  if request.sends then
    result.1 = 0 ∧ ∃ message reply, request.message = some message ∧ Server.answered message = some reply ∧
      ∀ index < getParamCount request.paramTypes,
        Client.ParamReturned request.memory result.2 request.arrays request.paramTypes reply index
  else result.1 = 1 ∧ request.memory.Extends result.2

/-- The message of a request, where it is sent. -/
def Request.asked (request : Request) : Option Message := if request.sends then request.message else none

section Octets

variable {bytes : List Byte} {octets : List UInt8}

theorem octetsOf_exists (written : Octets bytes) :
    ∃ octets, octetsOf bytes = some octets ∧ bytes = octets.map .octet := by
  induction bytes with
  | nil => exact ⟨[], rfl, rfl⟩
  | cons byte bytes ih =>
      obtain ⟨octet, rfl⟩ := written byte List.mem_cons_self
      obtain ⟨octets, found, same⟩ := ih fun byte member => written byte (List.mem_cons_of_mem _ member)
      exact ⟨octet :: octets, by rw [octetsOf, found, Option.map_some], by rw [same, List.map_cons]⟩

end Octets

/-- No call waits, and the receiver waits for a connection. -/
structure Idle (client : Client.State) : Prop where
  defined : client.undefined = false
  receiver : client.receiver = .idle
  responses : client.responseCallbackList = []

section Threads

variable {client : Client.State} {cmdId : UInt32} {delivery : Delivery}

theorem failed_run (cmdId : UInt32) (idle : Idle client) :
    ∃ after, Run.run Client.step client [.begin .request cmdId none, .fail client.calls.length] = some after ∧
      Idle after := by
  obtain ⟨calls, responses, registers, receiver, callbackNode, handed, undefined⟩ := client
  obtain ⟨rfl, rfl, rfl⟩ := idle
  let call : Client.Call := { kind := .request, cmdId, callback := none, phase := .returned 1, live := false }
  refine ⟨⟨calls ++ [call], [], registers, .idle, callbackNode, handed, false⟩, ?_, rfl, rfl, rfl⟩
  simp [Run.run, Client.step, Client.State.at_, Client.State.setCall, call]

/-- The only node in the list is found by its id and unlinked, and its caller woken. -/
theorem answered_run (idle : Idle client) (respond : delivery.isRespond = true) (searched : delivery.searched = cmdId) :
    ∃ after, Run.run Client.step client [.begin .request cmdId none, .send client.calls.length,
        .link client.calls.length, .wait client.calls.length, .receive delivery, .search, .dispatch,
        .finish client.calls.length] = some after ∧ Idle after := by
  obtain ⟨calls, responses, registers, receiver, callbackNode, handed, undefined⟩ := client
  obtain ⟨rfl, rfl, rfl⟩ := idle
  let call : Client.Call := { kind := .request, cmdId, callback := none, phase := .returned 0, live := true }
  refine ⟨⟨calls ++ [call], [], registers, .idle, .node calls.length, handed ++ [⟨calls.length, delivery⟩], false⟩,
    ?_, rfl, rfl, rfl⟩
  simp [Run.run, Client.step, Client.State.at_, Client.State.setCall, Client.State.link, listAddTail,
    Client.State.wait, Client.State.search, Client.State.listFor, respond, searchList, Client.State.cmdIdOf, searched,
    listDelete, Client.State.dispatch, Client.State.processSyncCall, Client.State.finish, call]

/-- An id of a request has the bits of the kind of a message free. -/
theorem cmdRequest_getElem (number : UInt32) (position : Nat) (inside : position < 32) (low : position < 8) :
    (cmdRequest number).toBitVec[position] = false := by
  have shifted : (cmdRequest number).toBitVec = number.toBitVec <<< 8 := rfl
  simp only [shifted, BitVec.getElem_shiftLeft, low, decide_true, Bool.not_true, Bool.false_and]

theorem cmdRequest_and {number mask : UInt32}
    (low : ∀ position : Fin 32, 8 ≤ position.val → mask.toBitVec[position] = false) :
    cmdRequest number &&& mask = 0 := by
  apply UInt32.toBitVec_inj.mp
  ext position inside
  rw [UInt32.toBitVec_and, BitVec.getElem_and]
  by_cases small : position < 8
  · rw [cmdRequest_getElem number position inside small, Bool.false_and, UInt32.toBitVec_zero, BitVec.getElem_zero]
  · have free : mask.toBitVec[position] = false := low ⟨position, inside⟩ (Nat.not_lt.mp small)
    rw [free, Bool.and_false, UInt32.toBitVec_zero, BitVec.getElem_zero]

theorem handlerOf_cmdRequest (number : UInt32) : Server.handlerOf (cmdRequest number) = .processCommandCall := by
  rw [Server.handlerOf, cmdRequest_and (by decide)]
  rfl

theorem isRespond_cmdRequest (number : UInt32) (origin : Nat) :
    Delivery.isRespond { cmdId := cmdRequest number ||| cmdRespond, origin } = true := by
  have kept : (cmdRequest number ||| cmdRespond) &&& cmdRespond = cmdRespond := by
    apply UInt32.toBitVec_inj.mp
    ext position
    simp only [UInt32.toBitVec_and, UInt32.toBitVec_or, BitVec.getElem_and, BitVec.getElem_or]
    cases cmdRespond.toBitVec[position] <;> simp
  rw [Delivery.isRespond, kept]
  rfl

theorem searched_cmdRequest (number : UInt32) (origin : Nat) :
    Delivery.searched { cmdId := cmdRequest number ||| cmdRespond, origin } = cmdRequest number := by
  rw [Delivery.searched, if_pos (isRespond_cmdRequest number origin)]
  have masked : ∀ position : Fin 32, cmdRespondMask.toBitVec[position] = decide (8 ≤ position.val) := by decide
  have marked : ∀ position : Fin 32, 8 ≤ position.val → cmdRespond.toBitVec[position] = false := by decide
  apply UInt32.toBitVec_inj.mp
  ext position inside
  have mask := masked ⟨position, inside⟩
  have mark := marked ⟨position, inside⟩
  simp only [Fin.getElem_fin] at mask mark
  rw [UInt32.toBitVec_and, UInt32.toBitVec_or, BitVec.getElem_and, BitVec.getElem_or, mask]
  by_cases small : position < 8
  · rw [cmdRequest_getElem number position inside small]
    simp [small]
  · have high : 8 ≤ position := by omega
    simp [mark high, high]

end Threads

end Dwadelib.Ipc.System
